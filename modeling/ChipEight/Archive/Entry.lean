import ChipEight.Archive.Checksum
import ChipEight.Archive.EndRecord

/-!
# Archive/Entry — the directory of an archive

The directory says of each member where it is, how large it is and how it is packed.  Entries have
extra fields.  One of them gives the sizes and the place where the entry's own fields are too small
for them; two others give a member's name and its comment once more, in an alphabet that is always
the same.
-/

namespace ChipEight.Archive

/-- Where a member is, and how many bytes it has, unpacked and packed. -/
structure Location where
  position : Int
  size : Int
  packedSize : Int

/-! ## Extra fields -/

/-- Extra fields in order, each with its tag. -/
abbrev ExtraFields := List (Int × List UInt8)

namespace ExtraFields

/-- The extra fields up to an end.  Each is a tag, a length and as many bytes, and all of them have
to lie within the data. -/
def scan (stop : Int) : Nat → Scan ExtraFields
  | 0 => do
    Scan.seek stop
    return []
  | fuel + 1 => do
    if (← get).position + 4 < stop then
      let tag ← Scan.short
      let value ← Scan.bytes (← Scan.short)
      return (tag, value) :: (← scan stop fuel)
    else
      Scan.seek stop
      return []

/-- The last field of a tag. -/
def get? (fields : ExtraFields) (tag : Int) : Option (List UInt8) := fields.reverse.lookup tag

/-- The tag of the field with sizes and a place of eight bytes. -/
def wideTag : Int := 0x0001

/-- The tag of the field with a name. -/
def nameTag : Int := 0x7075

/-- The tag of the field with a comment. -/
def commentTag : Int := 0x6375

/-- The value of a field, read from elsewhere if all bits of the field are set. -/
def orWide (value : Int) : Scan Int := if value = -1 then Scan.wide else return value

/-- A location with the values that an entry's own fields are too small for. -/
def widen (fields : ExtraFields) (l : Location) : Except ArchiveError Location :=
  match fields.get? wideTag with
  | none => .ok l
  | some bs => Scan.within bs do
    let size ← orWide l.size
    let packedSize ← orWide l.packedSize
    let position ← orWide l.position
    return { position, size, packedSize }

/-- What an extra field gives in the place of some bytes: a version and the checksum of those bytes
stand before it, and it counts only if both are right. -/
def replacement (bs field : List UInt8) : Except ArchiveError (Option (List UInt8)) :=
  Scan.within field do
    if (← Scan.bytes 1) ≠ [1] then return none
    if Scan.valueOf (← Scan.bytes 4) ≠ (Checksum.ofBytes bs).toNat then return none
    return some (field.drop 5)

/-- The bytes that an extra field of some tag has in the place of others. -/
def replaced (fields : ExtraFields) (tag : Int) (bs : List UInt8) :
    Except ArchiveError (List UInt8) :=
  match fields.get? tag with
  | none => .ok bs
  | some field => do return (← replacement bs field).getD bs

end ExtraFields

/-! ## Entries -/

/-- What the directory says about a member. -/
structure Entry where
  method : List UInt8
  location : Location
  /-- Is the entry marked as a directory? -/
  isDirectory : Bool
  /-- Do its permissions show a directory? -/
  permitsDirectory : Bool
  /-- Are the name and the comment final, whatever the extra fields say? -/
  hasFinalNames : Bool
  comment : List UInt8
  extraFields : ExtraFields

namespace Entry

/-- The name of a member that has this one written at its start.  The comment is replaced along
with it, and a broken field of either is an error. -/
def finalName (e : Entry) (written : List UInt8) : Except ArchiveError (List UInt8) :=
  if e.hasFinalNames then .ok written
  else do
    let name ← e.extraFields.replaced ExtraFields.nameTag written
    let _comment ← e.extraFields.replaced ExtraFields.commentTag e.comment
    return name

/-- The maker whose attributes hold file permissions in their upper half. -/
def permissionMaker : Int := 3

/-- An entry behind its signature. -/
def scan : Scan Entry := do
  let maker := (← Scan.short) / 0x100
  Scan.skip 2
  let flags ← Scan.short
  let method ← Scan.bytes 2
  let _date ← Scan.long
  let _checksum ← Scan.long
  let packedSize ← Scan.long
  let size ← Scan.long
  let nameLength ← Scan.short
  let extraLength ← Scan.short
  let commentLength ← Scan.short
  let _disk ← Scan.short
  let _internal ← Scan.short
  let attributes ← Scan.long
  let position ← Scan.long
  if flags % 2 = 1 then throw .encrypted
  Scan.skip nameLength
  let stop := (← get).position + extraLength
  let extraFields ← ExtraFields.scan stop (extraLength.toNat / 4)
  let location ← extraFields.widen { position, size, packedSize }
  let comment ← Scan.bytes commentLength
  return {
    method, location, comment, extraFields
    isDirectory := attributes / 0x10 % 2 = 1
    permitsDirectory := maker = permissionMaker && attributes / 0x40000000 % 2 = 1
    hasFinalNames := flags / 0x800 % 2 = 1 }

/-- The entries from here on, as long as they are signed as such. -/
def scanAll : Nat → Scan (List Entry)
  | 0 => return []
  | fuel + 1 => do
    if (← Scan.bytes 4) = directorySignature then
      let e ← scan
      return e :: (← scanAll fuel)
    else return []

end Entry

end ChipEight.Archive
