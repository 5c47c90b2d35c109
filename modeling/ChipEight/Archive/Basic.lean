import ChipEight.Archive.Deflate
import ChipEight.Archive.Entry
import ChipEight.Archive.Path

/-!
# Archive/Basic — the members of an archive

Sizes and methods come from the directory, names from the members themselves.  A member's contents
are unpacked only when they are asked for, so a broken member does no harm to the others.
-/

namespace ChipEight

/-- A file or directory in an archive, under its resolved name. -/
structure Member where
  name : String
  isDirectory : Bool
  contents : Except ArchiveError (List UInt8)

/-- The members of an archive, each name once, in the order in which the names came up. -/
abbrev Archive := List Member

namespace Archive

/-- The file of a name. -/
def file? (a : Archive) (name : String) : Option Member :=
  a.find? fun m => m.name = name && !m.isDirectory

/-! ## Reading members -/

/-- The bytes of a member from its packed ones. -/
def unpack (deflated : Bool) (size : Int) (packed : List UInt8) :
    Except ArchiveError (List UInt8) :=
  if size = 0 then .ok []
  else
    let bytes := if deflated then Deflate.inflate packed else packed
    if (bytes.length : Int) = size then .ok bytes else .error .sizeMismatch

/-- Bytes as text.  Names are ASCII. -/
def textOf (bs : List UInt8) : String := String.ofList (bs.map fun b => Char.ofNat b.toNat)

/-- The member an entry points to, under its resolved name.  It is a directory if it is marked as
one or if its name ends like one. -/
def member (e : Entry) : Scan Member := do
  Scan.seek e.location.position
  Scan.signature memberSignature
  Scan.skip 22
  let nameLength ← Scan.short
  let extraLength ← Scan.short
  let written ← Scan.bytes nameLength
  Scan.skip extraLength
  if e.location.packedSize = -1 ∨ e.location.size = -1 then throw .sizeUnknown
  if e.method ≠ [0, 0] ∧ e.method ≠ [8, 0] then
    throw (.unknownMethod e.method (textOf written))
  let packed ← Scan.bytes e.location.packedSize
  let name := textOf (← e.finalName written)
  return {
    name := Path.resolve name
    isDirectory := e.isDirectory || Path.isDirectory name
    contents := unpack (e.method = [8, 0]) e.location.size packed }

/-! ## Collecting members -/

/-- Puts a member in the place of one of the same name, or behind the others. -/
def put (m : Member) : Archive → Archive
  | [] => [m]
  | n :: a => if n.name = m.name then m :: a else n :: put m a

/-- Adds what an entry points to.  Permissions can make a directory too, but one that is a directory
by its permissions only is taken for a file, and a file of its name has to be there then. -/
def add (a : Archive) (e : Entry) (m : Member) : Except ArchiveError Archive :=
  let isDirectory := m.isDirectory || e.permitsDirectory
  let name := if isDirectory then Path.asDirectory m.name else m.name
  let a := put { m with name, isDirectory } a
  if m.isDirectory || (a.file? m.name).isSome then .ok a else .error .fileNotKept

/-- Adds what the entries point to, one after the other. -/
def addAll (a : Archive) : List (Entry × Member) → Except ArchiveError Archive
  | [] => .ok a
  | (e, m) :: rest => do addAll (← a.add e m) rest

/-- **Reading an archive.** -/
def scan : Scan Archive := do
  let record ← EndRecord.scan
  Scan.seek record.directory
  let entries ← Entry.scanAll (← get).data.size
  if entries.isEmpty ∧ record.entries ≠ 0 then throw (.recordsMissing record.entries)
  let members ← entries.mapM member
  addAll [] (entries.zip members)

def read (data : List UInt8) : Except ArchiveError Archive := Scan.within data scan

end Archive

end ChipEight
