import ChipEight.Archive.Scan

/-!
# Archive/EndRecord — where the directory of an archive is

An archive ends with a record that says where its directory is.  Where a field of that record is
too small for its value, all its bits are set; then a locator says where a wide end record is,
which has the values.  Other data may stand before the archive: if the end record lies later than
the directory's place and size say, all positions shift by the difference.
-/

namespace ChipEight.Archive

def memberSignature : List UInt8 := [0x50, 0x4B, 0x03, 0x04]

def directorySignature : List UInt8 := [0x50, 0x4B, 0x01, 0x02]

def endSignature : List UInt8 := [0x50, 0x4B, 0x05, 0x06]

def locatorSignature : List UInt8 := [0x50, 0x4B, 0x06, 0x07]

def wideEndSignature : List UInt8 := [0x50, 0x4B, 0x06, 0x06]

/-- The last position of a signature. -/
def findLast (signature : List UInt8) (data : Array UInt8) : Option Nat :=
  (List.range (data.size - 3)).reverse.find? fun i =>
    (data.extract i (i + 4)).toList = signature

/-- What an end record says: the number of directory entries, and the directory's size and place. -/
structure EndRecord where
  entries : Int
  size : Int
  directory : Int

namespace EndRecord

/-- The end record behind its signature, and whether a field is too small for its value. -/
def narrow : Scan (EndRecord × Bool) := do
  let disk ← Scan.short
  let firstDisk ← Scan.short
  let entriesOnDisk ← Scan.short
  let entries ← Scan.short
  let size ← Scan.long
  let directory ← Scan.long
  Scan.skip (← Scan.short)
  let overflow :=
    [disk, firstDisk, entriesOnDisk, entries].contains 0xFFFF || [size, directory].contains (-1)
  return ({ entries, size, directory }, overflow)

/-- The place of the wide end record, as its locator gives it. -/
def located : Scan Int := do
  match findLast locatorSignature (← get).data with
  | none => throw .noWideLocator
  | some position =>
    Scan.seek (position + 4)
    let _disk ← Scan.long
    let place ← Scan.wide
    let disks ← Scan.long
    if 1 < disks then throw .multipleVolumes
    return place

/-- Goes behind the signature of the wide end record: the one at a place, or else the last one. -/
def seekWide (place : Int) : Scan Unit := do
  Scan.seek place
  if (← Scan.bytes 4) ≠ wideEndSignature then
    match findLast wideEndSignature (← get).data with
    | none => throw .noWideRecord
    | some position => Scan.seek (position + 4)

/-- The fields that extend a wide end record.  Their end is not looked for, so reading them goes on
until the data breaks off: an archive that has some is refused. -/
def extension : Nat → Scan Unit
  | 0 => return
  | fuel + 1 => do
    Scan.skip 2
    Scan.skip (← Scan.long)
    extension fuel

/-- The size of a wide end record without extension, from behind the field that gives it. -/
def plainExtent : Int := 44

/-- The wide end record, and its size from behind the field that gives it. -/
def wide : Scan (EndRecord × Int) := do
  seekWide (← located)
  let extent ← Scan.wide
  let _versions ← Scan.long
  let _disk ← Scan.long
  let _firstDisk ← Scan.long
  let _entriesOnDisk ← Scan.wide
  let entries ← Scan.wide
  let size ← Scan.wide
  let directory ← Scan.wide
  if plainExtent < extent then extension ((← get).data.size + 1)
  return ({ entries, size, directory }, extent)

/-- What stands between the directory and the end record besides the wide record's extent: that
record's signature and size field, and the locator. -/
def wideOverhead : Int := 12 + 20

/-- The values of the end record, and the size of what stands between it and the directory. -/
def values : Scan (EndRecord × Int) := do
  let (record, overflow) ← narrow
  if overflow then
    let (record, extent) ← wide
    return (record, wideOverhead + extent)
  else return (record, 0)

/-- **The end record.**  The start of the archive moves to where it must be. -/
def scan : Scan EndRecord := do
  match findLast endSignature (← get).data with
  | none => throw (.noEndRecord ((← Scan.bytes 4) = memberSignature))
  | some position =>
    Scan.seek (position + 4)
    let (record, between) ← values
    let extra := position - (record.directory + record.size + between)
    if extra < 0 then throw (.bytesMissing extra.natAbs)
    modify fun c => { c with base := extra }
    return record

end EndRecord

end ChipEight.Archive
