import ChipEight.Text.Hex

/-!
# Archive/Scan — reading the fields of an archive

Fields are little-endian.  A scan stands at a position of the archive, which may start some way
into the data; it can go to any position within the data and read on from there.  Places and sizes
have 32 bits: of a field of eight bytes only the lower half counts.
-/

namespace ChipEight

/-- Why an archive cannot be read. -/
inductive ArchiveError where
  /-- There is no end record; does the data at least start like a member? -/
  | noEndRecord (startsLikeMember : Bool)
  | pastEnd (length position : Int)
  | wrongSignature (found expected : List UInt8)
  | bytesMissing (count : Int)
  /-- A field of the end record is too small for its value, but no wide record is located. -/
  | noWideLocator
  | noWideRecord
  | multipleVolumes
  | recordsMissing (expected : Int)
  | encrypted
  | sizeUnknown
  | unknownMethod (method : List UInt8) (name : String)
  | sizeMismatch
  /-- A file that is kept as a directory, so that it is not found as a file. -/
  | fileNotKept
  deriving DecidableEq

namespace ArchiveError

/-- A byte as messages write it. -/
def escape (b : UInt8) : String := "\\x" ++ String.ofList (Hex.pad 2 (Hex.digits b.toNat))

def escapeAll (bs : List UInt8) : String := String.join (bs.map escape)

def message : ArchiveError → String
  | .noEndRecord true => "Corrupted zip: can't find end of central directory"
  | .noEndRecord false =>
    "Can't find end of central directory : is this a zip file ? If it is, see "
      ++ "https://stuk.github.io/jszip/documentation/howto/read_zip.html"
  | .pastEnd length position =>
    "End of data reached (data length = " ++ toString length ++ ", asked index = "
      ++ toString position ++ "). Corrupted zip ?"
  | .wrongSignature found expected =>
    "Corrupted zip or bug: unexpected signature (" ++ escapeAll found ++ ", expected "
      ++ escapeAll expected ++ ")"
  | .bytesMissing count => "Corrupted zip: missing " ++ toString count ++ " bytes."
  | .noWideLocator => "Corrupted zip: can't find the ZIP64 end of central directory locator"
  | .noWideRecord => "Corrupted zip: can't find the ZIP64 end of central directory"
  | .multipleVolumes => "Multi-volumes zip are not supported"
  | .recordsMissing expected =>
    "Corrupted zip or bug: expected " ++ toString expected ++ " records in central dir, got 0"
  | .encrypted => "Encrypted zip are not supported"
  | .sizeUnknown =>
    "Bug or corrupted zip : didn't get enough information from the central directory "
      ++ "(compressedSize === -1 || uncompressedSize === -1)"
  | .unknownMethod method name =>
    "Corrupted zip : compression " ++ escapeAll method ++ " unknown (inner file : " ++ name ++ ")"
  | .sizeMismatch => "Bug : uncompressed data size mismatch"
  | .fileNotKept => "Cannot set properties of null (setting 'unsafeOriginalName')"

end ArchiveError

/-- The data, where in it the archive starts, and the position in the archive. -/
structure Cursor where
  data : Array UInt8
  base : Int
  position : Int

/-- A reading of fields. -/
abbrev Scan := StateT Cursor (Except ArchiveError)

namespace Scan

/-- Goes to a position, which must lie within the data. -/
def seek (position : Int) : Scan Unit := do
  let c ← get
  if c.data.size < c.base + position ∨ position < 0 then
    throw (.pastEnd c.data.size position)
  else set { c with position }

/-- Goes some bytes on. -/
def skip (count : Int) : Scan Unit := do seek ((← get).position + count)

/-- The next bytes. -/
def bytes (count : Int) : Scan (List UInt8) := do
  let c ← get
  skip count
  let start := c.base + c.position
  return (c.data.extract start.toNat (start + count).toNat).toList

/-- The value of bytes, least significant first. -/
def valueOf (bs : List UInt8) : Nat := bs.foldr (fun b v => b.toNat + 0x100 * v) 0

/-- A number of two bytes. -/
def short : Scan Int := do return valueOf (← bytes 2)

/-- A number of four bytes, with a sign. -/
def long : Scan Int := do return (Int.bmod (valueOf (← bytes 4)) 0x100000000)

/-- A number of eight bytes, with a sign, as far as its lower half goes. -/
def wide : Scan Int := do return (Int.bmod (valueOf (← bytes 8)) 0x100000000)

/-- Reads bytes on their own from their start. -/
def within {α : Type} (bs : List UInt8) (scan : Scan α) : Except ArchiveError α :=
  (scan.run ⟨bs.toArray, 0, 0⟩).map (·.1)

/-- Checks the four bytes that a record starts with. -/
def signature (expected : List UInt8) : Scan Unit := do
  let found ← bytes 4
  if found ≠ expected then throw (.wrongSignature found expected)

end Scan

end ChipEight
