import ChipEight.Archive.Basic
import ChipEight.Archive.Collation
import ChipEight.Program.Image

/-!
# Program/File — a program from a file

A file is a program image, or an archive that holds one.  An archive is known by its first two
bytes, which no program starts with: read as a word they encode no instruction.  Of an archive's
files the first in alphabetical order that is named like a program is taken, or the first of all if
none is.  Of files that the order does not tell apart, one named by a plain number comes first, and
then the one whose name came up first.
-/

namespace ChipEight

/-- Why a file gave no program. -/
inductive FileError where
  | archive (e : ArchiveError)
  | load (e : LoadError)
  deriving DecidableEq

namespace FileError

def message : FileError → String
  | .archive e => e.message
  | .load e => e.message

end FileError

namespace Archive

/-- The endings program files have, in small letters. -/
def programEndings : List String := [".ch8", ".c8", ".rom", ".bin"]

/-- Is a file named like a program, in letters of either case? -/
def isProgramName (name : String) : Bool :=
  programEndings.any fun ending => ending.toList.isSuffixOf (name.toList.map Char.toLower)

/-- Is a name the decimal numeral of a number of 32 bits other than the last? -/
def isNumeral (name : String) : Bool :=
  name.toNat?.any fun n => toString n = name && n < 0xFFFFFFFF

/-- The names of the files, in alphabetical order. -/
def fileNames (a : Archive) : List String :=
  let names := (a.filter (!·.isDirectory)).map (·.name)
  (names.filter isNumeral ++ names.filter (!isNumeral ·)).mergeSort Collation.before

/-- The file that is taken from an archive. -/
def choose (a : Archive) : Option String :=
  (a.fileNames.find? isProgramName).or a.fileNames.head?

/-- The contents of the file of a name, or of the one that is taken. -/
def extract (a : Archive) (path : Option String) : Except FileError (List UInt8) := do
  let name ←
    match path.or a.choose with
    | some name => pure name
    | none => .error (.load .archiveEmpty)
  match a.file? name with
  | some m => m.contents.mapError .archive
  | none => .error (.load (.memberMissing name))

end Archive

/-- Does data start like an archive? -/
def isArchive (data : List UInt8) : Bool :=
  data.length ≥ 4 && data.take 2 = Archive.memberSignature.take 2

/-- The program image in an archive. -/
def extractProgram (data : List UInt8) (path : Option String) : Except FileError (List UInt8) := do
  let archive ← (Archive.read data).mapError .archive
  archive.extract path

/-- **Reading a program file.** -/
def readProgramFile (data : List UInt8) : Except FileError (List UInt8) := do
  let image ← if isArchive data then extractProgram data none else pure data
  (checkImage image).mapError .load

end ChipEight
