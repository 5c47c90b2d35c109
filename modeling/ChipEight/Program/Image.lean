import ChipEight.Machine.Memory

/-!
# Program/Image — which byte sequences are programs

A program image is raw bytes without a header.  It has to have a byte and to fit between the program
start and the top of memory; nothing else is asked of it.
-/

namespace ChipEight

/-- Why no program could be loaded. -/
inductive LoadError where
  | empty
  | tooLarge (size : Nat)
  | archiveEmpty
  | memberMissing (path : String)
  deriving DecidableEq

namespace LoadError

def message : LoadError → String
  | .empty => "ROM is empty"
  | .tooLarge size =>
    "ROM too large (" ++ toString size ++ " bytes, max " ++ toString Memory.capacity ++ ")"
  | .archiveEmpty => "Archive contains no files"
  | .memberMissing path => "File not found in archive: " ++ path

/-- The size that was refused, where a size was the reason. -/
def size? : LoadError → Option Nat
  | .empty => some 0
  | .tooLarge size => some size
  | .archiveEmpty | .memberMissing _ => none

end LoadError

/-- An image that memory has room for, placed in it. -/
def Memory.load (m : Memory) (image : List UInt8) : Except LoadError Memory :=
  if Memory.capacity < image.length then .error (.tooLarge image.length) else .ok (m.place image)

/-- **The size check of a program image.** -/
def checkImage (bytes : List UInt8) : Except LoadError (List UInt8) :=
  if bytes.isEmpty then .error .empty
  else if Memory.capacity < bytes.length then .error (.tooLarge bytes.length)
  else .ok bytes

end ChipEight
