import ChipEight.Program.File
import ChipEight.Settings.Config

/-!
# Failure — everything a host may be told

The faults of the machine, refused programs and refused settings under one roof, each with a text
for people and, if it is one of the emulator's own, a code for programs.
-/

namespace ChipEight

inductive Failure where
  | fault (f : Fault)
  /-- A program that could not be loaded, and its size where that was the reason. -/
  | load (text : String) (size : Option Int)
  | config (e : ConfigError)
  /-- Data that cannot be read as an archive. -/
  | archive (e : ArchiveError)
  /-- A failure that stopped execution, and where it did. -/
  | halt (reason : Failure) (word : Option Int) (pc : Int)
  /-- Some other failure with a code of its own. -/
  | coded (text code : String)
  /-- A failure of something else than the emulator. -/
  | foreign (text : String)
  deriving Inhabited

namespace Failure

def message : Failure → String
  | .fault f => f.message
  | .load text _ => text
  | .config e => e.message
  | .archive e => e.message
  | .halt reason word pc => Halt.locate reason.message word pc
  | .coded text _ => text
  | .foreign text => text

def code : Failure → Option String
  | .fault f => some f.code
  | .load _ _ => some "ROM_LOAD_ERROR"
  | .config _ => some "CONFIG_ERROR"
  | .halt _ _ _ => some "EXECUTION_FAULT"
  | .coded _ code => some code
  | .archive _ | .foreign _ => none

/-- Is this one of the emulator's own failures? -/
def isOwn (f : Failure) : Bool := f.code.isSome

def ofHalt (h : Halt) : Failure := .halt (.fault h.cause) h.word h.pc

def ofLoad (e : LoadError) : Failure := .load e.message (e.size?.map Int.ofNat)

def ofFile : FileError → Failure
  | .archive e => .archive e
  | .load e => ofLoad e

theorem message_ofHalt (h : Halt) : (ofHalt h).message = h.message := rfl

theorem message_ofLoad (e : LoadError) : (ofLoad e).message = e.message := rfl

theorem message_ofFile (e : FileError) : (ofFile e).message = e.message := by cases e <;> rfl

end Failure

end ChipEight
