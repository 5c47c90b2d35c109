import ChipEight.Number.Shortest
import ChipEight.Text.Hex

/-!
# Fault — what can stop a program

A fault is the cause alone.  A `Halt` adds where the machine was when it arose: the address the
instruction was fetched from, and its word unless the fetch itself failed.
-/

namespace ChipEight

inductive Fault where
  /-- No instruction has this word. -/
  | unknownInstruction (word : Int)
  /-- A call would nest deeper than the call stack holds. -/
  | stackOverflow (capacity : Int)
  /-- A return without a pending call. -/
  | stackUnderflow
  /-- No memory cell has this address. -/
  | addressOutOfRange (address : Dyadic)
  deriving DecidableEq

namespace Fault

def message : Fault → String
  | .unknownInstruction word => "Unknown instruction " ++ Hex.literal word 4
  | .stackOverflow capacity => "Call stack overflow (capacity " ++ Shortest.ofInt capacity ++ ")"
  | .stackUnderflow => "Return with empty call stack"
  | .addressOutOfRange address => "Memory address " ++ Hex.literal address 4 ++ " out of range"

/-- A short name for programs that tell faults apart. -/
def code : Fault → String
  | .unknownInstruction _ => "UNKNOWN_INSTRUCTION"
  | .stackOverflow _ => "STACK_OVERFLOW"
  | .stackUnderflow => "STACK_UNDERFLOW"
  | .addressOutOfRange _ => "MEMORY_OUT_OF_RANGE"

end Fault

/-- The fault that stopped a program, the word it arose in and the address of that word. -/
structure Halt where
  cause : Fault
  word : Option Int
  pc : Int
  deriving DecidableEq

namespace Halt

/-- A cause and the place it arose at: `text (opcode 0xWWWW at 0xPPP)`. -/
def locate (text : String) (word : Option Int) (pc : Int) : String :=
  let place := "at " ++ Hex.literal pc 3
  match word with
  | none => text ++ " (" ++ place ++ ")"
  | some w => text ++ " (opcode " ++ Hex.literal w 4 ++ " " ++ place ++ ")"

def message (h : Halt) : String := locate h.cause.message h.word h.pc

end Halt

end ChipEight
