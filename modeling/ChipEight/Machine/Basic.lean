import ChipEight.Machine.CallStack
import ChipEight.Machine.Keypad
import ChipEight.Machine.Memory
import ChipEight.Machine.Registers
import ChipEight.Machine.Screen
import ChipEight.Machine.Timer

/-!
# Machine/Basic — the state of the machine

The processor and everything an instruction can read or change.  The draw mode and the capacity of
the call stack are settings: no instruction touches them.
-/

namespace ChipEight

/-- Whether the processor runs or waits for a key to be released. -/
inductive Phase where
  | running
  | waitingForKey
  deriving DecidableEq, Repr

structure Machine where
  registers : Registers
  pc : Int
  stack : CallStack
  phase : Phase
  memory : Memory
  screen : Screen
  drawMode : DrawMode
  keypad : Keypad
  timer : Timer
  deriving DecidableEq

namespace Machine

/-- **Power-on**: memory holds the font, and everything else is cleared. -/
def initial (mode : DrawMode) (stackCapacity : Int) : Machine where
  registers := .zero
  pc := Memory.programStart
  stack := .empty stackCapacity
  phase := .running
  memory := .initial
  screen := .blank
  drawMode := mode
  keypad := .released
  timer := .zero

/-- The machine with a program in its memory, ready to run it from the start. -/
def loaded (mode : DrawMode) (stackCapacity : Int) (image : List UInt8) : Machine :=
  { initial mode stackCapacity with memory := Memory.initial.place image }

/-- The line of the word at the program counter, which is looked at only if both of its bytes are in
memory. -/
def peek (m : Machine) : Except Fault (Option String) :=
  if Memory.InRange m.pc ∧ Memory.InRange (m.pc + 1) then some <$> m.memory.listAt m.pc
  else .ok none

/-- The listing line of the next instruction, unless its word lies outside memory. -/
def upcoming (m : Machine) : Option String :=
  match m.peek with
  | .ok line => line
  | .error _ => none

end Machine

end ChipEight
