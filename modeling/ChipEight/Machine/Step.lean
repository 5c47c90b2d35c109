import ChipEight.Machine.Execute

/-!
# Machine/Step — fetch, decode, execute

A step of a waiting machine does nothing and answers `false`.  Otherwise it fetches the word at the
program counter, moves the counter past it, decodes and executes it, and answers `true`, or the
`Halt` that stopped it.  A fetch that fails leaves the machine as it was; a word that encodes
nothing leaves the counter behind it.
-/

namespace ChipEight

/-- An instruction that was fetched, about to be executed. -/
structure Fetched where
  pc : Int
  word : Nat
  instruction : Instruction
  deriving DecidableEq

/-- A step: the machine after it, the instruction it came to execute, and its answer. -/
structure Step where
  machine : Machine
  fetched : Option Fetched
  answer : Except Halt Bool

namespace Machine

/-- The machine with its program counter behind the word it is at. -/
def advance (m : Machine) : Machine := { m with pc := lowWord (m.pc + 2) }

/-- **One step**, with the random number offered to it. -/
def step (m : Machine) (random : Int) : Step :=
  match m.phase with
  | .waitingForKey => ⟨m, none, .ok false⟩
  | .running =>
    match m.memory.readWord m.pc with
    | .error fault => ⟨m, none, .error ⟨fault, none, m.pc⟩⟩
    | .ok word =>
      match Instruction.decode word with
      | .error fault => ⟨m.advance, none, .error ⟨fault, some word, m.pc⟩⟩
      | .ok instruction =>
        let pc := m.pc
        let effect := m.advance.execute random instruction
        ⟨effect.machine, some ⟨pc, word, instruction⟩,
          match effect.fault with
          | none => .ok true
          | some fault => .error ⟨fault, some word, pc⟩⟩

/-- The value a fetched instruction sends to the sound timer, if it is one that does. -/
def soundValue (m : Machine) (f : Fetched) : Option Nat :=
  match f.instruction with
  | .setSound x => some (m.registers.get x)
  | _ => none

/-- The end of a key-wait: the key goes to the register that waits for it.  A machine that is not
waiting stays as it is and answers `false`. -/
def resume (m : Machine) (key : Int) : Machine × Bool :=
  match m.phase with
  | .running => (m, false)
  | .waitingForKey =>
    ({ m with registers := m.registers.set m.registers.wake key, phase := .running }, true)

/-- Cleared registers, an empty call stack, and control at the program start. -/
def restart (m : Machine) : Machine :=
  { m with registers := .zero, stack := m.stack.clear, pc := Memory.programStart,
           phase := .running }

end Machine

end ChipEight
