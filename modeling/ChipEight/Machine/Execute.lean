import ChipEight.Machine.Basic

/-!
# Machine/Execute — what each instruction does

An instruction acts on the machine whose program counter has already moved past it.  Most cannot
fail.  Calls, returns and the four kinds of memory transfer can, and then what they did before the
fault stands: an `Effect` is the machine that is left and the fault, if there was one.

Results are written before flags, a transfer moves `I` past the cells it reached, and a sprite is
read whole before any pixel changes.
-/

namespace ChipEight

/-- The machine an instruction leaves and the fault that stopped it, if one did. -/
structure Effect where
  machine : Machine
  fault : Option Fault
  deriving DecidableEq

namespace Machine

/-- An instruction that ran to its end. -/
def done (m : Machine) : Effect := ⟨m, none⟩

/-- Skips the next instruction if a condition holds. -/
def skipIf (m : Machine) (condition : Bool) : Effect :=
  if condition then done { m with pc := lowWord (m.pc + 2) } else done m

/-- Stores into one register. -/
def assign (m : Machine) (x value : Int) : Effect :=
  done { m with registers := m.registers.set x value }

/-- Stores into one register and then into the flag register. -/
def assignFlagged (m : Machine) (x value : Int) (flag : Nat) : Effect :=
  done { m with registers := m.registers.setFlagged x value flag }

def assignIndex (m : Machine) (value : Int) : Effect :=
  done { m with registers := m.registers.setIndex value }

/-- Is the key that a register numbers held down?  Numbers above fifteen are no keys. -/
def keyHeld (m : Machine) (x : Int) : Bool :=
  m.keypad.isPressed (.finite (m.registers.get x : Int))

/-- A call: the return address is pushed before control moves. -/
def enter (m : Machine) (address : Int) : Effect :=
  match m.stack.push m.pc with
  | .ok stack => done { m with stack, pc := address }
  | .error fault => ⟨m, some fault⟩

/-- A return to the address pushed last. -/
def leave (m : Machine) : Effect :=
  match m.stack.pop with
  | .ok (address, stack) => done { m with stack, pc := address }
  | .error fault => ⟨m, some fault⟩

/-- Draws the sprite of height `n` at `I` with its corner at `(Vx, Vy)`. -/
def drawSprite (m : Machine) (x y n : Int) : Effect :=
  let rows := m.memory.readUpTo m.registers.index n.toNat
  match Memory.shortfall m.registers.index rows.length n.toNat with
  | some fault => ⟨m, some fault⟩
  | none =>
    let (screen, reported) := m.screen.draw m.drawMode (m.registers.get x) (m.registers.get y) rows
    done { m with screen, registers := m.registers.set Registers.flag reported.toNat }

/-- The hundreds, tens and units of a byte. -/
def decimalDigits (value : Nat) : List UInt8 :=
  [UInt8.ofNat (value / 100), UInt8.ofNat (value / 10 % 10), UInt8.ofNat (value % 10)]

/-- Writes the decimal digits of `Vx` to `I`, `I + 1` and `I + 2`; `I` stays. -/
def storeDigits (m : Machine) (x : Int) : Effect :=
  let (memory, moved) := m.memory.writeUpTo m.registers.index (decimalDigits (m.registers.get x))
  ⟨{ m with memory }, Memory.shortfall m.registers.index moved 3⟩

/-- Writes `V0` to `Vx` from `I` on and moves `I` behind them. -/
def storeRegisters (m : Machine) (x : Int) : Effect :=
  let count := x.toNat + 1
  let (memory, moved) := m.memory.writeUpTo m.registers.index (m.registers.take count)
  ⟨{ m with memory, registers := m.registers.setIndex (m.registers.index + moved) },
    Memory.shortfall m.registers.index moved count⟩

/-- Reads `V0` to `Vx` from `I` on and moves `I` behind them. -/
def loadRegisters (m : Machine) (x : Int) : Effect :=
  let count := x.toNat + 1
  let bytes := m.memory.readUpTo m.registers.index count
  ⟨{ m with registers :=
      (m.registers.setFrom 0 bytes).setIndex (m.registers.index + bytes.length) },
    Memory.shortfall m.registers.index bytes.length count⟩

/-- **Execution** of one instruction, with the random number offered to it. -/
def execute (m : Machine) (random : Int) (i : Instruction) : Effect :=
  let V := m.registers.get
  match i with
  | .clearScreen => done { m with screen := .blank }
  | .ret => m.leave
  | .jump a => done { m with pc := a }
  | .call a => m.enter a
  | .jumpOffset a => done { m with pc := a + V 0 }
  | .skipEqualByte x nn => m.skipIf ((V x : Int) = nn)
  | .skipDifferentByte x nn => m.skipIf ((V x : Int) ≠ nn)
  | .skipEqual x y => m.skipIf (V x = V y)
  | .skipDifferent x y => m.skipIf (V x ≠ V y)
  | .skipPressed x => m.skipIf (m.keyHeld x)
  | .skipReleased x => m.skipIf (!m.keyHeld x)
  | .loadByte x nn => m.assign x nn
  | .addByte x nn => m.assign x (V x + nn)
  | .move x y => m.assign x (V y)
  | .or x y => m.assignFlagged x (V x ||| V y : Nat) 0
  | .and x y => m.assignFlagged x (V x &&& V y : Nat) 0
  | .xor x y => m.assignFlagged x (V x ^^^ V y : Nat) 0
  | .add x y => m.assignFlagged x (V x + V y) (if 0xFF < V x + V y then 1 else 0)
  | .subtract x y => m.assignFlagged x ((V x : Int) - V y) (if V x < V y then 0 else 1)
  | .subtractFrom x y => m.assignFlagged x ((V y : Int) - V x) (if V y < V x then 0 else 1)
  | .shiftRight x y => m.assignFlagged x (V y / 2 : Nat) (V y % 2)
  | .shiftLeft x y => m.assignFlagged x (V y * 2) (V y / 0x80)
  | .random x nn => m.assign x ((random % 0x100).toNat &&& nn.toNat : Nat)
  | .loadIndex a => m.assignIndex a
  | .addIndex x => m.assignIndex (m.registers.index + V x)
  | .loadGlyph x =>
    m.assignIndex ((Memory.fontStart + V x * Memory.glyphSize) % Memory.size : Nat)
  | .draw x y n => m.drawSprite x y n
  | .readTimer x => m.assign x m.timer.value
  | .setTimer x => done { m with timer := .ofInt (V x) }
  | .setSound _ => done m
  | .waitForKey x =>
    done { m with registers := m.registers.setWake x, phase := .waitingForKey }
  | .storeDigits x => m.storeDigits x
  | .storeRegisters x => m.storeRegisters x
  | .loadRegisters x => m.loadRegisters x

end Machine

end ChipEight
