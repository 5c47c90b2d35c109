import ChipEight.Instruction.Listing
import ChipEight.Machine.Byte
import ChipEight.Number.Whole

/-!
# Machine/Memory — 4096 cells, the font at the bottom

    000-04F  the sixteen font glyphs, five bytes each
    050-1FF  unused
    200-FFF  the program and its data

An address outside 000-FFF is a fault; nothing wraps around.  Block transfers run upwards
and stop at the first such address: `readUpTo` gives the cells before it, and `writeUpTo` fills
them and says how many there were.
-/

namespace ChipEight

structure Memory where
  cells : Vector UInt8 0x1000
  deriving DecidableEq

namespace Memory

def size : Nat := 0x1000

/-- The address programs are loaded at and start from. -/
def programStart : Nat := 0x200

/-- The longest program that fits. -/
def capacity : Nat := size - programStart

def fontStart : Nat := 0x000

/-- The height of a font glyph. -/
def glyphSize : Nat := 5

/-- The hexadecimal digits as sprites four pixels wide, glyph 0 first. -/
def font : List UInt8 :=
  [0xF0, 0x90, 0x90, 0x90, 0xF0,  0x20, 0x60, 0x20, 0x20, 0x70,
   0xF0, 0x10, 0xF0, 0x80, 0xF0,  0xF0, 0x10, 0xF0, 0x10, 0xF0,
   0x90, 0x90, 0xF0, 0x10, 0x10,  0xF0, 0x80, 0xF0, 0x10, 0xF0,
   0xF0, 0x80, 0xF0, 0x90, 0xF0,  0xF0, 0x10, 0x20, 0x40, 0x40,
   0xF0, 0x90, 0xF0, 0x90, 0xF0,  0xF0, 0x90, 0xF0, 0x10, 0xF0,
   0xF0, 0x90, 0xF0, 0x90, 0x90,  0xE0, 0x90, 0xE0, 0x90, 0xE0,
   0xF0, 0x80, 0x80, 0x80, 0xF0,  0xE0, 0x90, 0x90, 0x90, 0xE0,
   0xF0, 0x80, 0xF0, 0x80, 0xF0,  0xF0, 0x80, 0xF0, 0x80, 0x80]

/-- **Power-on memory**: the font and zeros. -/
def initial : Memory :=
  let glyphs := font.toArray
  ⟨.ofFn fun i => glyphs[i.val]?.getD 0⟩

/-- An image at the program start, zeros behind it, and the cells below as they were. -/
def place (m : Memory) (image : List UInt8) : Memory :=
  let bytes := image.toArray
  ⟨.ofFn fun i => if i < programStart then m.cells[i] else bytes[i.val - programStart]?.getD 0⟩

/-! ## Single cells -/

/-- The addresses of cells. -/
def InRange (a : Int) : Prop := 0 ≤ a ∧ a < 0x1000

instance (a : Int) : Decidable (InRange a) := inferInstanceAs (Decidable (_ ∧ _))

theorem InRange.toNat_lt {a : Int} (h : InRange a) : a.toNat < 0x1000 := by
  unfold InRange at h; omega

/-- The address a number stands for: a fraction is outside memory. -/
def address (x : Dyadic) : Except Fault Int :=
  match whole? x with
  | some a => .ok a
  | none => .error (.addressOutOfRange x)

def read (m : Memory) (a : Int) : Except Fault UInt8 :=
  if h : InRange a then .ok (m.cells.get ⟨a.toNat, h.toNat_lt⟩)
  else .error (.addressOutOfRange a)

def write (m : Memory) (a value : Int) : Except Fault Memory :=
  if h : InRange a then .ok ⟨m.cells.set a.toNat (lowByte value) h.toNat_lt⟩
  else .error (.addressOutOfRange a)

theorem read_of_inRange (m : Memory) {a : Int} (h : InRange a) :
    m.read a = .ok (m.cells.get ⟨a.toNat, h.toNat_lt⟩) := dif_pos h

theorem read_of_not_inRange (m : Memory) {a : Int} (h : ¬ InRange a) :
    m.read a = .error (.addressOutOfRange a) := dif_neg h

/-- A write fills its own cell and leaves the others alone. -/
theorem read_of_write {m m' : Memory} {a value : Int} (h : m.write a value = .ok m') (b : Int) :
    m'.read b = if b = a then .ok (lowByte value) else m.read b := by
  unfold write at h
  split at h
  case isFalse => cases h
  case isTrue ha =>
  cases h
  by_cases hb : InRange b
  · have hab : a.toNat = b.toNat ↔ b = a := by unfold InRange at ha hb; omega
    have hlt := hb.toNat_lt
    rw [read_of_inRange _ hb, read_of_inRange _ hb]
    change Except.ok (m.cells.set a.toNat (lowByte value) ha.toNat_lt)[b.toNat] = _
    rw [Vector.getElem_set]
    simp only [hab]
    split <;> rfl
  · have hba : b ≠ a := fun h => hb (h ▸ ha)
    rw [read_of_not_inRange _ hb, if_neg hba, read_of_not_inRange _ hb]

/-- The word at an address and the next, high byte first. -/
def readWord (m : Memory) (a : Int) : Except Fault Nat := do
  let high ← m.read a
  let low ← m.read (a + 1)
  return high.toNat * 0x100 + low.toNat

/-- The line a listing shows for the word at an address. -/
def listAt (m : Memory) (a : Int) : Except Fault String := do
  return Instruction.listWord (← m.readWord a)

/-! ## Blocks -/

/-- Up to `n` cells from an address on, as far as memory goes. -/
def readUpTo (m : Memory) (a : Int) : Nat → List UInt8
  | 0 => []
  | n + 1 =>
    match m.read a with
    | .ok b => b :: m.readUpTo (a + 1) n
    | .error _ => []

/-- Bytes written from an address on, as far as memory goes, and how many they were. -/
def writeUpTo (m : Memory) (a : Int) : List UInt8 → Memory × Nat
  | [] => (m, 0)
  | b :: bs =>
    match m.write a b.toNat with
    | .ok m' => let (last, n) := m'.writeUpTo (a + 1) bs; (last, n + 1)
    | .error _ => (m, 0)

/-- The fault of a transfer that moved only `done` of `wanted` bytes. -/
def shortfall (a : Int) (done wanted : Nat) : Option Fault :=
  if done < wanted then some (.addressOutOfRange (a + done : Int)) else none

/-- The cells between two positions.  A negative position counts from the end, and both are kept
within memory. -/
def slice (m : Memory) (start stop : Int) : List UInt8 :=
  let position (p : Int) : Nat := if p < 0 then (p + 0x1000).toNat else min p.toNat 0x1000
  (m.cells.toList.take (position stop)).drop (position start)

end Memory

end ChipEight
