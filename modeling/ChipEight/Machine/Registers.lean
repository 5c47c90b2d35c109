import ChipEight.Machine.Byte

/-!
# Machine/Registers — the register file

Sixteen byte registers `V0` to `VF`, the sixteen-bit address register `I`, and the register a
pending key-wait has named.  Register numbers are taken modulo sixteen and values wrap, so every
number is a register number and every integer can be stored.
-/

namespace ChipEight

structure Registers where
  v : Vector UInt8 16
  index : Int
  wake : Int
  deriving DecidableEq

namespace Registers

/-- The register that carries flags. -/
def flag : Int := 0xF

/-- All registers zero. -/
def zero : Registers := ⟨Vector.replicate 16 0, 0, 0⟩

/-- The position of a register in the file. -/
def slot (r : Int) : Fin 16 :=
  ⟨(r % 16).toNat, by have := Int.emod_nonneg r (show (16 : Int) ≠ 0 by decide); omega⟩

def get (R : Registers) (r : Int) : Nat := R.v[slot r].toNat

def set (R : Registers) (r value : Int) : Registers :=
  { R with v := R.v.set (slot r) (lowByte value) }

def setIndex (R : Registers) (value : Int) : Registers := { R with index := lowWord value }

def setWake (R : Registers) (r : Int) : Registers := { R with wake := r }

/-- A result and its flag.  The result is written first, so a result meant for `VF` is lost. -/
def setFlagged (R : Registers) (r value : Int) (flagged : Nat) : Registers :=
  (R.set r value).set flag flagged

/-- Consecutive registers from `r` on. -/
def setFrom (R : Registers) (r : Int) : List UInt8 → Registers
  | [] => R
  | b :: bs => (R.set r b.toNat).setFrom (r + 1) bs

/-- The first `n` registers. -/
def take (R : Registers) (n : Nat) : List UInt8 := R.v.toList.take n

/-- What a stored value reads back as: itself modulo 256, in its own register only. -/
theorem get_set (R : Registers) (r q value : Int) :
    (R.set r value).get q = if q % 16 = r % 16 then (value % 0x100).toNat else R.get q := by
  have hr := Int.emod_nonneg r (show (16 : Int) ≠ 0 by decide)
  have hq := Int.emod_nonneg q (show (16 : Int) ≠ 0 by decide)
  simp only [get, set, slot, Fin.getElem_fin, Vector.getElem_set]
  by_cases h : q % 16 = r % 16
  · simp [h]
  · have : ¬ (r % 16).toNat = (q % 16).toNat := by omega
    simp [h, this]

@[simp] theorem index_set (R : Registers) (r value : Int) : (R.set r value).index = R.index := rfl

@[simp] theorem wake_set (R : Registers) (r value : Int) : (R.set r value).wake = R.wake := rfl

theorem get_lt (R : Registers) (r : Int) : R.get r < 0x100 := R.v[slot r].toNat_lt

end Registers

end ChipEight
