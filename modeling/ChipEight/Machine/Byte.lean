/-!
# Machine/Byte — wrapping to eight and sixteen bits

Registers, memory cells and the timer hold bytes, and addresses wrap at sixteen bits where an
instruction says so.  Wrapping is reduction modulo a power of two, also below zero.
-/

namespace ChipEight

/-- The byte an integer is congruent to. -/
def lowByte (x : Int) : UInt8 := UInt8.ofNat (x % 0x100).toNat

/-- The sixteen-bit value an integer is congruent to. -/
def lowWord (x : Int) : Int := x % 0x10000

@[simp] theorem toNat_lowByte (x : Int) : (lowByte x).toNat = (x % 0x100).toNat := by
  have h0 := Int.emod_nonneg x (show (0x100 : Int) ≠ 0 by decide)
  have h1 := Int.emod_lt_of_pos x (show (0 : Int) < 0x100 by decide)
  simp only [lowByte, UInt8.toNat_ofNat']
  omega

theorem lowByte_toNat (b : UInt8) : lowByte (b.toNat : Int) = b := by
  apply UInt8.toNat_inj.1
  have := b.toNat_lt
  simp only [toNat_lowByte]
  omega

theorem lowWord_nonneg (x : Int) : 0 ≤ lowWord x := Int.emod_nonneg x (by decide)

theorem lowWord_lt (x : Int) : lowWord x < 0x10000 := Int.emod_lt_of_pos x (by decide)

/-- A value that fits sixteen bits wraps to itself. -/
theorem lowWord_eq_self {x : Int} (h0 : 0 ≤ x) (h1 : x < 0x10000) : lowWord x = x :=
  Int.emod_eq_of_lt h0 h1

end ChipEight
