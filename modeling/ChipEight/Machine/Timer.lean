import ChipEight.Machine.Byte

/-!
# Machine/Timer — the delay timer

A number that wraps to a byte where it is set, and that a frame counts down by one until it is zero.
So it always stays a byte.
-/

namespace ChipEight

structure Timer where
  value : Int
  byte : 0 ≤ value ∧ value ≤ 0xFF
  deriving DecidableEq

namespace Timer

def zero : Timer := ⟨0, by decide⟩

/-- A timer set to a value, which wraps to a byte. -/
def ofInt (value : Int) : Timer :=
  ⟨(lowByte value).toNat, by have := (lowByte value).toNat_lt; omega⟩

def tick (t : Timer) : Timer :=
  if h : 0 < t.value then ⟨t.value - 1, by have := t.byte; omega⟩ else t

theorem toNat_tick (t : Timer) : t.tick.value.toNat = t.value.toNat - 1 := by
  unfold tick
  split
  case isTrue h =>
    change (t.value - 1).toNat = t.value.toNat - 1
    omega
  case isFalse h => omega

end Timer

end ChipEight
