import ChipEight.Number.Whole

/-!
# Number/Binary64 — the nearest double of a rational number

Numbers read from text are binary64 values: the dyadic number of 53 significant bits nearest to
what is written, of two nearest ones the one whose last bit is even, with gradual underflow at the
bottom and infinity beyond the top.  All arithmetic here is exact.
-/

namespace ChipEight

/-- A binary64 value as far as the program tells them apart: both zeros are the number zero. -/
inductive Binary64 where
  | finite (x : Dyadic)
  | infinite (negative : Bool)
  | undefined
  deriving DecidableEq

namespace Binary64

/-- The whole number nearest to `num / den`; a half goes to the even neighbour. -/
def roundHalfEven (num den : Nat) : Nat :=
  let q := num / den
  let r := num % den
  if 2 * r < den then q
  else if den < 2 * r then q + 1
  else if q % 2 = 0 then q else q + 1

/-- The power of two with `2 ^ k ≤ num / den < 2 ^ (k + 1)`. -/
def exponent (num den : Nat) : Int :=
  let k : Int := (num.log2 : Int) - den.log2
  let reached := if 0 ≤ k then den <<< k.toNat ≤ num else den ≤ num <<< (-k).toNat
  if reached then k else k - 1

/-- The weight of the last bit a value of this exponent has room for. -/
def lastBit (exponent : Int) : Int := max (exponent - 52) (-1074)

/-- **Rounding.** The binary64 value nearest to the quotient of a sign and two naturals. -/
def ofQuotient (negative : Bool) (num den : Nat) : Binary64 :=
  if num = 0 then .finite 0
  else
    let q := lastBit (exponent num den)
    let m := if 0 ≤ q then roundHalfEven num (den <<< q.toNat)
      else roundHalfEven (num <<< (-q).toNat) den
    if 1 <<< 1024 ≤ (if 0 ≤ q then m <<< q.toNat else m >>> (-q).toNat) then .infinite negative
    else .finite (.ofIntWithPrec (if negative then -m else m) (-q))

/-- The value of `m · 10 ^ e`.  A decimal of more than 310 places before its point is infinite and
one that starts more than 400 places behind it is zero, so no huge power is ever formed. -/
def ofDecimal (negative : Bool) (m : Nat) (e : Int) : Binary64 :=
  if m = 0 then .finite 0
  else
    let places : Int := (Nat.toDigits 10 m).length + e
    if 310 < places then .infinite negative
    else if places < -400 then .finite 0
    else if 0 ≤ e then ofQuotient negative (m * Nat.pow 10 e.toNat) 1
    else ofQuotient negative m (Nat.pow 10 (-e).toNat)

/-- The double nearest to a whole number, which is whole again.  It has room for 53 bits. -/
def nearestWhole (n : Int) : Int :=
  let excess := n.natAbs.log2 - 52
  let m := roundHalfEven n.natAbs (1 <<< excess) <<< excess
  if n < 0 then -m else m

/-- Whole numbers up to the fifty-third power of two are doubles. -/
theorem nearestWhole_of_natAbs_le {n : Int} (h : n.natAbs ≤ 0x20000000000000) :
    nearestWhole n = n := by
  have key : roundHalfEven n.natAbs (1 <<< (n.natAbs.log2 - 52)) <<< (n.natAbs.log2 - 52)
      = n.natAbs := by
    rcases Nat.lt_or_eq_of_le h with h | h
    · have : n.natAbs.log2 - 52 = 0 := by
        by_cases h0 : n.natAbs = 0
        · simp [h0]
        · have := (Nat.log2_lt h0 (k := 53)).2 h
          omega
      simp [this, roundHalfEven, Nat.mod_one]
    · rw [h]; decide
  simp only [nearestWhole, key]
  split <;> omega

/-- The greatest whole number that is not greater than a value. -/
def floor : Binary64 → Binary64
  | .finite x => .finite ((x.toRat.num / x.toRat.den : Int) : Dyadic)
  | x => x

/-- The whole number that a value is, if it is one. -/
def whole? : Binary64 → Option Int
  | .finite x => ChipEight.whole? x
  | _ => none

theorem whole?_eq_some_iff {x : Binary64} {n : Int} : x.whole? = some n ↔ x = .finite n := by
  cases x with
  | finite x => rw [whole?, ChipEight.whole?_eq_some_iff, Binary64.finite.injEq]
  | infinite | undefined => exact ⟨nofun, nofun⟩

end Binary64

end ChipEight
