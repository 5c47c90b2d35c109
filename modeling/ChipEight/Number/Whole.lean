/-!
# Number/Whole — which dyadic numbers are whole

Addresses and keys are whole numbers, but a host may hand in any dyadic number; `whole?` keeps the
whole ones and refuses the fractions.
-/

namespace ChipEight

/-- The whole number that a dyadic number is, if it is one. -/
def whole? (x : Dyadic) : Option Int :=
  if x.toRat.den = 1 then some x.toRat.num else none

@[simp] theorem whole?_intCast (n : Int) : whole? (n : Dyadic) = some n := by
  simp [whole?, Dyadic.toRat_intCast]

theorem eq_of_whole? {x : Dyadic} {n : Int} (h : whole? x = some n) : x = (n : Dyadic) := by
  unfold whole? at h
  split at h
  case isFalse => simp at h
  case isTrue hden =>
  have hnum : x.toRat.num = n := by simpa using h
  refine Dyadic.toRat_inj.1 ?_
  rw [Dyadic.toRat_intCast]
  exact Rat.ext hnum hden

theorem whole?_eq_some_iff {x : Dyadic} {n : Int} : whole? x = some n ↔ x = (n : Dyadic) :=
  ⟨eq_of_whole?, fun h => h ▸ whole?_intCast n⟩

/-- The order of whole numbers is that of the dyadic numbers they are. -/
theorem intCast_lt_intCast {m n : Int} : (m : Dyadic) < (n : Dyadic) ↔ m < n := by
  rw [← Dyadic.toRat_lt_toRat_iff, Dyadic.toRat_intCast, Dyadic.toRat_intCast,
    Rat.intCast_lt_intCast]

end ChipEight
