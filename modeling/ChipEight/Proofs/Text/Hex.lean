import ChipEight.Number.Literal
import ChipEight.Text.Hex

/-!
# Proofs/Text/Hex — a literal tells its number

The digits of a natural number read back as that number, whatever zeros are put in front of them
(`spanDigits_pad`), so different numbers have different literals (`literal_inj`).
-/

namespace ChipEight.Hex

open Literal (digit? spanDigits valueOf)

theorem digit?_digit : ∀ d < 16, digit? 16 (digit d) = some d := by decide

/-- A row of digits is read as it is written. -/
theorem spanDigits_map {ds : List Nat} (h : ∀ d ∈ ds, d < 16) :
    spanDigits 16 (ds.map digit) = (ds, []) := by
  induction ds with
  | nil => rfl
  | cons d ds ih =>
    obtain ⟨hd, hds⟩ := List.forall_mem_cons.mp h
    rw [List.map_cons, spanDigits, digit?_digit d hd, ih hds]

/-- The digits of a number make up its value. -/
theorem exists_digits (n : Nat) :
    ∃ ds, digits n = ds.map digit ∧ (∀ d ∈ ds, d < 16) ∧ valueOf 16 ds = n := by
  induction n using digits.induct with
  | case1 n h =>
    refine ⟨[n], ?_, List.forall_mem_singleton.mpr h, ?_⟩
    · rw [digits, if_pos h]
      rfl
    · exact (congrArg (· + n) (Nat.zero_mul 16)).trans (Nat.zero_add n)
  | case2 n h ih =>
    obtain ⟨ds, hdigits, hlt, hvalue⟩ := ih
    refine ⟨ds ++ [n % 16], ?_, ?_, ?_⟩
    · rw [digits, if_neg h, hdigits, List.map_append]
      rfl
    · intro d hd
      obtain hd | hd := List.mem_append.mp hd
      · exact hlt d hd
      · exact List.mem_singleton.mp hd ▸ Nat.mod_lt n (by decide)
    · rw [valueOf, List.foldl_append, ← valueOf, hvalue]
      exact Nat.div_add_mod' n 16

/-- Zeros in front count for nothing. -/
theorem valueOf_zeros (k : Nat) (ds : List Nat) :
    valueOf 16 (List.replicate k 0 ++ ds) = valueOf 16 ds := by
  induction k with
  | zero => rfl
  | succ k ih => exact ih

/-- **The digits of a number read back**, filled with zeros to any length. -/
theorem spanDigits_pad (width n : Nat) :
    ∃ ds, spanDigits 16 (pad width (digits n)) = (ds, []) ∧ valueOf 16 ds = n := by
  obtain ⟨ds, hdigits, hlt, hvalue⟩ := exists_digits n
  let zeros := List.replicate (width - (digits n).length) 0
  have hpad : pad width (digits n) = (zeros ++ ds).map digit := by
    rw [pad, List.map_append, List.map_replicate, ← hdigits]
    rfl
  refine ⟨zeros ++ ds, ?_, (valueOf_zeros _ ds).trans hvalue⟩
  rw [hpad]
  refine spanDigits_map fun d hd => ?_
  obtain hd | hd := List.mem_append.mp hd
  · exact List.eq_of_mem_replicate hd ▸ by decide
  · exact hlt d hd

/-- **Different numbers have different literals.** -/
theorem literal_inj {m n : Nat} {width : Nat}
    (h : literal (m : Int) width = literal (n : Int) width) : m = n := by
  have hnat (k : Nat) : ofDyadic (k : Int) = digits k := by
    rw [ofDyadic_intCast, ofInt, if_neg (Int.not_lt.mpr (Int.natCast_nonneg k)), Int.natAbs_natCast]
  have htext := String.ofList_inj.mp h
  rw [hnat, hnat] at htext
  obtain ⟨ds, hm, hvm⟩ := spanDigits_pad width m
  obtain ⟨ds', hn, hvn⟩ := spanDigits_pad width n
  have hsame : pad width (digits m) = pad width (digits n) :=
    (List.cons.inj (List.cons.inj htext).2).2
  have hds : ds = ds' := congrArg Prod.fst (hm.symm.trans (hsame ▸ hn))
  exact hvm.symm.trans (hds ▸ hvn)

end ChipEight.Hex
