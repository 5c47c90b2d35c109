import ChipEight.Number.Literal
import ChipEight.Number.Shortest
import Mathlib.Algebra.Group.Nat.Defs

/-!
# Proofs/Number/Shortest — the text of a whole number reads back

The digits of a natural number read as the number, and so do its digits in either layout that a
number without a fraction can have: written out, or with a power of ten behind them
(`readDecimal_layOut`).  What is laid out is a decimal that reads back by the choice of it, or the
number itself.  So the text of a natural number that a double holds reads as that double
(`readDecimal_ofInt`).
-/

namespace ChipEight

/-- **A double holds a natural number**: it is the double nearest to itself. -/
def Binary64.Holds (n : Nat) : Prop := ofDecimal false n 0 = .finite (n : Int)

instance (n : Nat) : Decidable (Binary64.Holds n) := inferInstanceAs (Decidable (_ = _))

/-! ## Numbers that a double holds -/

namespace Binary64

theorem exponent_natCast {n : Nat} (hn : n ≠ 0) : exponent n 1 = n.log2 := by
  have hlog : Nat.log2 1 = 0 := by decide
  have hreached : 1 <<< n.log2 ≤ n := by
    rw [Nat.one_shiftLeft]
    exact Nat.log2_self_le hn
  simp only [exponent, hlog, Int.natCast_zero, Int.sub_zero, Int.natCast_nonneg, if_true,
    Int.toNat_natCast, hreached]

/-- **Numbers of up to fifty-three bits** are doubles. -/
theorem holds_of_lt {n : Nat} (h : n < 0x20000000000000) : Holds n := by
  rcases Nat.eq_zero_or_pos n with rfl | h0
  · rfl
  have hne := Nat.ne_of_gt h0
  have hplaces : (Nat.toDigits 10 n).length ≤ 16 :=
    (Nat.length_toDigits_le_iff (by decide) (by decide)).mpr (Nat.lt_trans h (by decide))
  have hlog : n.log2 < 53 := (Nat.log2_lt hne).mpr h
  have hquotient : ofDecimal false n 0 = ofQuotient false n 1 := by
    rw [ofDecimal, if_neg hne, if_neg (by omega), if_neg (by omega)]
    exact (if_pos (Int.le_refl 0)).trans (congrArg (ofQuotient false · 1) (Nat.mul_one n))
  obtain ⟨j, hj⟩ : ∃ j : Nat, lastBit n.log2 = -(j : Int) := ⟨52 - n.log2, by rw [lastBit]; omega⟩
  have hround (m : Nat) : roundHalfEven m 1 = m := by simp [roundHalfEven, Nat.mod_one]
  -- The bits are moved up to the last place there is room for, and back.
  have hm : (if (0 : Int) ≤ -j then roundHalfEven n (1 <<< (-j : Int).toNat)
      else roundHalfEven (n <<< (- -j : Int).toNat) 1) = n <<< j := by
    rcases Nat.eq_zero_or_pos j with rfl | hpos
    · exact hround n
    · rw [if_neg (by omega), hround, Int.neg_neg, Int.toNat_natCast]
  have hback : (if (0 : Int) ≤ -j then (n <<< j) <<< (-j : Int).toNat
      else (n <<< j) >>> (- -j : Int).toNat) = n := by
    rcases Nat.eq_zero_or_pos j with rfl | hpos
    · rfl
    · rw [if_neg (by omega), Int.neg_neg, Int.toNat_natCast, Nat.shiftLeft_shiftRight]
  have hroom : ¬ 1 <<< 1024 ≤ n := by
    have hpow (k : Nat) : 0x20000000000000 ≤ 1 <<< (53 + k) := by
      rw [Nat.one_shiftLeft, Nat.pow_add]
      exact Nat.le_mul_of_pos_right _ (Nat.pow_pos (by decide))
    exact Nat.not_le.mpr (Nat.lt_of_lt_of_le h (hpow 971))
  rw [Holds, hquotient, ofQuotient, if_neg hne, exponent_natCast hne, hj]
  change (if 1 <<< 1024 ≤ _ then _ else _) = _
  rw [hm, hback, if_neg hroom]
  have hinteger : Dyadic.ofIntWithPrec ((n : Int) <<< j) (0 + j) = (n : Int) :=
    Dyadic.ofIntWithPrec_shiftLeft_add
  rw [Int.zero_add] at hinteger
  rw [Int.neg_neg]
  exact congrArg Binary64.finite hinteger

end Binary64

/-! ## Reading digits -/

namespace Literal

open Binary64 (ofDecimal)

/-- The number that decimal digits make up. -/
abbrev number (cs : List Char) : Nat := Nat.ofDigitChars 10 cs 0

theorem digit?_of_isDigit {c : Char} (h : c.isDigit) : digit? 10 c = some (c.toNat - 48) := by
  obtain ⟨h0, h1⟩ : 48 ≤ c.toNat ∧ c.toNat ≤ 57 := Char.isDigit_iff_toNat.mp h
  have hlt : c.toNat - 48 < 10 := by omega
  simp only [digit?, h0, h1, and_self, if_true, hlt]

/-- Digits are read up to what is no digit. -/
theorem spanDigits_append {cs rest : List Char} (hcs : ∀ c ∈ cs, c.isDigit)
    (hrest : spanDigits 10 rest = ([], rest)) :
    spanDigits 10 (cs ++ rest) = (cs.map (·.toNat - 48), rest) := by
  induction cs with
  | nil => exact hrest
  | cons c cs ih =>
    obtain ⟨hc, hcs⟩ := List.forall_mem_cons.mp hcs
    rw [List.cons_append, spanDigits, digit?_of_isDigit hc, ih hcs]
    rfl

theorem spanDigits_digits {cs : List Char} (hcs : ∀ c ∈ cs, c.isDigit) :
    spanDigits 10 cs = (cs.map (·.toNat - 48), []) := by
  have h : spanDigits 10 (cs ++ []) = _ := spanDigits_append hcs rfl
  rwa [List.append_nil] at h

theorem valueOf_map (cs : List Char) : valueOf 10 (cs.map (·.toNat - 48)) = number cs := by
  rw [valueOf, number, Nat.ofDigitChars_eq_foldl, List.foldl_map]
  simp only [Nat.mul_comm]
  rfl

/-- A decimal without a point. -/
theorem readDecimal_of_whole {cs rest : List Char} {d : Nat} {ds : List Nat} {e : Int}
    (hwhole : spanDigits 10 cs = (d :: ds, rest)) (hpoint : ∀ more, rest ≠ '.' :: more)
    (hexponent : exponent? rest = some e) :
    readDecimal false cs = ofDecimal false (valueOf 10 (d :: ds)) e := by
  unfold readDecimal
  rw [hwhole]
  simp only [hexponent, List.append_nil, List.length_nil, Int.natCast_zero, Int.sub_zero]

/-- A decimal with a point. -/
theorem readDecimal_of_point {cs more exponent : List Char} {d : Nat} {ds part : List Nat} {e : Int}
    (hwhole : spanDigits 10 cs = (d :: ds, '.' :: more))
    (hpart : spanDigits 10 more = (part, exponent)) (hexponent : exponent? exponent = some e) :
    readDecimal false cs = ofDecimal false (valueOf 10 (d :: ds ++ part)) (e - part.length) := by
  unfold readDecimal
  rw [hwhole]
  simp only [hpart, hexponent, List.cons_append]

/-- **Digits alone** are read as the number they make up. -/
theorem readDecimal_digits {cs : List Char} (hne : cs ≠ []) (hcs : ∀ c ∈ cs, c.isDigit) :
    readDecimal false cs = ofDecimal false (number cs) 0 := by
  obtain ⟨c, cs, rfl⟩ := List.exists_cons_of_ne_nil hne
  have h := readDecimal_of_whole (spanDigits_digits hcs) (by simp) rfl
  rw [h, ← valueOf_map]
  rfl

theorem exponent?_plus (p : Nat) :
    exponent? ('e' :: '+' :: Nat.toDigits 10 p) = some (p : Int) := by
  have hdigits : ∀ c ∈ Nat.toDigits 10 p, c.isDigit := fun c =>
    Nat.isDigit_of_mem_toDigits (by decide) (by decide)
  have hspan := spanDigits_digits hdigits
  obtain ⟨c, cs, hcs⟩ := List.exists_cons_of_ne_nil (Nat.toDigits_ne_nil (n := p) (b := 10))
  have hvalue := (valueOf_map (Nat.toDigits 10 p)).trans Nat.ofDigitChars_ten_toDigits
  rw [hcs, List.map_cons] at hspan hvalue
  simp [exponent?, spanSign, hcs, hspan, hvalue]

/-- **Digits and a power of ten**: the point is behind the first digit. -/
theorem readDecimal_scientific {c : Char} {cs : List Char} (hc : c.isDigit)
    (hcs : ∀ c ∈ cs, c.isDigit) (p : Nat) :
    readDecimal false ([c] ++ (if (c :: cs).length = 1 then [] else '.' :: cs)
        ++ 'e' :: '+' :: Nat.toDigits 10 p)
      = ofDecimal false (number (c :: cs)) (p - cs.length) := by
  have hsingle : ∀ d ∈ [c], d.isDigit := List.forall_mem_singleton.mpr hc
  cases cs with
  | nil =>
    have hwhole : spanDigits 10 ([c] ++ 'e' :: '+' :: Nat.toDigits 10 p) = _ :=
      spanDigits_append hsingle rfl
    have h := readDecimal_of_whole hwhole (by simp) (exponent?_plus p)
    exact h.trans (congrArg (ofDecimal false · p) (valueOf_map [c]))
  | cons d ds =>
    have hpart : spanDigits 10 (d :: ds ++ 'e' :: '+' :: Nat.toDigits 10 p) = _ :=
      spanDigits_append hcs rfl
    have hwhole : spanDigits 10 ([c] ++ '.' :: (d :: ds ++ 'e' :: '+' :: Nat.toDigits 10 p)) = _ :=
      spanDigits_append hsingle rfl
    have h := readDecimal_of_point hwhole hpart (exponent?_plus p)
    have hvalue := valueOf_map (c :: d :: ds)
    rw [List.length_map] at h
    exact h.trans (congrArg (ofDecimal false · (p - (d :: ds).length)) hvalue)

end Literal

/-! ## Powers of ten -/

theorem toDigits_mul_pow {m : Nat} (hm : 0 < m) (k : Nat) :
    Nat.toDigits 10 (m * 10 ^ k) = Nat.toDigits 10 m ++ List.replicate k '0' := by
  induction k with
  | zero => rw [Nat.pow_zero, Nat.mul_one, List.replicate_zero, List.append_nil]
  | succ k ih =>
    have hpos : 0 < m * 10 ^ k := Nat.mul_pos hm (Nat.pow_pos (by decide))
    have hlast := Nat.toDigits_append_toDigits (b := 10) (by decide) hpos (d := 0) (by decide)
    rw [ih, Nat.add_zero, Nat.toDigits_zero, List.append_assoc, ← List.replicate_succ'] at hlast
    rw [hlast, Nat.pow_succ, ← Nat.mul_assoc, Nat.mul_comm 10]

namespace Binary64

/-- A decimal is the same with its power of ten in the digits. -/
theorem ofDecimal_mul_pow (m k : Nat) : ofDecimal false m k = ofDecimal false (m * 10 ^ k) 0 := by
  rcases Nat.eq_zero_or_pos m with rfl | hm
  · rw [Nat.zero_mul]
    rfl
  · have hpos : m * 10 ^ k ≠ 0 := Nat.ne_of_gt (Nat.mul_pos hm (Nat.pow_pos (by decide)))
    have hplaces : ((Nat.toDigits 10 (m * 10 ^ k)).length : Int) + 0
        = (Nat.toDigits 10 m).length + k := by
      rw [toDigits_mul_pow hm, List.length_append, List.length_replicate]
      omega
    have hfactor : m * 10 ^ k * Nat.pow 10 0 = m * Nat.pow 10 k := Nat.mul_one _
    have hk : (0 : Int) ≤ k := Int.natCast_nonneg k
    simp only [ofDecimal, hpos, Nat.ne_of_gt hm, if_false, hplaces, hk, if_true, Int.le_refl,
      Int.toNat_natCast, Int.toNat_zero, hfactor]

end Binary64

namespace Shortest

open Binary64 (ofDecimal Holds)
open Literal (number readDecimal)

theorem trimZeros_append (digits : List Char) :
    ∃ k, digits = trimZeros digits ++ List.replicate k '0' := by
  have hsplit := List.takeWhile_append_dropWhile (p := (· = '0')) (l := digits.reverse)
  have hzeros : digits.reverse.takeWhile (· = '0')
      = List.replicate (digits.reverse.takeWhile (· = '0')).length '0' :=
    List.eq_replicate_iff.mpr
      ⟨rfl, fun c hc => of_decide_eq_true (List.all_eq_true.mp List.all_takeWhile c hc)⟩
  have h := congrArg List.reverse hsplit
  rw [List.reverse_append, List.reverse_reverse, hzeros, List.reverse_replicate] at h
  exact ⟨_, h.symm⟩

/-- **Either layout reads back**, written out or with a power of ten behind it. -/
theorem readDecimal_layOut {m : Nat} (hm : 0 < m) (e : Nat) :
    readDecimal false (layOut (trimZeros (Nat.toDigits 10 m)) ((Nat.toDigits 10 m).length + e))
      = ofDecimal false m e := by
  obtain ⟨k, hk⟩ := trimZeros_append (Nat.toDigits 10 m)
  generalize trimZeros (Nat.toDigits 10 m) = digits at hk
  have hdigits : ∀ c ∈ digits, c.isDigit := fun c hc =>
    Nat.isDigit_of_mem_toDigits (b := 10) (n := m) (by decide) (by decide)
      (hk ▸ List.mem_append_left _ hc)
  have hvalue : m = number digits * 10 ^ k := by
    have h := Nat.ofDigitChars_ten_toDigits (n := m)
    rw [hk, Nat.ofDigitChars_append, Nat.ofDigitChars_replicate_zero, Nat.mul_comm] at h
    exact h.symm
  have hpoint : ((Nat.toDigits 10 m).length : Int) + e = digits.length + (k + e : Nat) := by
    rw [hk, List.length_append, List.length_replicate]
    omega
  have hsame : ofDecimal false m e = ofDecimal false (number digits) (k + e : Nat) := by
    rw [Binary64.ofDecimal_mul_pow, Binary64.ofDecimal_mul_pow, hvalue, Nat.mul_assoc, Nat.pow_add]
  rw [hpoint, hsame]
  obtain ⟨c, cs, rfl⟩ : ∃ c cs, digits = c :: cs := by
    cases digits with
    | nil => exact absurd hvalue (by simp [number]; omega)
    | cons c cs => exact ⟨c, cs, rfl⟩
  obtain ⟨hc, hcs⟩ := List.forall_mem_cons.mp hdigits
  unfold layOut
  split
  case isTrue =>
    -- Written out, with as many zeros as its power of ten has.
    have hzeros : (((c :: cs).length : Int) + (k + e : Nat)).toNat - (c :: cs).length = k + e := by
      omega
    have hall : ∀ d ∈ c :: cs ++ List.replicate (k + e) '0', d.isDigit :=
      List.forall_mem_append.mpr ⟨hdigits, fun d hd => List.eq_of_mem_replicate hd ▸ rfl⟩
    rw [hzeros, Literal.readDecimal_digits (by simp) hall, number, Nat.ofDigitChars_append,
      Nat.ofDigitChars_replicate_zero, Binary64.ofDecimal_mul_pow, Nat.mul_comm]
  case isFalse hlong =>
    have hlong : 21 < ((c :: cs).length : Int) + (k + e : Nat) := by omega
    have hsign : 0 < ((c :: cs).length : Int) + (k + e : Nat) := by omega
    rw [if_neg (by omega), if_neg (by omega), if_pos hsign]
    have hexponent : (((c :: cs).length : Int) + (k + e : Nat) - 1).natAbs
        = cs.length + (k + e) := by
      rw [List.length_cons]
      omega
    rw [hexponent]
    refine (Literal.readDecimal_scientific hc hcs _).trans (congrArg (ofDecimal false _) ?_)
    omega

/-! ## The decimal of a number -/

/-- A factor reads back by the choice of it. -/
theorem ofDecimal_of_factor? {x : Dyadic} {e : Int} {m : Nat} (h : factor? x e = some m) :
    ofDecimal (x.toRat.num < 0) m e = .finite x :=
  of_decide_eq_true (List.find?_some (p := fun m => ofDecimal (x.toRat.num < 0) m e = .finite x) h)

/-- The number itself is among its neighbours. -/
theorem factor?_zero {n : Nat} (hn : Holds n) : (factor? (n : Int) 0).isSome := by
  rw [factor?, Dyadic.toRat_intCast]
  refine List.find?_isSome.mpr ⟨n, ?_, ?_⟩
  · have hnear : Binary64.roundHalfEven n 1 = n := by
      simp [Binary64.roundHalfEven, Nat.mod_one]
    simp [neighbours, hnear]
  · have hsign : ¬ ((n : Int) : Rat).num < 0 := by simp
    simp only [hsign, decide_false]
    exact decide_eq_true hn

theorem places_natCast {n : Nat} (hn : 0 < n) : places n 1 = (Nat.toDigits 10 n).length := by
  rw [places, if_pos (Nat.succ_le_of_lt hn), Nat.div_one]

/-- What is found first among numbers is not found at a smaller one. -/
theorem exists_of_findSome?_range {α : Type} {f : Nat → Option α} {n : Nat} {x : α}
    (h : (List.range n).findSome? f = some x) : ∃ k, f k = some x ∧ ∀ j < k, f j = none := by
  obtain ⟨before, k, behind, hrange, hk, hnone⟩ := List.findSome?_eq_some_iff.mp h
  refine ⟨k, hk, fun j hj => hnone j ?_⟩
  have hsorted := hrange ▸ List.pairwise_lt_range (n := n)
  have hbehind := (List.pairwise_append.mp hsorted).2.1
  have hkn : k ∈ List.range n := hrange ▸ List.mem_append_right _ List.mem_cons_self
  have hmem : j ∈ before ++ k :: behind :=
    hrange ▸ List.mem_range.mpr (Nat.lt_trans hj (List.mem_range.mp hkn))
  rcases List.mem_append.mp hmem with hmem | hmem
  · exact hmem
  · rcases List.mem_cons.mp hmem with rfl | hmem
    · exact absurd hj (Nat.lt_irrefl j)
    · exact absurd (List.rel_of_pairwise_cons hbehind hmem) (Nat.lt_asymm hj)

/-- **The decimal of a natural number that a double holds** is a natural number with a power of ten,
and it reads back. -/
theorem decimal_natCast {n : Nat} (h0 : 0 < n) (hn : Holds n) :
    ∃ m e : Nat, decimal (n : Int) = (m, (e : Int)) ∧ ofDecimal false m e = .finite (n : Int) := by
  have hnum : ((n : Int) : Rat).num.natAbs = n := by simp
  have hden : ((n : Int) : Rat).den = 1 := by simp
  rw [decimal, Dyadic.toRat_intCast]
  simp only [hnum, hden, places_natCast h0]
  generalize hfound : (List.range 17).findSome? _ = found
  cases found with
  | none =>
    have hlog : Nat.log2 1 = 0 := by decide
    exact ⟨n, 0, by rw [Option.getD_none, hlog, Nat.pow_eq, Nat.pow_zero, Nat.mul_one]; rfl, hn⟩
  | some decimal =>
    obtain ⟨k, hk, hnone⟩ := exists_of_findSome?_range hfound
    obtain ⟨m, hm, rfl⟩ := Option.map_eq_some_iff.mp hk
    -- With as many digits as there are places the number itself has been found already.
    have hlength : k + 1 ≤ (Nat.toDigits 10 n).length := by
      refine Nat.not_lt.mp fun hlt => ?_
      have hpos := Nat.length_toDigits_pos (b := 10) (n := n)
      have hexact := hnone ((Nat.toDigits 10 n).length - 1) (by omega)
      have hzero : ((Nat.toDigits 10 n).length : Int)
          - (((Nat.toDigits 10 n).length - 1 : Nat) + 1) = 0 := by omega
      rw [hzero, Option.map_eq_none_iff] at hexact
      have hsome := factor?_zero hn
      rw [hexact] at hsome
      cases hsome
    refine ⟨m, (Nat.toDigits 10 n).length - (k + 1), ?_, ?_⟩
    · rw [Option.getD_some, Int.natCast_sub hlength]
      rfl
    · have hread := ofDecimal_of_factor? hm
      have hsign : ¬ ((n : Int) : Rat).num < 0 := by simp
      rw [Dyadic.toRat_intCast, decide_eq_false hsign] at hread
      rw [Int.natCast_sub hlength]
      exact hread

/-! ## The text of a number -/

/-- The text of a natural number is its digits, or the layout of a decimal that reads back. -/
theorem ofInt_cases {n : Nat} (hn : Holds n) :
    (ofInt n).toList = Nat.toDigits 10 n
      ∨ ∃ m e : Nat, 0 < m ∧ ofDecimal false m e = .finite (n : Int)
        ∧ (ofInt n).toList
          = layOut (trimZeros (Nat.toDigits 10 m)) ((Nat.toDigits 10 m).length + e) := by
  by_cases hsmall : n ≤ 0x20000000000000
  · left
    rw [ofInt_of_natAbs_le (n := n) hsmall]
    exact (congrArg String.toList Nat.toString_eq_ofList_toDigits).trans String.toList_ofList
  · right
    have h0 : 0 < n := by omega
    obtain ⟨m, e, hdecimal, hread⟩ := decimal_natCast h0 hn
    refine ⟨m, e, Nat.pos_of_ne_zero fun hm => ?_, hread, ?_⟩
    · rw [hm] at hread
      have hzero : ((0 : Int) : Dyadic) = (n : Int) := Binary64.finite.inj hread
      have hwhole := congrArg whole? hzero
      rw [whole?_intCast, whole?_intCast, Option.some.injEq] at hwhole
      omega
    · have hlarge : ((some (n : Int)).filter (·.natAbs ≤ 0x20000000000000)) = none := by
        simp [Option.filter]
        omega
      have hsign : ¬ ((n : Int) : Dyadic) < 0 := by
        rw [← Dyadic.toRat_lt_toRat_iff, Dyadic.toRat_intCast, Dyadic.toRat_zero, Rat.not_lt]
        exact Rat.intCast_nonneg.mpr (Int.natCast_nonneg n)
      rw [ofInt, ofDyadic, whole?_intCast, hlarge]
      simp only [hdecimal, hsign, if_false, List.nil_append, String.toList_ofList]

/-- **The text of a natural number that a double holds reads back.** -/
theorem readDecimal_ofInt {n : Nat} (hn : Holds n) :
    readDecimal false (ofInt n).toList = .finite (n : Int) := by
  rcases ofInt_cases hn with htext | ⟨m, e, hm, hread, htext⟩
  · have hdigits : ∀ c ∈ Nat.toDigits 10 n, c.isDigit := fun c =>
      Nat.isDigit_of_mem_toDigits (by decide) (by decide)
    rw [htext, Literal.readDecimal_digits Nat.toDigits_ne_nil hdigits, number,
      Nat.ofDigitChars_ten_toDigits]
    exact hn
  · rw [htext, readDecimal_layOut hm, hread]

/-- A digit, a point, or what a power of ten needs. -/
def Occurs (c : Char) : Prop := c.isDigit ∨ c ∈ ['.', 'e', '+', '-']

/-- **The characters of a layout.** -/
theorem mem_layOut {digits : List Char} {point : Int} (hdigits : ∀ c ∈ digits, c.isDigit) :
    ∀ c ∈ layOut digits point, Occurs c := by
  have htext : ∀ c ∈ digits, Occurs c := fun c hc => .inl (hdigits c hc)
  have hdrop (k : Nat) : ∀ c ∈ '.' :: digits.drop k, Occurs c :=
    List.forall_mem_cons.mpr ⟨.inr (by decide), fun c hc => htext c (List.mem_of_mem_drop hc)⟩
  have htake (k : Nat) : ∀ c ∈ digits.take k, Occurs c := fun c hc =>
    htext c (List.mem_of_mem_take hc)
  have hzeros (k : Nat) : ∀ c ∈ List.replicate k '0', Occurs c := fun c hc =>
    .inl (List.eq_of_mem_replicate hc ▸ rfl)
  unfold layOut
  split
  · exact List.forall_mem_append.mpr ⟨htext, hzeros _⟩
  split
  · exact List.forall_mem_append.mpr ⟨htake _, hdrop _⟩
  split
  · refine List.forall_mem_append.mpr ⟨?_, htext⟩
    exact List.forall_mem_cons.mpr ⟨.inl rfl, List.forall_mem_cons.mpr ⟨.inr (by decide), hzeros _⟩⟩
  refine List.forall_mem_append.mpr ⟨List.forall_mem_append.mpr ⟨htake 1, ?_⟩,
    List.forall_mem_cons.mpr ⟨.inr (by decide), List.forall_mem_cons.mpr ⟨?_, fun c hc => ?_⟩⟩⟩
  · split
    · exact nofun
    · exact hdrop 1
  · split <;> exact .inr (by decide)
  · exact .inl (Nat.isDigit_of_mem_toDigits (by decide) (by decide) hc)

theorem mem_ofInt {n : Nat} (hn : Holds n) : ∀ c ∈ (ofInt n).toList, Occurs c := by
  rcases ofInt_cases hn with htext | ⟨m, e, -, -, htext⟩
  · rw [htext]
    exact fun c hc => .inl (Nat.isDigit_of_mem_toDigits (by decide) (by decide) hc)
  · rw [htext]
    obtain ⟨k, hk⟩ := trimZeros_append (Nat.toDigits 10 m)
    refine mem_layOut fun c hc => ?_
    exact Nat.isDigit_of_mem_toDigits (b := 10) (n := m) (by decide) (by decide)
      (hk ▸ List.mem_append_left _ hc)

end Shortest

end ChipEight
