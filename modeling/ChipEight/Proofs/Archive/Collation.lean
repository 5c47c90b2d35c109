import ChipEight.Archive.Collation

/-!
# Proofs/Archive/Collation — the alphabetical order is one

Comparing names twice gives a total preorder (`before_trans`, `before_total`).  A printable
character is told by its rank and its case, so names of such characters that come both before and
behind each other are the same (`before_antisymm`): on them the order is total.
-/

namespace ChipEight.Collation

/-! ## Rows of numbers -/

/-- The first difference decides. -/
theorem rowBefore_cons {a b : Nat} {as bs : List Nat} :
    rowBefore (a :: as) (b :: bs) ↔ a < b ∨ a = b ∧ rowBefore as bs := by
  rw [rowBefore]
  split
  case isTrue h => simp only [h, Nat.lt_irrefl, true_and, false_or]
  case isFalse h => simp only [h, decide_eq_true_iff, false_and, or_false]

theorem rowBefore_total (as bs : List Nat) : rowBefore as bs ∨ rowBefore bs as := by
  induction as generalizing bs with
  | nil => exact .inl rfl
  | cons a as ih =>
    cases bs with
    | nil => exact .inr rfl
    | cons b bs =>
      simp only [rowBefore_cons]
      rcases Nat.lt_trichotomy a b with h | rfl | h
      · exact .inl (.inl h)
      · exact (ih bs).imp (fun h => .inr ⟨rfl, h⟩) fun h => .inr ⟨rfl, h⟩
      · exact .inr (.inl h)

theorem rowBefore_trans {as bs cs : List Nat} (h : rowBefore as bs) (h' : rowBefore bs cs) :
    rowBefore as cs := by
  induction as generalizing bs cs with
  | nil => rfl
  | cons a as ih =>
    cases bs with
    | nil => cases h
    | cons b bs =>
      cases cs with
      | nil => cases h'
      | cons c cs =>
        rw [rowBefore_cons] at h h' ⊢
        rcases h with hlt | ⟨rfl, h⟩
        · exact .inl (h'.elim (Nat.lt_trans hlt) fun h' => h'.1 ▸ hlt)
        · exact h'.imp_right fun h' => ⟨h'.1, ih h h'.2⟩

theorem rowBefore_antisymm {as bs : List Nat} (h : rowBefore as bs) (h' : rowBefore bs as) :
    as = bs := by
  induction as generalizing bs with
  | nil =>
    cases bs with
    | nil => rfl
    | cons => cases h'
  | cons a as ih =>
    cases bs with
    | nil => cases h
    | cons b bs =>
      rw [rowBefore_cons] at h h'
      rcases h with hlt | ⟨rfl, h⟩
      · omega
      · rw [ih h (h'.resolve_left (Nat.lt_irrefl a)).2]

/-! ## Names -/

theorem before_of_ranks_eq {a b : String} (h : ranks a = ranks b) :
    before a b = rowBefore (capitals a) (capitals b) := if_pos h

theorem before_of_ranks_ne {a b : String} (h : ranks a ≠ ranks b) :
    before a b = rowBefore (ranks a) (ranks b) := if_neg h

/-- A name that comes no later has ranks that come no later. -/
theorem rowBefore_ranks {a b : String} (h : before a b) : rowBefore (ranks a) (ranks b) := by
  by_cases hranks : ranks a = ranks b
  · rw [hranks]
    exact (rowBefore_total _ _).elim id id
  · rwa [before_of_ranks_ne hranks] at h

theorem before_total (a b : String) : before a b || before b a := by
  rw [Bool.or_eq_true]
  by_cases h : ranks a = ranks b
  · rw [before_of_ranks_eq h, before_of_ranks_eq h.symm]
    exact rowBefore_total _ _
  · rw [before_of_ranks_ne h, before_of_ranks_ne (Ne.symm h)]
    exact rowBefore_total _ _

theorem before_refl (a : String) : before a a :=
  (Bool.or_eq_true _ _ ▸ before_total a a).elim id id

theorem before_trans (a b c : String) (h : before a b) (h' : before b c) : before a c := by
  have hranks := rowBefore_trans (rowBefore_ranks h) (rowBefore_ranks h')
  by_cases hac : ranks a = ranks c
  · -- Ranks between two equal ones are equal to both.
    have hab : ranks a = ranks b :=
      rowBefore_antisymm (rowBefore_ranks h) (hac ▸ rowBefore_ranks h')
    rw [before_of_ranks_eq hab] at h
    rw [before_of_ranks_eq (hab.symm.trans hac)] at h'
    rw [before_of_ranks_eq hac]
    exact rowBefore_trans h h'
  · rwa [before_of_ranks_ne hac]

/-! ## Printable names -/

/-- The characters from the blank up to the tilde. -/
def IsPrintable (c : Char) : Prop := 0x20 ≤ c.toNat ∧ c.toNat < 0x7F

instance (c : Char) : Decidable (IsPrintable c) := inferInstanceAs (Decidable (_ ∧ _))

def Printable (name : String) : Prop := ∀ c ∈ name.toList, IsPrintable c

instance (name : String) : Decidable (Printable name) := List.decidableBAll _ name.toList

/-- The character of a rank, as a capital or not. -/
def ofRank (rank : Nat) (capital : Bool) : Option Char :=
  ranked[rank]?.map fun c => if capital then c.toUpper else c

theorem ofRank_rank?_ofNat : ∀ n < 0x7F, 0x20 ≤ n →
    ((rank? (Char.ofNat n)).bind fun r => ofRank r (Char.ofNat n).isUpper)
      = some (Char.ofNat n) := by
  decide +kernel

/-- **Rank and case tell a printable character.** -/
theorem ofRank_rank? {c : Char} (hc : IsPrintable c) :
    ((rank? c).bind fun r => ofRank r c.isUpper) = some c := by
  have h := ofRank_rank?_ofNat c.toNat hc.2 hc.1
  rwa [Char.ofNat_toNat] at h

theorem exists_rank? {c : Char} (hc : IsPrintable c) : ∃ r, rank? c = some r := by
  obtain ⟨r, hr, -⟩ := Option.bind_eq_some_iff.mp (ofRank_rank? hc)
  exact ⟨r, hr⟩

theorem eq_of_rank? {c d : Char} (hc : IsPrintable c) (hd : IsPrintable d)
    (hrank : rank? c = rank? d) (hcase : c.isUpper = d.isUpper) : c = d := by
  have h := ofRank_rank? hc
  rw [hrank, hcase, ofRank_rank? hd] at h
  exact (Option.some.inj h).symm

theorem eq_of_toNat : ∀ {p q : Bool}, p.toNat = q.toNat → p = q := by decide

/-- Printable characters that look the same to both comparisons are the same. -/
theorem eq_of_ranks {as bs : List Char} (has : ∀ c ∈ as, IsPrintable c)
    (hbs : ∀ c ∈ bs, IsPrintable c) (hranks : as.filterMap rank? = bs.filterMap rank?)
    (hcases : as.map (·.isUpper.toNat) = bs.map (·.isUpper.toNat)) : as = bs := by
  induction as generalizing bs with
  | nil => exact (List.map_eq_nil_iff.mp hcases.symm).symm
  | cons c as ih =>
    cases bs with
    | nil => cases hcases
    | cons d bs =>
      obtain ⟨hc, has⟩ := List.forall_mem_cons.mp has
      obtain ⟨hd, hbs⟩ := List.forall_mem_cons.mp hbs
      obtain ⟨r, hr⟩ := exists_rank? hc
      obtain ⟨q, hq⟩ := exists_rank? hd
      rw [List.filterMap_cons_some hr, List.filterMap_cons_some hq] at hranks
      obtain ⟨hrank, hranks⟩ := List.cons.inj hranks
      obtain ⟨hcase, hcases⟩ := List.cons.inj hcases
      have hsame : rank? c = rank? d := by rw [hr, hq, hrank]
      rw [eq_of_rank? hc hd hsame (eq_of_toNat hcase), ih has hbs hranks hcases]

theorem capitals_of_printable {name : String} (h : Printable name) :
    capitals name = name.toList.map (·.isUpper.toNat) := by
  have hall : (name.toList.filter fun c => (rank? c).isSome) = name.toList := by
    refine List.filter_eq_self.mpr fun c hc => ?_
    obtain ⟨r, hr⟩ := exists_rank? (h c hc)
    rw [hr, Option.isSome_some]
  rw [capitals, hall]

/-- **Of two printable names one comes later**, unless they are the same. -/
theorem before_antisymm {a b : String} (ha : Printable a) (hb : Printable b) (h : before a b)
    (h' : before b a) : a = b := by
  have hranks := rowBefore_antisymm (rowBefore_ranks h) (rowBefore_ranks h')
  rw [before_of_ranks_eq hranks] at h
  rw [before_of_ranks_eq hranks.symm] at h'
  have hcases := rowBefore_antisymm h h'
  rw [capitals_of_printable ha, capitals_of_printable hb] at hcases
  exact String.toList_injective (eq_of_ranks ha hb hranks hcases)

end ChipEight.Collation
