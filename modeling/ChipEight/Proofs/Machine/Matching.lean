import ChipEight.Machine.Step

/-!
# Proofs/Machine/Matching — calls and returns as brackets

In a sequence of executed instructions calls open and returns close.  `Balanced` is the grammar of
the sequences in which they match, `pending` keeps the calls whose return is not there yet, and the
last section says what one more instruction does to them.
-/

namespace ChipEight

namespace Fetched

def isCall (f : Fetched) : Bool :=
  match f.instruction with
  | .call _ => true
  | _ => false

def isReturn (f : Fetched) : Bool :=
  match f.instruction with
  | .ret => true
  | _ => false

theorem isCall_iff {f : Fetched} : f.isCall ↔ ∃ a, f.instruction = .call a := by
  unfold isCall
  split
  case h_1 a heq => exact iff_of_true rfl ⟨a, heq⟩
  case h_2 hne => exact iff_of_false Bool.false_ne_true fun ⟨a, ha⟩ => hne a ha

theorem isReturn_iff {f : Fetched} : f.isReturn ↔ f.instruction = .ret := by
  unfold isReturn
  split
  case h_1 heq => exact iff_of_true rfl heq
  case h_2 hne => exact iff_of_false Bool.false_ne_true hne

theorem isCall_of_isReturn {f : Fetched} (h : f.isReturn) : f.isCall = false := by
  rw [isCall, isReturn_iff.mp h]

end Fetched

namespace Matching

/-! ## The grammar -/

/-- **Sequences in which every call has its return**, and every return its call. -/
inductive Balanced : List Fetched → Prop
  | nil : Balanced []
  | plain {f : Fetched} {fs : List Fetched} (hcall : f.isCall = false) (hret : f.isReturn = false)
      (h : Balanced fs) : Balanced (f :: fs)
  | nest {c r : Fetched} {inner rest : List Fetched} (hcall : c.isCall) (hret : r.isReturn)
      (hinner : Balanced inner) (hrest : Balanced rest) : Balanced (c :: inner ++ r :: rest)

/-- The return of a call, in what is executed after it. -/
def Returns (later : List Fetched) : Prop :=
  ∃ inner r rest, later = inner ++ r :: rest ∧ Balanced inner ∧ r.isReturn

/-! ## Counting from the end -/

/-- How many returns have no call before them. -/
def unmatched : List Fetched → Nat
  | [] => 0
  | f :: fs =>
    if f.isCall then unmatched fs - 1 else if f.isReturn then unmatched fs + 1 else unmatched fs

section

variable {f : Fetched}

theorem unmatched_call (h : f.isCall) (fs : List Fetched) :
    unmatched (f :: fs) = unmatched fs - 1 := if_pos h

theorem unmatched_return (h : f.isReturn) (fs : List Fetched) :
    unmatched (f :: fs) = unmatched fs + 1 := by
  rw [unmatched, if_neg (Fetched.isCall_of_isReturn h ▸ Bool.false_ne_true), if_pos h]

theorem unmatched_plain (hcall : f.isCall = false) (hret : f.isReturn = false)
    (fs : List Fetched) : unmatched (f :: fs) = unmatched fs := by
  rw [unmatched, if_neg (hcall ▸ Bool.false_ne_true), if_neg (hret ▸ Bool.false_ne_true)]

theorem unmatched_append_of_balanced {inner : List Fetched} (h : Balanced inner)
    (fs : List Fetched) : unmatched (inner ++ fs) = unmatched fs := by
  induction h generalizing fs with
  | nil => rfl
  | plain hcall hret _ ih => rw [List.cons_append, unmatched_plain hcall hret, ih]
  | @nest c r inner rest hcall hret _ _ ihinner ihrest =>
    rw [List.append_assoc, List.cons_append, List.cons_append, unmatched_call hcall, ihinner,
      unmatched_return hret, ihrest, Nat.add_sub_cancel]

end

/-- **A call has its return exactly when one is left over behind it.** -/
theorem returns_iff (later : List Fetched) : Returns later ↔ 0 < unmatched later := by
  constructor
  · rintro ⟨inner, r, rest, rfl, hinner, hret⟩
    rw [unmatched_append_of_balanced hinner, unmatched_return hret]
    exact Nat.succ_pos _
  · -- Behind a call the search goes on after the return of that call, so the induction is on the
    -- length.
    induction hn : later.length using Nat.strongRecOn generalizing later with
    | ind n ih =>
      intro hpos
      cases later with
      | nil => exact absurd hpos (Nat.lt_irrefl 0)
      | cons f fs =>
        have hfs : fs.length < n := hn ▸ Nat.lt_succ_self fs.length
        by_cases hret : f.isReturn
        · exact ⟨[], f, fs, rfl, .nil, hret⟩
        by_cases hcall : f.isCall
        · rw [unmatched_call hcall] at hpos
          obtain ⟨inner, r, rest, rfl, hinner, hr⟩ := ih _ hfs fs rfl (by omega)
          rw [unmatched_append_of_balanced hinner, unmatched_return hr] at hpos
          have hrest : rest.length < n := by
            rw [List.length_append, List.length_cons] at hfs
            omega
          obtain ⟨inner', r', rest', rfl, hinner', hr'⟩ := ih _ hrest rest rfl (by omega)
          refine ⟨f :: inner ++ r :: inner', r', rest', ?_, .nest hcall hr hinner hinner', hr'⟩
          simp only [List.cons_append, List.append_assoc]
        · rw [Bool.not_eq_true] at hcall hret
          rw [unmatched_plain hcall hret] at hpos
          obtain ⟨inner, r, rest, rfl, hinner, hr⟩ := ih _ hfs fs rfl hpos
          exact ⟨f :: inner, r, rest, rfl, .plain hcall hret hinner, hr⟩

instance (later : List Fetched) : Decidable (Returns later) :=
  decidable_of_iff _ (returns_iff later).symm

/-! ## Pending calls -/

/-- **The calls that have not returned yet**, oldest first. -/
def pending : List Fetched → List Fetched
  | [] => []
  | f :: fs => if f.isCall ∧ ¬ Returns fs then f :: pending fs else pending fs

section

variable {f : Fetched}

theorem pending_call (h : f.isCall) (fs : List Fetched) :
    pending (f :: fs) = if unmatched fs = 0 then f :: pending fs else pending fs := by
  have hiff : ¬ Returns fs ↔ unmatched fs = 0 := by rw [returns_iff]; omega
  simp only [pending, h, hiff, true_and]

theorem pending_other (h : f.isCall = false) (fs : List Fetched) :
    pending (f :: fs) = pending fs := if_neg fun hc => by rw [h] at hc; cases hc.1

/-! ## One more instruction -/

theorem unmatched_snoc_call (h : f.isCall) (fs : List Fetched) :
    unmatched (fs ++ [f]) = unmatched fs := by
  induction fs with
  | nil => rw [List.nil_append, unmatched_call h]; rfl
  | cons g fs ih => rw [List.cons_append, unmatched, unmatched, ih]

/-- A call that was just executed is pending. -/
theorem pending_snoc_call (h : f.isCall) (fs : List Fetched) :
    pending (fs ++ [f]) = pending fs ++ [f] := by
  induction fs with
  | nil => rw [List.nil_append, pending_call h, if_pos (by rfl)]; rfl
  | cons g fs ih =>
    rw [List.cons_append]
    by_cases hg : g.isCall
    · rw [pending_call hg, pending_call hg, unmatched_snoc_call h, ih]
      split <;> rfl
    · rw [Bool.not_eq_true] at hg
      rw [pending_other hg, pending_other hg, ih]

theorem unmatched_snoc_plain (hcall : f.isCall = false) (hret : f.isReturn = false)
    (fs : List Fetched) : unmatched (fs ++ [f]) = unmatched fs := by
  induction fs with
  | nil => rw [List.nil_append, unmatched_plain hcall hret]
  | cons g fs ih => rw [List.cons_append, unmatched, unmatched, ih]

/-- An instruction that neither calls nor returns changes nothing. -/
theorem pending_snoc_plain (hcall : f.isCall = false) (hret : f.isReturn = false)
    (fs : List Fetched) : pending (fs ++ [f]) = pending fs := by
  induction fs with
  | nil => rw [List.nil_append, pending_other hcall]
  | cons g fs ih =>
    rw [List.cons_append]
    by_cases hg : g.isCall
    · rw [pending_call hg, pending_call hg, unmatched_snoc_plain hcall hret, ih]
    · rw [Bool.not_eq_true] at hg
      rw [pending_other hg, pending_other hg, ih]

/-- **A return closes the call that was opened last**, and is left over if none is open. -/
theorem snoc_return (h : f.isReturn) (fs : List Fetched) :
    unmatched (fs ++ [f]) = (if pending fs = [] then unmatched fs + 1 else unmatched fs)
      ∧ pending (fs ++ [f]) = (pending fs).dropLast := by
  have hf : f.isCall = false := Fetched.isCall_of_isReturn h
  induction fs with
  | nil =>
    rw [List.nil_append, unmatched_return h, pending_other hf]
    exact ⟨rfl, rfl⟩
  | cons g fs ih =>
    obtain ⟨hunmatched, hpending⟩ := ih
    rw [List.cons_append]
    by_cases hg : g.isCall
    · rw [unmatched_call hg, unmatched_call hg, pending_call hg, pending_call hg, hunmatched,
        hpending]
      by_cases hnone : pending fs = []
      · -- Either `g` is the only open call and closes now, or it closed before.
        by_cases hzero : unmatched fs = 0
        · simp [hnone, hzero]
        · simp [hnone, hzero, Nat.sub_add_cancel (Nat.pos_of_ne_zero hzero)]
      · by_cases hzero : unmatched fs = 0
        · simp [hnone, hzero, List.dropLast_cons_of_ne_nil hnone]
        · simp [hnone, hzero]
    · rw [Bool.not_eq_true] at hg
      rw [pending_other hg, pending_other hg]
      refine ⟨?_, hpending⟩
      by_cases hret : g.isReturn
      · rw [unmatched_return hret, unmatched_return hret, hunmatched]
        split <;> rfl
      · rw [Bool.not_eq_true] at hret
        rw [unmatched_plain hg hret, unmatched_plain hg hret, hunmatched]

end

end Matching

end ChipEight
