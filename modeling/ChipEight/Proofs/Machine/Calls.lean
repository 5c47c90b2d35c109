import ChipEight.Proofs.Machine.Matching
import ChipEight.Proofs.Machine.Stepping

/-!
# Proofs/Machine/Calls — the call stack along a run

A run is steps and ended key-waits, with anything a host does to the devices in between.  While no
step of it faults, the call stack is what the executed instructions say: the return addresses of
the calls that are pending.
-/

namespace ChipEight

namespace Machine

/-! ## Runs -/

/-- What can happen to a machine. -/
inductive Move where
  | step (random : Int)
  | resume (key : Int)
  /-- What is around the processor changes under it. -/
  | devices (memory : Memory) (screen : Screen) (keypad : Keypad) (timer : Timer)

/-- One move, as a step; only a step executes anything. -/
def move (m : Machine) : Move → Step
  | .step random => m.step random
  | .resume key => ⟨(m.resume key).1, none, .ok (m.resume key).2⟩
  | .devices memory screen keypad timer =>
    ⟨{ m with memory, screen, keypad, timer }, none, .ok true⟩

/-- **The moves of a run**, each with the machine behind it. -/
def trace (m : Machine) : List Move → List Step
  | [] => []
  | v :: vs => m.move v :: (m.move v).machine.trace vs

/-- The machine behind all moves. -/
def after (m : Machine) : List Move → Machine
  | [] => m
  | v :: vs => (m.move v).machine.after vs

/-- The instructions that were executed. -/
def executed (m : Machine) (moves : List Move) : List Fetched :=
  (m.trace moves).filterMap Step.fetched

end Machine

/-- It did not halt. -/
def Step.Succeeds (s : Step) : Prop := ∀ f, s.answer ≠ .error f

namespace Machine

open Matching

/-! ## One move -/

/-- **What a move does to the call stack**, by the instruction it executes. -/
inductive Stacking (m : Machine) (s : Step) : Prop
  | idle (hfetched : s.fetched = none) (hstack : s.machine.stack = m.stack)
  | plain {f : Fetched} (hfetched : s.fetched = some f) (hcall : f.isCall = false)
      (hret : f.isReturn = false) (hstack : s.machine.stack = m.stack)
  | call {f : Fetched} (hfetched : s.fetched = some f) (hcall : f.isCall)
      (hstack : s.machine.stack = { m.stack with entries := (f.pc + 2) :: m.stack.entries })
  | ret {f : Fetched} {a : Int} {rest : List Int} (hfetched : s.fetched = some f)
      (hret : f.isReturn) (hentries : m.stack.entries = a :: rest) (hpc : s.machine.pc = a)
      (hstack : s.machine.stack = { m.stack with entries := rest })

theorem step_stacking {m : Machine} {random : Int} (h : (m.step random).Succeeds) :
    m.Stacking (m.step random) := by
  have hs := m.step_stepping random
  generalize m.step random = s at hs h ⊢
  cases hs with
  | waiting => exact .idle rfl rfl
  | unreadable => exact absurd rfl (h _)
  | unknown => exact absurd rfl (h _)
  | stopped => exact absurd rfl (h _)
  | @executed w i _ hread _ hfault =>
    by_cases hcall : ∃ a, i = .call a
    · obtain ⟨a, rfl⟩ := hcall
      obtain ⟨hpc, hpc0, hpc1⟩ := advance_pc_of_readWord hread
      have hroom : m.advance.stack.depth < m.advance.stack.capacity := by
        rw [← Int.not_le]
        intro hfull
        rw [execute, enter_of_le hfull] at hfault
        cases hfault
      refine .call rfl rfl ?_
      rw [execute, enter_of_lt hroom]
      have hwrap : lowWord m.advance.pc = m.pc + 2 := by
        rw [lowWord_eq_self (by omega) (by omega), hpc]
      exact congrArg (fun a => { m.stack with entries := a :: m.stack.entries }) hwrap
    by_cases hret : i = .ret
    · subst hret
      cases hentries : m.advance.stack.entries with
      | nil =>
        rw [execute, leave_of_nil hentries] at hfault
        cases hfault
      | cons a rest =>
        refine .ret rfl rfl hentries ?_ ?_
        · rw [execute, leave_of_cons hentries]; rfl
        · rw [execute, leave_of_cons hentries]; rfl
    · refine .plain rfl ?_ ?_ (m.advance.execute_stack random (fun a ha => hcall ⟨a, ha⟩) hret)
      · exact Bool.eq_false_iff.mpr fun h => hcall (Fetched.isCall_iff.mp h)
      · exact Bool.eq_false_iff.mpr fun h => hret (Fetched.isReturn_iff.mp h)

theorem move_stacking {m : Machine} {v : Move} (h : (m.move v).Succeeds) :
    m.Stacking (m.move v) := by
  cases v with
  | step random => exact step_stacking h
  | resume key =>
    refine .idle rfl ?_
    rw [move, resume]
    split <;> rfl
  | devices => exact .idle rfl rfl

/-! ## The stack is the list of pending calls -/

theorem executed_cons (m : Machine) (v : Move) (vs : List Move) :
    m.executed (v :: vs) = (m.move v).fetched.toList ++ (m.move v).machine.executed vs := by
  rw [executed, trace, List.filterMap_cons]
  cases (m.move v).fetched <;> rfl

theorem pending_of_stacking {m : Machine} {s : Step} (h : m.Stacking s) {history : List Fetched}
    (hstack : m.stack.toList = (pending history).map (·.pc + 2)) :
    s.machine.stack.toList = (pending (history ++ s.fetched.toList)).map (·.pc + 2) := by
  cases h with
  | idle hfetched hs => rw [hs, hfetched, Option.toList_none, List.append_nil, hstack]
  | plain hfetched hcall hret hs =>
    rw [hs, hfetched, Option.toList_some, pending_snoc_plain hcall hret, hstack]
  | call hfetched hcall hs =>
    rw [hs, hfetched, Option.toList_some, pending_snoc_call hcall, List.map_append, ← hstack]
    exact List.reverse_cons
  | ret hfetched hret hentries _ hs =>
    rw [hs, hfetched, Option.toList_some, (snoc_return hret history).2, List.map_dropLast, ← hstack,
      CallStack.toList, CallStack.toList, hentries, List.reverse_cons, List.dropLast_concat]

theorem after_stack (m : Machine) (moves : List Move) {history : List Fetched}
    (hsucceeds : ∀ s ∈ m.trace moves, s.Succeeds)
    (hstack : m.stack.toList = (pending history).map (·.pc + 2)) :
    (m.after moves).stack.toList
      = (pending (history ++ m.executed moves)).map (·.pc + 2) := by
  induction moves generalizing m history with
  | nil => rw [executed, trace, List.filterMap_nil, List.append_nil]; exact hstack
  | cons v vs ih =>
    obtain ⟨hv, hvs⟩ := List.forall_mem_cons.mp hsucceeds
    have hmove := pending_of_stacking (move_stacking hv) hstack
    rw [after, executed_cons, ← List.append_assoc]
    exact ih (m.move v).machine hvs hmove

/-! ## A call returns -/

/-- One move above a pending return address: either it is still pending, or it is where the
machine is now. -/
theorem pending_or_returned {m : Machine} {s : Step} {base : CallStack} {a : Int}
    {inner : List Int} (h : m.Stacking s)
    (hstack : m.stack = { base with entries := inner ++ a :: base.entries }) :
    (∃ inner', s.machine.stack = { base with entries := inner' ++ a :: base.entries })
      ∨ (∃ f, s.fetched = some f ∧ f.isReturn) ∧ s.machine.pc = a ∧ s.machine.stack = base := by
  cases h with
  | idle _ hs => exact .inl ⟨inner, hs.trans hstack⟩
  | plain _ _ _ hs => exact .inl ⟨inner, hs.trans hstack⟩
  | @call f _ _ hs => exact .inl ⟨(f.pc + 2) :: inner, by rw [hs, hstack]; rfl⟩
  | @ret f b rest hfetched hret hentries hpc hs =>
    rw [hstack] at hentries hs
    cases inner with
    | nil =>
      obtain ⟨rfl, rfl⟩ := List.cons.inj hentries
      exact .inr ⟨⟨f, hfetched, hret⟩, hpc, hs⟩
    | cons c inner =>
      obtain ⟨rfl, rfl⟩ := List.cons.inj hentries
      exact .inl ⟨inner, hs⟩

/-- The first point at which nothing is on top of `base` any more. -/
theorem last_returns {base : CallStack} {a : Int} {last : Step} {between : List Step}
    {m : Machine} {moves : List Move} {inner : List Int}
    (hsucceeds : ∀ s ∈ m.trace moves, s.Succeeds) (htrace : m.trace moves = between ++ [last])
    (hstack : m.stack = { base with entries := inner ++ a :: base.entries })
    (habove : ∀ s ∈ between, s.machine.stack.depth ≠ base.depth)
    (hlast : last.machine.stack.depth = base.depth) :
    (∃ f, last.fetched = some f ∧ f.isReturn) ∧ last.machine.pc = a
      ∧ last.machine.stack = base := by
  induction between generalizing m moves inner with
  | nil =>
    cases moves with
    | nil => cases htrace
    | cons v vs =>
      obtain ⟨hv, -⟩ := List.forall_mem_cons.mp hsucceeds
      obtain ⟨rfl, -⟩ := List.cons.inj htrace
      rcases pending_or_returned (move_stacking hv) hstack with ⟨inner', h⟩ | h
      · rw [h, CallStack.depth, CallStack.depth, List.length_append, List.length_cons] at hlast
        omega
      · exact h
  | cons s between ih =>
    cases moves with
    | nil => cases htrace
    | cons v vs =>
      obtain ⟨hv, hvs⟩ := List.forall_mem_cons.mp hsucceeds
      obtain ⟨rfl, htrace'⟩ := List.cons.inj htrace
      obtain ⟨hs, hbetween⟩ := List.forall_mem_cons.mp habove
      rcases pending_or_returned (move_stacking hv) hstack with ⟨inner', h⟩ | ⟨-, -, h⟩
      · exact ih hvs htrace' h hbetween
      · exact absurd (congrArg CallStack.depth h) hs

/-- **Calls and returns match.**  Along a run without faults that starts with an empty stack, the
stack holds the return addresses of the pending calls, oldest first.  And after a call, from
whatever machine, the first point at which the stack is as deep as before is behind a return, with
control behind the call and the stack as it was. -/
theorem trace_calls (m : Machine) (moves : List Move)
    (hsucceeds : ∀ s ∈ m.trace moves, s.Succeeds) :
    (m.stack.entries = [] →
      (m.after moves).stack.toList = (pending (m.executed moves)).map (·.pc + 2))
    ∧ ∀ first between last call, m.trace moves = first :: (between ++ [last]) →
        first.fetched = some call → call.isCall →
        (∀ s ∈ between, s.machine.stack.depth ≠ m.stack.depth) →
        last.machine.stack.depth = m.stack.depth →
        (∃ f, last.fetched = some f ∧ f.isReturn) ∧ last.machine.pc = call.pc + 2
          ∧ last.machine.stack = m.stack := by
  refine ⟨fun hempty => ?_, ?_⟩
  · have hstack : m.stack.toList = (pending []).map (·.pc + 2) := by
      rw [CallStack.toList, hempty]
      rfl
    exact after_stack m moves hsucceeds hstack
  · intro first between last call htrace hfetched hcall habove hlast
    cases moves with
    | nil => cases htrace
    | cons v vs =>
      obtain ⟨hv, hvs⟩ := List.forall_mem_cons.mp hsucceeds
      obtain ⟨rfl, htrace'⟩ := List.cons.inj htrace
      cases move_stacking hv with
      | idle h => rw [h] at hfetched; cases hfetched
      | plain h hplain =>
        obtain rfl := Option.some.inj (h.symm.trans hfetched)
        rw [hplain] at hcall
        cases hcall
      | ret h hret =>
        obtain rfl := Option.some.inj (h.symm.trans hfetched)
        rw [Fetched.isCall_of_isReturn hret] at hcall
        cases hcall
      | @call f h _ hs =>
        obtain rfl := Option.some.inj (h.symm.trans hfetched)
        have hs' : (m.move v).machine.stack
            = { m.stack with entries := [] ++ (f.pc + 2) :: m.stack.entries } := hs
        exact last_returns hvs htrace' hs' habove hlast

/-- A machine about to call the subroutine at `004`, which sets a register and returns. -/
def beforeCall : Machine := holding [0x20, 0x04, 0x00, 0x00, 0x60, 0x01, 0x00, 0xEE] .zero

/-- The call, the subroutine and its return. -/
def subroutine : List Move := [.step 0, .step 0, .step 0]

theorem subroutine_succeeds : ∀ s ∈ beforeCall.trace subroutine, s.Succeeds := by
  have h0 : (beforeCall.step 0).answer = .ok true := rfl
  have h1 : ((beforeCall.step 0).machine.step 0).answer = .ok true := rfl
  have h2 : (((beforeCall.step 0).machine.step 0).machine.step 0).answer = .ok true := rfl
  intro s hs f hf
  rcases List.mem_cons.mp hs with rfl | hs
  · cases h0.symm.trans hf
  rcases List.mem_cons.mp hs with rfl | hs
  · cases h1.symm.trans hf
  obtain rfl := List.mem_singleton.mp hs
  cases h2.symm.trans hf

theorem trace_calls_subroutine :
    (∀ s ∈ beforeCall.trace subroutine, s.Succeeds) ∧ beforeCall.stack.entries = []
      ∧ (beforeCall.after subroutine).stack.toList
        = (pending (beforeCall.executed subroutine)).map (·.pc + 2)
      ∧ (beforeCall.after subroutine).pc = 2
      ∧ (beforeCall.after subroutine).stack = beforeCall.stack := by
  obtain ⟨hpending, hreturn⟩ := trace_calls beforeCall subroutine subroutine_succeeds
  have hfirst : (beforeCall.step 0).fetched = some ⟨0, 0x2004, .call 4⟩ := rfl
  have habove : ∀ s ∈ [(beforeCall.step 0).machine.step 0],
      s.machine.stack.depth ≠ beforeCall.stack.depth := by
    intro s hs
    obtain rfl := List.mem_singleton.mp hs
    exact Nat.succ_ne_zero 0
  obtain ⟨-, hpc, hstack⟩ := hreturn _ _ _ _ rfl hfirst rfl habove rfl
  exact ⟨subroutine_succeeds, rfl, hpending rfl, hpc, hstack⟩

end Machine

end ChipEight
