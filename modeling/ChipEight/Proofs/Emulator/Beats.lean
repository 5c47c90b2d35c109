import ChipEight.Proofs.Emulator.Halted
import ChipEight.Proofs.Machine.Stepping

/-!
# Proofs/Emulator/Beats — calls taken apart

A frame is many steps and a tick, so what holds between two instructions of one frame cannot be said
of calls.  A beat is the least a call can do: `beats` takes the calls of a run apart, `play`
performs beats one after the other, and together they are the run (`play_beats`).  What a run
fetches and executes is read off the steps among its beats, and a frame answers how many
instructions it has executed (`length_executed_frameBeats`).
-/

namespace ChipEight.Emulator

/-! ## Loads -/

/-- Does a call take over a program? -/
def Call.Loads : Call → Prop
  | .load image _ => image ≠ [] ∧ image.length ≤ Memory.capacity
  | _ => False

theorem Call.Loads.restarts {c : Call} (h : c.Loads) : c.Restarts := by
  cases c with
  | load => exact h
  | _ => exact h.elim

section

variable {e : Emulator} {image : List UInt8} {title : Option String}

/-- A load that succeeds is a restart with its program. -/
theorem perform_load (h : (Call.load image title).Loads) :
    e.perform (.load image title)
      = (({ e with image, title }.reset).record (.loaded image.length title), .done) := by
  rw [perform, load_of_ok h]

/-- A load that is refused changes nothing. -/
theorem perform_refused (h : ¬ (Call.load image title).Loads) :
    ∃ err, e.perform (.load image title) = (e, .refused err) := by
  rcases e.load_cases image title with ⟨err, -, heq⟩ | ⟨hload, -⟩
  · exact ⟨err, by rw [perform, heq]⟩
  · exact absurd hload h

end

/-! ## Beats -/

/-- **The least a call can do.** -/
inductive Beat where
  | step
  | tick
  | reset
  | load (image : List UInt8) (title : Option String)
  | keyDown (key : Binary64)
  | keyUp (key : Binary64)

/-- One beat. -/
def beat (e : Emulator) : Beat → Emulator
  | .step => e.step.1
  | .tick => e.tick
  | .reset => e.reset
  | .load image title => (e.perform (.load image title)).1
  | .keyDown key => e.keyDown key
  | .keyUp key => e.keyUp key

/-- One beat after the other. -/
def play (e : Emulator) (beats : List Beat) : Emulator := beats.foldl beat e

theorem play_cons (e : Emulator) (b : Beat) (beats : List Beat) :
    e.play (b :: beats) = (e.beat b).play beats := rfl

theorem play_append (e : Emulator) (xs ys : List Beat) :
    e.play (xs ++ ys) = (e.play xs).play ys := List.foldl_append

namespace Beat

/-- Does it take over a program? -/
def Loads : Beat → Prop
  | .load image title => (Call.load image title).Loads
  | _ => False

/-- Does it start the machine anew? -/
def Restarts (b : Beat) : Prop := b = .reset ∨ b.Loads

/-- The step of the machine that is taken in a beat: none where a halt is recorded. -/
def taken (e : Emulator) : Beat → Option Step
  | .step =>
    match e.halt with
    | none => some e.next
    | some _ => none
  | _ => none

/-- **An instruction is executed** in a beat. -/
def Executes (e : Emulator) (b : Beat) (i : Instruction) : Prop :=
  ∃ s a w, b.taken e = some s ∧ s.executed = some ⟨a, w, i⟩

theorem taken_step {e : Emulator} (hhalt : e.halt = none) :
    Beat.step.taken e = some e.next := by
  rw [taken, hhalt]

end Beat

theorem beat_refused {e : Emulator} {image : List UInt8} {title : Option String}
    (h : ¬ (Call.load image title).Loads) : e.beat (.load image title) = e := by
  obtain ⟨err, heq⟩ := perform_refused (e := e) h
  rw [beat, heq]

/-- **The steps of the machine** in a row of beats. -/
def taken (e : Emulator) : List Beat → List Step
  | [] => []
  | b :: beats => (b.taken e).toList ++ (e.beat b).taken beats

/-- The instructions that are fetched, also those that fault. -/
def fetched (e : Emulator) (beats : List Beat) : List Fetched :=
  (e.taken beats).filterMap Step.fetched

/-- The instructions that are executed to their end. -/
def executed (e : Emulator) (beats : List Beat) : List Fetched :=
  (e.taken beats).filterMap Step.executed

/-! ## The beats of calls -/

/-- Up to `n` steps; one that waits or faults is the last. -/
def stepBeats (e : Emulator) : Nat → List Beat
  | 0 => []
  | n + 1 =>
    match e.step with
    | (e', .ok true) => .step :: e'.stepBeats n
    | _ => [.step]

/-- A frame: steps and a tick, no tick if one of the steps halts, and nothing where a halt is
recorded. -/
def frameBeats (e : Emulator) : List Beat :=
  match e.halt with
  | some _ => []
  | none =>
    let steps := e.stepBeats e.config.instructionsPerFrame
    match (e.steps e.config.instructionsPerFrame).2 with
    | .ok _ => steps ++ [.tick]
    | .error _ => steps

/-- The beat that a call is, unless it is a frame or only looks. -/
def Call.beat? : Call → Option Beat
  | .load image title => some (.load image title)
  | .reset => some .reset
  | .step => some .step
  | .keyDown key => some (.keyDown key)
  | .keyUp key => some (.keyUp key)
  | .frame | .observe => none

def Call.beats (e : Emulator) : Call → List Beat
  | .frame => e.frameBeats
  | c => c.beat?.toList

/-- **The beats of a run.** -/
def beats (e : Emulator) : List Call → List Beat
  | [] => []
  | c :: calls => c.beats e ++ (e.perform c).1.beats calls

/-! ## Putting together -/

theorem play_stepBeats (e : Emulator) (n : Nat) : e.play (e.stepBeats n) = (e.steps n).1 := by
  induction n generalizing e with
  | zero => rfl
  | succ n ih =>
    have hplay : e.play [.step] = e.step.1 := rfl
    rw [stepBeats, steps]
    rcases hstep : e.step with ⟨e', _ | _ | _⟩
    · rw [hplay, hstep]
    · rw [hplay, hstep]
    · rw [play_cons, beat, hstep, ih]

theorem play_frameBeats (e : Emulator) : e.play e.frameBeats = e.frame.emulator := by
  unfold frameBeats frame
  cases e.halt with
  | some f => rfl
  | none =>
    have hsteps := e.play_stepBeats e.config.instructionsPerFrame
    generalize e.steps e.config.instructionsPerFrame = outcome at hsteps ⊢
    rcases outcome with ⟨e', _ | _⟩
    · exact hsteps
    · exact (e.play_append _ _).trans (congrArg tick hsteps)

/-- **The beats of a run lead where the run leads.** -/
theorem play_beats (e : Emulator) (calls : List Call) :
    e.play (e.beats calls) = (e.run calls).1 := by
  induction calls generalizing e with
  | nil => rfl
  | cons c calls ih =>
    have hcall : e.play (c.beats e) = (e.perform c).1 := by
      cases c with
      | frame => exact e.play_frameBeats
      | _ => rfl
    rw [beats, play_append, hcall, ih]
    rfl

/-! ## What is executed -/

theorem fetched_cons (e : Emulator) (b : Beat) (beats : List Beat) :
    e.fetched (b :: beats)
      = (b.taken e).toList.filterMap Step.fetched ++ (e.beat b).fetched beats :=
  List.filterMap_append

theorem executed_of_not_taken {e : Emulator} {b : Beat} (h : b.taken e = none)
    (beats : List Beat) : e.executed (b :: beats) = (e.beat b).executed beats := by
  rw [executed, taken, h]
  rfl

theorem executed_of_taken {e : Emulator} {b : Beat} {s : Step} (h : b.taken e = some s)
    (beats : List Beat) :
    e.executed (b :: beats) = s.executed.toList ++ (e.beat b).executed beats := by
  rw [executed, taken, h]
  cases hs : s.executed with
  | none => exact List.filterMap_cons_none hs
  | some f => exact List.filterMap_cons_some hs

/-- One step that executes an instruction. -/
theorem play_step {e : Emulator} (hhalt : e.halt = none) {f : Fetched}
    (hf : e.next.executed = some f) :
    e.executed [.step] = [f] ∧ (e.play [.step]).halt = none := by
  obtain ⟨hanswer, -⟩ := Step.executed_eq_some_iff.mp hf
  rw [executed_of_taken (Beat.taken_step hhalt), hf]
  exact ⟨rfl, (step_halt hhalt).trans (congrArg haltOf hanswer)⟩

/-- A step is taken by a step where no halt is recorded. -/
theorem eq_of_taken {e : Emulator} {b : Beat} {s : Step} (h : b.taken e = some s) :
    b = .step ∧ e.halt = none ∧ e.next = s := by
  cases b with
  | step =>
    cases hhalt : e.halt with
    | none =>
      rw [Beat.taken, hhalt] at h
      exact ⟨rfl, rfl, Option.some.inj h⟩
    | some f =>
      rw [Beat.taken, hhalt] at h
      cases h
  | _ => cases h

theorem taken_append (e : Emulator) (xs ys : List Beat) :
    e.taken (xs ++ ys) = e.taken xs ++ (e.play xs).taken ys := by
  induction xs generalizing e with
  | nil => rfl
  | cons b xs ih => rw [List.cons_append, taken, taken, ih, List.append_assoc, play_cons]

theorem executed_append (e : Emulator) (xs ys : List Beat) :
    e.executed (xs ++ ys) = e.executed xs ++ (e.play xs).executed ys := by
  rw [executed, taken_append, List.filterMap_append]
  rfl

theorem length_executed_stepBeats {e : Emulator} (h : e.halt = none) {n count : Nat}
    (hcount : (e.steps n).2 = .ok count) : (e.executed (e.stepBeats n)).length = count := by
  induction n generalizing e count with
  | zero => exact Except.ok.inj hcount
  | succ n ih =>
    have htaken : Beat.step.taken e = some e.next := Beat.taken_step h
    have hstep : e.step = (e.step.1, e.next.answer) := Prod.ext rfl (step_answer h)
    rcases hnext : e.next.answer with f | _ | _
    · rw [steps_of_error h hnext] at hcount
      cases hcount
    · have hnone : e.next.executed = none := by rw [Step.executed, hnext]
      rw [steps_of_false h hnext] at hcount
      rw [stepBeats, hstep, hnext]
      simp only
      rw [executed_of_taken htaken, hnone]
      exact Except.ok.inj hcount
    · obtain ⟨f, hf⟩ : ∃ f, e.next.executed = some f := Machine.exists_executed hnext
      have hquiet : e.step.1.halt = none := (step_halt h).trans (congrArg haltOf hnext)
      rw [steps_of_true h hnext] at hcount
      rw [stepBeats, hstep, hnext]
      simp only
      cases hrest : (e.step.1.steps n).2 with
      | error f =>
        rw [hrest] at hcount
        cases hcount
      | ok rest =>
        rw [hrest] at hcount
        rw [executed_of_taken htaken, hf, Option.toList_some, List.singleton_append,
          List.length_cons, beat, ih hquiet hrest]
        exact Except.ok.inj hcount

/-- **A frame answers how many instructions are executed** in its beats. -/
theorem length_executed_frameBeats {e : Emulator} {count : Nat}
    (hcount : e.frame.answer = .ok count) : (e.executed e.frameBeats).length = count := by
  cases hhalt : e.halt with
  | some f =>
    rw [frame, hhalt] at hcount
    cases hcount
  | none =>
    rw [frame, hhalt] at hcount
    rw [frameBeats, hhalt]
    rcases hsteps : e.steps e.config.instructionsPerFrame with ⟨e', f | n⟩
    · rw [hsteps] at hcount
      cases hcount
    · rw [hsteps] at hcount
      obtain rfl : n = count := Except.ok.inj hcount
      simp only
      have htick (e : Emulator) : e.executed [.tick] = [] := rfl
      rw [executed_append, htick, List.append_nil]
      exact length_executed_stepBeats hhalt (congrArg Prod.snd hsteps)

/-! ## Where beats come from -/

/-- A frame begins with a step. -/
theorem step_prefix_frameBeats {e : Emulator} (hhalt : e.halt = none)
    (hn : 0 < e.config.instructionsPerFrame) : [Beat.step] <+: e.frameBeats := by
  have hsteps : [Beat.step] <+: e.stepBeats e.config.instructionsPerFrame := by
    cases hcount : e.config.instructionsPerFrame with
    | zero => exact absurd hcount (Nat.ne_of_gt hn)
    | succ n =>
      rw [stepBeats]
      split
      · exact List.prefix_append [Beat.step] _
      · exact List.prefix_refl _
  rw [frameBeats, hhalt]
  simp only
  split
  · exact hsteps.trans (List.prefix_append _ _)
  · exact hsteps

theorem mem_stepBeats {e : Emulator} {n : Nat} {b : Beat} (h : b ∈ e.stepBeats n) :
    b = .step := by
  induction n generalizing e with
  | zero => cases h
  | succ n ih =>
    rw [stepBeats] at h
    split at h
    · rcases List.mem_cons.mp h with rfl | h
      · rfl
      · exact ih h
    · exact List.mem_singleton.mp h

theorem mem_frameBeats {e : Emulator} {b : Beat} (h : b ∈ e.frameBeats) :
    b = .step ∨ b = .tick := by
  unfold frameBeats at h
  split at h
  · cases h
  · split at h
    · rcases List.mem_append.mp h with h | h
      · exact .inl (mem_stepBeats h)
      · exact .inr (List.mem_singleton.mp h)
    · exact .inl (mem_stepBeats h)

/-- A beat of a run is a step or a tick, or one of its calls. -/
theorem mem_beats {e : Emulator} {calls : List Call} {b : Beat} (h : b ∈ e.beats calls) :
    b = .step ∨ b = .tick ∨ ∃ c ∈ calls, c.beat? = some b := by
  induction calls generalizing e with
  | nil => cases h
  | cons c calls ih =>
    rcases List.mem_append.mp h with h | h
    · cases c with
      | frame => exact (mem_frameBeats h).imp_right .inl
      | _ => exact .inr (.inr ⟨_, List.mem_cons_self, Option.mem_toList.mp h⟩)
    · rcases ih h with h | h | ⟨c', hc', h⟩
      · exact .inl h
      · exact .inr (.inl h)
      · exact .inr (.inr ⟨c', List.mem_cons_of_mem c hc', h⟩)

theorem not_loads_of_mem_beats {e : Emulator} {calls : List Call}
    (hcalls : ∀ c ∈ calls, ¬ c.Loads) : ∀ b ∈ e.beats calls, ¬ b.Loads := by
  intro b hb hload
  rcases mem_beats hb with rfl | rfl | ⟨c, hc, hbeat⟩
  · exact hload
  · exact hload
  · cases c with
    | load =>
      cases hbeat
      exact hcalls _ hc hload
    | reset | step | keyDown | keyUp =>
      cases hbeat
      exact hload
    | frame | observe => cases hbeat

theorem not_restarts_of_mem_beats {e : Emulator} {calls : List Call}
    (hcalls : ∀ c ∈ calls, ¬ c.Restarts) : ∀ b ∈ e.beats calls, ¬ b.Restarts := by
  rintro b hb (rfl | hload)
  · rcases mem_beats hb with h | h | ⟨c, hc, hbeat⟩
    · cases h
    · cases h
    · cases c with
      | reset => exact hcalls _ hc trivial
      | _ => cases hbeat
  · exact not_loads_of_mem_beats (fun c hc h => hcalls c hc h.restarts) b hb hload

end ChipEight.Emulator
