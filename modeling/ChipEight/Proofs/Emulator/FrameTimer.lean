import ChipEight.Proofs.Emulator.KeyWait

/-!
# Proofs/Emulator/FrameTimer — the delay timer counts frames

Only an `FX15` that is executed, a tick and a restart touch the timer.  So its value is the one
written last less the ticks since (`timer_origin`), and there is one tick at the end of every frame
that comes to its end and none anywhere else (`ticks_beats`).  Up to its tick such a frame is the
same as single steps (`frame_asSteps`).
-/

namespace ChipEight

/-- Does it set the delay timer? -/
def Instruction.SetsTimer : Instruction → Prop
  | .setTimer _ => True
  | _ => False

namespace Machine

/-- What a step that has executed an instruction leaves is what the instruction leaves. -/
theorem machine_of_executed {m : Machine} {random : Int} {f : Fetched}
    (h : (m.step random).executed = some f) :
    (m.step random).machine = (m.advance.execute random f.instruction).machine := by
  have hs := m.step_stepping random
  generalize m.step random = s at hs h ⊢
  cases hs with
  | waiting | unreadable | unknown | stopped => cases h
  | executed => cases h; rfl

/-- **Only an `FX15` that is executed sets the timer**: nothing stops one that is fetched. -/
theorem step_timer (m : Machine) (random : Int)
    (h : ∀ f, (m.step random).executed = some f → ¬ f.instruction.SetsTimer) :
    (m.step random).machine.timer = m.timer := by
  refine m.step_content random (p := .timer) fun f hf => ?_
  have hs := m.step_stepping random
  generalize m.step random = s at hs h hf
  cases hs with
  | waiting | unreadable | unknown => cases hf
  | @executed w i =>
    cases hf
    have hsets := h _ rfl
    revert hsets
    cases i <;> simp [Instruction.SetsTimer, Instruction.Footprint, Place.v]
  | @stopped w i fault _ _ _ hfault =>
    cases hf
    cases i with
    | setTimer => cases hfault
    | _ => simp [Instruction.Footprint, Place.v]

/-- An `FX15` copies its register into the timer. -/
theorem timer_of_setTimer {m : Machine} {random x a : Int} {w : Nat}
    (h : (m.step random).executed = some ⟨a, w, .setTimer x⟩) :
    (m.step random).machine.timer.value.toNat = m.registers.get x := by
  rw [machine_of_executed h]
  have hbyte := m.registers.get_lt x
  change ((lowByte (m.registers.get x)).toNat : Int).toNat = m.registers.get x
  rw [Int.toNat_natCast, toNat_lowByte]
  omega

/-- An `FX07` copies the timer into its register. -/
theorem get_of_readTimer {m : Machine} {random x a : Int} {w : Nat}
    (h : (m.step random).executed = some ⟨a, w, .readTimer x⟩) :
    (m.step random).machine.registers.get x = m.timer.value.toNat := by
  rw [machine_of_executed h]
  obtain ⟨h0, h1⟩ := m.timer.byte
  refine (Registers.get_set _ x x _).trans ((if_pos rfl).trans ?_)
  change (m.timer.value % 0x100).toNat = m.timer.value.toNat
  omega

/-- Only a machine that waits answers `false`. -/
theorem waiting_of_false {m : Machine} {random : Int} (h : (m.step random).answer = .ok false) :
    m.phase = .waitingForKey := by
  have hs := m.step_stepping random
  generalize m.step random = s at hs h
  cases hs with
  | waiting hphase => exact hphase
  | unreadable | unknown | executed | stopped => cases h

end Machine

namespace Emulator

/-! ## Beats that touch the timer -/

namespace Beat

def isTick : Beat → Bool
  | .tick => true
  | _ => false

end Beat

/-- How often the timer is counted down in a row of beats. -/
def ticks (beats : List Beat) : Nat := beats.countP Beat.isTick

theorem ticks_append (xs ys : List Beat) : ticks (xs ++ ys) = ticks xs + ticks ys :=
  List.countP_append

theorem beat_of_executes {e : Emulator} {b : Beat} {i : Instruction} (h : b.Executes e i) :
    b = .step ∧ e.halt = none ∧ (∃ a w, e.next.executed = some ⟨a, w, i⟩)
      ∧ (e.beat b).machine = e.next.machine := by
  obtain ⟨s, a, w, htaken, hexecuted⟩ := h
  obtain ⟨rfl, hhalt, rfl⟩ := eq_of_taken htaken
  exact ⟨rfl, hhalt, ⟨a, w, hexecuted⟩, step_machine hhalt⟩

theorem timer_of_sets {e : Emulator} {b : Beat} {x : Int} (h : b.Executes e (.setTimer x)) :
    (e.beat b).machine.timer.value.toNat = e.machine.registers.get x := by
  obtain ⟨-, -, ⟨a, w, hexecuted⟩, hmachine⟩ := beat_of_executes h
  rw [hmachine]
  exact Machine.timer_of_setTimer hexecuted

/-- A beat that neither sets the timer nor restarts counts it down if it is a tick. -/
theorem beat_timer {e : Emulator} {b : Beat} (hrestarts : ¬ b.Restarts)
    (hsets : ∀ x, ¬ b.Executes e (.setTimer x)) :
    (e.beat b).machine.timer.value.toNat = e.machine.timer.value.toNat - ticks [b] := by
  cases b with
  | tick => exact Timer.toNat_tick _
  | keyDown => rfl
  | reset => exact absurd (.inl rfl) hrestarts
  | load image title => rw [beat_refused fun h => hrestarts (.inr h)]; rfl
  | keyUp key =>
    rcases e.keyUp_cases key with heq | ⟨k, log, -, hphase, heq⟩
    · rw [beat, heq]; rfl
    · rw [beat, heq]
      simp only [Machine.resume, hphase]
      rfl
  | step =>
    cases hhalt : e.halt with
    | some f => rw [beat, step_of_halt hhalt]; rfl
    | none =>
      have hkept : e.next.machine.timer = e.machine.timer :=
        e.machine.step_timer e.random.head fun f hf hset => by
          obtain ⟨a, w, i⟩ := f
          cases i with
          | setTimer x => exact hsets x ⟨e.next, a, w, Beat.taken_step hhalt, hf⟩
          | _ => exact hset
      rw [beat, step_machine hhalt, hkept]
      rfl

theorem executed_of_not_executes {e : Emulator} {b : Beat}
    (h : ∀ x, ¬ b.Executes e (.setTimer x)) {beats : List Beat}
    (hrest : ∀ f ∈ (e.beat b).executed beats, ¬ f.instruction.SetsTimer) :
    ∀ f ∈ e.executed (b :: beats), ¬ f.instruction.SetsTimer := by
  cases htaken : b.taken e with
  | none => rwa [executed_of_not_taken htaken]
  | some s =>
    rw [executed_of_taken htaken]
    refine List.forall_mem_append.mpr ⟨fun f hf hset => ?_, hrest⟩
    obtain ⟨a, w, i⟩ := f
    cases i with
    | setTimer x => exact h x ⟨s, a, w, htaken, Option.mem_toList.mp hf⟩
    | _ => exact hset

/-- **Where the value of the timer comes from**: it is what the last `FX15` that was executed has
written, or what was there at the start, less the ticks since. -/
theorem timer_origin {e : Emulator} {beats : List Beat} (hbeats : ∀ b ∈ beats, ¬ b.Restarts) :
    ((∀ f ∈ e.executed beats, ¬ f.instruction.SetsTimer)
        ∧ (e.play beats).machine.timer.value.toNat = e.machine.timer.value.toNat - ticks beats)
      ∨ ∃ before since x, beats = before ++ .step :: since
        ∧ Beat.step.Executes (e.play before) (.setTimer x)
        ∧ (∀ f ∈ ((e.play before).beat .step).executed since, ¬ f.instruction.SetsTimer)
        ∧ (e.play beats).machine.timer.value.toNat
          = (e.play before).machine.registers.get x - ticks since := by
  induction beats generalizing e with
  | nil => exact .inl ⟨fun f hf => absurd hf List.not_mem_nil, rfl⟩
  | cons b beats ih =>
    obtain ⟨hb, hbeats⟩ := List.forall_mem_cons.mp hbeats
    rcases ih (e := e.beat b) hbeats with ⟨hnone, hvalue⟩ | ⟨before, since, x, rfl, hlast⟩
    · by_cases hsets : ∃ x, b.Executes e (.setTimer x)
      · obtain ⟨x, hsets⟩ := hsets
        obtain ⟨rfl, -⟩ := beat_of_executes hsets
        refine .inr ⟨[], beats, x, rfl, hsets, hnone, ?_⟩
        rw [play_cons, hvalue, timer_of_sets hsets]
        rfl
      · have hsets' := not_exists.mp hsets
        refine .inl ⟨executed_of_not_executes hsets' hnone, ?_⟩
        have hsum := ticks_append [b] beats
        rw [play_cons, hvalue, beat_timer hb hsets', Nat.sub_sub, ← hsum]
        rfl
    · exact .inr ⟨b :: before, since, x, rfl, hlast⟩

/-! ## Ticks and frames -/

/-- Is it the answer of a frame that has come to its end? -/
def Reply.completesFrame : Reply → Bool
  | .framed _ (.ok _) => true
  | _ => false

/-- How many frames have come to their end. -/
def completedFrames (replies : List Reply) : Nat := replies.countP Reply.completesFrame

theorem completedFrames_append (xs ys : List Reply) :
    completedFrames (xs ++ ys) = completedFrames xs + completedFrames ys :=
  List.countP_append

theorem ticks_stepBeats (e : Emulator) (n : Nat) : ticks (e.stepBeats n) = 0 :=
  List.countP_eq_zero.mpr fun _ hb => mem_stepBeats hb ▸ Bool.false_ne_true

/-- **One tick for a frame that comes to its end**, and none for anything else. -/
theorem ticks_call (e : Emulator) (c : Call) :
    ticks (c.beats e) = completedFrames [(e.perform c).2] := by
  cases c with
  | frame =>
    rw [Call.beats, perform, frameBeats, frame]
    cases e.halt with
    | some f => rfl
    | none =>
      generalize hsteps : e.steps e.config.instructionsPerFrame = outcome
      rcases outcome with ⟨e', f | count⟩
      · exact e.ticks_stepBeats _
      · simp only [ticks_append, ticks_stepBeats]
        rfl
  | load image title =>
    rw [perform]
    cases e.load image title <;> rfl
  | _ => rfl

/-- **The ticks of a run are its frames** that come to their end. -/
theorem ticks_beats (e : Emulator) (calls : List Call) :
    ticks (e.beats calls) = completedFrames (e.run calls).2 := by
  induction calls generalizing e with
  | nil => rfl
  | cons c calls ih =>
    rw [beats, ticks_append, ticks_call, ih, run_cons]
    exact (completedFrames_append [_] _).symm

/-- A beat of a run belongs to one of its calls. -/
theorem exists_call_of_beats {e : Emulator} {calls : List Call} {before since : List Beat}
    {b : Beat} (h : e.beats calls = before ++ b :: since) :
    ∃ xs c ys p s, calls = xs ++ c :: ys ∧ c.beats (e.run xs).1 = p ++ b :: s
      ∧ before = e.beats xs ++ p ∧ since = s ++ (((e.run xs).1.perform c).1).beats ys := by
  induction calls generalizing e before with
  | nil => exact absurd h.symm (List.append_ne_nil_of_right_ne_nil _ (List.cons_ne_nil _ _))
  | cons c calls ih =>
    rw [beats] at h
    rcases List.append_eq_append_iff.mp h with ⟨p, rfl, hrest⟩ | ⟨rest, hc, hrest⟩
    · obtain ⟨xs, d, ys, p', s, rfl, hd, rfl, rfl⟩ := ih hrest
      exact ⟨c :: xs, d, ys, p', s, rfl, hd, (List.append_assoc _ _ _).symm, rfl⟩
    · cases rest with
      | nil =>
        have hnext : _ = [] ++ b :: since := hrest.symm
        obtain ⟨xs, d, ys, p', s, rfl, hd, hp, rfl⟩ := ih hnext
        refine ⟨c :: xs, d, ys, p', s, rfl, hd, ?_, rfl⟩
        rw [beats, List.append_assoc, ← hp, hc, List.append_nil, List.append_nil]
      | cons b' s =>
        obtain ⟨rfl, rfl⟩ := List.cons.inj hrest
        exact ⟨[], c, calls, before, s, rfl, hc, rfl, rfl⟩

/-- A call is steps and at most one other beat. -/
theorem call_beats_eq (e : Emulator) (c : Call) :
    ∃ k last, c.beats e = List.replicate k .step ++ last ∧ last.length ≤ 1 := by
  have hsteps (n : Nat) : e.stepBeats n = List.replicate _ .step :=
    List.eq_replicate_iff.mpr ⟨rfl, fun _ => mem_stepBeats⟩
  cases c with
  | frame =>
    rw [Call.beats, frameBeats, hsteps]
    cases e.halt with
    | some f => exact ⟨0, [], rfl, Nat.zero_le 1⟩
    | none =>
      cases (e.steps e.config.instructionsPerFrame).2 with
      | ok count => exact ⟨_, [.tick], rfl, Nat.le_refl 1⟩
      | error f => exact ⟨_, [], (List.append_nil _).symm, Nat.zero_le 1⟩
  | observe => exact ⟨0, [], rfl, Nat.zero_le 1⟩
  | _ => exact ⟨0, [_], rfl, Nat.le_refl 1⟩

/-- Before a step of a call there are only steps of it. -/
theorem eq_replicate_of_call {e : Emulator} {c : Call} {before since : List Beat} {b : Beat}
    (h : c.beats e = before ++ b :: since) : ∃ k, before = List.replicate k .step := by
  obtain ⟨k, last, hc, hlast⟩ := e.call_beats_eq c
  rw [hc] at h
  have hlength := congrArg List.length h
  simp only [List.length_append, List.length_replicate, List.length_cons] at hlength
  have htake := congrArg (List.take before.length) h
  rw [List.take_append_of_le_length (by rw [List.length_replicate]; omega), List.take_replicate,
    List.take_left] at htake
  exact ⟨_, htake.symm⟩

theorem beats_append (e : Emulator) (xs ys : List Call) :
    e.beats (xs ++ ys) = e.beats xs ++ (e.run xs).1.beats ys := by
  induction xs generalizing e with
  | nil => rfl
  | cons c xs ih => rw [List.cons_append, beats, beats, ih, List.append_assoc]; rfl

theorem beats_replicate_step (e : Emulator) (k : Nat) :
    e.beats (List.replicate k .step) = List.replicate k .step := by
  induction k generalizing e with
  | zero => rfl
  | succ k ih => rw [List.replicate_succ, beats, ih]; rfl

/-! ## The timer behind a run -/

/-- **The timer is written last in a call**, with value `v`: the step of it behind `k` others
executes an `FX15`, and from there on none is executed. -/
def WritesLast (e : Emulator) (c : Call) (later : List Call) (v : Nat) : Prop :=
  ∃ k since x, c.beats e = List.replicate k .step ++ .step :: since
    ∧ Beat.step.Executes (e.play (List.replicate k .step)) (.setTimer x)
    ∧ v = (e.play (List.replicate k .step)).machine.registers.get x
    ∧ ∀ f ∈ ((e.play (List.replicate k .step)).beat .step).executed
        (since ++ (e.perform c).1.beats later), ¬ f.instruction.SetsTimer

/-- **What is left of a countdown** behind a run: nothing if the timer has not been set, and else
the value written last less the frames that have come to their end since, that of the write
included. -/
inductive Countdown (e : Emulator) (calls : List Call) : Nat → Prop
  | unset (h : ∀ f ∈ e.executed (e.beats calls), ¬ f.instruction.SetsTimer) : Countdown e calls 0
  | set {before : List Call} {c : Call} {later : List Call} {v : Nat}
      (hcalls : calls = before ++ c :: later) (hwrite : (e.run before).1.WritesLast c later v) :
      Countdown e calls (v - completedFrames ((e.run before).1.run (c :: later)).2)

theorem countdown {e : Emulator} (hzero : e.machine.timer = .zero) {calls : List Call}
    (hcalls : ∀ c ∈ calls, ¬ c.Restarts) :
    e.Countdown calls (e.run calls).1.machine.timer.value.toNat := by
  rw [← e.play_beats calls]
  rcases timer_origin (not_restarts_of_mem_beats hcalls) with
    ⟨hnone, hvalue⟩ | ⟨_, _, x, hsplit, hlast⟩
  · have hvalue' : (e.play (e.beats calls)).machine.timer.value.toNat = 0 := by
      rw [hvalue, hzero]
      exact Nat.zero_sub _
    rw [hvalue']
    exact .unset hnone
  · obtain ⟨xs, c, ys, p, s, rfl, hc, rfl, rfl⟩ := exists_call_of_beats hsplit
    obtain ⟨k, rfl⟩ := eq_replicate_of_call hc
    obtain ⟨hexecutes, hnone, hvalue⟩ := hlast
    have hplay : e.play (e.beats xs ++ List.replicate k .step)
        = (e.run xs).1.play (List.replicate k .step) := by rw [play_append, play_beats]
    rw [hplay] at hexecutes hnone hvalue
    -- Before the write the call has only taken steps, so all its ticks are behind it.
    have hticks : ticks (s ++ ((e.run xs).1.perform c).1.beats ys)
        = completedFrames ((e.run xs).1.run (c :: ys)).2 := by
      have hsteps : ticks (List.replicate k .step) = 0 := by
        simp [ticks, List.countP_replicate, Beat.isTick]
      rw [← ticks_beats, beats, hc, List.append_assoc, ticks_append (List.replicate k .step),
        hsteps, Nat.zero_add]
      rfl
    rw [hvalue, hticks]
    exact .set rfl ⟨k, s, x, hc, hexecutes, rfl, hnone⟩

/-- Between two steps of a frame a run is where single steps lead to as well. -/
theorem exists_singleSteps {e : Emulator} {calls : List Call} {before since : List Beat} {b : Beat}
    (h : e.beats calls = before ++ b :: since) :
    ∃ xs k, xs <+: calls ∧ before = e.beats (xs ++ List.replicate k .step) := by
  obtain ⟨xs, c, ys, p, s, rfl, hc, rfl, -⟩ := exists_call_of_beats h
  obtain ⟨k, rfl⟩ := eq_replicate_of_call hc
  exact ⟨xs, k, List.prefix_append _ _, by rw [beats_append, beats_replicate_step]⟩

/-- **What an `FX07` reads** is what is left of the countdown. -/
theorem countdown_of_readTimer {e : Emulator} (hzero : e.machine.timer = .zero) {calls : List Call}
    (hcalls : ∀ c ∈ calls, ¬ c.Restarts) {before since : List Beat} {x : Int}
    (h : e.beats calls = before ++ .step :: since)
    (hreads : Beat.step.Executes (e.play before) (.readTimer x)) :
    ∃ xs k, xs <+: calls ∧ before = e.beats (xs ++ List.replicate k .step)
      ∧ e.Countdown (xs ++ List.replicate k .step)
        (((e.play before).beat .step).machine.registers.get x) := by
  obtain ⟨xs, k, hxs, rfl⟩ := exists_singleSteps h
  refine ⟨xs, k, hxs, rfl, ?_⟩
  obtain ⟨-, -, ⟨a, w, hexecuted⟩, hmachine⟩ := beat_of_executes hreads
  rw [hmachine, next, Machine.get_of_readTimer hexecuted, play_beats]
  refine countdown hzero (List.forall_mem_append.mpr ⟨fun c hc => hcalls c (hxs.subset hc), ?_⟩)
  exact fun c hc => List.eq_of_mem_replicate hc ▸ id

/-- Where a run starts, the timer is at zero. -/
theorem timer_of_start (config : Config) (random : RandomSource) (threshold : Level)
    {history : List Call} (h : ∀ c ∈ history.getLast?, c.Restarts) :
    (reached config random threshold history).machine.timer = .zero := by
  cases hlast : history.getLast? with
  | none =>
    rw [List.getLast?_eq_none_iff.mp hlast]
    rfl
  | some c =>
    obtain ⟨before, rfl⟩ := List.getLast?_eq_some_iff.mp hlast
    rw [reached_append]
    have hc := h c hlast
    cases c with
    | reset => rfl
    | load => exact congrArg (·.machine.timer) (congrArg Prod.fst (perform_load hc))
    | _ => exact hc.elim

/-! ## Frames as single steps -/

/-- Up to `limit` things: `count` times `x`, and `last` if that is short of the limit. -/
def upTo {α : Type} (limit count : Nat) (x last : α) : List α :=
  List.replicate count x ++ if count < limit then [last] else []

theorem upTo_succ {α : Type} (limit count : Nat) (x last : α) :
    upTo (limit + 1) (count + 1) x last = x :: upTo limit count x last := by
  simp only [upTo, List.replicate_succ, Nat.add_lt_add_iff_right, List.cons_append]

/-- Steps that come to an end without a fault are single steps, until as many have executed
something as were asked for or until one has not. -/
theorem steps_eq_singleSteps {e : Emulator} (hhalt : e.halt = none) {n count : Nat}
    (hcount : (e.steps n).2 = .ok count) :
    let calls : List Call := upTo n count .step .step
    e.beats calls = e.stepBeats n
      ∧ (e.run calls).2 = upTo n count (.stepped (.ok true)) (.stepped (.ok false))
      ∧ count ≤ n ∧ (count < n → (e.steps n).1.machine.phase = .waitingForKey) := by
  induction n generalizing e count with
  | zero =>
    obtain rfl : 0 = count := Except.ok.inj hcount
    exact ⟨rfl, rfl, Nat.le_refl 0, nofun⟩
  | succ n ih =>
    have hstep : e.step = (e.step.1, e.next.answer) := Prod.ext rfl (step_answer hhalt)
    have hperform : e.perform .step = (e.step.1, .stepped e.next.answer) := by rw [perform, hstep]
    rcases hnext : e.next.answer with f | _ | _
    · rw [steps_of_error hhalt hnext] at hcount
      cases hcount
    · have hphase := Machine.waiting_of_false hnext
      have hwait := step_of_waiting hhalt hphase
      rw [steps_of_false hhalt hnext] at hcount ⊢
      obtain rfl : 0 = count := Except.ok.inj hcount
      refine ⟨?_, ?_, Nat.zero_le _, fun _ => ?_⟩
      · rw [stepBeats, hstep, hnext]
        rfl
      · rw [upTo, upTo, if_pos n.succ_pos, if_pos n.succ_pos]
        change [(e.perform .step).2] = _
        rw [hperform, hnext]
        rfl
      · rw [hwait]
        exact hphase
    · have hquiet : e.step.1.halt = none := (step_halt hhalt).trans (congrArg haltOf hnext)
      rw [steps_of_true hhalt hnext] at hcount ⊢
      cases hrest : (e.step.1.steps n).2 with
      | error f =>
        rw [hrest] at hcount
        cases hcount
      | ok rest =>
        rw [hrest] at hcount
        obtain rfl : rest + 1 = count := Except.ok.inj hcount
        obtain ⟨hbeats, hreplies, hle, hwait⟩ := ih hquiet hrest
        refine ⟨?_, ?_, Nat.succ_le_succ hle, fun hlt => hwait (Nat.lt_of_succ_lt_succ hlt)⟩
        · rw [upTo_succ, beats, stepBeats, hstep, hnext, hperform]
          exact congrArg (Beat.step :: ·) hbeats
        · rw [upTo_succ, upTo_succ, run_cons, hperform, hnext, hreplies]

/-- **A frame that comes to its end, as single steps**: the same instructions, as many as it
answers, until the limit is reached or the machine waits for a key; then one tick; and the screen is
shown once. -/
structure FrameAsSteps (e : Emulator) (limit count : Nat) (steps : List Call) : Prop where
  replies : (e.run steps).2 = upTo limit count (.stepped (.ok true)) (.stepped (.ok false))
  executed : e.executed e.frameBeats = e.executed (e.beats steps)
  length : (e.executed e.frameBeats).length = count
  emulator : e.frame.emulator = (e.run steps).1.tick
  shown : e.frame.shown = some (e.run steps).1.machine.screen
  count_le : count ≤ limit
  waiting : count < limit → e.frame.emulator.machine.phase = .waitingForKey

theorem frame_asSteps {e : Emulator} {count : Nat} (h : e.frame.answer = .ok count) :
    let limit := e.config.instructionsPerFrame
    e.FrameAsSteps limit count (upTo limit count .step .step) := by
  intro limit
  cases hhalt : e.halt with
  | some f =>
    rw [frame, hhalt] at h
    cases h
  | none =>
    have hcount : (e.steps limit).2 = .ok count := by
      rw [frame, hhalt] at h
      rcases hsteps : e.steps limit with ⟨e', f | n⟩
      · rw [hsteps] at h
        cases h
      · rw [hsteps] at h
        exact h
    obtain ⟨hbeats, hreplies, hle, hwait⟩ := steps_eq_singleSteps hhalt hcount
    have hlast : (e.run (upTo limit count .step .step)).1 = (e.steps limit).1 := by
      rw [← play_beats, hbeats, play_stepBeats]
    have hframe : e.frame = ⟨(e.steps limit).1.tick, _, _⟩ := frame_of_ok hhalt hcount
    have hframeBeats : e.frameBeats = e.stepBeats limit ++ [.tick] := by
      rw [frameBeats, hhalt]
      simp only
      rw [hcount]
    refine ⟨hreplies, ?_, length_executed_frameBeats h, ?_, ?_, hle, ?_⟩
    · rw [hbeats, hframeBeats, executed_append]
      exact List.append_nil _
    · rw [hlast, hframe]
    · rw [hlast, hframe]
    · rw [hframe]
      exact hwait

/-- **The delay timer counts frames.**  Start a run from a new emulator or from a restart, and let
it not be started anew.  Then behind its calls the timer is what is left of the countdown, and so is
what an `FX07` reads wherever it is executed, given the calls and the steps of the frame before it.
And a frame that comes to its end is single steps and one tick. -/
theorem reached_timer (config : Config) (random : RandomSource) (threshold : Level)
    (history calls : List Call) (hstart : ∀ c ∈ history.getLast?, c.Restarts)
    (hcalls : ∀ c ∈ calls, ¬ c.Restarts) :
    let start := reached config random threshold history
    let e := (start.run calls).1
    start.Countdown calls e.machine.timer.value.toNat
    ∧ (∀ before since x, start.beats calls = before ++ .step :: since →
        Beat.step.Executes (start.play before) (.readTimer x) →
        ∃ xs k, xs <+: calls ∧ before = start.beats (xs ++ List.replicate k .step)
          ∧ start.Countdown (xs ++ List.replicate k .step)
            (((start.play before).beat .step).machine.registers.get x))
    ∧ ∀ count, e.frame.answer = .ok count →
        e.FrameAsSteps config.instructionsPerFrame count
          (upTo config.instructionsPerFrame count .step .step) := by
  intro start e
  have hzero := timer_of_start config random threshold hstart
  have hsettings : e.config = config := by
    have hsettled := settled_reached config random threshold (history ++ calls)
    rw [reached_append] at hsettled
    exact hsettled.settings
  refine ⟨countdown hzero hcalls, fun before since x => countdown_of_readTimer hzero hcalls,
    fun count hcount => ?_⟩
  rw [← hsettings]
  exact frame_asSteps hcount

/-- Five goes into `V0`, from there into the timer, and from there into `V1`. -/
def countFive : List UInt8 := [0x60, 0x05, 0xF0, 0x15, 0xF1, 0x07]

/-- A frame of three instructions takes it through. -/
theorem frame_countFive {e : Emulator} {mode : DrawMode} {capacity : Int} (hhalt : e.halt = none)
    (hmachine : e.machine = coldStart (.initial mode capacity) countFive)
    (hlimit : e.config.instructionsPerFrame = 3) :
    e.beats [.frame] = [.step, .step] ++ [.step, .tick]
      ∧ Beat.step.Executes (e.play [.step, .step]) (.readTimer 1)
      ∧ ((e.play [.step, .step]).beat .step).machine.registers.get 1 = 5
      ∧ e.frame.answer = .ok 3
      ∧ (e.run [.frame]).1.machine.timer.value.toNat = 4 := by
  have hword1 : Instruction.ofWord? 0x6005 = some (.loadByte 0 5) := by decide
  have hword2 : Instruction.ofWord? 0xF015 = some (.setTimer 0) := by decide
  have hword3 : Instruction.ofWord? 0xF107 = some (.readTimer 1) := by decide
  obtain ⟨hhalt1, hmachine1, hnext1⟩ := step_of_place 0 hhalt hmachine rfl rfl rfl (by decide) rfl
    rfl (by decide) hword1 rfl
  obtain ⟨hhalt2, hmachine2, hnext2⟩ := step_of_place 2 hhalt1 hmachine1 rfl rfl rfl (by decide) rfl
    rfl (by decide) hword2 rfl
  obtain ⟨hhalt3, hmachine3, hnext3⟩ := step_of_place 4 hhalt2 hmachine2 rfl rfl rfl (by decide) rfl
    rfl (by decide) hword3 rfl
  have hanswer1 := (Step.executed_eq_some_iff.mp hnext1).1
  have hanswer2 := (Step.executed_eq_some_iff.mp hnext2).1
  have hanswer3 := (Step.executed_eq_some_iff.mp hnext3).1
  have hsteps : e.steps 3 = (e.step.1.step.1.step.1, .ok 3) := by
    rw [steps_of_true hhalt hanswer1, steps_of_true hhalt1 hanswer2, steps_of_true hhalt2 hanswer3]
    rfl
  have hstepBeats : e.stepBeats 3 = [.step, .step, .step] := by
    have hstep {e : Emulator} (h : e.halt = none) (hanswer : e.next.answer = .ok true) (n : Nat) :
        e.stepBeats (n + 1) = .step :: e.step.1.stepBeats n := by
      have hstep : e.step = (e.step.1, .ok true) := by rw [← hanswer, ← step_answer h]
      rw [stepBeats, hstep]
    rw [hstep hhalt hanswer1, hstep hhalt1 hanswer2, hstep hhalt2 hanswer3, stepBeats]
  have hframe : e.frame = ⟨e.step.1.step.1.step.1.tick,
      some e.step.1.step.1.step.1.machine.screen, .ok 3⟩ := by
    rw [frame, hhalt, hlimit, hsteps]
  have htimer : e.step.1.step.1.machine.timer.value.toNat = 5 := by
    rw [step_machine hhalt1, next, Machine.timer_of_setTimer hnext2, hmachine1]
    exact (by decide : (Registers.zero.set 0 5).get 0 = 5)
  have hkept : e.step.1.step.1.step.1.machine.timer = e.step.1.step.1.machine.timer := by
    rw [hmachine3, hmachine2]
    rfl
  refine ⟨?_, ⟨_, _, _, Beat.taken_step hhalt2, hnext3⟩, ?_, ?_, ?_⟩
  · rw [beats, Call.beats, frameBeats, hhalt, hlimit, hsteps, hstepBeats]
    rfl
  · change e.step.1.step.1.step.1.machine.registers.get 1 = 5
    rw [step_machine hhalt2, next, Machine.get_of_readTimer hnext3, htimer]
  · rw [hframe]
  · rw [run_cons, run, perform, hframe]
    refine (Timer.toNat_tick _).trans ?_
    rw [hkept, htimer]

/-- Behind the frame the timer is at four, but what has been read in it is the five. -/
theorem reached_timer_five :
    let config : Config := ⟨3, .set, 16, .info⟩
    let load : Call := .load countFive none
    let start := reached config (.cycle [7]) .info [load]
    (∀ c ∈ [load].getLast?, c.Restarts) ∧ (∀ c ∈ [Call.frame], ¬ c.Restarts)
      ∧ start.Countdown [.frame] 4
      ∧ (∃ xs k, [.step, .step] = start.beats (xs ++ List.replicate k .step)
        ∧ start.Countdown (xs ++ List.replicate k .step) 5)
      ∧ start.FrameAsSteps 3 3 [.step, .step, .step] := by
  intro config load start
  have hload : load.Loads := ⟨by decide, by decide⟩
  have hstart : ∀ c ∈ [load].getLast?, c.Restarts := fun c hc =>
    Option.some.inj hc ▸ hload.restarts
  have hcalls : ∀ c ∈ [Call.frame], ¬ c.Restarts := List.forall_mem_singleton.mpr id
  obtain ⟨hhalt, -, hmachine⟩ : start.halt = none ∧ start.image = _
      ∧ start.machine = coldStart (.initial .set 16) countFive :=
    reached_load config (.cycle [7]) .info [] hload
  have hlimit : start.config.instructionsPerFrame = 3 :=
    congrArg (·.instructionsPerFrame) (settled_reached config (.cycle [7]) .info [load]).settings
  obtain ⟨hcountdown, hreads, -⟩ :
      start.Countdown [.frame] (start.run [.frame]).1.machine.timer.value.toNat
        ∧ (∀ before since x, start.beats [.frame] = before ++ .step :: since →
          Beat.step.Executes (start.play before) (.readTimer x) →
          ∃ xs k, xs <+: [.frame] ∧ before = start.beats (xs ++ List.replicate k .step)
            ∧ start.Countdown (xs ++ List.replicate k .step)
              (((start.play before).beat .step).machine.registers.get x)) ∧ _ :=
    reached_timer config (.cycle [7]) .info [load] [.frame] hstart hcalls
  have hframe : ∀ count, (start.run []).1.frame.answer = .ok count →
      (start.run []).1.FrameAsSteps 3 count (upTo 3 count .step .step) :=
    (reached_timer config (.cycle [7]) .info [load] [] hstart nofun).2.2
  clear_value start
  obtain ⟨hbeats, hread, hfive, hanswer, hfour⟩ := frame_countFive hhalt hmachine hlimit
  obtain ⟨xs, k, -, hsingle, hlast⟩ := hreads [.step, .step] [.tick] 1 hbeats hread
  exact ⟨hstart, hcalls, hfour ▸ hcountdown, ⟨xs, k, hsingle, hfive ▸ hlast⟩, hframe 3 hanswer⟩

end Emulator

end ChipEight
