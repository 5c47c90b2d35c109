import ChipEight.Emulator.Run

/-!
# Proofs/Emulator/Run — what calls do to an emulator

Each call in one equation that names what it changes, log and counters of the random numbers left
open where nothing depends on them.  `Kept` gathers what has to be shown of a property to have it
of every emulator a run gets to.  What a step writes to the log is a row of events (`eventsOf`),
which does not depend on what the log keeps.
-/

namespace ChipEight

/-- The machine behind the release of a key, which may be the one it waits for. -/
def Machine.released (m : Machine) (key : Binary64) : Machine :=
  let released := { m with keypad := m.keypad.release key }
  match Key.ofNumber? key with
  | none => released
  | some k => (released.resume k.val).1

/-! ## The log -/

namespace EventLog

/-- Events written one after the other. -/
def recordAll (l : EventLog) (events : List Event) : EventLog := events.foldl record l

theorem recordAll_append (l : EventLog) (xs ys : List Event) :
    l.recordAll (xs ++ ys) = (l.recordAll xs).recordAll ys := List.foldl_append

end EventLog

namespace Emulator

/-! ## Steps -/

/-- The step its machine would take. -/
def next (e : Emulator) : Step := e.machine.step e.random.head

theorem foldl_record (e : Emulator) (events : List Event) :
    events.foldl record e = { e with log := e.log.recordAll events } := by
  induction events generalizing e with
  | nil => rfl
  | cons event events ih => exact ih (e.record event)

/-- Has the missing sound been reported once an instruction is fetched? -/
def soundAfter (e : Emulator) (f : Fetched) : Bool :=
  e.soundReported || (e.machine.soundValue f).isSome

/-- The report of a missing sound that is due once an instruction is fetched. -/
def soundReport (e : Emulator) (f : Fetched) : List Event :=
  if e.soundReported then [] else (e.machine.soundValue f).toList.map .soundRequested

/-- **The events of a fetched instruction.** -/
def eventsOf (e : Emulator) (f : Fetched) : List Event :=
  Event.ofFetched f e.machine.stack.depth ++ e.soundReport f

theorem observe_eq (e : Emulator) (f : Fetched) :
    e.observe e.machine f
      = { e with soundReported := e.soundAfter f, log := e.log.recordAll (e.eventsOf f) } := by
  rw [observe, foldl_record, eventsOf, EventLog.recordAll_append, soundAfter, soundReport]
  cases e.machine.soundValue f with
  | none => cases e.soundReported <;> rfl
  | some value => cases e.soundReported <;> rfl

theorem step_of_halt {e : Emulator} {f : Halt} (h : e.halt = some f) : e.step = (e, .error f) := by
  rw [step, h]

/-- **A step that is taken** is the machine's.  What was fetched decides the sound report, the
random numbers left and what is written to the log, and settings and program stay. -/
theorem step_eq {e : Emulator} (h : e.halt = none) :
    e.step = ({ e with
      machine := e.next.machine
      halt := haltOf e.next.answer
      soundReported := e.next.fetched.elim e.soundReported e.soundAfter
      random := e.next.fetched.elim e.random (randomAfter e.random)
      log := e.log.recordAll (e.next.fetched.elim [] e.eventsOf) }, e.next.answer) := by
  rw [step, h]
  cases hf : e.next.fetched with
  | none =>
    rw [next] at hf ⊢
    simp only [hf, Option.elim, EventLog.recordAll, List.foldl_nil]
  | some f =>
    rw [next] at hf ⊢
    simp only [hf, e.observe_eq f, Option.elim]

theorem step_of_none {e : Emulator} (h : e.halt = none) :
    ∃ soundReported random log,
      e.step = ({ e with machine := e.next.machine, halt := haltOf e.next.answer,
                         soundReported, random, log }, e.next.answer) := by
  exact ⟨_, _, _, step_eq h⟩

theorem step_answer {e : Emulator} (h : e.halt = none) : e.step.2 = e.next.answer := by
  obtain ⟨_, _, _, hs⟩ := step_of_none h
  rw [hs]

theorem step_halt {e : Emulator} (h : e.halt = none) : e.step.1.halt = haltOf e.next.answer := by
  obtain ⟨_, _, _, hs⟩ := step_of_none h
  rw [hs]

theorem step_machine {e : Emulator} (h : e.halt = none) : e.step.1.machine = e.next.machine := by
  obtain ⟨_, _, _, hs⟩ := step_of_none h
  rw [hs]

theorem haltOf_eq_some_iff {answer : Except Halt Bool} {f : Halt} :
    haltOf answer = some f ↔ answer = .error f := by
  cases answer with
  | ok executed => exact iff_of_false nofun nofun
  | error g =>
    refine ⟨fun h => ?_, fun h => ?_⟩
    · rw [Option.some.inj h]
    · rw [Except.error.inj h, haltOf]

/-! ## Loading -/

theorem checkImage_eq_ok_iff {image bytes : List UInt8} :
    checkImage image = .ok bytes
      ↔ (image ≠ [] ∧ image.length ≤ Memory.capacity) ∧ bytes = image := by
  unfold checkImage
  split
  case isTrue h => simp_all
  case isFalse h =>
    split
    case isTrue hc => simp only [reduceCtorEq, Nat.not_le.mpr hc, and_false, false_and]
    case isFalse hc =>
      have hne : image ≠ [] := fun h0 => h (by rw [h0]; rfl)
      simp [hne, Nat.le_of_not_lt hc, eq_comm]

/-- **A load that succeeds** takes the image over and is a reset. -/
theorem load_of_ok {e : Emulator} {image : List UInt8} {title : Option String}
    (h : image ≠ [] ∧ image.length ≤ Memory.capacity) :
    e.load image title
      = .ok (({ e with image, title }.reset).record (.loaded image.length title)) := by
  have hbytes : ¬ image.isEmpty := fun h0 => h.1 (List.isEmpty_iff.mp h0)
  have hroom : e.machine.memory.load image = .ok (e.machine.memory.place image) :=
    if_neg (Nat.not_lt.mpr h.2)
  rw [load, if_neg hbytes, hroom]
  rfl

/-- A load is refused for the reason for which the size check refuses the image. -/
theorem load_of_error {e : Emulator} {image : List UInt8} {title : Option String}
    {err : LoadError} (h : checkImage image = .error err) : e.load image title = .error err := by
  unfold checkImage at h
  split at h
  case isTrue hempty =>
    cases h
    rw [load, if_pos hempty]
    rfl
  case isFalse hbytes =>
    split at h
    case isTrue hlarge =>
      cases h
      have hroom : e.machine.memory.load image = .error (.tooLarge image.length) := if_pos hlarge
      rw [load, if_neg hbytes, hroom]
      rfl
    case isFalse => cases h

theorem load_cases (e : Emulator) (image : List UInt8) (title : Option String) :
    (∃ err, checkImage image = .error err ∧ e.load image title = .error err)
      ∨ (image ≠ [] ∧ image.length ≤ Memory.capacity) ∧ e.load image title
        = .ok (({ e with image, title }.reset).record (.loaded image.length title)) := by
  cases hcheck : checkImage image with
  | error err => exact .inl ⟨err, rfl, load_of_error hcheck⟩
  | ok bytes =>
    obtain ⟨hfits, -⟩ := checkImage_eq_ok_iff.mp hcheck
    exact .inr ⟨hfits, load_of_ok hfits⟩

/-! ## Keys -/

theorem keyUp_eq (e : Emulator) (key : Binary64) :
    ∃ log, e.keyUp key = { e with machine := e.machine.released key, log } := by
  unfold keyUp Machine.released
  cases Key.ofNumber? key with
  | none => exact ⟨e.log, rfl⟩
  | some k =>
    simp only
    generalize Machine.resume _ _ = outcome
    rcases outcome with ⟨m, _ | _⟩
    · exact ⟨e.log, rfl⟩
    · exact ⟨_, rfl⟩

/-- A key that is released while the machine runs moves on the keypad alone. -/
theorem keyUp_of_running {e : Emulator} (h : e.machine.phase = .running) (key : Binary64) :
    e.keyUp key
      = { e with machine := { e.machine with keypad := e.machine.keypad.release key } } := by
  unfold keyUp
  split
  · rfl
  · simp only [Machine.resume, h]

/-- Otherwise it may be the key that the machine waits for. -/
theorem keyUp_cases (e : Emulator) (key : Binary64) :
    let released := { e.machine with keypad := e.machine.keypad.release key }
    e.keyUp key = { e with machine := released }
      ∨ ∃ k log, Key.ofNumber? key = some k ∧ e.machine.phase = .waitingForKey
        ∧ e.keyUp key = { e with machine := (released.resume (k.val : Int)).1, log } := by
  intro released
  cases hphase : e.machine.phase with
  | running => exact .inl (keyUp_of_running hphase key)
  | waitingForKey =>
    cases hk : Key.ofNumber? key with
    | none =>
      left
      simp only [keyUp, hk, released]
    | some k =>
      right
      refine ⟨k, (e.keyUp key).log, rfl, rfl, ?_⟩
      simp only [keyUp, hk, Machine.resume, hphase, released]
      rfl

theorem keyUp_halt (e : Emulator) (key : Binary64) : (e.keyUp key).halt = e.halt := by
  rcases e.keyUp_cases key with h | ⟨k, log, -, -, h⟩
  · rw [h]
  · rw [h]

/-! ## Runs -/

theorem run_cons (e : Emulator) (c : Call) (calls : List Call) :
    e.run (c :: calls) = (((e.perform c).1.run calls).1,
      (e.perform c).2 :: ((e.perform c).1.run calls).2) := rfl

theorem run_append (e : Emulator) (xs ys : List Call) :
    (e.run (xs ++ ys)).1 = ((e.run xs).1.run ys).1 := by
  induction xs generalizing e with
  | nil => rfl
  | cons c xs ih => exact ih (e.perform c).1

/-- **What every call keeps.** -/
structure Kept (P : Emulator → Prop) : Prop where
  step : ∀ {e}, P e → P e.step.1
  tick : ∀ {e}, P e → P e.tick
  reset : ∀ {e}, P e → P e.reset
  load : ∀ {e e' image title}, e.load image title = .ok e' → P e → P e'
  keyDown : ∀ {e} key, P e → P (e.keyDown key)
  keyUp : ∀ {e} key, P e → P (e.keyUp key)

namespace Kept

variable {P : Emulator → Prop}

theorem steps (hP : Kept P) {e : Emulator} (h : P e) (n : Nat) : P (e.steps n).1 := by
  induction n generalizing e with
  | zero => exact h
  | succ n ih =>
    have hstep := hP.step h
    unfold Emulator.steps
    split <;> simp_all

theorem frame (hP : Kept P) {e : Emulator} (h : P e) : P e.frame.emulator := by
  have hsteps := hP.steps h e.config.instructionsPerFrame
  unfold Emulator.frame
  split
  · exact h
  · split
    case h_1 heq => exact hP.tick (by rw [heq] at hsteps; exact hsteps)
    case h_2 heq => rw [heq] at hsteps; exact hsteps

theorem perform (hP : Kept P) {e : Emulator} (h : P e) (c : Call) : P (e.perform c).1 := by
  cases c with
  | load image title =>
    rw [Emulator.perform]
    cases hload : e.load image title with
    | ok e' => exact hP.load hload h
    | error => exact h
  | reset => exact hP.reset h
  | step => exact hP.step h
  | frame => exact hP.frame h
  | keyDown key => exact hP.keyDown key h
  | keyUp key => exact hP.keyUp key h
  | observe => exact h

/-- **A run keeps it too.** -/
theorem run (hP : Kept P) {e : Emulator} (h : P e) (calls : List Call) : P (e.run calls).1 := by
  induction calls generalizing e with
  | nil => exact h
  | cons c calls ih => exact ih (hP.perform h c)

end Kept

/-- The emulator that calls to a new one lead to. -/
def reached (config : Config) (random : RandomSource) (threshold : Level) (calls : List Call) :
    Emulator :=
  ((create config random threshold).run calls).1

theorem reached_append (config : Config) (random : RandomSource) (threshold : Level)
    (xs ys : List Call) :
    reached config random threshold (xs ++ ys)
      = ((reached config random threshold xs).run ys).1 :=
  run_append _ xs ys

end Emulator

end ChipEight
