import ChipEight.Proofs.Emulator.Run
import ChipEight.Proofs.Machine.Bounds

/-!
# Proofs/Emulator/Bounds — how far an emulator can get

The machine of an emulator stays within its bounds through every call, the ones that fail included,
and an emulator that has come to a halt is not waiting for a key.
-/

namespace ChipEight.Emulator

/-- **An emulator within its bounds**, with the settings it was made with. -/
structure InBounds (config : Config) (e : Emulator) : Prop where
  settings : e.config = config
  machine : e.machine.InBounds
  capacity : e.machine.stack.capacity = config.stackDepth
  halted : e.halt ≠ none → e.machine.phase = .running

namespace InBounds

variable {config : Config} {e : Emulator}

theorem create (random : RandomSource) (threshold : Level) :
    InBounds config (create config random threshold) where
  settings := rfl
  machine := Machine.inBounds_initial config.drawMode (Int.natCast_nonneg config.stackDepth)
  capacity := rfl
  halted h := absurd rfl h

theorem step (h : InBounds config e) : InBounds config e.step.1 := by
  cases hhalt : e.halt with
  | some f =>
    rw [step_of_halt hhalt]
    exact h
  | none =>
    obtain ⟨_, _, _, hs⟩ := step_of_none hhalt
    rw [hs]
    refine ⟨h.settings, h.machine.step e.random.head, ?_, fun hhalted => ?_⟩
    · exact (e.machine.step_capacity e.random.head).trans h.capacity
    · cases hanswer : e.next.answer with
      | ok executed =>
        rw [hanswer] at hhalted
        exact absurd rfl hhalted
      | error f => exact Machine.phase_of_step_eq_error hanswer

theorem tick (h : InBounds config e) : InBounds config e.tick :=
  ⟨h.settings, h.machine.others _ _ _ _ _ _, h.capacity, h.halted⟩

theorem reset (h : InBounds config e) : InBounds config e.reset where
  settings := h.settings
  machine := .of_cleared rfl rfl rfl (h.machine.restart.depth)
  capacity := h.capacity
  halted hhalt := absurd rfl hhalt

theorem load {e' : Emulator} {image : List UInt8} {title : Option String}
    (hload : e.load image title = .ok e') (h : InBounds config e) : InBounds config e' := by
  rcases e.load_cases image title with ⟨err, -, heq⟩ | ⟨-, heq⟩
  · rw [heq] at hload
    cases hload
  · rw [heq] at hload
    cases hload
    have hloaded : InBounds config { e with image, title } :=
      ⟨h.settings, h.machine, h.capacity, h.halted⟩
    exact ⟨hloaded.reset.settings, hloaded.reset.machine, hloaded.reset.capacity,
      hloaded.reset.halted⟩

/-- The keypad can be moved at any time. -/
theorem keypad (h : InBounds config e) (keypad : Keypad) :
    InBounds config { e with machine := { e.machine with keypad } } :=
  ⟨h.settings, h.machine.others _ _ _ _ _ _, h.capacity, h.halted⟩

theorem keyUp (h : InBounds config e) (key : Binary64) : InBounds config (e.keyUp key) := by
  have hreleased := h.keypad (e.machine.keypad.release key)
  rcases e.keyUp_cases key with heq | ⟨k, log, -, hphase, heq⟩
  · rw [heq]
    exact hreleased
  · rw [heq]
    refine ⟨h.settings, hreleased.machine.resume _, ?_, fun hhalted => ?_⟩
    · simp only [Machine.resume, hphase]
      exact h.capacity
    · simp only [Machine.resume, hphase]

/-- Every call keeps the bounds. -/
theorem kept : Kept (InBounds config) where
  step := step
  tick := tick
  reset := reset
  load := load
  keyDown _ h := h.keypad _
  keyUp key h := h.keyUp key

theorem reached (random : RandomSource) (threshold : Level) (calls : List Call) :
    InBounds config (reached config random threshold calls) :=
  kept.run (create random threshold) calls

end InBounds

/-- **Whatever is asked of a new emulator, it stays within its bounds**, and the wrapping of its
program counter never shows. -/
theorem reached_inBounds (config : Config) (random : RandomSource) (threshold : Level)
    (calls : List Call) :
    let e := reached config random threshold calls
    e.machine.InBounds ∧ e.machine.HoldsBytes ∧ e.machine.stack.depth ≤ config.stackDepth
      ∧ (e.halt ≠ none → e.machine.phase = .running) ∧ e.machine.NeverWraps := by
  intro e
  have h : InBounds config e := .reached random threshold calls
  refine ⟨h.machine, e.machine.holdsBytes, ?_, h.halted, h.machine.neverWraps⟩
  have hdepth := h.machine.depth
  rw [h.capacity] at hdepth
  exact Int.ofNat_le.mp hdepth

end ChipEight.Emulator
