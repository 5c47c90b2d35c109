import ChipEight.Proofs.Emulator.Bounds
import ChipEight.Proofs.Machine.Halting

/-!
# Proofs/Emulator/Halted — a halt is final

An emulator that has come to a halt answers every step and frame with it, and nothing about it moves
but the keypad.  The release of a key is not kept from the machine; it does no harm because a halted
machine never waits for one.  Only a reset or a load that succeeds ends a halt.
-/

namespace ChipEight

/-! ## Calls -/

namespace Emulator.Call

/-- Does it start the machine anew? -/
def Restarts : Call → Prop
  | .reset => True
  | .load image _ => image ≠ [] ∧ image.length ≤ Memory.capacity
  | _ => False

/-- What it does to the keypad. -/
def moveKeys (p : Keypad) : Call → Keypad
  | .keyDown key => p.press key
  | .keyUp key => p.release key
  | _ => p

end Emulator.Call

namespace Emulator

/-! ## Calls to a halted emulator -/

/-- The emulator with other keys held down. -/
def withKeypad (e : Emulator) (keypad : Keypad) : Emulator :=
  { e with machine := { e.machine with keypad } }

/-- **What a halted emulator answers.** -/
def haltedReply (e : Emulator) (f : Halt) : Call → Reply
  | .load image _ =>
    match checkImage image with
    | .ok _ => .done
    | .error err => .refused err
  | .step => .stepped (.error f)
  | .frame => .framed none (.error f)
  | .observe => .observed e.snapshot
  | .reset | .keyDown _ | .keyUp _ => .done

theorem perform_of_halt {e : Emulator} {f : Halt} (hhalt : e.halt = some f)
    (hphase : e.machine.phase = .running) {c : Call} (hc : ¬ c.Restarts) :
    e.perform c = (e.withKeypad (c.moveKeys e.machine.keypad), e.haltedReply f c) := by
  cases c with
  | load image title =>
    cases hcheck : checkImage image with
    | ok bytes => exact absurd (checkImage_eq_ok_iff.mp hcheck).1 hc
    | error err =>
      rw [perform, load_of_error hcheck, haltedReply, hcheck]
      rfl
  | reset => exact absurd trivial hc
  | step => rw [perform, step_of_halt hhalt]; rfl
  | frame => rw [perform, frame, hhalt]; rfl
  | keyDown key => rfl
  | keyUp key => rw [perform, keyUp_of_running hphase]; rfl
  | observe => rfl

/-- **A run of a halted emulator** that does not restart it. -/
theorem run_of_halt {e : Emulator} {f : Halt} (hhalt : e.halt = some f)
    (hphase : e.machine.phase = .running) {later : List Call}
    (hlater : ∀ c ∈ later, ¬ c.Restarts) :
    e.run later = (e.withKeypad (later.foldl Call.moveKeys e.machine.keypad),
      later.map (e.haltedReply f)) := by
  induction later generalizing e with
  | nil => rfl
  | cons c later ih =>
    obtain ⟨hc, hlater⟩ := List.forall_mem_cons.mp hlater
    rw [run, perform_of_halt hhalt hphase hc]
    -- Moving keys changes neither the halt nor the phase, nor what is answered.
    have hrest := ih (e := e.withKeypad (c.moveKeys e.machine.keypad)) hhalt hphase hlater
    simp only [hrest]
    rfl

/-! ## How a halt comes about -/

/-- The emulator so many steps later. -/
def afterSteps (e : Emulator) : Nat → Emulator
  | 0 => e
  | k + 1 => e.step.1.afterSteps k

/-- It executes so many instructions, and the next step halts. -/
def HaltsAfter (e : Emulator) (f : Halt) : Nat → Prop
  | 0 => e.next.answer = .error f
  | k + 1 => e.next.answer = .ok true ∧ e.step.1.HaltsAfter f k

/-- **Does an instruction fault in the course of a call?** -/
def Call.Faults (e : Emulator) (f : Halt) : Call → Prop
  | .step => e.next.answer = .error f
  | .frame => ∃ k < e.config.instructionsPerFrame, e.HaltsAfter f k
  | _ => False

section

variable {e : Emulator} (h : e.halt = none)
include h

theorem steps_of_true (hnext : e.next.answer = .ok true) (n : Nat) :
    e.steps (n + 1) = ((e.step.1.steps n).1, (e.step.1.steps n).2.map (· + 1)) := by
  have hstep : e.step = (e.step.1, .ok true) := by rw [← hnext, ← step_answer h]
  rw [steps, hstep]

theorem steps_of_false (hnext : e.next.answer = .ok false) (n : Nat) :
    e.steps (n + 1) = (e.step.1, .ok 0) := by
  have hstep : e.step = (e.step.1, .ok false) := by rw [← hnext, ← step_answer h]
  rw [steps, hstep]

theorem steps_of_error {f : Halt} (hnext : e.next.answer = .error f) (n : Nat) :
    e.steps (n + 1) = (e.step.1, .error f) := by
  have hstep : e.step = (e.step.1, .error f) := by rw [← hnext, ← step_answer h]
  rw [steps, hstep]

theorem steps_of_haltsAfter {f : Halt} {k n : Nat} (hk : k < n) (hf : e.HaltsAfter f k) :
    e.steps n = (e.afterSteps (k + 1), .error f) := by
  induction k generalizing e n with
  | zero =>
    cases n with
    | zero => exact absurd hk (Nat.lt_irrefl 0)
    | succ n => exact steps_of_error h hf n
  | succ k ih =>
    obtain ⟨hnext, hf⟩ := hf
    have hstep : e.step.1.halt = none := by rw [step_halt h, hnext]; rfl
    cases n with
    | zero => exact absurd hk (Nat.not_lt_zero _)
    | succ n =>
      rw [steps_of_true h hnext, ih hstep (Nat.lt_of_succ_lt_succ hk) hf]
      rfl

/-- Steps in a row either come to a halt or do not record one. -/
theorem steps_halt (n : Nat) :
    (∃ k < n, ∃ f, e.HaltsAfter f k)
      ∨ (∃ count, (e.steps n).2 = .ok count) ∧ (e.steps n).1.halt = none := by
  induction n generalizing e with
  | zero => exact .inr ⟨⟨0, rfl⟩, h⟩
  | succ n ih =>
    rcases hnext : e.next.answer with f | _ | _
    · exact .inl ⟨0, Nat.succ_pos n, f, hnext⟩
    · rw [steps_of_false h hnext]
      exact .inr ⟨⟨0, rfl⟩, by rw [step_halt h, hnext]; rfl⟩
    · have hstep : e.step.1.halt = none := by rw [step_halt h, hnext]; rfl
      rcases ih hstep with ⟨k, hk, f, hf⟩ | ⟨⟨count, hcount⟩, hhalt⟩
      · exact .inl ⟨k + 1, Nat.succ_lt_succ hk, f, hnext, hf⟩
      · rw [steps_of_true h hnext, hcount]
        exact .inr ⟨⟨count + 1, rfl⟩, hhalt⟩

/-- The emulator behind the step that halts has recorded the halt. -/
theorem afterSteps_halt {f : Halt} {k : Nat} (hf : e.HaltsAfter f k) :
    (e.afterSteps (k + 1)).halt = some f := by
  induction k generalizing e with
  | zero =>
    have hnext : e.next.answer = .error f := hf
    rw [afterSteps, afterSteps, step_halt h, hnext]
    rfl
  | succ k ih =>
    obtain ⟨hnext, hf⟩ := hf
    exact ih (by rw [step_halt h, hnext]; rfl) hf

/-- **A frame that halts** is the steps up to the halt and nothing else. -/
theorem frame_of_haltsAfter {f : Halt} {k : Nat} (hk : k < e.config.instructionsPerFrame)
    (hf : e.HaltsAfter f k) : e.frame = ⟨e.afterSteps (k + 1), none, .error f⟩ := by
  rw [frame, h, steps_of_haltsAfter h hk hf]

/-- A frame that comes to its end counts down the timer and is shown. -/
theorem frame_of_ok {count : Nat} (hcount : (e.steps e.config.instructionsPerFrame).2 = .ok count) :
    let last := (e.steps e.config.instructionsPerFrame).1
    e.frame = ⟨last.tick, some last.machine.screen, .ok count⟩ := by
  have hsteps : e.steps e.config.instructionsPerFrame = (_, .ok count) := Prod.ext rfl hcount
  rw [frame, h, hsteps]

/-- A frame halts in one of its steps, or it comes to its end and records nothing. -/
theorem frame_halt :
    (∃ k < e.config.instructionsPerFrame, ∃ f, e.HaltsAfter f k)
      ∨ (∃ count, e.frame.answer = .ok count) ∧ e.frame.emulator.halt = none := by
  rcases steps_halt h e.config.instructionsPerFrame with hfault | ⟨⟨count, hcount⟩, hhalt⟩
  · exact .inl hfault
  · rw [frame_of_ok h hcount]
    exact .inr ⟨⟨count, rfl⟩, hhalt⟩

/-- Only a step or a frame records a halt. -/
theorem perform_halt_of_other {c : Call} (hstep : c ≠ .step) (hframe : c ≠ .frame) :
    (e.perform c).1.halt = none := by
  cases c with
  | load image title =>
    rcases e.load_cases image title with ⟨err, -, heq⟩ | ⟨-, heq⟩
    · rw [perform, heq]
      exact h
    · rw [perform, heq]
      rfl
  | reset => rfl
  | step => exact absurd rfl hstep
  | frame => exact absurd rfl hframe
  | keyDown key => exact h
  | keyUp key => exact (e.keyUp_halt key).trans h
  | observe => exact h

/-- **A halt is recorded by exactly the calls in which an instruction faults.** -/
theorem perform_halt_iff (c : Call) (f : Halt) :
    (e.perform c).1.halt = some f ↔ c.Faults e f := by
  cases c with
  | step => exact (step_halt h ▸ haltOf_eq_some_iff : e.step.1.halt = some f ↔ _)
  | frame =>
    constructor
    · intro hhalt
      rcases frame_halt h with ⟨k, hk, g, hg⟩ | ⟨-, hnone⟩
      · have hrecorded : e.frame.emulator.halt = some g := by
          rw [frame_of_haltsAfter h hk hg]
          exact afterSteps_halt h hg
        obtain rfl := Option.some.inj (hrecorded.symm.trans hhalt)
        exact ⟨k, hk, hg⟩
      · cases hnone.symm.trans hhalt
    · rintro ⟨k, hk, hf⟩
      rw [perform, frame_of_haltsAfter h hk hf]
      exact afterSteps_halt h hf
  | load | reset | keyDown | keyUp | observe =>
    refine iff_of_false (fun hhalt => ?_) id
    rw [perform_halt_of_other h] at hhalt
    · cases hhalt
    · intro hc; cases hc
    · intro hc; cases hc

end

/-- Restarting ends a halt. -/
theorem perform_halt_of_restarts (e : Emulator) {c : Call} (hc : c.Restarts) :
    (e.perform c).1.halt = none := by
  cases c with
  | load image title =>
    rw [perform, load_of_ok hc]
    rfl
  | reset => rfl
  | _ => exact hc.elim

/-- **A halt is final until a restart**: whatever is asked of a new emulator, once it has halted it
moves nothing but the keypad and answers with the halt, until a reset or a load that succeeds.
Halts come from the steps and frames in which an instruction faults, and such a frame neither
counts for the timer nor is shown. -/
theorem reached_halt (config : Config) (random : RandomSource) (threshold : Level)
    (calls : List Call) :
    let e := reached config random threshold calls
    (∀ f, e.halt = some f → e.snapshot.halt = some f.message
      ∧ ∀ later : List Call, (∀ c ∈ later, ¬ c.Restarts) →
        e.run later = (e.withKeypad (later.foldl Call.moveKeys e.machine.keypad),
          later.map (e.haltedReply f)))
    ∧ (e.halt = none → ∀ c f, (e.perform c).1.halt = some f ↔ c.Faults e f)
    ∧ (e.halt = none → ∀ f, e.frame.answer = .error f →
        ∃ k < config.instructionsPerFrame, e.HaltsAfter f k
          ∧ e.frame = ⟨e.afterSteps (k + 1), none, .error f⟩)
    ∧ ∀ c : Call, c.Restarts → (e.perform c).1.halt = none := by
  intro e
  have hbounds : InBounds config e := .reached random threshold calls
  refine ⟨fun f hhalt => ⟨?_, fun later hlater => ?_⟩, fun hnone c f => perform_halt_iff hnone c f,
    fun hnone f herror => ?_, fun c hc => e.perform_halt_of_restarts hc⟩
  · rw [snapshot, hhalt]
    rfl
  · exact run_of_halt hhalt (hbounds.halted (hhalt ▸ Option.some_ne_none f)) hlater
  · rw [← hbounds.settings]
    rcases frame_halt hnone with ⟨k, hk, g, hg⟩ | ⟨⟨count, hcount⟩, -⟩
    · have hframe := frame_of_haltsAfter hnone hk hg
      rw [hframe] at herror
      cases herror
      exact ⟨k, hk, hg, hframe⟩
    · cases hcount.symm.trans herror

/-- The halt of an emulator that is made to run without a program. -/
def noProgram : Halt := ⟨.unknownInstruction 0, some 0, 0x200⟩

/-- The first step of a new emulator meets a zero word. -/
theorem reached_step_halt (config : Config) (random : RandomSource) (threshold : Level) :
    (reached config random threshold [.step]).halt = some noProgram := by
  have hnone : (create config random threshold).halt = none := rfl
  refine (step_halt hnone).trans (haltOf_eq_some_iff.mpr ?_)
  have hmemory : (create config random threshold).machine.memory = .initial := rfl
  have hread : (create config random threshold).machine.memory.readWord 0x200 = .ok 0 := by
    rw [hmemory]
    exact Memory.readWord_initial (by decide) (by decide)
  have hword := (Instruction.ofWord?_eq_none_iff (w := 0) (by decide)).mp rfl
  exact Machine.step_answer_of_halts rfl (Int.le_refl 0) (.unknown hread hword) random.head

theorem reached_halt_noProgram :
    let e := reached ⟨8, .set, 16, .info⟩ (.cycle []) .info [.step]
    e.halt = some noProgram
      ∧ (e.run [.keyUp (.finite 3), .frame, .step]).2
        = [.done, .framed none (.error noProgram), .stepped (.error noProgram)]
      ∧ (e.perform .reset).1.halt = none := by
  intro e
  have hhalt : e.halt = some noProgram := reached_step_halt _ _ _
  obtain ⟨hhalted, -, -, hrestarts⟩ := reached_halt ⟨8, .set, 16, .info⟩ (.cycle []) .info [.step]
  refine ⟨hhalt, ?_, hrestarts .reset trivial⟩
  have hlater : ∀ c ∈ [Call.keyUp (.finite 3), .frame, .step], ¬ c.Restarts := by
    intro c hc
    rcases List.mem_cons.mp hc with rfl | hc
    · exact id
    rcases List.mem_cons.mp hc with rfl | hc
    · exact id
    obtain rfl := List.mem_singleton.mp hc
    exact id
  exact congrArg Prod.snd ((hhalted noProgram hhalt).2 _ hlater)

end Emulator

end ChipEight
