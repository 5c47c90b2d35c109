import ChipEight.Proofs.Emulator.KeyWait
import ChipEight.Proofs.Program.KeyEcho

/-!
# Proofs/Emulator/KeyEcho — the key-echo program, call by call

Where the program is can be told from the calls alone, without a machine: which keys it has taken,
what it is about to execute until it waits again, and the outline of the machine there
(`EchoState`).  Every emulator that has loaded the program follows it (`Follows`), and no
instruction on the way can fault.  So the program is never stopped, it shows what it should wherever
it waits, and two emulators with frames of the same length show the same at any time, in whichever
draw mode.
-/

namespace ChipEight

/-! ## What calls bring about -/

namespace Emulator

/-- The key that ends a wait in a call, if one does. -/
def Call.awaited (e : Emulator) : Call → Option Key
  | .keyUp key => if e.isWaiting then Key.ofNumber? key else none
  | _ => none

/-- **The keys that end a wait** in the course of a run, oldest first. -/
def awaitedKeys (e : Emulator) : List Call → List Key
  | [] => []
  | c :: calls => (c.awaited e).toList ++ (e.perform c).1.awaitedKeys calls

/-- Is it the answer of a step or a frame that faults? -/
def Reply.Faults : Reply → Prop
  | .stepped (.error _) | .framed _ (.error _) => True
  | _ => False

end Emulator

open Catalog Emulator

/-! ## The program without its machine -/

/-- **Where the program is**: the keys it has taken, the instructions up to its next wait, and the
outline of the machine. -/
structure EchoState where
  keys : List Key
  ahead : List Instruction
  outline : Outline

namespace EchoState

def start : EchoState := ⟨[], echoOpening, Echoes.start⟩

/-- A step; where the program waits it does nothing. -/
def step (t : EchoState) : EchoState :=
  match t.ahead with
  | [] => t
  | i :: ahead => { t with ahead, outline := t.outline.next i }

def steps (t : EchoState) : Nat → EchoState
  | 0 => t
  | n + 1 => t.step.steps n

/-- A key that is released; it counts where the program waits. -/
def release (t : EchoState) (k : Key) : EchoState :=
  match t.ahead with
  | [] => ⟨t.keys ++ [k], echoRound, t.outline.resume k⟩
  | _ :: _ => t

/-- A call, with frames of `n` instructions. -/
def perform (n : Nat) (t : EchoState) : Call → EchoState
  | .step => t.step
  | .frame => t.steps n
  | .keyUp key => (Key.ofNumber? key).elim t t.release
  | .load _ _ | .reset | .keyDown _ | .observe => t

def run (n : Nat) (t : EchoState) (calls : List Call) : EchoState := calls.foldl (perform n) t

/-- **The way to the next wait is clear**, and there the program shows its keys. -/
structure Sound (t : EchoState) : Prop where
  clear : t.outline.Clear keyEchoImage t.ahead
  echoes : Echoes t.keys (t.outline.afterAll t.ahead)

theorem sound_start : start.Sound := ⟨Echoes.opening.1, Echoes.opening.2⟩

variable {t : EchoState}

theorem step_of_waiting (h : t.ahead = []) : t.step = t := by rw [step, h]

theorem steps_of_waiting (h : t.ahead = []) (n : Nat) : t.steps n = t := by
  induction n with
  | zero => rfl
  | succ n ih => rw [steps, step_of_waiting h, ih]

theorem keys_step (t : EchoState) : t.step.keys = t.keys := by
  rw [step]
  split <;> rfl

theorem keys_steps (t : EchoState) (n : Nat) : (t.steps n).keys = t.keys := by
  induction n generalizing t with
  | zero => rfl
  | succ n ih => exact (ih t.step).trans t.keys_step

theorem Sound.step (h : t.Sound) : t.step.Sound := by
  obtain ⟨keys, _ | ⟨i, ahead⟩, o⟩ := t
  · exact h
  · obtain ⟨-, -, -, hclear⟩ := h.clear
    exact ⟨hclear, h.echoes⟩

theorem Sound.release (h : t.Sound) (k : Key) : (t.release k).Sound := by
  obtain ⟨keys, _ | ⟨i, ahead⟩, o⟩ := t
  · obtain ⟨hclear, hechoes⟩ := Echoes.round h.echoes k
    exact ⟨hclear, hechoes⟩
  · exact h

/-- The phase tells whether there are instructions ahead. -/
theorem Sound.ahead_eq_nil_iff (h : t.Sound) :
    t.ahead = [] ↔ t.outline.phase = .waitingForKey := by
  obtain ⟨keys, _ | ⟨i, ahead⟩, o⟩ := t
  · exact iff_of_true rfl h.clear.1
  · refine iff_of_false nofun fun hwaiting => ?_
    cases h.clear.1.symm.trans hwaiting

end EchoState

/-! ## Emulators that run the program -/

/-- **An emulator that is where the program is**, with frames of `n` instructions. -/
structure Follows (n : Nat) (t : EchoState) (e : Emulator) : Prop where
  sound : t.Sound
  describes : Describes keyEchoImage t.outline e.machine
  halt : e.halt = none
  frameLength : e.config.instructionsPerFrame = n

namespace Follows

variable {n : Nat} {t : EchoState} {e : Emulator}

theorem ahead_eq_nil_iff (h : Follows n t e) :
    t.ahead = [] ↔ e.machine.phase = .waitingForKey := by
  rw [h.sound.ahead_eq_nil_iff, h.describes.phase]

/-- Keys and the timer may change. -/
theorem others (h : Follows n t e) (keypad : Keypad) (timer : Timer) :
    Follows n t { e with machine := { e.machine with keypad, timer } } :=
  ⟨h.sound, h.describes.others keypad timer, h.halt, h.frameLength⟩

/-! ### Steps and frames -/

theorem step_waiting (h : Follows n t e) (hnil : t.ahead = []) : e.step = (e, .ok false) :=
  Emulator.step_of_waiting h.halt (h.ahead_eq_nil_iff.mp hnil)

theorem step_running (h : Follows n t e) {i : Instruction} {ahead : List Instruction}
    (hcons : t.ahead = i :: ahead) : e.next.answer = .ok true ∧ Follows n t.step e.step.1 := by
  obtain ⟨hphase, hat, hallows, -⟩ : t.outline.Clear keyEchoImage (i :: ahead) :=
    hcons ▸ h.sound.clear
  obtain ⟨hanswer, hdescribes⟩ :=
    h.describes.step (by decide) hphase hat hallows e.random.head
  refine ⟨hanswer, h.sound.step, ?_, (step_halt h.halt).trans (congrArg haltOf hanswer), ?_⟩
  · rw [step_machine h.halt, EchoState.step, hcons]
    exact hdescribes
  · obtain ⟨_, _, _, hs⟩ := step_of_none h.halt
    rw [hs]
    exact h.frameLength

/-- **A step goes with the program** and does not fault. -/
theorem step (h : Follows n t e) :
    Follows n t.step e.step.1 ∧ ∃ executed, e.step.2 = .ok executed := by
  rcases hahead : t.ahead with _ | ⟨i, ahead⟩
  · rw [h.step_waiting hahead, EchoState.step_of_waiting hahead]
    exact ⟨h, false, rfl⟩
  · obtain ⟨hanswer, hstep⟩ := h.step_running hahead
    exact ⟨hstep, true, (step_answer h.halt).trans hanswer⟩

theorem steps (h : Follows n t e) (k : Nat) :
    Follows n (t.steps k) (e.steps k).1 ∧ ∃ count, (e.steps k).2 = .ok count := by
  induction k generalizing t e with
  | zero => exact ⟨h, 0, rfl⟩
  | succ k ih =>
    rcases hahead : t.ahead with _ | ⟨i, ahead⟩
    · rw [Emulator.steps_of_waiting h.halt (h.ahead_eq_nil_iff.mp hahead),
        EchoState.steps_of_waiting hahead]
      exact ⟨h, 0, rfl⟩
    · obtain ⟨hanswer, hstep⟩ := h.step_running hahead
      obtain ⟨hlast, count, hcount⟩ := ih hstep
      rw [steps_of_true h.halt hanswer, hcount]
      exact ⟨hlast, count + 1, rfl⟩

/-- **A frame goes with the program** and does not fault. -/
theorem frame (h : Follows n t e) :
    Follows n (t.steps n) e.frame.emulator ∧ ∃ count, e.frame.answer = .ok count := by
  obtain ⟨hsteps, count, hcount⟩ := h.steps n
  have hframe := frame_of_ok h.halt (h.frameLength.symm ▸ hcount)
  rw [hframe, h.frameLength]
  exact ⟨hsteps.others _ _, count, rfl⟩

/-! ### Calls -/

/-- A key that is released goes to the program where it waits. -/
theorem keyUp (h : Follows n t e) {k : Key} {key : Binary64} (hk : Key.ofNumber? key = some k) :
    Follows n (t.release k) (e.keyUp key) ∧ (t.release k).keys
      = t.keys ++ (if e.isWaiting then [k] else []) := by
  rcases hahead : t.ahead with _ | ⟨i, ahead⟩
  · have hphase := h.ahead_eq_nil_iff.mp hahead
    have hsound := h.sound.release k
    obtain ⟨-, h0, h1⟩ : t.outline.Clear keyEchoImage [] := hahead ▸ h.sound.clear
    obtain ⟨log, hkey⟩ := keyUp_of_waiting hphase hk
    rw [EchoState.release, hahead] at hsound ⊢
    rw [hkey, isWaiting, hphase]
    exact ⟨⟨hsound, h.describes.resume h0 h1 k _, h.halt, h.frameLength⟩, rfl⟩
  · have hphase : e.machine.phase = .running := h.describes.phase.trans
      (show t.outline.Clear keyEchoImage (i :: ahead) from hahead ▸ h.sound.clear).1
    rw [EchoState.release, hahead, keyUp_of_running hphase, isWaiting, hphase]
    exact ⟨h.others _ _, (List.append_nil _).symm⟩

/-- **A call goes with the program**: it does not fault, and the key that ends a wait in it, if one
does, is one more key. -/
theorem perform (h : Follows n t e) {c : Call} (hc : ¬ c.Restarts) :
    Follows n (t.perform n c) (e.perform c).1 ∧ ¬ (e.perform c).2.Faults
      ∧ (t.perform n c).keys = t.keys ++ (c.awaited e).toList := by
  have hnone : t.keys = t.keys ++ (none : Option Key).toList := (List.append_nil _).symm
  match c with
  | .load image title =>
    have hload : ¬ (Call.load image title).Loads := fun hload => hc hload.restarts
    obtain ⟨err, hrefused⟩ := perform_refused (e := e) hload
    rw [hrefused]
    exact ⟨h, id, hnone⟩
  | .reset => exact absurd trivial hc
  | .step =>
    obtain ⟨hstep, executed, hanswer⟩ := h.step
    have hperform : e.perform .step = (e.step.1, .stepped e.step.2) := rfl
    rw [hperform, hanswer]
    exact ⟨hstep, id, t.keys_step.trans hnone⟩
  | .frame =>
    obtain ⟨hframe, count, hanswer⟩ := h.frame
    rw [Emulator.perform, hanswer]
    exact ⟨hframe, id, (t.keys_steps n).trans hnone⟩
  | .keyDown key => exact ⟨h.others _ _, id, hnone⟩
  | .observe => exact ⟨h, id, hnone⟩
  | .keyUp key =>
    rw [EchoState.perform, Call.awaited, Emulator.perform]
    rcases hk : Key.ofNumber? key with _ | k
    · rw [keyUp_of_none hk, ite_self]
      exact ⟨h, id, hnone⟩
    · obtain ⟨hkeyUp, hkeys⟩ := h.keyUp hk
      refine ⟨hkeyUp, id, hkeys.trans ?_⟩
      split <;> rfl

/-- **A run goes with the program.** -/
theorem run (h : Follows n t e) {calls : List Call} (hcalls : ∀ c ∈ calls, ¬ c.Restarts) :
    Follows n (t.run n calls) (e.run calls).1 ∧ (∀ r ∈ (e.run calls).2, ¬ r.Faults)
      ∧ (t.run n calls).keys = t.keys ++ e.awaitedKeys calls := by
  induction calls generalizing t e with
  | nil => exact ⟨h, fun _ hr => absurd hr List.not_mem_nil, (List.append_nil _).symm⟩
  | cons c calls ih =>
    obtain ⟨hc, hcalls⟩ := List.forall_mem_cons.mp hcalls
    obtain ⟨hone, hreply, hkeys⟩ := h.perform hc
    obtain ⟨hlast, hreplies, hlastKeys⟩ := ih hone hcalls
    refine ⟨hlast, List.forall_mem_cons.mpr ⟨hreply, hreplies⟩, hlastKeys.trans ?_⟩
    rw [hkeys, List.append_assoc]
    rfl

/-- Where it waits, the program shows its keys. -/
theorem echoes (h : Follows n t e) (hwaiting : e.machine.phase = .waitingForKey) :
    e.machine.pc = 0x204 ∧ e.machine.screen.Shows (echoPicture t.keys) := by
  have hahead := h.ahead_eq_nil_iff.mpr hwaiting
  have hechoes : Echoes t.keys (t.outline.afterAll []) := hahead ▸ h.sound.echoes
  exact ⟨h.describes.pc.trans hechoes.pc, hechoes.picture ▸ h.describes.picture⟩

/-- An emulator that has just been loaded with the program is at its start. -/
theorem of_load {m : Machine} (hhalt : e.halt = none)
    (hmachine : e.machine = coldStart m keyEchoImage) :
    Follows e.config.instructionsPerFrame .start e where
  sound := EchoState.sound_start
  describes := by
    have hzero (r : Int) : Registers.zero.get r = 0 :=
      congrArg UInt8.toNat (Vector.getElem_replicate _)
    rw [hmachine]
    exact ⟨rfl, rfl, fun r _ => hzero r, rfl, rfl, fun _ _ _ => rfl, rfl, Screen.shows_blank⟩
  halt := hhalt
  frameLength := rfl

end Follows

/-! ## The program -/

theorem loads_keyEcho (title : Option String) : (Call.load keyEchoImage title).Loads :=
  ⟨by decide, by decide⟩

theorem follows_reached (config : Config) (random : RandomSource) (threshold : Level)
    (history : List Call) (title : Option String) : Follows config.instructionsPerFrame .start
      (reached config random threshold (history ++ [.load keyEchoImage title])) := by
  obtain ⟨hhalt, -, hmachine⟩ := reached_load config random threshold history (loads_keyEcho title)
  have hsettled := settled_reached config random threshold (history ++ [.load keyEchoImage title])
  exact congrArg Config.instructionsPerFrame hsettled.settings ▸ .of_load hhalt hmachine

/-- **The key-echo program**, whatever has happened before it is loaded.  It is never stopped.
Wherever it waits for a key it is behind its `FX0A`, and the screen shows the key that ended the
last wait and how many there have been.  With frames of the same length the screen is the same
behind the same calls, in either draw mode. -/
theorem reached_keyEcho (config : Config) (random : RandomSource) (threshold : Level)
    (history : List Call) (title : Option String) :
    let load : Call := .load keyEchoImage title
    let start := reached config random threshold (history ++ [load])
    ((reached config random threshold history).perform load).2 = .done
    ∧ ∀ calls : List Call, (∀ c ∈ calls, ¬ c.Restarts) →
      let last := (start.run calls).1
      last.halt = none ∧ (∀ r ∈ (start.run calls).2, ¬ r.Faults)
      ∧ (last.machine.phase = .waitingForKey → last.machine.pc = 0x204
          ∧ last.machine.screen.Shows (echoPicture (start.awaitedKeys calls)))
      ∧ ∀ config' random' threshold' history' title',
          config'.instructionsPerFrame = config.instructionsPerFrame →
          let start' := reached config' random' threshold' (history' ++ [.load keyEchoImage title'])
          (start'.run calls).1.machine.screen = last.machine.screen := by
  refine ⟨by rw [perform_load (loads_keyEcho title)], fun calls hcalls => ?_⟩
  have hstart := follows_reached config random threshold history title
  obtain ⟨hlast, hreplies, hkeys⟩ := hstart.run hcalls
  refine ⟨hlast.halt, hreplies, fun hwaiting => ?_, ?_⟩
  · obtain ⟨hpc, hshows⟩ := hlast.echoes hwaiting
    exact ⟨hpc, hkeys.trans (List.nil_append _) ▸ hshows⟩
  · intro config' random' threshold' history' title' hframes start'
    obtain ⟨hlast', -⟩ := (follows_reached config' random' threshold' history' title').run hcalls
    rw [hframes] at hlast'
    exact hlast'.describes.picture.eq hlast.describes.picture

/-- One key, with frames of eight instructions. -/
def pressFive : List Call :=
  [.frame, .keyDown (.finite 5), .keyUp (.finite 5), .frame, .frame, .frame]

/-- The first key is a 5. -/
theorem reached_keyEcho_five :
    let start := reached ⟨8, .set, 16, .info⟩ (.cycle [7]) .info ([] ++ [.load keyEchoImage none])
    let start' := reached ⟨8, .xor, 16, .info⟩ (.cycle [7]) .info ([] ++ [.load keyEchoImage none])
    let last := (start.run pressFive).1
    last.machine.phase = .waitingForKey ∧ start.awaitedKeys pressFive = [5]
      ∧ last.machine.pc = 0x204
      ∧ last.machine.screen.Shows [⟨5, 1, 1⟩, ⟨0, 20, 1⟩, ⟨0, 25, 1⟩, ⟨1, 30, 1⟩]
      ∧ (start'.run pressFive).1.machine.screen = last.machine.screen := by
  have hcalls : ∀ c ∈ pressFive, ¬ c.Restarts := by simp [pressFive, Call.Restarts]
  have hstart := follows_reached ⟨8, .set, 16, .info⟩ (.cycle [7]) .info [] none
  obtain ⟨hlast, -, hkeys⟩ := hstart.run hcalls
  have hwaits : (EchoState.start.run 8 pressFive).ahead = [] := by decide
  have hphase := hlast.ahead_eq_nil_iff.mp hwaits
  have hfive : (EchoState.start.run 8 pressFive).keys = [5] := by decide
  have hawaited := (List.nil_append _).symm.trans (hkeys.symm.trans hfive)
  obtain ⟨-, hruns⟩ := reached_keyEcho ⟨8, .set, 16, .info⟩ (.cycle [7]) .info [] none
  obtain ⟨-, -, hwaiting, hsame⟩ := hruns pressFive hcalls
  obtain ⟨hpc, hshows⟩ := hwaiting hphase
  rw [hawaited] at hshows
  exact ⟨hphase, hawaited, hpc, hshows, hsame ⟨8, .xor, 16, .info⟩ (.cycle [7]) .info [] none rfl⟩

end ChipEight
