import ChipEight.Proofs.Emulator.KeyWait
import ChipEight.Proofs.Machine.Bare

/-!
# Proofs/Emulator/Slicing — how a run is cut into frames does not matter

Frames, ticks and keys move between two instructions, and random numbers come from outside.  As long
as the instructions executed are secluded from all of that, an emulator follows the course of its
bare machine (`play_course`), and how far it has come depends on nothing but the number of
instructions.
-/

namespace ChipEight.Emulator

/-! ## Beats between instructions -/

/-- **A beat that takes no step** moves only the keypad and the timer of a machine that runs. -/
theorem beat_of_not_taken {e : Emulator} (hphase : e.machine.phase = .running) {b : Beat}
    (hb : ¬ b.Restarts) (htaken : b.taken e = none) :
    (e.beat b).halt = e.halt ∧ (e.beat b).machine.bare = e.machine.bare := by
  cases b with
  | step =>
    cases hhalt : e.halt with
    | none =>
      rw [Beat.taken, hhalt] at htaken
      cases htaken
    | some f =>
      rw [beat, step_of_halt hhalt]
      exact ⟨hhalt, rfl⟩
  | tick | keyDown => exact ⟨rfl, rfl⟩
  | reset => exact absurd (.inl rfl) hb
  | load image title =>
    rw [beat_refused fun hload => hb (.inr hload)]
    exact ⟨rfl, rfl⟩
  | keyUp key =>
    rw [beat, keyUp_of_running hphase]
    exact ⟨rfl, rfl⟩

/-- Behind a halt nothing is executed. -/
theorem play_of_halt {e : Emulator} {f : Halt} (hhalt : e.halt = some f)
    (hphase : e.machine.phase = .running) {beats : List Beat} (hbeats : ∀ b ∈ beats, ¬ b.Restarts) :
    e.executed beats = [] ∧ (e.play beats).halt = some f
      ∧ (e.play beats).machine.bare = e.machine.bare := by
  induction beats generalizing e with
  | nil => exact ⟨rfl, hhalt, rfl⟩
  | cons b beats ih =>
    obtain ⟨hb, hbeats⟩ := List.forall_mem_cons.mp hbeats
    have htaken : b.taken e = none := by
      cases b with
      | step => rw [Beat.taken, hhalt]
      | _ => rfl
    obtain ⟨hsame, hbare⟩ := beat_of_not_taken hphase hb htaken
    obtain ⟨hnone, hlast, hmachine⟩ :=
      ih (hsame.trans hhalt) ((congrArg Machine.phase hbare).trans hphase) hbeats
    rw [executed_of_not_taken htaken]
    exact ⟨hnone, hlast, hmachine.trans hbare⟩

/-! ## Along the course -/

/-- **An emulator that has come to a bare machine**: the next instruction has not been tried, or it
has led to a halt. -/
inductive At (m : Machine) (e : Emulator) : Prop
  | between (halt : e.halt = none) (machine : e.machine.bare = m)
  | halted {f : Halt} (halt : e.halt = some f) (answer : (m.step 0).answer = .error f)
      (machine : e.machine.bare = (m.step 0).machine.bare)

/-- The halt that the next instruction comes to, or has come to. -/
def fate (e : Emulator) : Option Halt :=
  match e.halt with
  | some f => some f
  | none => haltOf e.next.answer

namespace At

variable {m : Machine} {e e' : Emulator}

/-- What the next instruction comes to is up to the bare machine. -/
theorem fate_eq (h : At m e) : e.fate = haltOf (m.step 0).answer := by
  cases h with
  | between halt machine =>
    obtain ⟨-, hanswer, -⟩ := e.machine.step_bare e.random.head
    rw [fate, halt, ← machine, ← hanswer]
    rfl
  | halted halt answer => rw [fate, halt, answer, haltOf]

theorem bare_eq (h : At m e) (h' : At m e') (hhalt : e.halt.isSome = e'.halt.isSome) :
    e.machine.bare = e'.machine.bare := by
  cases h with
  | between halt machine =>
    cases h' with
    | between _ machine' => exact machine.trans machine'.symm
    | halted halt' =>
      rw [halt, halt'] at hhalt
      cases hhalt
  | halted halt _ machine =>
    cases h' with
    | between halt' =>
      rw [halt, halt'] at hhalt
      cases hhalt
    | halted _ _ machine' => exact machine.trans machine'.symm

end At

/-- An instruction that is secluded does not begin a wait. -/
theorem phase_of_secluded {m : Machine} {random : Int} (hphase : m.phase = .running) {f : Fetched}
    (hexecuted : (m.step random).executed = some f) (hf : f.instruction.Secluded) :
    (m.step random).machine.phase = .running := by
  cases hnext : (m.step random).machine.phase with
  | running => rfl
  | waitingForKey =>
    obtain ⟨w, x, hwait, -⟩ := Machine.step_awaiting hphase hnext
    obtain rfl := Option.some.inj (hexecuted.symm.trans hwait)
    exact hf.elim

/-- **What one beat does to a run along the course**: nothing, one instruction more, or the halt. -/
inductive Advance (e : Emulator) (b : Beat) : Prop
  | none (halt : (e.beat b).halt = none) (machine : (e.beat b).machine.bare = e.machine.bare)
      (executed : ∀ beats, e.executed (b :: beats) = (e.beat b).executed beats)
  | one {f : Fetched} (halt : (e.beat b).halt = none)
      (course : (e.machine.bare.step 0).executed = some f)
      (machine : f.instruction.Secluded → (e.beat b).machine.phase = .running
        ∧ (e.beat b).machine.bare = (e.machine.bare.step 0).machine.bare)
      (executed : ∀ beats, e.executed (b :: beats) = f :: (e.beat b).executed beats)
  | halt {f : Halt} (halt : (e.beat b).halt = some f) (phase : (e.beat b).machine.phase = .running)
      (answer : (e.machine.bare.step 0).answer = .error f)
      (machine : (e.beat b).machine.bare = (e.machine.bare.step 0).machine.bare)
      (executed : ∀ beats, e.executed (b :: beats) = (e.beat b).executed beats)

theorem step_advance {e : Emulator} (hhalt : e.halt = none) (hphase : e.machine.phase = .running) :
    Advance e .step := by
  obtain ⟨-, hanswer, hbare⟩ := e.machine.step_bare e.random.head
  have hmachine : (e.beat .step).machine = e.next.machine := step_machine hhalt
  have hrecorded : (e.beat .step).halt = haltOf e.next.answer := step_halt hhalt
  have hexecuted := executed_of_taken (Beat.taken_step hhalt)
  rcases hnext : e.next.answer with f | _ | _
  · have hnone : e.next.executed = none := by rw [Step.executed, hnext]
    rw [hnext] at hrecorded
    rw [hnone] at hexecuted
    refine .halt hrecorded ?_ (hanswer.symm.trans hnext) ?_ hexecuted
    · rw [hmachine]
      exact Machine.phase_of_step_eq_error hnext
    · rw [hmachine]
      exact hbare fun f hf => absurd (hf.symm.trans hnone) (Option.some_ne_none f)
  · exact absurd hnext (Machine.step_startsAt hphase _).1
  · obtain ⟨f, hf⟩ := Machine.exists_executed hnext
    have hsome : e.next.executed = some f := hf
    have hcourse := (e.machine.executed_bare e.random.head).symm.trans hf
    rw [hnext] at hrecorded
    rw [hsome] at hexecuted
    refine .one hrecorded hcourse (fun hsecluded => ?_) hexecuted
    rw [hmachine]
    refine ⟨phase_of_secluded hphase hf hsecluded, hbare fun g hg => ?_⟩
    obtain rfl := Option.some.inj (hf.symm.trans hg)
    exact hsecluded

theorem beat_advance {e : Emulator} (hhalt : e.halt = none) (hphase : e.machine.phase = .running)
    {b : Beat} (hb : ¬ b.Restarts) : Advance e b := by
  cases htaken : b.taken e with
  | none =>
    obtain ⟨hsame, hbare⟩ := beat_of_not_taken hphase hb htaken
    exact .none (hsame.trans hhalt) hbare (executed_of_not_taken htaken)
  | some s =>
    obtain ⟨rfl, -⟩ := eq_of_taken htaken
    exact step_advance hhalt hphase

/-- **A run follows the course of its bare machine**, as long as the instructions on one of the two
are secluded. -/
theorem play_course {e : Emulator} (hhalt : e.halt = none) (hphase : e.machine.phase = .running)
    {beats : List Beat} (hbeats : ∀ b ∈ beats, ¬ b.Restarts) {n : Nat}
    (hn : (e.executed beats).length = n)
    (hsecluded : (∀ f ∈ e.executed beats, f.instruction.Secluded)
      ∨ ∀ f ∈ e.machine.course n, f.instruction.Secluded) :
    e.executed beats = e.machine.course n ∧ At (e.machine.ahead n) (e.play beats) := by
  induction beats generalizing e n with
  | nil =>
    subst hn
    exact ⟨rfl, .between hhalt rfl⟩
  | cons b beats ih =>
    obtain ⟨hb, hbeats⟩ := List.forall_mem_cons.mp hbeats
    cases beat_advance hhalt hphase hb with
    | none halt machine executed =>
      rw [executed] at hn hsecluded ⊢
      rw [← Machine.course_congr machine] at hsecluded ⊢
      rw [← Machine.ahead_congr machine]
      exact ih halt ((congrArg Machine.phase machine).trans hphase) hbeats hn hsecluded
    | @one f halt first machine executed =>
      rw [executed] at hn hsecluded ⊢
      subst hn
      rw [List.length_cons, Machine.course_succ first] at hsecluded ⊢
      -- The first instruction is on both sides, so it is secluded on whichever side they all are.
      have hf := hsecluded.elim (fun h => h f List.mem_cons_self) fun h => h f List.mem_cons_self
      obtain ⟨hrunning, hbare⟩ := machine hf
      rw [← Machine.course_congr hbare] at hsecluded ⊢
      rw [Machine.ahead, ← Machine.ahead_congr hbare]
      have hrest := hsecluded.imp (fun h => (List.forall_mem_cons.mp h).2)
        fun h => (List.forall_mem_cons.mp h).2
      obtain ⟨hcourse, hat⟩ := ih halt hrunning hbeats rfl hrest
      exact ⟨congrArg (f :: ·) hcourse, hat⟩
    | halt halt phase answer machine executed =>
      obtain ⟨hnone, hlast, hbare⟩ := play_of_halt halt phase hbeats
      rw [executed, hnone] at hn ⊢
      subst hn
      exact ⟨rfl, .halted hlast answer (hbare.trans machine)⟩

/-! ## Two runs -/

/-- **Frames, keys, the timer and random numbers do not matter** to secluded instructions.  Two
emulators with the same draw mode and the same room on the call stack load the same program and then
run it as they like.  Wherever they have executed equally many instructions, and the one only
secluded ones, they have executed the same and come to the same bare machine: their own, or one
instruction back if the next has been tried and has led to a halt.  So but for keypad and timer
their machines are equal where it has been tried by both or by none, and it comes to the same halt
in both, or to none. -/
theorem reached_slicing (config config' : Config) (hmode : config.drawMode = config'.drawMode)
    (hdepth : config.stackDepth = config'.stackDepth) (random random' : RandomSource)
    (threshold threshold' : Level) (history history' : List Call) {image : List UInt8}
    {title title' : Option String} (hload : (Call.load image title).Loads)
    {calls calls' : List Call} (hcalls : ∀ c ∈ calls, ¬ c.Restarts)
    (hcalls' : ∀ c ∈ calls', ¬ c.Restarts) :
    let e := reached config random threshold (history ++ [.load image title])
    let e' := reached config' random' threshold' (history' ++ [.load image title'])
    ∀ beats beats', beats <+: e.beats calls → beats' <+: e'.beats calls' →
      (e.executed beats).length = (e'.executed beats').length →
      (∀ f ∈ e.executed beats, f.instruction.Secluded) →
      let last := e.play beats
      let last' := e'.play beats'
      e.executed beats = e'.executed beats'
        ∧ (∃ m, At m last ∧ At m last')
        ∧ (last.halt.isSome = last'.halt.isSome → last.machine.bare = last'.machine.bare)
        ∧ last.fate = last'.fate := by
  intro e e' beats beats' hbeats hbeats' hcount hsecluded last last'
  obtain ⟨hhalt, -, hmachine⟩ := reached_load config random threshold history hload
  have hload' : (Call.load image title').Loads := hload
  obtain ⟨hhalt', -, hmachine'⟩ := reached_load config' random' threshold' history' hload'
  rw [← hmode, ← hdepth] at hmachine'
  have hsame : e.machine = e'.machine := hmachine.trans hmachine'.symm
  have hphase : e.machine.phase = .running := by rw [hmachine]; rfl
  obtain ⟨hcourse, hat⟩ := play_course hhalt hphase
    (fun b hb => not_restarts_of_mem_beats hcalls b (hbeats.subset hb)) rfl (.inl hsecluded)
  have hsecluded' : ∀ f ∈ e'.machine.course (e.executed beats).length, f.instruction.Secluded := by
    rw [← hsame, ← hcourse]
    exact hsecluded
  obtain ⟨hcourse', hat'⟩ := play_course hhalt' (hsame ▸ hphase)
    (fun b hb => not_restarts_of_mem_beats hcalls' b (hbeats'.subset hb)) hcount.symm
    (.inr hsecluded')
  rw [← hsame] at hcourse' hat'
  exact ⟨hcourse.trans hcourse'.symm, ⟨_, hat, hat'⟩, hat.bare_eq hat',
    hat.fate_eq.trans hat'.fate_eq.symm⟩

/-- One instruction by itself, and the same one as the first of a frame while a key is held. -/
theorem reached_slicing_frame :
    let load : Call := .load [0x60, 0x05] none
    let key : Beat := .keyDown (.finite 3)
    let e := reached ⟨8, .set, 16, .info⟩ (.cycle [7]) .info [load]
    let e' := reached ⟨1, .set, 16, .warn⟩ (.cycle []) .warn [.reset, load]
    let f : Fetched := ⟨0x200, 0x6005, .loadByte 0 5⟩
    load.Loads ∧ f.instruction.Secluded
      ∧ [Beat.step] <+: e.beats [.step] ∧ [key, .step] <+: e'.beats [.keyDown (.finite 3), .frame]
      ∧ e.executed [.step] = [f] ∧ e'.executed [key, .step] = [f]
      ∧ (e.play [.step]).machine.bare = (e'.play [key, .step]).machine.bare
      ∧ (e.play [.step]).fate = (e'.play [key, .step]).fate := by
  intro load key e e' f
  have hload : load.Loads := ⟨by decide, by decide⟩
  obtain ⟨hhalt, -, hmachine⟩ :
      e.halt = none ∧ e.image = _ ∧ e.machine = coldStart (.initial .set 16) [0x60, 0x05] :=
    reached_load ⟨8, .set, 16, .info⟩ (.cycle [7]) .info [] hload
  obtain ⟨hhalt', -, hmachine'⟩ :
      e'.halt = none ∧ e'.image = _ ∧ e'.machine = coldStart (.initial .set 16) [0x60, 0x05] :=
    reached_load ⟨1, .set, 16, .warn⟩ (.cycle []) .warn [.reset] hload
  have hphase' : e'.machine.phase = .running := by rw [hmachine']; rfl
  obtain ⟨hkept, hbare⟩ := beat_of_not_taken hphase' (b := key) nofun rfl
  have hconfig (e : Emulator) : (e.beat key).config = e.config := rfl
  have hsettings : (e'.beat key).config = ⟨1, .set, 16, .warn⟩ :=
    (hconfig e').trans (settled_reached _ _ _ _).settings
  have hnext : e.next.executed = some f := by
    rw [next_of_load hmachine (by decide) (i := .loadByte 0 5) (by decide) rfl]
    rfl
  have hnext' : (e'.beat key).next.executed = some f := by
    rw [next, Machine.executed_bare, hbare, hmachine', ← hmachine,
      ← Machine.executed_bare _ e.random.head]
    exact hnext
  have hframe : [key, .step] <+: e'.beats [.keyDown (.finite 3), .frame] := by
    have hpositive : 0 < (e'.beat key).config.instructionsPerFrame := by
      rw [hsettings]
      exact Nat.one_pos
    have hbeats (e : Emulator) : e.beats [.keyDown (.finite 3), .frame]
        = key :: ((e.beat key).frameBeats ++ []) := rfl
    have hsteps := step_prefix_frameBeats (hkept.trans hhalt') hpositive
    rw [hbeats e']
    exact (List.prefix_cons_inj key).mpr (hsteps.trans (List.prefix_append _ []))
  obtain ⟨hexecuted, hquiet⟩ := play_step hhalt hnext
  obtain ⟨hexecuted', hquiet'⟩ := play_step (hkept.trans hhalt') hnext'
  rw [← executed_of_not_taken rfl] at hexecuted'
  rw [← play_cons] at hquiet'
  have hcalls : ∀ c ∈ [Call.step], ¬ c.Restarts := List.forall_mem_singleton.mpr id
  have hcalls' : ∀ c ∈ [Call.keyDown (.finite 3), .frame], ¬ c.Restarts :=
    List.forall_mem_cons.mpr ⟨id, List.forall_mem_singleton.mpr id⟩
  obtain ⟨-, -, hmachines, hfate⟩ := reached_slicing ⟨8, .set, 16, .info⟩ ⟨1, .set, 16, .warn⟩
    rfl rfl (.cycle [7]) (.cycle []) .info .warn [] [.reset] hload hcalls hcalls' [.step]
    [key, .step] (List.prefix_refl _) hframe
    (congrArg List.length (hexecuted.trans hexecuted'.symm))
    fun g hg => List.mem_singleton.mp (hexecuted ▸ hg : g ∈ [f]) ▸ trivial
  refine ⟨hload, trivial, List.prefix_refl _, hframe, hexecuted, hexecuted', hmachines ?_, hfate⟩
  exact congrArg Option.isSome (hquiet.trans hquiet'.symm)

end ChipEight.Emulator
