import ChipEight.Proofs.Emulator.Restart

/-!
# Proofs/Emulator/KeyWait — from an `FX0A` to the key that ends it

A machine comes to wait for a key in one way only, by executing an `FX0A`, and while it waits
nothing moves but the keypad and the timer.  So whatever has been asked of it in the meantime, a
machine that waits is the one behind some `FX0A` (`waiting_origin`), and the first key that is
released goes to the register which that instruction names.
-/

namespace ChipEight

/-- The step goes on from an address: what it fetches or faults on is there. -/
def Step.StartsAt (s : Step) (a : Int) : Prop :=
  s.answer ≠ .ok false ∧ (∀ f, s.fetched = some f → f.pc = a) ∧ ∀ h, s.answer = .error h → h.pc = a

namespace Machine

/-- The machine behind an `FX0A` at address `a`. -/
def awaiting (m : Machine) (a x : Int) : Machine :=
  { m with pc := a + 2, registers := m.registers.setWake x, phase := .waitingForKey }

/-- The machine that goes on with a key. -/
def resumed (m : Machine) (x : Int) (k : Key) : Machine :=
  { m with registers := m.registers.set x k.val, keypad := m.keypad.put k false, phase := .running }

theorem step_startsAt {m : Machine} (h : m.phase = .running) (random : Int) :
    (m.step random).StartsAt m.pc := by
  have hs := m.step_stepping random
  generalize m.step random = s at hs ⊢
  cases hs with
  | waiting hwaiting =>
    rw [h] at hwaiting
    cases hwaiting
  | unreadable => exact ⟨nofun, nofun, fun f hf => Except.error.inj hf ▸ rfl⟩
  | unknown => exact ⟨nofun, nofun, fun f hf => Except.error.inj hf ▸ rfl⟩
  | executed => exact ⟨nofun, fun f hf => Option.some.inj hf ▸ rfl, nofun⟩
  | stopped =>
    exact ⟨nofun, fun f hf => Option.some.inj hf ▸ rfl, fun f hf => Except.error.inj hf ▸ rfl⟩

/-- **A step that begins a wait** executes an `FX0A`, and does nothing else. -/
theorem step_awaiting {m : Machine} {random : Int} (h : m.phase = .running)
    (hwait : (m.step random).machine.phase = .waitingForKey) :
    ∃ w x, (m.step random).executed = some ⟨m.pc, w, .waitForKey x⟩
      ∧ (m.step random).machine = m.awaiting m.pc x := by
  cases hanswer : (m.step random).answer with
  | error f => cases (phase_of_step_eq_error hanswer).symm.trans hwait
  | ok executed =>
    have hs := m.step_stepping random
    generalize m.step random = s at hs hwait hanswer ⊢
    cases hs with
    | waiting hwaiting => cases h.symm.trans hwaiting
    | unreadable | unknown | stopped => cases hanswer
    | @executed w i _ hread hword =>
      by_cases hi : ∃ x, i = .waitForKey x
      · obtain ⟨x, rfl⟩ := hi
        obtain ⟨hpc, -, -⟩ := advance_pc_of_readWord hread
        exact ⟨w, x, rfl, congrArg (fun pc => { m.awaiting m.pc x with pc }) hpc⟩
      · have hphase := m.advance.execute_phase random fun x hx => hi ⟨x, hx⟩
        cases (hphase.trans h).symm.trans hwait

end Machine

namespace Emulator

/-! ## Beats -/

namespace Beat

/-- **An `FX0A` is executed**, at address `a` and for register `x`. -/
def Waits (e : Emulator) (b : Beat) (a x : Int) : Prop :=
  ∃ s w, b.taken e = some s ∧ s.executed = some ⟨a, w, .waitForKey x⟩

/-- Does it end a wait: a key that is released, or a restart? -/
def EndsWait (b : Beat) : Prop :=
  b.Restarts ∨ ∃ key k, b = .keyUp key ∧ Key.ofNumber? key = some k

end Beat

theorem beat_of_other {e : Emulator} {b : Beat} (hstep : b ≠ .step)
    (h : e.machine.phase = .running) : (e.beat b).machine.phase = .running := by
  cases b with
  | step => exact absurd rfl hstep
  | tick | keyDown => exact h
  | reset => rfl
  | load image title =>
    by_cases hload : (Call.load image title).Loads
    · rw [beat, perform_load hload]
      rfl
    · rw [beat_refused hload]
      exact h
  | keyUp key =>
    rw [beat, keyUp_of_running h]
    exact h

/-- **A wait begins with an `FX0A`.** -/
theorem beat_awaiting {e : Emulator} {b : Beat} (h : e.machine.phase = .running)
    (hwait : (e.beat b).machine.phase = .waitingForKey) :
    ∃ a x, b = .step ∧ b.Waits e a x ∧ (e.beat b).halt = none
      ∧ (e.beat b).machine = e.machine.awaiting a x := by
  by_cases hstep : b = .step
  case neg => cases (beat_of_other hstep h).symm.trans hwait
  subst hstep
  cases hhalt : e.halt with
  | some f =>
    rw [beat, step_of_halt hhalt] at hwait
    cases h.symm.trans hwait
  | none =>
    obtain ⟨_, _, _, hs⟩ := step_of_none hhalt
    rw [beat, hs] at hwait ⊢
    obtain ⟨w, x, hexecuted, hmachine⟩ := Machine.step_awaiting h hwait
    obtain ⟨hanswer, -⟩ := Step.executed_eq_some_iff.mp hexecuted
    exact ⟨e.machine.pc, x, rfl, ⟨e.next, w, Beat.taken_step hhalt, hexecuted⟩,
      congrArg haltOf hanswer, hmachine⟩

theorem phase_of_restarts {e : Emulator} {b : Beat} (h : b.Restarts) :
    (e.beat b).machine.phase = .running := by
  rcases h with rfl | h
  · rfl
  · cases b with
    | load image title =>
      rw [beat, perform_load h]
      rfl
    | _ => exact h.elim

theorem phase_of_endsWait {e : Emulator} {b : Beat} (h : b.EndsWait) :
    (e.beat b).machine.phase = .running := by
  rcases h with hrestarts | ⟨key, k, rfl, hk⟩
  · exact phase_of_restarts hrestarts
  · obtain ⟨log, heq⟩ := e.keyUp_eq key
    rw [beat, heq, Machine.released, hk]
    cases hphase : e.machine.phase <;> simp only [Machine.resume]

/-- Neither the steps of a frame nor its tick end a wait. -/
theorem not_endsWait_of_mem_frameBeats {e : Emulator} {b : Beat} (hb : b ∈ e.frameBeats) :
    ¬ b.EndsWait := by
  rcases mem_frameBeats hb with rfl | rfl <;>
    rintro ((h | h) | ⟨_, _, h, -⟩) <;> exact nomatch h

/-! ## While it waits -/

/-- The key it goes on with is put into the register that waits for it. -/
theorem keyUp_of_waiting {e : Emulator} (hphase : e.machine.phase = .waitingForKey)
    {key : Binary64} {k : Key} (hk : Key.ofNumber? key = some k) :
    ∃ log, e.keyUp key
      = { e with machine := e.machine.resumed e.machine.registers.wake k, log } := by
  obtain ⟨log, h⟩ := e.keyUp_eq key
  refine ⟨log, ?_⟩
  rw [h, Machine.released, Keypad.release, hk]
  simp only [Machine.resume, hphase]
  rfl

/-- What is no key is not released. -/
theorem keyUp_of_none {e : Emulator} {key : Binary64} (hk : Key.ofNumber? key = none) :
    e.keyUp key = e := by
  rw [keyUp, Keypad.release, hk]

section

variable {e : Emulator} (hhalt : e.halt = none) (hphase : e.machine.phase = .waitingForKey)
include hhalt hphase

/-- A step of a waiting emulator does nothing. -/
theorem step_of_waiting : e.step = (e, .ok false) := by
  have hs : e.machine.step e.random.head = ⟨e.machine, none, .ok false⟩ := by
    rw [Machine.step, hphase]
  rw [step, hhalt]
  simp only [hs]
  exact congrArg (fun halt => ({ e with halt }, Except.ok false)) hhalt.symm

theorem steps_of_waiting (n : Nat) : e.steps n = (e, .ok 0) := by
  cases n with
  | zero => rfl
  | succ n => rw [steps, step_of_waiting hhalt hphase]

/-- A frame of it executes nothing and counts down the timer. -/
theorem frame_of_waiting : e.frame = ⟨e.tick, some e.machine.screen, .ok 0⟩ := by
  rw [frame, hhalt, steps_of_waiting hhalt hphase]

/-- **While it waits, only the keypad and the timer move.** -/
theorem beat_of_waiting {b : Beat} (hb : ¬ b.EndsWait) :
    ∃ keypad timer, e.beat b = { e with machine := { e.machine with keypad, timer } } := by
  cases b with
  | step =>
    rw [beat, step_of_waiting hhalt hphase]
    exact ⟨_, _, rfl⟩
  | tick | keyDown => exact ⟨_, _, rfl⟩
  | reset => exact absurd (.inl (.inl rfl)) hb
  | load image title =>
    rw [beat_refused fun hload => hb (.inl (.inr hload))]
    exact ⟨_, _, rfl⟩
  | keyUp key =>
    cases hk : Key.ofNumber? key with
    | some k => exact absurd (.inr ⟨key, k, rfl, hk⟩) hb
    | none =>
      rw [beat, keyUp_of_none hk]
      exact ⟨_, _, rfl⟩

theorem play_of_waiting {beats : List Beat} (hbeats : ∀ b ∈ beats, ¬ b.EndsWait) :
    ∃ keypad timer, e.play beats = { e with machine := { e.machine with keypad, timer } } := by
  induction beats generalizing e with
  | nil => exact ⟨_, _, rfl⟩
  | cons b beats ih =>
    obtain ⟨hb, hbeats⟩ := List.forall_mem_cons.mp hbeats
    obtain ⟨keypad, timer, h⟩ := beat_of_waiting hhalt hphase hb
    rw [play_cons, h]
    obtain ⟨keypad', timer', h'⟩ :=
      ih (e := { e with machine := { e.machine with keypad, timer } }) hhalt hphase hbeats
    exact ⟨keypad', timer', h'⟩

end

/-- A frame that begins with an `FX0A` executes nothing else. -/
theorem frame_of_wait {e : Emulator} (hhalt : e.halt = none)
    (hn : 0 < e.config.instructionsPerFrame) (hnext : e.next.answer = .ok true)
    (hwait : e.next.machine.phase = .waitingForKey) :
    e.frame = ⟨e.step.1.tick, some e.step.1.machine.screen, .ok 1⟩ := by
  have hhalt' : e.step.1.halt = none := (step_halt hhalt).trans (congrArg haltOf hnext)
  have hphase : e.step.1.machine.phase = .waitingForKey :=
    (congrArg Machine.phase (step_machine hhalt)).trans hwait
  obtain ⟨n, hcount⟩ := Nat.exists_eq_add_of_lt hn
  rw [Nat.zero_add] at hcount
  rw [frame, hhalt, hcount, steps_of_true hhalt hnext, steps_of_waiting hhalt' hphase]
  rfl

/-! ## Where a wait comes from -/

/-- **Whoever waits has executed an `FX0A`**, or waited from the start: behind it nothing has ended
the wait. -/
theorem waiting_origin {e : Emulator} {beats : List Beat}
    (hwait : (e.play beats).machine.phase = .waitingForKey) :
    (e.machine.phase = .waitingForKey ∧ ∀ b ∈ beats, ¬ b.EndsWait)
      ∨ ∃ before since, beats = before ++ .step :: since ∧ (∀ b ∈ since, ¬ b.EndsWait)
        ∧ (e.play before).machine.phase = .running
        ∧ ((e.play before).beat .step).machine.phase = .waitingForKey := by
  induction beats generalizing e with
  | nil => exact .inl ⟨hwait, fun b hb => absurd hb List.not_mem_nil⟩
  | cons b beats ih =>
    rcases ih (e := e.beat b) hwait with ⟨hb, hbeats⟩ | ⟨before, since, rfl, hsince⟩
    · cases hphase : e.machine.phase with
      | running =>
        obtain ⟨_, _, rfl, -⟩ := beat_awaiting hphase hb
        exact .inr ⟨[], beats, rfl, hbeats, hphase, hb⟩
      | waitingForKey =>
        refine .inl ⟨rfl, List.forall_mem_cons.mpr ⟨fun hends => ?_, hbeats⟩⟩
        cases hb.symm.trans (phase_of_endsWait hends)
    · exact .inr ⟨b :: before, since, rfl, hsince⟩

/-! ## What a waiting emulator does -/

namespace Call

/-- It neither runs the machine nor starts it anew. -/
def Idle : Call → Prop
  | .step | .frame | .reset => False
  | .load image title => ¬ (Call.load image title).Loads
  | .keyDown _ | .keyUp _ | .observe => True

end Call

/-- Calls that do not run the machine move nothing of it but the keypad. -/
theorem run_of_idle {e : Emulator} (h : e.machine.phase = .running) {calls : List Call}
    (hcalls : ∀ c ∈ calls, c.Idle) : ∃ keypad, (e.run calls).1 = e.withKeypad keypad := by
  induction calls generalizing e with
  | nil => exact ⟨_, rfl⟩
  | cons c calls ih =>
    obtain ⟨hc, hcalls⟩ := List.forall_mem_cons.mp hcalls
    have hone : ∃ keypad, (e.perform c).1 = e.withKeypad keypad := by
      cases c with
      | step | frame | reset => exact hc.elim
      | keyDown | observe => exact ⟨_, rfl⟩
      | keyUp key => exact ⟨_, keyUp_of_running h key⟩
      | load image title =>
        obtain ⟨err, hrefused⟩ := perform_refused (e := e) hc
        rw [hrefused]
        exact ⟨_, rfl⟩
    obtain ⟨keypad, hone⟩ := hone
    rw [run_cons, hone]
    obtain ⟨keypad', hrest⟩ := ih (e := e.withKeypad keypad) h hcalls
    exact ⟨keypad', hrest⟩

/-- **The wait of an `FX0A`** at address `a`, call by call: the machine stays as it is, frames count
the timer down, and the first key that is released goes to the register and lets the machine go on
behind the instruction. -/
structure AwaitsKey (e : Emulator) (a x : Int) : Prop where
  pc : e.machine.pc = a + 2
  wake : e.machine.registers.wake = x
  step : e.perform .step = (e, .stepped (.ok false))
  frame : e.perform .frame = (e.tick, .framed (some e.machine.screen) (.ok 0))
  timer : e.tick.machine.timer.value.toNat = e.machine.timer.value.toNat - 1
  keyDown : ∀ key, e.perform (.keyDown key)
    = (e.withKeypad (e.machine.keypad.press key), .done)
  other : ∀ key, Key.ofNumber? key = none → e.perform (.keyUp key) = (e, .done)
  refused : ∀ image title, ¬ (Call.load image title).Loads →
    ∃ err, e.perform (.load image title) = (e, .refused err)
  key : ∀ key k, Key.ofNumber? key = some k → ∃ log,
    e.perform (.keyUp key) = ({ e with machine := e.machine.resumed x k, log }, .done)
      ∧ (e.machine.resumed x k).registers.get x = k.val
  next : ∀ key k, Key.ofNumber? key = some k → ∀ later : List Call, (∀ c ∈ later, c.Idle) →
    let last := ((e.perform (.keyUp key)).1.run later).1
    last.halt = none ∧ last.next.StartsAt (a + 2)

theorem awaitsKey {e : Emulator} {a x : Int} (hhalt : e.halt = none)
    (hphase : e.machine.phase = .waitingForKey) (hpc : e.machine.pc = a + 2)
    (hwake : e.machine.registers.wake = x) : e.AwaitsKey a x where
  pc := hpc
  wake := hwake
  step := by rw [perform, step_of_waiting hhalt hphase]
  frame := by rw [perform, frame_of_waiting hhalt hphase]
  timer := Timer.toNat_tick e.machine.timer
  keyDown key := rfl
  other key hk := by rw [perform, keyUp_of_none hk]
  refused _ _ hload := perform_refused hload
  key key k hk := by
    obtain ⟨log, h⟩ := keyUp_of_waiting hphase hk
    refine ⟨log, by rw [perform, h, hwake], ?_⟩
    rw [Machine.resumed, Registers.get_set, if_pos rfl]
    omega
  next key k hk later hlater := by
    intro last
    obtain ⟨log, h⟩ := keyUp_of_waiting hphase hk
    have hrunning : (e.keyUp key).machine.phase = .running := by rw [h]; rfl
    have hbehind : (e.keyUp key).machine.pc = a + 2 := by rw [h]; exact hpc
    obtain ⟨keypad, hidle⟩ := run_of_idle hrunning hlater
    have hlast : last = (e.keyUp key).withKeypad keypad := hidle
    rw [hlast, ← hbehind]
    exact ⟨(e.keyUp_halt key).trans hhalt,
      Machine.step_startsAt (m := ((e.keyUp key).withKeypad keypad).machine) hrunning _⟩

/-- The machine tells which `FX0A` it is. -/
theorem AwaitsKey.of_machine {e : Emulator} {m : Machine} {a x b y : Int} (h : e.AwaitsKey a x)
    (hmachine : e.machine = m.awaiting b y) : e.AwaitsKey b y := by
  obtain rfl : a = b := by
    have hpc : e.machine.pc = b + 2 := congrArg Machine.pc hmachine
    have := h.pc.symm.trans hpc
    omega
  obtain rfl : x = y := h.wake.symm.trans (congrArg (·.registers.wake) hmachine)
  exact h

/-- A program that begins with an `FX0A` waits behind its first step. -/
theorem reached_load_wait (config : Config) (random : RandomSource) (threshold : Level)
    (history : List Call) {high low : UInt8} {rest : List UInt8} {title : Option String}
    (hload : (Call.load (high :: low :: rest) title).Loads) {x : Int}
    (hword : Instruction.ofWord? (high.toNat * 0x100 + low.toNat) = some (.waitForKey x)) :
    (reached config random threshold
        (history ++ [.load (high :: low :: rest) title, .step])).machine
      = (coldStart (.initial config.drawMode config.stackDepth) (high :: low :: rest)).awaiting
          Memory.programStart x := by
  obtain ⟨hhalt, -, hmachine⟩ := reached_load config random threshold history hload
  have happend := reached_append config random threshold
    (history ++ [.load (high :: low :: rest) title]) [.step]
  rw [List.append_assoc] at happend
  have hstep := (congrArg machine happend).trans (step_machine hhalt)
  rw [next_of_load hmachine hload.2 hword rfl, hmachine] at hstep
  exact hstep

/-- **The protocol of a key-wait**, along every run.  The machine begins to wait only where an
`FX0A` is executed, and then it is behind that instruction.  Whenever it waits there is such an
`FX0A` in its past, at an address `a` and for a register `x`; since then nothing has ended the wait,
nothing but the keypad and the timer has moved, and what calls do now is the wait of that very
instruction.  While it runs, a key that is released moves nothing but the keypad. -/
theorem reached_keyWait (config : Config) (random : RandomSource) (threshold : Level)
    (calls : List Call) :
    let start := create config random threshold
    let e := reached config random threshold calls
    (∀ before b later, start.beats calls = before ++ b :: later →
        (start.play before).machine.phase = .running →
        ((start.play before).beat b).machine.phase = .waitingForKey →
        ∃ a x, b.Waits (start.play before) a x
          ∧ ((start.play before).beat b).machine = (start.play before).machine.awaiting a x)
    ∧ (e.machine.phase = .waitingForKey → ∃ before since a x keypad timer,
        start.beats calls = before ++ .step :: since ∧ (∀ b ∈ since, ¬ b.EndsWait)
          ∧ Beat.step.Waits (start.play before) a x
          ∧ e = { (start.play before).beat .step with
              machine := { (start.play before).machine.awaiting a x with keypad, timer } }
          ∧ e.AwaitsKey a x)
    ∧ (e.machine.phase = .running → ∀ key,
        e.perform (.keyUp key) = (e.withKeypad (e.machine.keypad.release key), .done)) := by
  intro start e
  refine ⟨fun before b later _ hrunning hwait => ?_, fun hwait => ?_, fun hrunning key => ?_⟩
  · obtain ⟨a, x, -, hwaits, -, hmachine⟩ := beat_awaiting hrunning hwait
    exact ⟨a, x, hwaits, hmachine⟩
  · have hplay : start.play (start.beats calls) = e := start.play_beats calls
    rcases waiting_origin (hplay ▸ hwait) with ⟨hstart, -⟩ | ⟨before, since, hbeats, hsince, h⟩
    · cases hstart
    obtain ⟨hrunning, hbegin⟩ := h
    obtain ⟨a, x, -, hwaits, hhalt, hmachine⟩ := beat_awaiting hrunning hbegin
    obtain ⟨keypad, timer, hlast⟩ := play_of_waiting hhalt hbegin hsince
    have he : e = { (start.play before).beat .step with
        machine := { (start.play before).machine.awaiting a x with keypad, timer } } := by
      rw [← hmachine, ← hlast, ← hplay, hbeats, play_append]
      rfl
    refine ⟨before, since, a, x, keypad, timer, hbeats, hsince, hwaits, he, ?_⟩
    exact awaitsKey ((congrArg (·.halt) he).trans hhalt) hwait (congrArg (·.machine.pc) he)
      (congrArg (·.machine.registers.wake) he)
  · rw [perform, keyUp_of_running hrunning]
    rfl

/-- A program that waits for a key at once, and takes it into `V3`. -/
theorem reached_keyWait_v3 :
    let load : Call := .load [0xF3, 0x0A] none
    let e := reached ⟨8, .set, 16, .info⟩ (.cycle [7]) .info [load, .step]
    load.Loads ∧ e.machine.phase = .waitingForKey ∧ e.AwaitsKey 0x200 3 := by
  intro load e
  have hload : load.Loads := ⟨by decide, by decide⟩
  have hword : Instruction.ofWord? 0xF30A = some (.waitForKey 3) :=
    Instruction.ofWord?_encode ⟨by decide, by decide⟩ rfl
  have hmachine : e.machine = Machine.awaiting _ 0x200 3 :=
    reached_load_wait ⟨8, .set, 16, .info⟩ (.cycle [7]) .info [] hload hword
  have hphase : e.machine.phase = .waitingForKey := congrArg Machine.phase hmachine
  obtain ⟨-, hwait, -⟩ := reached_keyWait ⟨8, .set, 16, .info⟩ (.cycle [7]) .info [load, .step]
  obtain ⟨_, _, a, x, _, _, -, -, -, -, hawaits⟩ := hwait hphase
  exact ⟨hload, hphase, hawaits.of_machine hmachine⟩

end Emulator

end ChipEight
