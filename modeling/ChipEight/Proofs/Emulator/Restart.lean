import ChipEight.Proofs.Emulator.Beats
import ChipEight.Proofs.Machine.Footprint

/-!
# Proofs/Emulator/Restart — a restart forgets what was before

Of all that a run can change, a reset keeps the program alone, and a load not even that.  What it
does keep of the machine, the draw mode and the capacity of the call stack, no run changes.  So two
emulators with the same settings are the same behind the same load, and then every call finds them
alike.
-/

namespace ChipEight

/-! ## Random numbers -/

namespace RandomSource

/-- The random numbers to come. -/
def upcoming (r : RandomSource) (n : Nat) : Int := r.values (r.used + n)

theorem upcoming_tail (r : RandomSource) : r.tail.upcoming = fun n => r.upcoming (n + 1) := by
  funext n
  exact congrArg r.values (Nat.succ_add_eq_add_succ r.used n)

end RandomSource

namespace Emulator

theorem upcoming_randomAfter {r r' : RandomSource} (h : r.upcoming = r'.upcoming) (f : Fetched) :
    (randomAfter r f).upcoming = (randomAfter r' f).upcoming := by
  unfold randomAfter
  split
  · rw [RandomSource.upcoming_tail, RandomSource.upcoming_tail, h]
  · exact h

/-! ## Emulators that cannot be told apart -/

/-- **The same state**: everything but the random numbers and the log. -/
structure SameState (e e' : Emulator) : Prop where
  config : e.config = e'.config
  machine : e.machine = e'.machine
  image : e.image = e'.image
  title : e.title = e'.title
  halt : e.halt = e'.halt
  soundReported : e.soundReported = e'.soundReported

theorem SameState.trans {e e' e'' : Emulator} (h : e.SameState e') (h' : e'.SameState e'') :
    e.SameState e'' :=
  ⟨h.config.trans h'.config, h.machine.trans h'.machine, h.image.trans h'.image,
    h.title.trans h'.title, h.halt.trans h'.halt, h.soundReported.trans h'.soundReported⟩

/-- The same state, and the same random numbers to come. -/
structure Alike (e e' : Emulator) : Prop extends SameState e e' where
  random : e.random.upcoming = e'.random.upcoming

namespace Alike

variable {e e' : Emulator}

theorem next (h : Alike e e') : e.next = e'.next := by
  rw [Emulator.next, Emulator.next, h.machine]
  exact congrArg e'.machine.step (congrFun h.random 0)

theorem step (h : Alike e e') : Alike e.step.1 e'.step.1 ∧ e.step.2 = e'.step.2 := by
  cases hhalt : e.halt with
  | some f =>
    rw [step_of_halt hhalt, step_of_halt (h.halt ▸ hhalt)]
    exact ⟨h, rfl⟩
  | none =>
    rw [step_eq hhalt, step_eq (e := e') (h.halt ▸ hhalt), ← h.next]
    refine ⟨⟨⟨h.config, rfl, h.image, h.title, rfl, ?_⟩, ?_⟩, rfl⟩
    · cases e.next.fetched with
      | none => exact h.soundReported
      | some f =>
        change e.soundAfter f = e'.soundAfter f
        rw [soundAfter, soundAfter, h.soundReported, h.machine]
    · cases e.next.fetched with
      | none => exact h.random
      | some f => exact upcoming_randomAfter h.random f

theorem steps (h : Alike e e') (n : Nat) :
    Alike (e.steps n).1 (e'.steps n).1 ∧ (e.steps n).2 = (e'.steps n).2 := by
  induction n generalizing e e' with
  | zero => exact ⟨h, rfl⟩
  | succ n ih =>
    obtain ⟨hstep, hanswer⟩ := h.step
    rw [Emulator.steps, Emulator.steps]
    generalize e.step = s at hstep hanswer ⊢
    generalize e'.step = s' at hstep hanswer ⊢
    obtain ⟨e₁, answer⟩ := s
    obtain ⟨e₁', answer'⟩ := s'
    obtain rfl : answer = answer' := hanswer
    rcases answer with f | _ | _
    · exact ⟨hstep, rfl⟩
    · exact ⟨hstep, rfl⟩
    · obtain ⟨hlast, hcount⟩ := ih hstep
      exact ⟨hlast, congrArg (Except.map (· + 1)) hcount⟩

/-- What is done to the machine alone is done to both. -/
theorem onMachine (h : Alike e e') (f : Machine → Machine) :
    Alike { e with machine := f e.machine } { e' with machine := f e'.machine } :=
  ⟨⟨h.config, congrArg f h.machine, h.image, h.title, h.halt, h.soundReported⟩, h.random⟩

theorem frame (h : Alike e e') :
    Alike e.frame.emulator e'.frame.emulator ∧ e.frame.shown = e'.frame.shown
      ∧ e.frame.answer = e'.frame.answer := by
  rw [Emulator.frame, Emulator.frame, ← h.halt, ← h.config]
  cases e.halt with
  | some f => exact ⟨h, rfl, rfl⟩
  | none =>
    obtain ⟨hsteps, hanswer⟩ := h.steps e.config.instructionsPerFrame
    generalize e.steps e.config.instructionsPerFrame = s at hsteps hanswer ⊢
    generalize e'.steps e.config.instructionsPerFrame = s' at hsteps hanswer ⊢
    obtain ⟨e₁, answer⟩ := s
    obtain ⟨e₁', answer'⟩ := s'
    obtain rfl : answer = answer' := hanswer
    cases answer with
    | error f => exact ⟨hsteps, rfl, rfl⟩
    | ok count =>
      exact ⟨hsteps.onMachine fun m => { m with timer := m.timer.tick },
        congrArg (fun m => some m.screen) hsteps.machine, rfl⟩

theorem reset (h : Alike e e') : Alike e.reset e'.reset := by
  refine ⟨⟨h.config, ?_, h.image, h.title, rfl, rfl⟩, h.random⟩
  change coldStart e.machine e.image = coldStart e'.machine e'.image
  rw [h.machine, h.image]

theorem keyUp (h : Alike e e') (key : Binary64) : Alike (e.keyUp key) (e'.keyUp key) := by
  obtain ⟨log, hk⟩ := e.keyUp_eq key
  obtain ⟨log', hk'⟩ := e'.keyUp_eq key
  have hreleased := h.onMachine fun m => m.released key
  rw [hk, hk']
  exact ⟨⟨h.config, hreleased.machine, h.image, h.title, h.halt, h.soundReported⟩, h.random⟩

theorem load (h : Alike e e') (image : List UInt8) (title : Option String) :
    Alike (e.perform (.load image title)).1 (e'.perform (.load image title)).1
      ∧ (e.perform (.load image title)).2 = (e'.perform (.load image title)).2 := by
  rw [perform, perform]
  cases hcheck : checkImage image with
  | error err =>
    rw [load_of_error hcheck, load_of_error hcheck]
    exact ⟨h, rfl⟩
  | ok bytes =>
    obtain ⟨hfits, -⟩ := checkImage_eq_ok_iff.mp hcheck
    rw [load_of_ok hfits, load_of_ok hfits]
    have hreset : Alike ({ e with image, title }.reset) ({ e' with image, title }.reset) :=
      reset ⟨⟨h.config, h.machine, rfl, rfl, h.halt, h.soundReported⟩, h.random⟩
    exact ⟨⟨⟨hreset.config, hreset.machine, rfl, rfl, rfl, rfl⟩, hreset.random⟩, rfl⟩

/-- **Alike emulators answer every call alike**, and are alike behind it. -/
theorem perform (h : Alike e e') (c : Call) :
    Alike (e.perform c).1 (e'.perform c).1 ∧ (e.perform c).2 = (e'.perform c).2 := by
  cases c with
  | load image title => exact h.load image title
  | reset => exact ⟨h.reset, rfl⟩
  | step => exact ⟨h.step.1, congrArg Reply.stepped h.step.2⟩
  | frame =>
    obtain ⟨hframe, hshown, hanswer⟩ := h.frame
    refine ⟨hframe, ?_⟩
    rw [Emulator.perform, Emulator.perform, hshown, hanswer]
  | keyDown key =>
    exact ⟨h.onMachine fun m => { m with keypad := m.keypad.press key }, rfl⟩
  | keyUp key => exact ⟨h.keyUp key, rfl⟩
  | observe =>
    refine ⟨h, congrArg Reply.observed ?_⟩
    rw [snapshot, snapshot, h.machine, h.halt, h.title]

theorem run (h : Alike e e') (calls : List Call) :
    Alike (e.run calls).1 (e'.run calls).1 ∧ (e.run calls).2 = (e'.run calls).2 := by
  induction calls generalizing e e' with
  | nil => exact ⟨h, rfl⟩
  | cons c calls ih =>
    obtain ⟨hc, hreply⟩ := h.perform c
    obtain ⟨hlast, hreplies⟩ := ih hc
    refine ⟨hlast, ?_⟩
    rw [run_cons, run_cons, hreply, hreplies]

end Alike

/-! ## What no run changes -/

theorem kept_drawMode (mode : DrawMode) : Kept fun e => e.machine.drawMode = mode where
  step {e} h := by
    cases hhalt : e.halt with
    | some f =>
      rw [step_of_halt hhalt]
      exact h
    | none =>
      obtain ⟨_, _, _, hs⟩ := step_of_none hhalt
      rw [hs]
      exact (e.machine.step_drawMode e.random.head).trans h
  tick h := h
  reset h := h
  load {e e' image title} hload h := by
    rcases e.load_cases image title with ⟨err, -, heq⟩ | ⟨-, heq⟩
    · rw [heq] at hload
      cases hload
    · rw [heq] at hload
      cases hload
      exact h
  keyDown _ h := h
  keyUp {e} key h := by
    rcases e.keyUp_cases key with heq | ⟨k, log, -, hphase, heq⟩
    · rw [heq]
      exact h
    · rw [heq]
      simp only [Machine.resume, hphase]
      exact h

/-- The settings a restart goes by are those the emulator was made with. -/
structure Settled (config : Config) (e : Emulator) : Prop where
  settings : e.config = config
  drawMode : e.machine.drawMode = config.drawMode
  capacity : e.machine.stack.capacity = config.stackDepth

theorem settled_reached (config : Config) (random : RandomSource) (threshold : Level)
    (calls : List Call) : Settled config (reached config random threshold calls) where
  settings := (InBounds.reached random threshold calls).settings
  drawMode := (kept_drawMode config.drawMode).run (e := create config random threshold) rfl calls
  capacity := (InBounds.reached random threshold calls).capacity

/-- Of the machine, a cold start keeps the draw mode and the capacity of the call stack. -/
theorem coldStart_congr {m m' : Machine} (hmode : m.drawMode = m'.drawMode)
    (hcapacity : m.stack.capacity = m'.stack.capacity) (image : List UInt8) :
    coldStart m image = coldStart m' image := by
  unfold coldStart Machine.restart CallStack.clear
  rw [hmode, hcapacity]

/-- **A restart forgets**: with the same settings and the same program, two emulators are the same
behind it. -/
theorem reset_sameState {config : Config} {e e' : Emulator} (h : Settled config e)
    (h' : Settled config e') (himage : e.image = e'.image) (htitle : e.title = e'.title) :
    e.reset.SameState e'.reset := by
  refine ⟨h.settings.trans h'.settings.symm, ?_, himage, htitle, rfl, rfl⟩
  change coldStart e.machine e.image = coldStart e'.machine e'.image
  rw [himage]
  exact coldStart_congr (h.drawMode.trans h'.drawMode.symm) (h.capacity.trans h'.capacity.symm) _

/-! ## The program -/

/-- Only a load touches the program a reset goes back to. -/
theorem beat_program (e : Emulator) {b : Beat} (hb : ¬ b.Loads) :
    (e.beat b).image = e.image ∧ (e.beat b).title = e.title := by
  cases b with
  | step =>
    cases hhalt : e.halt with
    | some f =>
      rw [beat, step_of_halt hhalt]
      exact ⟨rfl, rfl⟩
    | none =>
      obtain ⟨_, _, _, hs⟩ := step_of_none hhalt
      rw [beat, hs]
      exact ⟨rfl, rfl⟩
  | tick | reset | keyDown => exact ⟨rfl, rfl⟩
  | load image title =>
    rw [beat_refused hb]
    exact ⟨rfl, rfl⟩
  | keyUp key =>
    obtain ⟨log, h⟩ := e.keyUp_eq key
    rw [beat, h]
    exact ⟨rfl, rfl⟩

theorem play_program (e : Emulator) {beats : List Beat} (hbeats : ∀ b ∈ beats, ¬ b.Loads) :
    (e.play beats).image = e.image ∧ (e.play beats).title = e.title := by
  induction beats generalizing e with
  | nil => exact ⟨rfl, rfl⟩
  | cons b beats ih =>
    obtain ⟨hb, hbeats⟩ := List.forall_mem_cons.mp hbeats
    obtain ⟨himage, htitle⟩ := e.beat_program hb
    obtain ⟨hlast, hlast'⟩ := ih (e.beat b) hbeats
    exact ⟨hlast.trans himage, hlast'.trans htitle⟩

theorem run_program (e : Emulator) {calls : List Call} (hcalls : ∀ c ∈ calls, ¬ c.Loads) :
    (e.run calls).1.image = e.image ∧ (e.run calls).1.title = e.title := by
  rw [← play_beats]
  exact e.play_program (not_loads_of_mem_beats hcalls)

/-! ## Histories -/

theorem load_sameState {config : Config} {e e' : Emulator} (h : Settled config e)
    (h' : Settled config e') {image : List UInt8} {title : Option String}
    (hload : (Call.load image title).Loads) :
    (e.perform (.load image title)).1.SameState (e'.perform (.load image title)).1 := by
  rw [perform_load hload, perform_load hload]
  have hreset : ({ e with image, title }.reset).SameState ({ e' with image, title }.reset) :=
    reset_sameState ⟨h.settings, h.drawMode, h.capacity⟩ ⟨h'.settings, h'.drawMode, h'.capacity⟩
      rfl rfl
  exact ⟨hreset.config, hreset.machine, rfl, rfl, rfl, rfl⟩

/-- **What is behind a load**, whatever has happened before. -/
theorem reached_load (config : Config) (random : RandomSource) (threshold : Level)
    (history : List Call) {image : List UInt8} {title : Option String}
    (hload : (Call.load image title).Loads) :
    let e := reached config random threshold (history ++ [.load image title])
    e.halt = none ∧ e.image = image
      ∧ e.machine = coldStart (.initial config.drawMode config.stackDepth) image := by
  intro e
  have he : e = ((reached config random threshold history).perform (.load image title)).1 :=
    reached_append config random threshold history _
  rw [he, perform_load hload]
  have hsettled := settled_reached config random threshold history
  exact ⟨rfl, rfl, coldStart_congr hsettled.drawMode hsettled.capacity image⟩

/-- Its first instruction is the one that the first two bytes hold. -/
theorem next_of_load {e : Emulator} {m : Machine} {high low : UInt8} {rest : List UInt8}
    (hmachine : e.machine = coldStart m (high :: low :: rest))
    (hfits : (high :: low :: rest).length ≤ Memory.capacity) {i : Instruction}
    (hword : Instruction.ofWord? (high.toNat * 0x100 + low.toNat) = some i)
    (hfault : (e.machine.advance.execute e.random.head i).fault = none) :
    e.next = ⟨(e.machine.advance.execute e.random.head i).machine,
      some ⟨Memory.programStart, high.toNat * 0x100 + low.toNat, i⟩, .ok true⟩ := by
  have hphase : e.machine.phase = .running := by rw [hmachine]; rfl
  have hpc : e.machine.pc = Memory.programStart := by rw [hmachine]; rfl
  have hread : e.machine.memory.readWord e.machine.pc
      = .ok (high.toNat * 0x100 + low.toNat) := by
    rw [hpc, hmachine]
    exact Memory.initial.readWord_place hfits
  rw [next, (Machine.Stepping.executed hphase hread hword hfault).step_eq, hpc]

/-- A step executes the instruction of an image that the program counter points to. -/
theorem step_of_place {e : Emulator} {m : Machine} {image : List UInt8} {high low : UInt8}
    {w : Nat} {i : Instruction} (k : Nat) (hhalt : e.halt = none) (hmachine : e.machine = m)
    (hphase : m.phase = .running) (hpc : m.pc = Memory.programStart + k)
    (hmemory : m.memory = Memory.initial.place image) (hfits : image.length ≤ Memory.capacity)
    (hhigh : image[k]? = some high) (hlow : image[k + 1]? = some low)
    (hw : high.toNat * 0x100 + low.toNat = w) (hword : Instruction.ofWord? w = some i)
    (hfault : (m.advance.execute e.random.head i).fault = none) :
    e.step.1.halt = none ∧ e.step.1.machine = (m.advance.execute e.random.head i).machine
      ∧ e.next.executed = some ⟨m.pc, w, i⟩ := by
  subst hmachine
  obtain ⟨_, hhigh⟩ := List.getElem?_eq_some_iff.mp hhigh
  obtain ⟨hk, hlow⟩ := List.getElem?_eq_some_iff.mp hlow
  have hread := Memory.initial.readWord_place_add hfits hk
  rw [← hpc, ← hmemory, hhigh, hlow, hw] at hread
  have hnext : e.next = _ := (Machine.Stepping.executed hphase hread hword hfault).step_eq
  exact ⟨(step_halt hhalt).trans (congrArg (haltOf ·.answer) hnext),
    (step_machine hhalt).trans (congrArg Step.machine hnext), congrArg Step.executed hnext⟩

/-- A reset leads back to the load, however much has happened since. -/
theorem reset_of_load {config : Config} {e : Emulator} (h : Settled config e) {image : List UInt8}
    {title : Option String} (hload : (Call.load image title).Loads) {later : List Call}
    (hlater : ∀ c ∈ later, ¬ c.Loads)
    (hlast : Settled config ((e.perform (.load image title)).1.run later).1) :
    ((e.perform (.load image title)).1.run later).1.reset.SameState
      (e.perform (.load image title)).1 := by
  obtain ⟨himage, htitle⟩ := (e.perform (.load image title)).1.run_program hlater
  rw [perform_load hload] at himage htitle hlast ⊢
  have hprogram : Settled config { e with image, title } := ⟨h.settings, h.drawMode, h.capacity⟩
  have hreset := reset_sameState hlast hprogram himage htitle
  exact hreset.trans ⟨rfl, rfl, rfl, rfl, rfl, rfl⟩

/-- **A restart forgets the history.**  Whatever a run has done, a load that succeeds leaves the
state in which it leaves a new emulator; a reset leaves the state behind the last load that
succeeded, or that of power-on; and a load that is refused changes nothing.  So two emulators with
the same settings answer all calls from the same load on alike, given the same random numbers. -/
theorem reached_restart (config : Config) (random : RandomSource) (threshold : Level)
    (calls : List Call) :
    let e := reached config random threshold calls
    (∀ image title, (Call.load image title).Loads → ∀ random' threshold',
      (e.perform (.load image title)).2 = .done
        ∧ (e.perform (.load image title)).1.SameState
          (reached config random' threshold' [.load image title]))
    ∧ (∀ before image title later, calls = before ++ .load image title :: later →
        (Call.load image title).Loads → (∀ c ∈ later, ¬ c.Loads) →
        e.reset.SameState (reached config random threshold (before ++ [.load image title])))
    ∧ ((∀ c ∈ calls, ¬ c.Loads) → e.reset.SameState (create config random threshold))
    ∧ (∀ image title, ¬ (Call.load image title).Loads →
        ∃ err, e.perform (.load image title) = (e, .refused err))
    ∧ ∀ random' threshold' calls' image title, (Call.load image title).Loads →
        let e' := reached config random' threshold' calls'
        e.random.upcoming = e'.random.upcoming → ∀ later,
          (e.run (.load image title :: later)).2 = (e'.run (.load image title :: later)).2
            ∧ (e.run (.load image title :: later)).1.SameState
              (e'.run (.load image title :: later)).1 := by
  intro e
  have hsettled : Settled config e := settled_reached config random threshold calls
  refine ⟨fun image title hload random' threshold' => ⟨?_, ?_⟩, ?_, fun hcalls => ?_,
    fun image title => perform_refused, ?_⟩
  · rw [perform_load hload]
  · exact load_sameState hsettled (settled_reached config random' threshold' []) hload
  · rintro before image title later rfl hload hlater
    have hlast := hsettled
    simp only [e, reached_append] at hlast ⊢
    exact reset_of_load (settled_reached config random threshold before) hload hlater hlast
  · obtain ⟨himage, htitle⟩ := (create config random threshold).run_program hcalls
    have hcreated := settled_reached config random threshold []
    have hreset := reset_sameState hsettled hcreated himage htitle
    exact hreset.trans ⟨rfl, rfl, rfl, rfl, rfl, rfl⟩
  · intro random' threshold' calls' image title hload e' hrandom later
    have hstate := load_sameState hsettled (settled_reached config random' threshold' calls') hload
    have halike : Alike (e.perform (.load image title)).1 (e'.perform (.load image title)).1 := by
      refine ⟨hstate, ?_⟩
      rw [perform_load hload, perform_load hload]
      exact hrandom
    obtain ⟨hlast, hreplies⟩ := halike.run later
    rw [run_cons, run_cons]
    refine ⟨?_, hlast.toSameState⟩
    rw [hreplies, perform_load hload, perform_load hload]

/-- A key is held while a program runs, and then another program is loaded. -/
theorem reached_restart_keyHeld :
    let config : Config := ⟨8, .set, 16, .info⟩
    let loop : Call := .load [0x12, 0x00] (some "LOOP")
    let clear : Call := .load [0x00, 0xE0] none
    let e := reached config (.cycle [7]) .info [loop, .keyDown (.finite 5)]
    loop.Loads ∧ clear.Loads
      ∧ e.reset.SameState (reached config (.cycle [7]) .info [loop])
      ∧ (∃ err, e.perform (.load [] none) = (e, .refused err))
      ∧ (e.perform clear).1.SameState (reached config (.cycle []) .warn [clear])
      ∧ (e.run [clear, .frame]).2 = ((create config e.random .warn).run [clear, .frame]).2 := by
  intro config loop clear e
  have hloop : loop.Loads := ⟨by decide, by decide⟩
  have hclear : clear.Loads := ⟨by decide, by decide⟩
  have hstart (source : RandomSource) :
      source.upcoming = (reached config source .warn []).random.upcoming := rfl
  obtain ⟨hload, hreset, -, hrefused, hsame⟩ :=
    reached_restart config (.cycle [7]) .info [loop, .keyDown (.finite 5)]
  refine ⟨hloop, hclear, hreset [] _ _ _ rfl hloop ?_, hrefused [] none fun h => h.1 rfl,
    (hload _ _ hclear (.cycle []) .warn).2, ?_⟩
  case refine_2 => exact (hsame e.random .warn [] _ _ hclear (hstart _) [.frame]).1
  intro c hc
  obtain rfl := List.mem_singleton.mp hc
  exact id

end Emulator

end ChipEight
