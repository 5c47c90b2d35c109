import ChipEight.Proofs.Emulator.KeyWait
import ChipEight.Proofs.Machine.Picture
import ChipEight.Proofs.Machine.Torus
import ChipEight.Session.Run

/-!
# Proofs/Session/Mirror — what is shown, and the machine behind it

What a session shows is a copy.  Its keys are the machine's after every event, and its lines are the
machine's screen as long as no program has halted (`Mirrors`).  A frame that faults refreshes the
registers only: the lines stay those from before the frame (`tick_shown`), so what the frame has
drawn until then is never seen.
-/

namespace ChipEight

/-! ## Frames -/

namespace Emulator

/-- Steps and ticks move no key. -/
theorem play_keypad (e : Emulator) {beats : List Beat}
    (hbeats : ∀ b ∈ beats, b = .step ∨ b = .tick) :
    (e.play beats).machine.keypad = e.machine.keypad := by
  induction beats generalizing e with
  | nil => rfl
  | cons b beats ih =>
    obtain ⟨hb, hbeats⟩ := List.forall_mem_cons.mp hbeats
    refine (ih (e.beat b) hbeats).trans ?_
    obtain rfl | rfl := hb
    · cases hhalt : e.halt with
      | some f => rw [beat, step_of_halt hhalt]
      | none =>
        rw [beat, step_machine hhalt]
        exact e.machine.step_keypad e.random.head
    · rfl

/-- **A frame moves no key.** -/
theorem frame_keypad (e : Emulator) : e.frame.emulator.machine.keypad = e.machine.keypad := by
  rw [← play_frameBeats]
  exact e.play_keypad fun _ => mem_frameBeats

/-- A frame that faults leaves its halt behind. -/
theorem frame_halt_of_error {e : Emulator} (h : e.halt = none) {f : Halt}
    (herror : e.frame.answer = .error f) : e.frame.emulator.halt = some f := by
  obtain ⟨k, hk, g, hg⟩ | ⟨⟨count, hcount⟩, -⟩ := frame_halt h
  · have hframe := frame_of_haltsAfter h hk hg
    rw [hframe] at herror ⊢
    cases herror
    exact afterSteps_halt h hg
  · cases hcount.symm.trans herror

theorem keyUp_screen (e : Emulator) (key : Binary64) :
    (e.keyUp key).machine.screen = e.machine.screen := by
  obtain h | ⟨k, log, -, hphase, h⟩ := e.keyUp_cases key
  · rw [h]
  · rw [h]
    simp only [Machine.resume, hphase]

end Emulator

namespace Session

/-! ## The copy -/

/-- **What is shown is the machine's**: the keys at any time, the lines unless the program has
halted. -/
structure Mirrors (shown : Shown) (e : Emulator) : Prop where
  pressedKeys : shown.pressedKeys = e.machine.keypad.pressed
  lines : e.halt = none → shown.lines = e.machine.screen.render

theorem mirrors_withMachine (shown : Shown) (e : Emulator) : Mirrors (shown.withMachine e) e :=
  ⟨rfl, fun _ => rfl⟩

/-- **A session with an up-to-date copy**: as long as there is an emulator there is someone to show
it to, and what is shown mirrors it. -/
structure Faithful (s : Session) : Prop where
  mounted : s.emulator.isSome → s.mounted = true
  mirrors : ∀ e, s.emulator = some e → Mirrors s.shown e

namespace Faithful

variable {s : Session}

theorem of_none (shown : Shown) (mounted : Bool) : Faithful ⟨shown, none, mounted⟩ where
  mounted h := absurd h Bool.false_ne_true
  mirrors _ h := absurd h.symm (Option.some_ne_none _)

theorem of_mirrors {shown : Shown} {e : Emulator} (h : Mirrors shown e) :
    Faithful ⟨shown, some e, true⟩ where
  mounted _ := rfl
  mirrors _ he := Option.some.inj he ▸ h

/-- Messages, pauses and names are shown beside the machine. -/
theorem present (h : Faithful s) {f : Shown → Shown}
    (hkeys : (f s.shown).pressedKeys = s.shown.pressedKeys)
    (hlines : (f s.shown).lines = s.shown.lines) : Faithful (s.present f) := by
  unfold Session.present
  split
  · exact ⟨h.mounted, fun e he => ⟨hkeys.trans (h.mirrors e he).pressedKeys,
      fun hhalt => hlines.trans ((h.mirrors e he).lines hhalt)⟩⟩
  · exact h

/-- A change of the emulator that is shown as it should be. -/
theorem replace (h : Faithful s) {e e' : Emulator} (he : s.emulator = some e) {f : Shown → Shown}
    (hf : Mirrors (f s.shown) e') : Faithful ({ s with emulator := some e' }.present f) := by
  have hmounted : s.mounted = true := h.mounted (he ▸ rfl)
  rw [Session.present, if_pos hmounted]
  exact ⟨fun _ => hmounted, fun _ he' => Option.some.inj he' ▸ hf⟩

theorem update (h : Faithful s) {change : Emulator → Emulator} {f : Shown → Emulator → Shown}
    (hf : ∀ e, s.emulator = some e → Mirrors (f s.shown (change e)) (change e)) :
    Faithful (s.update change f) := by
  unfold Session.update
  split
  · exact h
  case h_2 e he => exact h.replace he (hf e he)

/-! ## Events -/

theorem tick (h : Faithful s) : Faithful s.tick := by
  unfold Session.tick
  split
  · exact h
  case h_2 e he =>
  split
  · exact h
  case isFalse hruns =>
  have hhalt : e.halt = none := Option.not_isSome_iff_eq_none.mp (not_or.mp hruns).2
  refine h.replace he ?_
  cases hanswer : e.frame.answer with
  | ok count => exact mirrors_withMachine s.shown e.frame.emulator
  | error f =>
    -- The lines may be out of date now, but the halt that stays behind says so.
    refine ⟨(h.mirrors e he).pressedKeys.trans ?_, fun hnone => ?_⟩
    · rw [Emulator.frame_keypad]
    · cases (Emulator.frame_halt_of_error hhalt hanswer).symm.trans hnone

theorem press (h : Faithful s) (key : Binary64) : Faithful (s.press key) :=
  h.update fun e he => ⟨rfl, (h.mirrors e he).lines⟩

theorem release (h : Faithful s) (key : Binary64) : Faithful (s.release key) := by
  refine h.update fun e he => ⟨rfl, fun hhalt => ?_⟩
  rw [Emulator.keyUp_screen]
  exact (h.mirrors e he).lines ((e.keyUp_halt key).symm.trans hhalt)

theorem loadImage (h : Faithful s) (image : List UInt8) (title : Option String) :
    Faithful (s.loadImage image title) := by
  unfold Session.loadImage
  split
  · exact h
  case h_2 e he =>
  split
  · exact h.present rfl rfl
  · exact h.replace he ⟨rfl, fun _ => rfl⟩

theorem loadEntry (h : Faithful s) {s' : Session} {entry : CatalogEntry}
    (hload : s.loadEntry entry = .ok s') : Faithful s' := by
  unfold Session.loadEntry at hload
  split at hload
  · cases hload
    exact h
  case h_2 e he =>
  cases heq : e.load entry.image (some entry.name) with
  | error err =>
    rw [heq] at hload
    cases hload
  | ok e' =>
    rw [heq] at hload
    cases hload
    exact h.replace he ⟨rfl, fun _ => rfl⟩

theorem finishRead (h : Faithful s) (file : PickedFile) : Faithful (s.finishRead file) := by
  unfold Session.finishRead
  split
  · exact h.present rfl rfl
  · exact h.loadImage _ _

theorem keyDown (h : Faithful s) (k : KeyStroke) : Faithful (s.keyDown k) := by
  unfold Session.keyDown
  split
  · exact h
  · split
    · exact h.press _
    · exact h

theorem keyUp (h : Faithful s) (k : KeyStroke) : Faithful (s.keyUp k) := by
  unfold Session.keyUp
  split
  · exact h
  · exact h.release _

/-- **Every event keeps the copy up to date.** -/
theorem handle (h : Faithful s) (event : Event) : Faithful (s.handle event) := by
  cases event with
  | tick => exact h.tick
  | togglePause =>
    exact h.present (f := fun shown => { shown with paused := !shown.paused }) rfl rfl
  | reset => exact h.update fun e _ => ⟨rfl, fun _ => rfl⟩
  | press key => exact h.press key
  | release key => exact h.release key
  | keyDown k => exact h.keyDown k
  | keyUp k => exact h.keyUp k
  | loadImage image title => exact h.loadImage image title
  | loadFile file => exact h.finishRead file
  | loadEntry entry =>
    rw [Session.handle]
    cases hload : s.loadEntry entry with
    | ok s' => exact h.loadEntry hload
    | error => exact h
  | unmount => exact of_none s.shown false

end Faithful

theorem faithful_start (env : List (String × String)) (overrides : Value) (random : RandomSource) :
    Faithful (start env overrides random) := by
  rw [start]
  cases Environment.configWith env overrides with
  | error err => exact .of_none _ _
  | ok config =>
    obtain ⟨err, -, heq⟩ | ⟨-, heq⟩ :=
      (Emulator.create config random config.logLevel).load_cases Catalog.boot.image
        (some Catalog.boot.name)
    · simp only [heq]
      exact .of_none _ _
    · simp only [heq]
      exact .of_mirrors ⟨rfl, fun _ => rfl⟩

/-- The session behind a row of events, among which files are picked and their readings settle. -/
def reached (env : List (String × String)) (overrides : Value) (random : RandomSource)
    (events : List Reading.Event) : Session :=
  (events.foldl Reading.handle ⟨start env overrides random, []⟩).session

theorem faithful_reached (env : List (String × String)) (overrides : Value) (random : RandomSource)
    (events : List Reading.Event) : Faithful (reached env overrides random events) := by
  suffices h : ∀ r : Reading, Faithful r.session →
      Faithful (events.foldl Reading.handle r).session from
    h _ (faithful_start env overrides random)
  induction events with
  | nil => exact fun r h => h
  | cons event events ih =>
    refine fun r h => ih _ ?_
    cases event with
    | now e => exact h.handle e
    | request => exact h
    | settle place =>
      rw [Reading.handle]
      cases r.inFlight[place]? with
      | none => exact h
      | some file => exact h.finishRead file

/-! ## A tick -/

/-- A tick that runs a frame takes over the emulator behind it. -/
theorem tick_eq {s : Session} {e : Emulator} (he : s.emulator = some e)
    (hmounted : s.mounted = true) (hpaused : s.shown.paused = false) (hhalt : e.halt = none) :
    s.tick = ⟨match e.frame.answer with
      | .ok _ => s.shown.withMachine e.frame.emulator
      | .error f =>
        { s.shown with fault := some f.message, registers := some e.frame.emulator.snapshot },
      some e.frame.emulator, true⟩ := by
  have hruns : ¬ (s.shown.paused = true ∨ e.halt.isSome = true) := by
    rw [hpaused, hhalt]
    exact not_or.mpr ⟨Bool.false_ne_true, Bool.false_ne_true⟩
  cases hanswer : e.frame.answer <;>
    simp only [Session.tick, he, if_neg hruns, Session.present, hmounted, if_true, hanswer]

/-- **What a tick shows**, wherever events have led: the registers and the keys are the machine's
behind the frame, whatever the frame answers.  The lines are its screen behind a frame that comes to
its end, and the screen from before a frame that faults. -/
theorem tick_shown (env : List (String × String)) (overrides : Value) (random : RandomSource)
    (events : List Reading.Event) :
    let s := reached env overrides random events
    ∀ e, s.emulator = some e → s.shown.paused = false → e.halt = none →
      let after := e.frame.emulator
      s.tick.emulator = some after
        ∧ s.tick.shown.registers = some after.snapshot
        ∧ s.tick.shown.pressedKeys = after.machine.keypad.pressed
        ∧ (∀ count, e.frame.answer = .ok count → s.tick.shown.lines = after.machine.screen.render)
        ∧ ∀ f, e.frame.answer = .error f → s.tick.shown.lines = e.machine.screen.render := by
  intro s e he hpaused hhalt after
  have hs : Faithful s := faithful_reached env overrides random events
  have hshown := hs.mirrors e he
  rw [tick_eq he (hs.mounted (he ▸ rfl)) hpaused hhalt]
  cases hanswer : e.frame.answer with
  | ok count => exact ⟨rfl, rfl, rfl, fun _ _ => rfl, nofun⟩
  | error f =>
    refine ⟨rfl, rfl, ?_, nofun, fun _ _ => hshown.lines hhalt⟩
    change s.shown.pressedKeys = e.frame.emulator.machine.keypad.pressed
    rw [Emulator.frame_keypad, hshown.pressedKeys]

/-! ## The first program -/

/-- A session with settings that are accepted has the emulator that a load leads to. -/
theorem start_of_config {env : List (String × String)} {overrides : Value} {config : Config}
    (hconfig : Environment.configWith env overrides = .ok config) (random : RandomSource) :
    start env overrides random = ⟨{ Shown.initial with software := some Catalog.boot.id },
      some (Emulator.reached config random config.logLevel
        [.load Catalog.boot.image (some Catalog.boot.name)]), true⟩ := by
  have hboot : (Emulator.Call.load Catalog.boot.image (some Catalog.boot.name)).Loads :=
    ⟨by decide, by decide⟩
  rw [start, hconfig]
  simp only [Emulator.load_of_ok hboot]
  rw [Emulator.reached, Emulator.run_cons, Emulator.perform_load hboot]
  rfl

/-- A session whose settings are refused shows why, and has no emulator. -/
theorem start_of_error {env : List (String × String)} {overrides : Value} {err : ConfigError}
    (hconfig : Environment.configWith env overrides = .error err) (random : RandomSource) :
    start env overrides random
      = ⟨{ Shown.initial with fault := some err.message }, none, true⟩ := by
  rw [start, hconfig]

/-- **A program that is loaded at once** is about to run, and nothing is shown of it yet. -/
theorem reached_loadImage {env : List (String × String)} {overrides : Value} {config : Config}
    (hconfig : Environment.configWith env overrides = .ok config) (random : RandomSource)
    {image : List UInt8} {title : Option String} (hload : (Emulator.Call.load image title).Loads) :
    let s := reached env overrides random [.now (.loadImage image title)]
    ∃ e, s.emulator = some e ∧ s.mounted = true ∧ s.shown.paused = false
      ∧ s.shown.lines = Screen.blank.render ∧ e.halt = none ∧ e.config = config
      ∧ e.machine = Emulator.coldStart (.initial config.drawMode config.stackDepth) image := by
  intro s
  let boot : List Emulator.Call := [.load Catalog.boot.image (some Catalog.boot.name)]
  let e := Emulator.reached config random config.logLevel (boot ++ [.load image title])
  obtain ⟨hhalt, -, hmachine⟩ := Emulator.reached_load config random config.logLevel boot hload
  have hsettled := Emulator.settled_reached config random config.logLevel
    (boot ++ [.load image title])
  have hs : s = ⟨{ refreshed { Shown.initial with software := some Catalog.boot.id } e with
      loadError := none, software := none }, some e, true⟩ := by
    change (start env overrides random).loadImage image title = _
    rw [start_of_config hconfig]
    simp only [loadImage, Emulator.load_of_ok hload, e, Emulator.reached_append, Emulator.run_cons,
      Emulator.perform_load hload]
    rfl
  rw [hs]
  exact ⟨e, rfl, rfl, rfl, congrArg (·.screen.render) hmachine, hhalt, hsettled.settings, hmachine⟩

/-- A program that waits for a key at once, and then over and over. -/
def waitForever : List UInt8 := [0xF0, 0x0A, 0x12, 0x00]

/-- Its first frame comes to wait. -/
theorem frame_waitForever {e : Emulator} {mode : DrawMode} {capacity : Int} (hhalt : e.halt = none)
    (hmachine : e.machine = Emulator.coldStart (.initial mode capacity) waitForever)
    (hsteps : 0 < e.config.instructionsPerFrame) :
    e.frame.answer = .ok 1 ∧ e.frame.emulator.halt = none
      ∧ e.frame.emulator.machine = { e.machine.awaiting Memory.programStart 0 with
          timer := e.machine.timer.tick } := by
  have hword : Instruction.ofWord? 0xF00A = some (.waitForKey 0) :=
    Instruction.ofWord?_encode ⟨by decide, by decide⟩ rfl
  have hnext := Emulator.next_of_load hmachine (by decide) hword rfl
  have hanswer := congrArg Step.answer hnext
  rw [Emulator.frame_of_wait hhalt hsteps hanswer (by rw [hnext]; rfl)]
  refine ⟨rfl, (Emulator.step_halt hhalt).trans (congrArg Emulator.haltOf hanswer), ?_⟩
  have hmachine' := (Emulator.step_machine hhalt).trans (congrArg Step.machine hnext)
  simp only [Emulator.tick, hmachine']
  rw [hmachine]
  rfl

/-- A frame that comes to wait for a key is shown whole. -/
theorem tick_shown_waiting :
    let s := reached [] (.record []) (.cycle [7]) [.now (.loadImage waitForever none)]
    ∃ e, s.emulator = some e ∧ s.shown.paused = false ∧ e.halt = none
      ∧ e.frame.answer = .ok 1
      ∧ s.tick.shown.registers = some e.frame.emulator.snapshot
      ∧ s.tick.shown.pressedKeys = e.frame.emulator.machine.keypad.pressed
      ∧ s.tick.shown.lines = e.frame.emulator.machine.screen.render := by
  have hconfig : Environment.configWith [] (.record []) = .ok ⟨8, .set, 16, .info⟩ := rfl
  have hload : (Emulator.Call.load waitForever none).Loads := ⟨by decide, by decide⟩
  obtain ⟨e, he, -, hpaused, -, hhalt, hsettings, hmachine⟩ :=
    reached_loadImage hconfig (.cycle [7]) hload
  obtain ⟨hanswer, -, -⟩ := frame_waitForever hhalt hmachine (by rw [hsettings]; decide)
  obtain ⟨-, hregisters, hkeys, hlines, -⟩ :=
    tick_shown [] (.record []) (.cycle [7]) [.now (.loadImage waitForever none)] e he hpaused hhalt
  exact ⟨e, he, hpaused, hhalt, hanswer, hregisters, hkeys, hlines 1 hanswer⟩

/-- A program that draws the first row of the glyph 0 in the corner and then meets a zero word. -/
def drawAndHalt : List UInt8 := [0xD0, 0x01, 0x00, 0x00]

/-- Its first step lights the corner. -/
theorem next_drawAndHalt {e : Emulator} {mode : DrawMode} {capacity : Int}
    (hmachine : e.machine = Emulator.coldStart (.initial mode capacity) drawAndHalt) :
    e.next.answer = .ok true ∧ e.next.machine.screen.get 0 0 = true
      ∧ ∃ screen registers, e.next.machine = { e.machine.advance with screen, registers } := by
  have hmemory : e.machine.advance.memory = Memory.initial.place drawAndHalt := by
    rw [hmachine]; rfl
  have hindex : e.machine.advance.registers.index = 0 := by rw [hmachine]; rfl
  have hrows : e.machine.advance.memory.readUpTo e.machine.advance.registers.index 1 = [0xF0] := by
    have hfont : Memory.initial.readUpTo 0 1 = [0xF0] := Memory.readUpTo_font (k := 0) (by decide)
    rw [hindex, ← hfont, hmemory]
    refine Memory.readUpTo_congr fun b h0 h1 => ?_
    exact Memory.read_place_of_lt _ _ h0 (Int.lt_trans h1 (by decide))
  have hdrawn := Machine.drawSprite_of_le (n := 1) (hindex ▸ Int.le_refl 0) (hindex ▸ by decide)
    hrows 0 0
  have hword : Instruction.ofWord? 0xD001 = some (.draw 0 0 1) :=
    Instruction.ofWord?_encode ⟨by decide, by decide, by decide⟩ rfl
  have hnext := Emulator.next_of_load hmachine (by decide) hword (congrArg Effect.fault hdrawn)
  have hafter := (congrArg Step.machine hnext).trans (congrArg Effect.machine hdrawn)
  refine ⟨congrArg Step.answer hnext, ?_, _, _, hafter⟩
  have hwithin : Screen.Within 0 0 [0xF0] := ⟨by decide, by decide⟩
  rw [hafter, hmachine]
  refine (hwithin.get_draw (fun p _ => Screen.get_blank p.1 p.2) mode (Nat.zero_lt_succ 63)
    (Nat.zero_lt_succ 31)).mpr (.inr ?_)
  exact ⟨0, 0xF0, 0, rfl, by decide, by decide, rfl, rfl⟩

/-- Its first frame faults behind a corner that is lit. -/
theorem frame_drawAndHalt {e : Emulator} {mode : DrawMode} {capacity : Int} (hhalt : e.halt = none)
    (hmachine : e.machine = Emulator.coldStart (.initial mode capacity) drawAndHalt)
    (hsteps : 1 < e.config.instructionsPerFrame) :
    ∃ f, e.frame.answer = .error f ∧ e.frame.emulator.machine.screen.get 0 0 = true := by
  obtain ⟨hanswer, hlit, screen, registers, hnext⟩ := next_drawAndHalt hmachine
  have hmachine' : e.step.1.machine = { e.machine.advance with screen, registers } :=
    (Emulator.step_machine hhalt).trans hnext
  have hhalt' : e.step.1.halt = none :=
    (Emulator.step_halt hhalt).trans (congrArg Emulator.haltOf hanswer)
  have hread : e.step.1.machine.memory.readWord e.step.1.machine.pc = .ok 0 := by
    have hpc : e.step.1.machine.pc = Memory.programStart + (2 : Nat) := by
      rw [hmachine', hmachine]; rfl
    have hmemory : e.step.1.machine.memory = Memory.initial.place drawAndHalt := by
      rw [hmachine', hmachine]; rfl
    have hzero : drawAndHalt[2].toNat * 0x100 + drawAndHalt[3].toNat = 0 := by decide
    rw [hpc, hmemory, Memory.initial.readWord_place_add (by decide) (by decide), hzero]
  have hphase : e.step.1.machine.phase = .running := by rw [hmachine', hmachine]; rfl
  have hunknown : e.step.1.next = _ := (Machine.Stepping.unknown hphase hread rfl).step_eq
  have hhalts : e.HaltsAfter _ 1 := ⟨hanswer, congrArg Step.answer hunknown⟩
  have hlast := (Emulator.step_machine hhalt').trans (congrArg Step.machine hunknown)
  rw [Emulator.frame_of_haltsAfter hhalt hsteps hhalts]
  refine ⟨_, rfl, ?_⟩
  change e.step.1.step.1.machine.screen.get 0 0 = true
  rw [hlast, ← hlit, ← Emulator.step_machine hhalt]
  rfl

/-- **A frame that faults can draw something that is not shown.** -/
theorem tick_shown_unseen :
    let s := reached [] (.record []) (.cycle [7]) [.now (.loadImage drawAndHalt none)]
    ∃ e, s.emulator = some e ∧ s.shown.paused = false ∧ e.halt = none
      ∧ s.tick.emulator = some e.frame.emulator
      ∧ s.tick.shown.lines ≠ e.frame.emulator.machine.screen.render := by
  intro s
  have hconfig : Environment.configWith [] (.record []) = .ok ⟨8, .set, 16, .info⟩ := rfl
  have hload : (Emulator.Call.load drawAndHalt none).Loads := ⟨by decide, by decide⟩
  obtain ⟨e, he, hmounted, hpaused, hlines, hhalt, hsettings, hmachine⟩ :=
    reached_loadImage hconfig (.cycle [7]) hload
  obtain ⟨f, herror, hlit⟩ := frame_drawAndHalt hhalt hmachine (by rw [hsettings]; decide)
  refine ⟨e, he, hpaused, hhalt, ?_⟩
  rw [tick_eq he hmounted hpaused hhalt, herror]
  refine ⟨rfl, fun hsame => ?_⟩
  have hblank := Screen.render_eq_iff.mp (hlines.symm.trans hsame) 0 0
  rw [Screen.get_blank] at hblank
  cases hblank.trans hlit

end Session

end ChipEight
