import ChipEight.Proofs.Program.Entrances
import ChipEight.Proofs.Session.Mirror

/-!
# Proofs/Session/Coherence — a session and the loads it has seen

A load that succeeds replaces the program that runs and all that is said of it, one that is refused
leaves its message and changes nothing else, and no other event touches either.  So the program, its
name and the message can be read off the loads alone (`Coherent`), after any events
(`Coherent.handleAll`).  Settings that are refused leave no emulator, and no event makes one.
-/

namespace ChipEight

/-! ## Loads -/

/-- A program that was chosen, and what it is known by. -/
structure Choice where
  image : List UInt8
  title : Option String
  /-- Its identifier, if it is one of the catalog. -/
  software : Option String
  deriving DecidableEq

namespace Choice

/-- The program a session starts with. -/
def boot : Choice := ⟨Catalog.boot.image, some Catalog.boot.name, some Catalog.boot.id⟩

/-- **Named for what it is**: what has an identifier of the catalog is that entry. -/
def Genuine (c : Choice) : Prop :=
  ∀ id, c.software = some id →
    ∃ entry, Catalog.find? id = some entry ∧ c.image = entry.image ∧ c.title = some entry.name

theorem genuine_boot : boot.Genuine := by
  intro id hid
  obtain rfl := Option.some.inj hid
  exact ⟨Catalog.boot, by decide, rfl, rfl⟩

/-- What comes of an image that is found, or of the failure to find one. -/
def outcome {ε : Type} (answer : Except ε (List UInt8)) (message : ε → String)
    (title software : Option String) : Except String Choice :=
  (answer.mapError message).map (⟨·, title, software⟩)

/-- The programs among the outcomes of loads. -/
def loaded (outcomes : List (Except String Choice)) : List Choice :=
  outcomes.filterMap Except.toOption

/-- **The program that runs** after loads with these outcomes: that of the last one to succeed. -/
def running (outcomes : List (Except String Choice)) : Choice :=
  (loaded outcomes).getLast?.getD boot

/-- **What is said of the last load**: why it was refused, if it was. -/
def complaint (outcomes : List (Except String Choice)) : Option String :=
  match outcomes.getLast? with
  | some (.error message) => some message
  | _ => none

theorem running_genuine {outcomes : List (Except String Choice)}
    (h : ∀ c ∈ loaded outcomes, c.Genuine) : (running outcomes).Genuine := by
  unfold running
  cases hlast : (loaded outcomes).getLast? with
  | none => exact genuine_boot
  | some c => exact h c (List.mem_of_getLast? hlast)

/-- A program without an identifier is one that was loaded, since the first one has its own. -/
theorem running_of_software_none {outcomes : List (Except String Choice)}
    (h : (running outcomes).software = none) :
    (loaded outcomes).getLast? = some (running outcomes) := by
  unfold running at h ⊢
  cases hlast : (loaded outcomes).getLast? with
  | none =>
    rw [hlast] at h
    cases h
  | some c => rfl

theorem outcome_eq_ok {ε : Type} {answer : Except ε (List UInt8)} {message : ε → String}
    {title software : Option String} {c : Choice}
    (h : outcome answer message title software = .ok c) :
    ∃ image, answer = .ok image ∧ c = ⟨image, title, software⟩ := by
  cases answer with
  | ok image => exact ⟨image, rfl, (Except.ok.inj h).symm⟩
  | error => cases h

theorem outcome_eq_error {ε : Type} {answer : Except ε (List UInt8)} {message : ε → String}
    {title software : Option String} {text : String}
    (h : outcome answer message title software = .error text) :
    ∃ err, answer = .error err ∧ text = message err := by
  cases answer with
  | ok => cases h
  | error err => exact ⟨err, rfl, (Except.error.inj h).symm⟩

@[simp] theorem running_concat_ok (outcomes : List (Except String Choice)) (c : Choice) :
    running (outcomes ++ [.ok c]) = c := by
  simp [running, loaded, Except.toOption]

@[simp] theorem running_concat_error (outcomes : List (Except String Choice)) (message : String) :
    running (outcomes ++ [.error message]) = running outcomes := by
  simp [running, loaded, Except.toOption]

@[simp] theorem complaint_concat_ok (outcomes : List (Except String Choice)) (c : Choice) :
    complaint (outcomes ++ [.ok c]) = none := by
  simp [complaint]

@[simp] theorem complaint_concat_error (outcomes : List (Except String Choice))
    (message : String) : complaint (outcomes ++ [.error message]) = some message := by
  simp [complaint]

end Choice

/-- What comes of a file once it has been read. -/
def PickedFile.outcome (file : PickedFile) : Except String Choice :=
  Choice.outcome (readProgramFile file.data) FileError.message (some file.name) none

namespace Session

/-- **What comes of an event that loads a program**: the program, or why it is refused. -/
def Event.outcome? : Event → Option (Except String Choice)
  | .loadImage image title => some (Choice.outcome (checkImage image) LoadError.message title none)
  | .loadFile file => some file.outcome
  | .loadEntry entry =>
    some (Choice.outcome (checkImage entry.image) LoadError.message (some entry.name)
      (some entry.id))
  | _ => none

/-- What comes of the loads among events, in order. -/
def outcomes (events : List Event) : List (Except String Choice) :=
  events.filterMap Event.outcome?

theorem outcomes_cons (event : Event) (events : List Event) :
    outcomes (event :: events) = event.outcome?.toList ++ outcomes events := by
  unfold outcomes
  cases h : event.outcome? with
  | none =>
    rw [List.filterMap_cons_none h]
    rfl
  | some outcome =>
    rw [List.filterMap_cons_some h]
    rfl

theorem outcomes_append (xs ys : List Event) : outcomes (xs ++ ys) = outcomes xs ++ outcomes ys :=
  List.filterMap_append

/-- **What a user can do to a session that goes on**: entries are picked from the catalog. -/
def Event.Offered : Event → Prop
  | .loadEntry entry => entry ∈ Catalog.entries
  | .unmount => False
  | _ => True

end Session

/-- Every image of the catalog can be loaded. -/
theorem Catalog.fits : ∀ entry ∈ entries,
    entry.image ≠ [] ∧ entry.image.length ≤ Memory.capacity := by decide

/-- An identifier belongs to one entry. -/
theorem Catalog.find?_id : ∀ entry ∈ entries, find? entry.id = some entry := by decide

namespace Emulator

/-- A load that succeeds leaves no halt behind. -/
theorem load_program {e e' : Emulator} {image : List UInt8} {title : Option String}
    (h : e.load image title = .ok e') : e'.image = image ∧ e'.title = title ∧ e'.halt = none := by
  obtain ⟨err, -, heq⟩ | ⟨-, heq⟩ := e.load_cases image title
  · cases heq.symm.trans h
  · cases heq.symm.trans h
    exact ⟨rfl, rfl, rfl⟩

theorem frame_program (e : Emulator) :
    e.frame.emulator.image = e.image ∧ e.frame.emulator.title = e.title := by
  have hcalls : ∀ c ∈ [Call.frame], ¬ c.Loads := fun c hc => List.mem_singleton.mp hc ▸ id
  exact e.run_program hcalls

end Emulator

namespace Session

variable {shown : Shown} {e : Emulator} {event : Event}

/-! ## One event -/

/-- **Nothing is loaded**: the program stays, and so does all that is said of it.  Of a fault is
said what there is to say, if it was before. -/
structure Continues (shown shown' : Shown) (e e' : Emulator) : Prop where
  image : e'.image = e.image
  title : e'.title = e.title
  software : shown'.software = shown.software
  loadError : shown'.loadError = shown.loadError
  fault : shown.fault = e.halt.map Halt.message → shown'.fault = e'.halt.map Halt.message

theorem Continues.refl (shown : Shown) (e : Emulator) : Continues shown shown e e :=
  ⟨rfl, rfl, rfl, rfl, id⟩

theorem tick_continues (shown : Shown) (e : Emulator) :
    ∃ shown' e', tick ⟨shown, some e, true⟩ = ⟨shown', some e', true⟩
      ∧ Continues shown shown' e e' := by
  by_cases hruns : shown.paused = true ∨ e.halt.isSome = true
  · exact ⟨shown, e, if_pos hruns, .refl shown e⟩
  obtain ⟨hpaused, hhalted⟩ := not_or.mp hruns
  have hhalt : e.halt = none := Option.not_isSome_iff_eq_none.mp hhalted
  have htick := tick_eq (s := ⟨shown, some e, true⟩) rfl rfl (Bool.eq_false_iff.mpr hpaused) hhalt
  obtain ⟨himage, htitle⟩ := e.frame_program
  cases hanswer : e.frame.answer with
  | ok count =>
    rw [hanswer] at htick
    refine ⟨_, _, htick, himage, htitle, rfl, rfl, fun hfault => ?_⟩
    obtain ⟨k, hk, f, hf⟩ | ⟨-, hnone⟩ := Emulator.frame_halt hhalt
    · rw [Emulator.frame_of_haltsAfter hhalt hk hf] at hanswer
      cases hanswer
    · rw [hnone]
      exact hhalt ▸ hfault
  | error f =>
    rw [hanswer] at htick
    refine ⟨_, _, htick, himage, htitle, rfl, rfl, fun _ => ?_⟩
    rw [Emulator.frame_halt_of_error hhalt hanswer]
    rfl

theorem press_continues (shown : Shown) (e : Emulator) (key : Binary64) :
    ∃ shown' e', press ⟨shown, some e, true⟩ key = ⟨shown', some e', true⟩
      ∧ Continues shown shown' e e' :=
  ⟨_, _, rfl, rfl, rfl, rfl, rfl, id⟩

theorem release_continues (shown : Shown) (e : Emulator) (key : Binary64) :
    ∃ shown' e', release ⟨shown, some e, true⟩ key = ⟨shown', some e', true⟩
      ∧ Continues shown shown' e e' := by
  obtain ⟨himage, htitle⟩ := e.beat_program (b := .keyUp key) id
  exact ⟨_, _, rfl, himage, htitle, rfl, rfl, fun hfault => (e.keyUp_halt key) ▸ hfault⟩

/-- **An event that is no load** goes on with the program there is. -/
theorem handle_continues (hoffered : event.Offered) (hnone : event.outcome? = none) :
    ∃ shown' e', handle ⟨shown, some e, true⟩ event = ⟨shown', some e', true⟩
      ∧ Continues shown shown' e e' := by
  cases event with
  | tick => exact tick_continues shown e
  | togglePause => exact ⟨_, _, rfl, rfl, rfl, rfl, rfl, id⟩
  | reset => exact ⟨_, _, rfl, rfl, rfl, rfl, rfl, fun _ => rfl⟩
  | press key => exact press_continues shown e key
  | release key => exact release_continues shown e key
  | keyDown k =>
    rw [handle, keyDown]
    split
    · exact ⟨_, _, rfl, .refl shown e⟩
    · split
      · exact press_continues shown e _
      · exact ⟨_, _, rfl, .refl shown e⟩
  | keyUp k =>
    rw [handle, keyUp]
    split
    · exact ⟨_, _, rfl, .refl shown e⟩
    · exact release_continues shown e _
  | loadImage | loadFile | loadEntry => cases hnone
  | unmount => exact hoffered.elim

theorem loadImage_of_ok {e' : Emulator} {image : List UInt8} {title : Option String}
    (h : e.load image title = .ok e') : loadImage ⟨shown, some e, true⟩ image title
      = ⟨{ refreshed shown e' with loadError := none, software := none }, some e', true⟩ := by
  simp only [loadImage, h]
  rfl

/-- **A load that succeeds** takes everything over from the program that was chosen. -/
theorem handle_loaded {c : Choice} (h : event.outcome? = some (.ok c)) :
    ∃ e', e.load c.image c.title = .ok e' ∧ handle ⟨shown, some e, true⟩ event
      = ⟨{ refreshed shown e' with loadError := none, software := c.software }, some e', true⟩ := by
  cases event with
  | loadImage image title =>
    obtain ⟨image', hcheck, rfl⟩ := Choice.outcome_eq_ok (Option.some.inj h)
    obtain ⟨hfits, rfl⟩ := Emulator.checkImage_eq_ok_iff.mp hcheck
    have hload : e.load image' title = .ok _ := Emulator.load_of_ok hfits
    exact ⟨_, hload, loadImage_of_ok hload⟩
  | loadFile file =>
    obtain ⟨image, hread, rfl⟩ := Choice.outcome_eq_ok (Option.some.inj h)
    have hload : e.load image (some file.name) = .ok _ :=
      Emulator.load_of_ok (fits_of_readProgramFile hread)
    refine ⟨_, hload, ?_⟩
    simp only [handle, finishRead, hread]
    exact loadImage_of_ok hload
  | loadEntry entry =>
    obtain ⟨image, hcheck, rfl⟩ := Choice.outcome_eq_ok (Option.some.inj h)
    obtain ⟨hfits, rfl⟩ := Emulator.checkImage_eq_ok_iff.mp hcheck
    have hload : e.load entry.image (some entry.name) = .ok _ := Emulator.load_of_ok hfits
    refine ⟨_, hload, ?_⟩
    simp only [handle, loadEntry, hload]
    rfl
  | tick | togglePause | reset | press | release | keyDown | keyUp | unmount => cases h

/-- **A load that is refused** leaves its message and nothing else. -/
theorem handle_refused (hoffered : event.Offered) {message : String}
    (h : event.outcome? = some (.error message)) : handle ⟨shown, some e, true⟩ event
      = ⟨{ shown with loadError := some message }, some e, true⟩ := by
  cases event with
  | loadImage image title =>
    obtain ⟨err, hcheck, rfl⟩ := Choice.outcome_eq_error (Option.some.inj h)
    simp only [handle, loadImage, Emulator.load_of_error hcheck]
    rfl
  | loadFile file =>
    obtain ⟨err, hread, rfl⟩ := Choice.outcome_eq_error (Option.some.inj h)
    simp only [handle, finishRead, hread]
    rfl
  | loadEntry entry =>
    obtain ⟨err, hcheck, -⟩ := Choice.outcome_eq_error (Option.some.inj h)
    cases hcheck.symm.trans (Emulator.checkImage_eq_ok_iff.mpr ⟨Catalog.fits entry hoffered, rfl⟩)
  | tick | togglePause | reset | press | release | keyDown | keyUp | unmount => cases h

/-! ## Any events -/

/-- **A session and the loads it has seen**: the program is that of the last load to succeed, and
what is said of it, of the last load and of a fault is so. -/
structure Coherent (shown : Shown) (e : Emulator) (seen : List (Except String Choice)) :
    Prop where
  fault : shown.fault = e.halt.map Halt.message
  program : Choice.mk e.image e.title shown.software = Choice.running seen
  loadError : shown.loadError = Choice.complaint seen

namespace Coherent

variable {seen : List (Except String Choice)}

theorem continues (h : Coherent shown e seen) {shown' : Shown} {e' : Emulator}
    (hcontinues : Continues shown shown' e e') : Coherent shown' e' seen where
  fault := hcontinues.fault h.fault
  program := by rw [hcontinues.image, hcontinues.title, hcontinues.software, h.program]
  loadError := hcontinues.loadError.trans h.loadError

/-- **Every event keeps a session coherent** with the loads it has seen. -/
theorem handle (h : Coherent shown e seen) (hoffered : event.Offered) :
    ∃ shown' e', Session.handle ⟨shown, some e, true⟩ event = ⟨shown', some e', true⟩
      ∧ Coherent shown' e' (seen ++ event.outcome?.toList) := by
  rcases houtcome : event.outcome? with _ | message | c
  · obtain ⟨shown', e', heq, hcontinues⟩ := handle_continues hoffered houtcome
    rw [Option.toList_none, List.append_nil]
    exact ⟨shown', e', heq, h.continues hcontinues⟩
  · refine ⟨_, _, handle_refused hoffered houtcome, h.fault, ?_, ?_⟩
    · rw [Option.toList_some, Choice.running_concat_error, h.program]
    · rw [Option.toList_some, Choice.complaint_concat_error]
  · obtain ⟨e', hload, heq⟩ := handle_loaded houtcome
    obtain ⟨himage, htitle, hhalt⟩ := Emulator.load_program hload
    refine ⟨_, _, heq, ?_, ?_, ?_⟩
    · rw [hhalt]
      rfl
    · rw [Option.toList_some, Choice.running_concat_ok, himage, htitle]
    · rw [Option.toList_some, Choice.complaint_concat_ok]

theorem handleAll (h : Coherent shown e seen) {events : List Event}
    (hoffered : ∀ event ∈ events, event.Offered) :
    ∃ shown' e', Session.handleAll ⟨shown, some e, true⟩ events = ⟨shown', some e', true⟩
      ∧ Coherent shown' e' (seen ++ outcomes events) := by
  induction events generalizing shown e seen with
  | nil => exact ⟨shown, e, rfl, (List.append_nil seen).symm ▸ h⟩
  | cons event events ih =>
    obtain ⟨hevent, hoffered⟩ := List.forall_mem_cons.mp hoffered
    obtain ⟨shown', e', heq, h'⟩ := h.handle hevent
    obtain ⟨last, e'', hlast, hcoherent⟩ := ih h' hoffered
    refine ⟨last, e'', ?_, ?_⟩
    · rw [Session.handleAll, List.foldl_cons, heq]
      exact hlast
    · rw [outcomes_cons, ← List.append_assoc]
      exact hcoherent

end Coherent

/-- What comes of the events that are offered is named for what it is. -/
theorem Event.genuine_of_outcome (hoffered : event.Offered) {c : Choice}
    (h : event.outcome? = some (.ok c)) : c.Genuine := by
  cases event with
  | loadImage | loadFile =>
    obtain ⟨image, -, rfl⟩ := Choice.outcome_eq_ok (Option.some.inj h)
    exact fun id hid => nomatch hid
  | loadEntry entry =>
    obtain ⟨image, hcheck, rfl⟩ := Choice.outcome_eq_ok (Option.some.inj h)
    obtain ⟨-, rfl⟩ := Emulator.checkImage_eq_ok_iff.mp hcheck
    intro id hid
    obtain rfl := Option.some.inj hid
    exact ⟨entry, Catalog.find?_id entry hoffered, rfl, rfl⟩
  | tick | togglePause | reset | press | release | keyDown | keyUp | unmount => cases h

theorem loaded_genuine {events : List Event} (hoffered : ∀ event ∈ events, event.Offered) :
    ∀ c ∈ Choice.loaded (outcomes events), c.Genuine := by
  intro c hc
  obtain ⟨outcome, houtcome, hok⟩ := List.mem_filterMap.mp hc
  obtain ⟨event, hevent, h⟩ := List.mem_filterMap.mp houtcome
  cases outcome with
  | error => cases hok
  | ok c' =>
    obtain rfl := Option.some.inj hok
    exact Event.genuine_of_outcome (hoffered event hevent) h

/-- **A session with settings that are accepted** is coherent after any events. -/
theorem coherent_handleAll {env : List (String × String)} {overrides : Value} {config : Config}
    (hconfig : Environment.configWith env overrides = .ok config) (random : RandomSource)
    {events : List Event} (hoffered : ∀ event ∈ events, event.Offered) :
    ∃ shown e, (start env overrides random).handleAll events = ⟨shown, some e, true⟩
      ∧ Coherent shown e (outcomes events) := by
  have hboot : (Emulator.Call.load Catalog.boot.image (some Catalog.boot.name)).Loads :=
    ⟨by decide, by decide⟩
  have hstart : Coherent { Shown.initial with software := some Catalog.boot.id }
      (Emulator.reached config random config.logLevel
        [.load Catalog.boot.image (some Catalog.boot.name)]) [] := by
    rw [Emulator.reached, Emulator.run_cons, Emulator.perform_load hboot]
    exact ⟨rfl, rfl, rfl⟩
  rw [start_of_config hconfig]
  exact hstart.handleAll hoffered

theorem Faithful.handleAll {s : Session} (h : Faithful s) (events : List Event) :
    Faithful (s.handleAll events) := by
  induction events generalizing s with
  | nil => exact h
  | cons event events ih => exact ih (h.handle event)

/-! ## Refused settings -/

theorem present_emulator (s : Session) (f : Shown → Shown) :
    (s.present f).emulator = s.emulator := by
  unfold present
  split <;> rfl

theorem present_fault (s : Session) {f : Shown → Shown}
    (hf : (f s.shown).fault = s.shown.fault) : (s.present f).shown.fault = s.shown.fault := by
  unfold present
  split
  · exact hf
  · rfl

/-- **Without an emulator** no event makes one, and the reason for that stays. -/
theorem handle_of_none {s : Session} (h : s.emulator = none) (event : Event) :
    (s.handle event).emulator = none ∧ (s.handle event).shown.fault = s.shown.fault := by
  obtain ⟨shown, emulator, mounted⟩ := s
  obtain rfl : emulator = none := h
  cases event with
  | tick | reset | press | release | loadImage | loadEntry | unmount => exact ⟨rfl, rfl⟩
  | togglePause => exact ⟨present_emulator _ _, present_fault _ rfl⟩
  | keyDown k =>
    rw [handle, keyDown]
    split
    · exact ⟨rfl, rfl⟩
    · split <;> exact ⟨rfl, rfl⟩
  | keyUp k =>
    rw [handle, keyUp]
    split <;> exact ⟨rfl, rfl⟩
  | loadFile file =>
    rw [handle, finishRead]
    split
    · exact ⟨present_emulator _ _, present_fault _ rfl⟩
    · exact ⟨rfl, rfl⟩

theorem handleAll_of_none {s : Session} (h : s.emulator = none) (events : List Event) :
    (s.handleAll events).emulator = none ∧ (s.handleAll events).shown.fault = s.shown.fault := by
  induction events generalizing s with
  | nil => exact ⟨h, rfl⟩
  | cons event events ih =>
    obtain ⟨hnone, hfault⟩ := handle_of_none h event
    obtain ⟨hlast, hlast'⟩ := ih hnone
    exact ⟨hlast, hlast'.trans hfault⟩

/-- **A session and its machine stay in step**, whatever is done to the session.  The fault and the
keys are the machine's; the program is that of the last load to succeed, which is the catalog entry
of the identifier that is shown, or was loaded without one; and the message is why the last load was
refused.  A load that is refused changes nothing else, and a tick changes nothing at all while the
session is paused or shows a fault.  Settings that are refused are all there is to see of a session
without an emulator. -/
theorem handleAll_coherent (env : List (String × String)) (overrides : Value)
    (random : RandomSource) (events : List Event) (hoffered : ∀ event ∈ events, event.Offered) :
    let s := (start env overrides random).handleAll events
    (∀ config, Environment.configWith env overrides = .ok config →
      ∃ e, s.emulator = some e
        ∧ s.shown.fault = e.halt.map Halt.message
        ∧ s.shown.pressedKeys = e.machine.keypad.pressed
        ∧ Choice.mk e.image e.title s.shown.software = Choice.running (outcomes events)
        ∧ (∀ id, s.shown.software = some id → ∃ entry, Catalog.find? id = some entry
            ∧ e.image = entry.image ∧ e.title = some entry.name)
        ∧ (s.shown.software = none →
            (Choice.loaded (outcomes events)).getLast? = some ⟨e.image, e.title, none⟩)
        ∧ s.shown.loadError = Choice.complaint (outcomes events)
        ∧ (∀ event : Event, event.Offered → ∀ message,
            event.outcome? = some (.error message) →
              s.handle event = { s with shown := { s.shown with loadError := some message } })
        ∧ (s.shown.paused = true ∨ s.shown.fault.isSome = true → s.tick = s))
    ∧ ∀ err, Environment.configWith env overrides = .error err →
      s.emulator = none ∧ s.shown.fault = some err.message := by
  intro s
  constructor
  · intro config hconfig
    obtain ⟨shown, e, hs, hcoherent⟩ := coherent_handleAll hconfig random hoffered
    change s = _ at hs
    have hfaithful : Faithful s := (faithful_start env overrides random).handleAll events
    rw [hs] at hfaithful ⊢
    refine ⟨e, rfl, hcoherent.fault, (hfaithful.mirrors e rfl).pressedKeys, hcoherent.program,
      ?_, ?_, hcoherent.loadError, fun event hevent message h => handle_refused hevent h, ?_⟩
    · have hgenuine := Choice.running_genuine (loaded_genuine hoffered)
      rw [← hcoherent.program] at hgenuine
      exact hgenuine
    · intro hnone
      have hlast := Choice.running_of_software_none
        ((congrArg Choice.software hcoherent.program).symm.trans hnone)
      rw [hlast, ← hcoherent.program, hnone]
    · rintro (hpaused | hfault)
      · exact if_pos (.inl hpaused)
      · rw [hcoherent.fault, Option.isSome_map] at hfault
        exact if_pos (.inr hfault)
  · intro err hconfig
    have hstart := start_of_error hconfig random
    obtain ⟨hnone, hfault⟩ := handleAll_of_none (congrArg Session.emulator hstart) events
    exact ⟨hnone, hfault.trans (congrArg (·.shown.fault) hstart)⟩

/-- A file, a program of the catalog, and an image that is refused. -/
def choosing : List Event :=
  [.loadFile ⟨"IDLE.CH8", [0x12, 0x00]⟩, .tick, .loadEntry Catalog.keyEcho, .loadImage [] none]

/-- The program of the catalog runs, and the message is about the image. -/
theorem handleAll_coherent_choosing :
    let s := (start [] (.record []) (.cycle [7])).handleAll choosing
    ∃ e, s.emulator = some e ∧ s.shown.fault = e.halt.map Halt.message
      ∧ Choice.mk e.image e.title s.shown.software
        = ⟨Catalog.keyEchoImage, some "KEY ECHO", some "key-echo"⟩
      ∧ s.shown.loadError = some "ROM is empty" := by
  have hconfig : Environment.configWith [] (.record []) = .ok ⟨8, .set, 16, .info⟩ := rfl
  have hoffered : ∀ event ∈ choosing, event.Offered := by
    simp only [choosing, List.forall_mem_cons, Event.Offered]
    exact ⟨trivial, trivial, by decide, trivial, List.forall_mem_nil _⟩
  obtain ⟨haccepted, -⟩ := handleAll_coherent [] (.record []) (.cycle [7]) choosing hoffered
  obtain ⟨e, he, hfault, -, hprogram, -, -, hmessage, -⟩ := haccepted _ hconfig
  exact ⟨e, he, hfault, hprogram.trans rfl, hmessage.trans rfl⟩

end Session

end ChipEight
