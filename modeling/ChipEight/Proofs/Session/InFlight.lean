import ChipEight.Proofs.Session.Coherence
import Mathlib.Data.List.Perm.Basic

/-!
# Proofs/Session/InFlight — loads count in the order they complete

A file takes its time to be read, and nothing ties the end of a reading to its request.  So what a
session shows is decided by the load that is completed last, whenever it was asked for
(`handleAll_shows`).  That is the one asked for last if nothing else is in flight by the time it
takes effect.  Otherwise a file that is still being read can overtake a choice made since
(`overtaken`).
-/

namespace ChipEight.Session

/-- **A session shows an outcome**: its program runs under its name, or the message says why not. -/
def Shows (s : Session) : Except String Choice → Prop
  | .ok c => ∃ e, s.emulator = some e ∧ Choice.mk e.image e.title s.shown.software = c
      ∧ s.shown.loadError = none
  | .error message => s.shown.loadError = some message

/-- A coherent session shows what came of the last load it has seen. -/
theorem Coherent.shows {shown : Shown} {e : Emulator} {seen : List (Except String Choice)}
    (h : Coherent shown e seen) :
    Shows ⟨shown, some e, true⟩ (seen.getLast?.getD (.ok Choice.boot)) := by
  obtain rfl | ⟨seen, outcome, rfl⟩ := seen.eq_nil_or_concat
  · exact ⟨e, rfl, h.program, h.loadError⟩
  rw [List.concat_eq_append] at h ⊢
  rw [List.getLast?_concat, Option.getD_some]
  cases outcome with
  | ok c =>
    have hprogram := h.program
    rw [Choice.running_concat_ok] at hprogram
    refine ⟨e, rfl, hprogram, ?_⟩
    rw [h.loadError, Choice.complaint_concat_ok]
  | error message =>
    rw [Shows, h.loadError, Choice.complaint_concat_error]

namespace Reading

variable {r : Reading} {events : List Event}

def handleAll (r : Reading) (events : List Event) : Reading := events.foldl handle r

theorem handleAll_append (r : Reading) (xs ys : List Event) :
    r.handleAll (xs ++ ys) = (r.handleAll xs).handleAll ys :=
  List.foldl_append

/-- **What a session sees of an event**: a file is loaded when its reading settles. -/
def seen? (r : Reading) : Event → Option Session.Event
  | .now e => some e
  | .request _ => none
  | .settle place => r.inFlight[place]?.map .loadFile

/-- What a session sees of events, in order. -/
def seen (r : Reading) : List Event → List Session.Event
  | [] => []
  | event :: events => (r.seen? event).toList ++ (r.handle event).seen events

theorem handle_session (r : Reading) (event : Event) :
    (r.handle event).session = r.session.handleAll (r.seen? event).toList := by
  cases event with
  | now | request => rfl
  | settle place =>
    rw [handle, seen?]
    cases r.inFlight[place]? <;> rfl

/-- **Behind any events a session is what it has seen.** -/
theorem handleAll_session (r : Reading) (events : List Event) :
    (r.handleAll events).session = r.session.handleAll (r.seen events) := by
  induction events generalizing r with
  | nil => rfl
  | cons event events ih =>
    rw [seen, Session.handleAll, List.foldl_append]
    exact (ih (r.handle event)).trans (congrArg (Session.handleAll · _) (r.handle_session event))

theorem seen_append (r : Reading) (xs ys : List Event) :
    r.seen (xs ++ ys) = r.seen xs ++ (r.handleAll xs).seen ys := by
  induction xs generalizing r with
  | nil => rfl
  | cons event xs ih =>
    rw [List.cons_append, seen, seen, List.append_assoc, ih]
    rfl

/-! ## Requests -/

/-- **What an event asks for**: what will come of it, once it completes. -/
def Event.asks? : Event → Option (Except String Choice)
  | .now e => e.outcome?
  | .request file => some file.outcome
  | .settle _ => none

/-- What events ask for, in order. -/
def asked (events : List Event) : List (Except String Choice) := events.filterMap Event.asks?

/-- What a user can do while files are being read. -/
def Event.Offered : Event → Prop
  | .now e => e.Offered
  | _ => True

/-- What a session sees of what is offered is offered. -/
theorem seen_offered (r : Reading) (h : ∀ event ∈ events, event.Offered) :
    ∀ event ∈ r.seen events, event.Offered := by
  induction events generalizing r with
  | nil => exact List.forall_mem_nil _
  | cons event events ih =>
    obtain ⟨hevent, hevents⟩ := List.forall_mem_cons.mp h
    intro e he
    obtain he | he := List.mem_append.mp he
    · cases event with
      | now e' =>
        obtain rfl := Option.some.inj (Option.mem_toList.mp he)
        exact hevent
      | request => cases he
      | settle place =>
        obtain ⟨file, -, rfl⟩ := Option.map_eq_some_iff.mp (Option.mem_toList.mp he)
        exact trivial
    · exact ih (r.handle event) hevents e he

/-- An event that asks for nothing starts no reading. -/
theorem handle_of_asks_none {event : Event} (h : event.asks? = none) :
    outcomes (r.seen? event).toList = [] ∧ (r.handle event).inFlight = r.inFlight
      ∨ ∃ place file, r.inFlight[place]? = some file
        ∧ outcomes (r.seen? event).toList = [file.outcome]
        ∧ (r.handle event).inFlight = r.inFlight.eraseIdx place := by
  cases event with
  | now e =>
    left
    exact ⟨List.filterMap_cons_none h, rfl⟩
  | request => cases h
  | settle place =>
    rw [seen?, handle]
    cases hfile : r.inFlight[place]? with
    | none => exact .inl ⟨rfl, rfl⟩
    | some file => exact .inr ⟨place, file, hfile, rfl, rfl⟩

/-- **With nothing asked for, what completes was in flight**: each file once, in any order, and the
others still are. -/
theorem seen_of_quiet (r : Reading) (hquiet : asked events = []) :
    ∃ settled : List PickedFile, outcomes (r.seen events) = settled.map PickedFile.outcome
      ∧ (settled ++ (r.handleAll events).inFlight).Perm r.inFlight := by
  induction events generalizing r with
  | nil => exact ⟨[], rfl, .refl _⟩
  | cons event events ih =>
    obtain ⟨hasks, hquiet⟩ := List.forall_mem_cons.mp (List.filterMap_eq_nil_iff.mp hquiet)
    obtain ⟨settled, hseen, hperm⟩ := ih (r.handle event) (List.filterMap_eq_nil_iff.mpr hquiet)
    rw [seen, outcomes_append, hseen]
    obtain ⟨houtcomes, hsame⟩ | ⟨place, file, hfile, houtcomes, hrest⟩ :=
      r.handle_of_asks_none hasks
    · rw [houtcomes]
      exact ⟨settled, rfl, hsame ▸ hperm⟩
    · obtain ⟨hplace, rfl⟩ := List.getElem?_eq_some_iff.mp hfile
      rw [houtcomes]
      refine ⟨r.inFlight[place] :: settled, rfl, ?_⟩
      exact ((hrest ▸ hperm).cons _).trans (List.getElem_cons_eraseIdx_perm hplace)

/-- With nothing in flight, nothing completes that is not asked for. -/
theorem outcomes_of_quiet (hnone : r.inFlight = []) (hquiet : asked events = []) :
    outcomes (r.seen events) = [] := by
  obtain ⟨settled, hseen, hperm⟩ := r.seen_of_quiet hquiet
  rw [hnone] at hperm
  rw [hseen, (List.append_eq_nil_iff.mp hperm.eq_nil).1, List.map_nil]

/-- With one file in flight, that one completes. -/
theorem outcomes_of_alone {file : PickedFile} (halone : r.inFlight = [file])
    (hquiet : asked events = []) (hdone : (r.handleAll events).inFlight = []) :
    outcomes (r.seen events) = [file.outcome] := by
  obtain ⟨settled, hseen, hperm⟩ := r.seen_of_quiet hquiet
  rw [halone, hdone, List.append_nil] at hperm
  rw [hseen, hperm.eq_singleton, List.map_singleton]

end Reading

/-- **The load that completes last decides**, whatever happens in between and whenever it was asked
for.  One that takes no time completes last if nothing is in flight when it is asked for, and a file
does if at some moment it alone is in flight, each time with nothing asked for from then on. -/
theorem handleAll_shows {env : List (String × String)} {overrides : Value} {config : Config}
    (hconfig : Environment.configWith env overrides = .ok config) (random : RandomSource)
    {events : List Reading.Event} (hoffered : ∀ event ∈ events, event.Offered) :
    let first : Reading := ⟨start env overrides random, []⟩
    let last := first.handleAll events
    last.session.Shows ((outcomes (first.seen events)).getLast?.getD (.ok Choice.boot))
    ∧ (∀ before e after outcome, events = before ++ .now e :: after → e.outcome? = some outcome →
        (first.handleAll before).inFlight = [] → Reading.asked after = [] →
        last.session.Shows outcome)
    ∧ ∀ before file after, events = before ++ after → (first.handleAll before).inFlight = [file] →
        Reading.asked after = [] → last.inFlight = [] → last.session.Shows file.outcome := by
  intro first last
  have hlast : last.session.Shows
      ((outcomes (first.seen events)).getLast?.getD (.ok Choice.boot)) := by
    obtain ⟨shown, e, hs, hcoherent⟩ := coherent_handleAll hconfig random
      (Reading.seen_offered first hoffered)
    rw [first.handleAll_session events, hs]
    exact hcoherent.shows
  refine ⟨hlast, ?_, ?_⟩
  · rintro before e after outcome rfl houtcome hnone hquiet
    have hevent : outcomes [e] = [outcome] := List.filterMap_cons_some houtcome
    have hrest : outcomes (((first.handleAll before).handle (.now e)).seen after) = [] :=
      Reading.outcomes_of_quiet hnone hquiet
    rw [Reading.seen_append, Reading.seen, Reading.seen?, Option.toList_some, outcomes_append,
      outcomes_append, hevent, hrest, List.append_nil, List.getLast?_concat] at hlast
    exact hlast
  · rintro before file after rfl halone hquiet hdone
    have hdone : ((first.handleAll before).handleAll after).inFlight = [] := by
      rw [← Reading.handleAll_append]
      exact hdone
    rw [Reading.seen_append, outcomes_append, Reading.outcomes_of_alone halone hquiet hdone,
      List.getLast?_concat] at hlast
    exact hlast

/-! ## A file that is in time, and one that is late -/

/-- A program that does nothing. -/
def idleFile : PickedFile := ⟨"IDLE.CH8", [0x12, 0x00]⟩

/-- What comes of the entry that echoes keys. -/
def echoChosen : Choice := ⟨Catalog.keyEchoImage, some "KEY ECHO", some "key-echo"⟩

/-- The entry is picked once the file has been read. -/
def inTime : List Reading.Event :=
  [.request idleFile, .now .tick, .settle 0, .now (.loadEntry Catalog.keyEcho), .now .tick]

/-- The entry is picked while the file is still being read. -/
def late : List Reading.Event := [.request idleFile, .now (.loadEntry Catalog.keyEcho), .settle 0]

theorem handleAll_shows_inTime :
    let first : Reading := ⟨start [] (.record []) (.cycle [7]), []⟩
    (first.handleAll inTime).session.Shows (.ok echoChosen) := by
  have hconfig : Environment.configWith [] (.record []) = .ok ⟨8, .set, 16, .info⟩ := rfl
  have hoffered : ∀ event ∈ inTime, event.Offered := by
    simp only [inTime, List.forall_mem_cons, Reading.Event.Offered, Event.Offered]
    exact ⟨trivial, trivial, trivial, by decide, trivial, List.forall_mem_nil _⟩
  obtain ⟨-, hatOnce, -⟩ := handleAll_shows hconfig (.cycle [7]) hoffered
  exact hatOnce [.request idleFile, .now .tick, .settle 0] (.loadEntry Catalog.keyEcho)
    [.now .tick] (.ok echoChosen) rfl rfl rfl rfl

/-- What was asked for last is shown once nothing is in flight. -/
def Reading.LastWins (first : Reading) (events : List Event) : Prop :=
  (first.handleAll events).inFlight = [] →
    ∀ outcome, (asked events).getLast? = some outcome →
      (first.handleAll events).session.Shows outcome

/-- The file takes the place of the entry. -/
theorem not_lastWins_late :
    ¬ Reading.LastWins ⟨start [] (.record []) (.cycle [7]), []⟩ late := by
  intro hwins
  have hconfig : Environment.configWith [] (.record []) = .ok ⟨8, .set, 16, .info⟩ := rfl
  have hoffered : ∀ event ∈ [Event.loadEntry Catalog.keyEcho, .loadFile idleFile],
      event.Offered := by
    simp only [List.forall_mem_cons, Event.Offered]
    exact ⟨by decide, trivial, List.forall_mem_nil _⟩
  obtain ⟨shown, e, hs, hcoherent⟩ := coherent_handleAll hconfig (.cycle [7]) hoffered
  have hshows := hwins rfl (.ok echoChosen) rfl
  rw [Reading.handleAll_session] at hshows
  obtain ⟨e', he', hchosen, -⟩ := hs ▸ hshows
  obtain rfl := Option.some.inj he'
  cases (congrArg Choice.software hchosen).symm.trans (congrArg Choice.software hcoherent.program)

/-- An entry without an image, which is not of the catalog. -/
def blankEntry : CatalogEntry := { Catalog.keyEcho with image := [], sizeBytes := 0 }

/-- An entry that is refused leaves no message. -/
theorem not_lastWins_blankEntry :
    ¬ Reading.LastWins ⟨start [] (.record []) (.cycle [7]), []⟩ [.now (.loadEntry blankEntry)] := by
  intro hwins
  have hconfig : Environment.configWith [] (.record []) = .ok ⟨8, .set, 16, .info⟩ := rfl
  have hcheck : checkImage blankEntry.image = .error .empty := rfl
  have hshows : ((start [] (.record []) (.cycle [7])).handle (.loadEntry blankEntry)).Shows _ :=
    hwins rfl (.error "ROM is empty") rfl
  rw [start_of_config hconfig] at hshows
  simp only [handle, loadEntry, Emulator.load_of_error hcheck] at hshows
  cases hshows

/-- **What was asked for last need not be what is shown.** -/
theorem overtaken :
    ¬ Reading.LastWins ⟨start [] (.record []) (.cycle [7]), []⟩ late
      ∧ ¬ Reading.LastWins ⟨start [] (.record []) (.cycle [7]), []⟩
        [.now (.loadEntry blankEntry)] :=
  ⟨not_lastWins_late, not_lastWins_blankEntry⟩

end ChipEight.Session
