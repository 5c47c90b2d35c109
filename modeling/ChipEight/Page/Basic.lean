import ChipEight.Page.Panel
import ChipEight.Session.Basic

/-!
# Page/Basic — the page around a session

The page shows a title, a status, messages, the screen, the keypad and the registers, and turns what
its user does to them into session events.  All it shows is read off the session.
-/

namespace ChipEight.Page

/-! ## What the page shows -/

/-- The catalog program that runs. -/
def current (s : Shown) : Option CatalogEntry := s.software.bind Catalog.find?

/-- The title: the catalog's name of a program, else the name it was loaded under. -/
def title (s : Shown) : String :=
  match current s, s.registers.bind (·.title) with
  | some entry, _ => entry.name
  | none, some name => name
  | none, none => "No program"

/-- A message that is worth showing. -/
def banner (message : Option String) : Option String := message.filter (· ≠ "")

/-- The status: a fault outweighs a pause, and a pause a key-wait. -/
def status (s : Shown) : String :=
  if (banner s.fault).isSome then "HALTED"
  else if s.paused then "PAUSED"
  else if s.registers.any (·.phase = .waitingForKey) then "WAITING FOR KEY"
  else "RUNNING"

/-- The identifier the program menu stands at; empty if at none. -/
def selected (s : Shown) : String := s.software.getD ""

def loadButton : String := "LOAD ROM"

def resetButton : String := "RESET"

/-- The inscription of the button that pauses and resumes. -/
def pauseButton (s : Shown) : String := if s.paused then "RESUME" else "PAUSE"

def buttons (s : Shown) : List String := [loadButton, resetButton, pauseButton s]

/-- The inscriptions of the keys shown pressed, in the order of the layout. -/
def pressedLabels (s : Shown) : List String :=
  (keypad.filter s.pressedKeys.contains).map Key.label

/-- How to use the program that runs. -/
def controls (s : Shown) : Option String := banner ((current s).bind (·.controls))

/-- The texts of the register panel, if there are registers to show. -/
def panel (s : Shown) : Option (List String) :=
  s.registers.map fun snapshot => (panelFields snapshot).map (·.2)

/-! ## What its user does -/

inductive Event where
  | tick
  | keyDown (k : KeyStroke)
  | keyUp (k : KeyStroke)
  | pointer (p : Pointer) (label : String)
  | select (id : String)
  | click (button : String)
  | pick (file : Option PickedFile)
  | unmount
  deriving DecidableEq

/-- A catalog program is picked from the menu; an identifier that is not on it does nothing. -/
def select (s : Session) (id : String) : Session :=
  match Catalog.find? id with
  | none => s
  | some entry =>
    match s.loadEntry entry with
    | .ok s' => s'
    | .error _ => s

/-- A button is clicked.  The one for files only opens a dialogue. -/
def click (s : Session) (button : String) : Session :=
  if button = resetButton then s.reset
  else if button = pauseButton s.shown then s.togglePause
  else s

/-- A pointer acts on a key of the keypad. -/
def point (s : Session) (p : Pointer) (label : String) : Session :=
  match keyOfLabel? label with
  | none => s
  | some key =>
    match pointerAction s.shown.pressedKeys p key with
    | none => s
    | some .press => s.press key.number
    | some .release => s.release key.number

/-- **The session after an event of the page.** -/
def handle (s : Session) : Event → Session
  | .tick => s.tick
  | .keyDown k => s.keyDown k
  | .keyUp k => s.keyUp k
  | .pointer p label => point s p label
  | .select id => select s id
  | .click button => click s button
  | .pick none => s
  | .pick (some file) => s.finishRead file
  | .unmount => s.unmount

/-- Is a key stroke kept from others?  Only while the page is there. -/
def consumes (s : Session) (k : KeyStroke) : Bool := s.mounted && Session.consumes k

end ChipEight.Page
