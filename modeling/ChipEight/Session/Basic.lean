import ChipEight.Emulator.Basic
import ChipEight.Program.Catalog
import ChipEight.Program.File
import ChipEight.Settings.Environment

/-!
# Session/Basic — an emulator and what its user is shown

A session boots the first program of the catalog and runs one frame per tick of the display, unless
it is paused or the program has halted.  What is shown is a copy: a frame refreshes it, so do keys,
resets and loads, and between these it stays as it was last set.

Settings that are refused leave a session without an emulator.  It shows why and stays so.
-/

namespace ChipEight

/-- What a user is shown. -/
structure Shown where
  lines : List String
  registers : Option Snapshot
  /-- Why the program halted, or why there is no emulator. -/
  fault : Option String
  /-- Why the last program could not be loaded. -/
  loadError : Option String
  paused : Bool
  pressedKeys : List Key
  /-- The catalog program that runs, by its identifier. -/
  software : Option String
  deriving DecidableEq

namespace Shown

/-- Before anything has happened: a dark screen. -/
def initial : Shown where
  lines := Screen.blank.render
  registers := none
  fault := none
  loadError := none
  paused := false
  pressedKeys := []
  software := none

/-- With a fresh copy of the keys held down. -/
def withKeys (s : Shown) (e : Emulator) : Shown :=
  { s with pressedKeys := e.machine.keypad.pressed }

/-- With a fresh copy of the screen, the registers and the keys. -/
def withMachine (s : Shown) (e : Emulator) : Shown :=
  { s with lines := e.machine.screen.render, registers := some e.snapshot }.withKeys e

end Shown

structure Session where
  shown : Shown
  emulator : Option Emulator
  /-- Is there still someone to show things to? -/
  mounted : Bool

/-- A key of a keyboard, as it is pressed. -/
structure KeyStroke where
  text : String
  /-- Was Ctrl, Meta or Alt held with it? -/
  chorded : Bool
  /-- Is it the repetition of a key that is held? -/
  repeated : Bool
  deriving DecidableEq

/-- A file a user has picked. -/
structure PickedFile where
  name : String
  data : List UInt8
  deriving DecidableEq

namespace Session

/-- **The start of a session**: the settings of the environment and the overrides over them decide
whether there is an emulator. -/
def start (env : List (String × String)) (overrides : Value) (random : RandomSource) : Session :=
  let refused (message : String) : Session :=
    ⟨{ Shown.initial with fault := some message }, none, true⟩
  match Environment.configWith env overrides with
  | .error e => refused e.message
  | .ok config =>
    match (Emulator.create config random config.logLevel).load Catalog.boot.image
        (some Catalog.boot.name) with
    | .error e => refused e.message
    | .ok emulator => ⟨{ Shown.initial with software := some Catalog.boot.id }, some emulator, true⟩

/-- Changes what is shown, as long as someone is looking. -/
def present (s : Session) (f : Shown → Shown) : Session :=
  if s.mounted then { s with shown := f s.shown } else s

/-- Changes the emulator and then what is shown of it; without an emulator nothing happens. -/
def update (s : Session) (change : Emulator → Emulator) (f : Shown → Emulator → Shown) : Session :=
  match s.emulator with
  | none => s
  | some e => let e := change e; { s with emulator := some e }.present fun shown => f shown e

/-! ## Running -/

/-- **One tick of the display.** A frame that faults shows the fault and the registers, but neither
screen nor keys. -/
def tick (s : Session) : Session :=
  match s.emulator with
  | none => s
  | some e =>
    if s.shown.paused ∨ e.halt.isSome then s
    else
      let frame := e.frame
      { s with emulator := some frame.emulator }.present fun shown =>
        match frame.answer with
        | .ok _ => shown.withMachine frame.emulator
        | .error h =>
          { shown with fault := some h.message, registers := some frame.emulator.snapshot }

def togglePause (s : Session) : Session :=
  s.present fun shown => { shown with paused := !shown.paused }

/-- After a reset or a load: everything afresh, and no fault. -/
def refreshed (shown : Shown) (e : Emulator) : Shown := { shown.withMachine e with fault := none }

def reset (s : Session) : Session := s.update Emulator.reset refreshed

/-! ## Keys -/

def press (s : Session) (key : Binary64) : Session := s.update (·.keyDown key) Shown.withKeys

def release (s : Session) (key : Binary64) : Session := s.update (·.keyUp key) Shown.withKeys

/-- Does the session consume a key stroke?  Chords are left to others. -/
def consumes (k : KeyStroke) : Bool := !k.chorded && (Key.ofText? k.text).isSome

/-- A key of the keyboard goes down: a consumed one presses its key, unless it only repeats. -/
def keyDown (s : Session) (k : KeyStroke) : Session :=
  match Key.ofText? k.text with
  | none => s
  | some key => if consumes k && !k.repeated then s.press key.number else s

/-- A key of the keyboard goes up, with whatever else is held. -/
def keyUp (s : Session) (k : KeyStroke) : Session :=
  match Key.ofText? k.text with
  | none => s
  | some key => s.release key.number

/-! ## Programs -/

/-- Loads an image; one that is refused changes nothing but the message that says so. -/
def loadImage (s : Session) (image : List UInt8) (title : Option String) : Session :=
  match s.emulator with
  | none => s
  | some e =>
    match e.load image title with
    | .error err => s.present fun shown => { shown with loadError := some err.message }
    | .ok e =>
      { s with emulator := some e }.present fun shown =>
        { refreshed shown e with loadError := none, software := none }

/-- What is left to do once a file has been read. -/
def finishRead (s : Session) (file : PickedFile) : Session :=
  match readProgramFile file.data with
  | .error err => s.present fun shown => { shown with loadError := some err.message }
  | .ok image => s.loadImage image (some file.name)

/-- Loads a catalog entry.  Its image is trusted, so a refusal is the caller's to handle. -/
def loadEntry (s : Session) (entry : CatalogEntry) : Except LoadError Session :=
  match s.emulator with
  | none => .ok s
  | some e => do
    let e ← e.load entry.image (some entry.name)
    return { s with emulator := some e }.present fun shown =>
      { refreshed shown e with loadError := none, software := some entry.id }

/-- The end of a session: what was shown last stays, and the emulator is gone. -/
def unmount (s : Session) : Session := { s with emulator := none, mounted := false }

end Session

end ChipEight
