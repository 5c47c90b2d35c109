import ChipEight.Session.Basic

/-!
# Session/Run — what happens to a session, as data

Events happen one after the other.  A picked file is read in the meantime: the request puts it in
flight, and when its reading settles, in whatever order files do, what is left to do is done.  A
file that is waited for is a request that settles at once.
-/

namespace ChipEight.Session

inductive Event where
  | tick
  | togglePause
  | reset
  | press (key : Binary64)
  | release (key : Binary64)
  | keyDown (k : KeyStroke)
  | keyUp (k : KeyStroke)
  | loadImage (image : List UInt8) (title : Option String)
  | loadFile (file : PickedFile)
  | loadEntry (entry : CatalogEntry)
  | unmount
  deriving DecidableEq

/-- A session after an event; an entry that is refused changes nothing. -/
def handle (s : Session) : Event → Session
  | .tick => s.tick
  | .togglePause => s.togglePause
  | .reset => s.reset
  | .press key => s.press key
  | .release key => s.release key
  | .keyDown k => s.keyDown k
  | .keyUp k => s.keyUp k
  | .loadImage image title => s.loadImage image title
  | .loadFile file => s.finishRead file
  | .loadEntry entry =>
    match s.loadEntry entry with
    | .ok s' => s'
    | .error _ => s
  | .unmount => s.unmount

def handleAll (s : Session) (events : List Event) : Session := events.foldl handle s

/-! ## Files in flight -/

/-- A session and the files that are being read, in the order they were picked. -/
structure Reading where
  session : Session
  inFlight : List PickedFile

inductive Reading.Event where
  /-- Something that takes no time. -/
  | now (e : Session.Event)
  /-- A file is picked, and its reading begins. -/
  | request (file : PickedFile)
  /-- The reading of the file at this place settles. -/
  | settle (place : Nat)
  deriving DecidableEq

def Reading.handle (r : Reading) : Reading.Event → Reading
  | .now e => { r with session := r.session.handle e }
  | .request file => { r with inFlight := r.inFlight ++ [file] }
  | .settle place =>
    match r.inFlight[place]? with
    | none => r
    | some file => ⟨r.session.finishRead file, r.inFlight.eraseIdx place⟩

end ChipEight.Session
