import ChipEight.Emulator.Basic

/-!
# Page/Panel — the parts of the page as text

The register panel, the screen with its title and status line, and the keys of the keypad.
-/

namespace ChipEight.Page

/-! ## Registers -/

/-- A field of the register panel: the name of its place and its text. -/
abbrev PanelField := String × String

/-- The fields of the panel: the registers in order, and what else there is to know. -/
def panelFields (s : Snapshot) : List PanelField :=
  s.v.zipIdx.map (fun (value, k) => ("reg-v" ++ Hex.label k, Hex.literal value 2))
    ++ [("reg-pc", Hex.literal s.pc 3), ("reg-i", Hex.literal s.index 3),
      ("reg-dt", Shortest.ofInt s.delayTimer), ("reg-sp", toString s.stack.length),
      ("reg-state", if s.phase = .waitingForKey then "WAITING FOR KEY" else "RUNNING"),
      ("reg-next", s.upcoming.getD "--")]

/-- What the panel says while there are no registers to show. -/
def emptyPanel : String := "No program loaded"

/-! ## Keypad -/

/-- What a pointer does on a key of the keypad. -/
inductive Pointer where
  | down
  | up
  | leave
  deriving DecidableEq

inductive KeyAction where
  | press
  | release
  deriving DecidableEq

/-- What that asks for.  A pointer that leaves a key releases it only if it is shown pressed. -/
def pointerAction (pressed : List Key) (p : Pointer) (k : Key) : Option KeyAction :=
  match p with
  | .down => some .press
  | .up => some .release
  | .leave => if k ∈ pressed then some .release else none

/-- The keys in the order of their layout. -/
def keypad : List Key := Key.layout.flatten

/-- The key with an inscription. -/
def keyOfLabel? (label : String) : Option Key := keypad.find? (·.label = label)

end ChipEight.Page
