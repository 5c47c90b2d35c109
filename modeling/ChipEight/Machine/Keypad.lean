import ChipEight.Number.Literal
import ChipEight.Number.Whole
import ChipEight.Text.Hex

/-!
# Machine/Keypad — sixteen keys

    1 2 3 C
    4 5 6 D
    7 8 9 E
    A 0 B F

A host may name a key by any number; a number that is no key is never pressed, and pressing or
releasing it does nothing.
-/

namespace ChipEight

abbrev Key := Fin 16

namespace Key

/-- The key an integer is, if it is one. -/
def ofInt? (n : Int) : Option Key :=
  if h : 0 ≤ n ∧ n < 16 then some ⟨n.toNat, by omega⟩ else none

/-- The key a number is, if it is one. -/
def ofNumber? (x : Binary64) : Option Key := x.whole?.bind ofInt?

/-- The number of a key. -/
def number (k : Key) : Binary64 := .finite (k.val : Int)

@[simp] theorem ofNumber?_intCast (n : Int) : ofNumber? (.finite n) = ofInt? n := by
  simp [ofNumber?, Binary64.whole?]

/-- The key a typed text stands for: a single hexadecimal digit in either case. -/
def ofText? (text : String) : Option Key :=
  match text.toList with
  | [c] => (Literal.digit? 16 c).bind fun d => ofInt? d
  | _ => none

/-- The keys as they are laid out, row by row. -/
def layout : List (List Key) :=
  [[0x1, 0x2, 0x3, 0xC],
   [0x4, 0x5, 0x6, 0xD],
   [0x7, 0x8, 0x9, 0xE],
   [0xA, 0x0, 0xB, 0xF]]

/-- The inscription of a key. -/
def label (k : Key) : String := Hex.label (k.val : Int)

end Key

/-- Which keys are held down. -/
structure Keypad where
  down : Vector Bool 16
  deriving DecidableEq

namespace Keypad

def released : Keypad := ⟨Vector.replicate 16 false⟩

def holds (p : Keypad) (k : Key) : Bool := p.down[k]

def put (p : Keypad) (k : Key) (held : Bool) : Keypad := ⟨p.down.set k held⟩

theorem holds_put (p : Keypad) (k j : Key) (held : Bool) :
    (p.put k held).holds j = if j = k then held else p.holds j := by
  simp only [holds, put, Fin.getElem_fin, Vector.getElem_set, ← Fin.ext_iff]
  simp only [eq_comm]

/-- Is this number a key that is held down? -/
def isPressed (p : Keypad) (x : Binary64) : Bool := (Key.ofNumber? x).any p.holds

def press (p : Keypad) (x : Binary64) : Keypad :=
  match Key.ofNumber? x with
  | some k => p.put k true
  | none => p

def release (p : Keypad) (x : Binary64) : Keypad :=
  match Key.ofNumber? x with
  | some k => p.put k false
  | none => p

/-- The keys held down, in ascending order. -/
def pressed (p : Keypad) : List Key := (List.finRange 16).filter p.holds

end Keypad

end ChipEight
