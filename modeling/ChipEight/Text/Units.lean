/-!
# Text/Units — characters as rows of sixteen bits

Positions in a text are counted in units of sixteen bits.  A character beyond the first plane takes
two of them, a high one and a low one.
-/

namespace ChipEight.Units

def width (c : Char) : Nat := if c.toNat < 0x10000 then 1 else 2

/-- How many units a text takes. -/
def count (cs : List Char) : Nat := cs.foldl (fun n c => n + width c) 0

/-- As many of the first characters as have room in so many units. -/
def take (room : Nat) : List Char → List Char
  | [] => []
  | c :: cs => if width c ≤ room then c :: take (room - width c) cs else []

/-- As many of the last characters as have room in so many units. -/
def takeEnd (room : Nat) (cs : List Char) : List Char := (take room cs.reverse).reverse

/-- The character that a single unit stands for.  One half of a pair stands for none. -/
def single (n : Nat) : Char := if n.isValidChar then Char.ofNat n else '\uFFFD'

/-- The characters of a row of units and of characters given by number. -/
def toChars : List Nat → List Char
  | [] => []
  | [n] => [single n]
  | high :: low :: rest =>
    if 0xD800 ≤ high ∧ high < 0xDC00 ∧ 0xDC00 ≤ low ∧ low < 0xE000 then
      single (0x10000 + (high - 0xD800) * 0x400 + (low - 0xDC00)) :: toChars rest
    else single high :: toChars (low :: rest)

end ChipEight.Units
