/-!
# Archive/Collation — the alphabetical order of member names

Names are compared twice.  The first time letters ignore case, and every character has a rank:
blanks, then punctuation, symbols, digits and letters, in an order that is not that of the character
codes.  The second time, for names that are equal so far, a small letter comes before a capital.  A
name that starts another comes before it.

The order is defined on ASCII: a character without a rank, such as a control character, is passed
over.
-/

namespace ChipEight.Collation

/-- The characters that have a rank, from the lowest up; capitals rank as small letters. -/
def ranked : List Char :=
  ("\t\n\x0b\x0c\r _-,;:!?.'\"()[]\x7b\x7d@*/\\&#%`^+<=>|~$"
    ++ "0123456789abcdefghijklmnopqrstuvwxyz").toList

/-- The place of a character among the ranked ones. -/
def rank? (c : Char) : Option Nat := ranked.idxOf? c.toLower

/-- What the first comparison looks at. -/
def ranks (name : String) : List Nat := name.toList.filterMap rank?

/-- What the second comparison looks at: one for a capital, zero for anything else. -/
def capitals (name : String) : List Nat :=
  (name.toList.filter fun c => (rank? c).isSome).map fun c => c.isUpper.toNat

/-- Does a row of numbers come no later than another?  The first difference decides, and a row that
starts another comes before it. -/
def rowBefore : List Nat → List Nat → Bool
  | [], _ => true
  | _ :: _, [] => false
  | a :: as, b :: bs => if a = b then rowBefore as bs else a < b

/-- **The order**: does the first name come no later than the second? -/
def before (a b : String) : Bool :=
  if ranks a = ranks b then rowBefore (capitals a) (capitals b) else rowBefore (ranks a) (ranks b)

end ChipEight.Collation
