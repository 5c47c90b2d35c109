import ChipEight.Number.Binary64

/-!
# Number/Literal — reading a number from a setting's text

The text, without the blanks around it, is one of

* nothing at all, which is zero;
* `0x`, `0o` or `0b` (either case) and digits of that base, without a sign;
* an optional sign and `Infinity`;
* an optional sign and a decimal: digits with an optional point in front, among or behind them, and
  an optional exponent.

Anything else is no number.  The value is the nearest double, so `16.00000000000000000001` is 16.
-/

namespace ChipEight.Literal

/-- Blanks: the spaces and line ends, the no-break space and the byte order mark among them, but
not the zero-width space. -/
def isBlank (c : Char) : Bool :=
  let n := c.toNat
  (0x09 ≤ n && n ≤ 0x0D) || n = 0x20 || n = 0xA0 || n = 0x1680 || (0x2000 ≤ n && n ≤ 0x200A)
    || n = 0x2028 || n = 0x2029 || n = 0x202F || n = 0x205F || n = 0x3000 || n = 0xFEFF

/-- A text without the blanks at its ends. -/
def trim (cs : List Char) : List Char :=
  ((cs.dropWhile isBlank).reverse.dropWhile isBlank).reverse

/-- The value of a digit, in either case, if it is one in this base. -/
def digit? (base : Nat) (c : Char) : Option Nat :=
  let n := c.toNat
  let d :=
    if 48 ≤ n ∧ n ≤ 57 then n - 48
    else if 97 ≤ n ∧ n ≤ 122 then n - 87
    else if 65 ≤ n ∧ n ≤ 90 then n - 55
    else base
  if d < base then some d else none

/-- The value of a row of digits, most significant first. -/
def valueOf (base : Nat) (ds : List Nat) : Nat := ds.foldl (fun v d => v * base + d) 0

/-- The digits a text starts with, and the rest behind them. -/
def spanDigits (base : Nat) : List Char → List Nat × List Char
  | [] => ([], [])
  | c :: cs =>
    match digit? base c with
    | some d => let (ds, rest) := spanDigits base cs; (d :: ds, rest)
    | none => ([], c :: cs)

/-- A whole number in another base: digits, at least one, and nothing behind them. -/
def readBased (base : Nat) (cs : List Char) : Binary64 :=
  match spanDigits base cs with
  | (ds@(_ :: _), []) => .ofQuotient false (valueOf base ds) 1
  | _ => .undefined

/-- A sign in front of a text: is it a minus, and the text behind it. -/
def spanSign : List Char → Bool × List Char
  | '-' :: cs => (true, cs)
  | '+' :: cs => (false, cs)
  | cs => (false, cs)

/-- The exponent part behind the digits of a decimal: empty, or a marker and a signed number. -/
def exponent? : List Char → Option Int
  | [] => some 0
  | c :: cs =>
    if c = 'e' ∨ c = 'E' then
      let (negative, digits) := spanSign cs
      match spanDigits 10 digits with
      | (ds@(_ :: _), []) => some (if negative then -(valueOf 10 ds : Int) else valueOf 10 ds)
      | _ => none
    else none

/-- A decimal without its sign. -/
def readDecimal (negative : Bool) (cs : List Char) : Binary64 :=
  let (whole, rest) := spanDigits 10 cs
  let (part, rest) :=
    match rest with
    | '.' :: more => spanDigits 10 more
    | _ => ([], rest)
  match whole ++ part, exponent? rest with
  | [], _ | _, none => .undefined
  | ds, some e => .ofDecimal negative (valueOf 10 ds) (e - part.length)

/-- **Reading a number**: the double that a text denotes, or `undefined`. -/
def read (text : String) : Binary64 :=
  match trim text.toList with
  | [] => .finite 0
  | '0' :: c :: cs =>
    if c = 'x' ∨ c = 'X' then readBased 16 cs
    else if c = 'o' ∨ c = 'O' then readBased 8 cs
    else if c = 'b' ∨ c = 'B' then readBased 2 cs
    else readDecimal false ('0' :: c :: cs)
  | cs =>
    let (negative, rest) := spanSign cs
    if rest = "Infinity".toList then .infinite negative else readDecimal negative rest

end ChipEight.Literal
