/-!
# Text/Hex — hexadecimal literals of whole numbers and binary fractions

A literal is `0x` and the upper-case digits of the value, filled with zeros on the left up to a
least length.  The value may be any dyadic number: a sign, and a point with the digits of the
fraction behind it, count towards the length like digits.  Every dyadic number has a finite
hexadecimal expansion, so nothing is rounded: one half is `0x00.8` in four places.
-/

namespace ChipEight.Hex

/-- The upper-case digit of a value below sixteen. -/
def digit (d : Nat) : Char :=
  Char.ofNat (if d < 10 then 48 + d else 55 + d)

/-- The digits of a natural number, most significant first; zero has the one digit `0`. -/
def digits (n : Nat) : List Char :=
  if n < 16 then [digit n] else digits (n / 16) ++ [digit (n % 16)]

/-- Zeros in front of a text, up to a least length. -/
def pad (width : Nat) (text : List Char) : List Char :=
  List.replicate (width - text.length) '0' ++ text

/-- The digits of a whole number, with a minus sign where it is negative. -/
def ofInt (n : Int) : List Char :=
  if n < 0 then '-' :: digits n.natAbs else digits n.natAbs

/-- The digits of the fraction `n / 2 ^ k` below one, four bits a digit. -/
def fraction (n k : Nat) : List Char :=
  let places := (k + 3) / 4
  pad places (digits (n <<< (4 * places - k)))

/-- The digits of a dyadic number.  In lowest terms a fraction is `n / 2 ^ k` with `n` odd, so the
last of its digits is never zero. -/
def ofDyadic (x : Dyadic) : List Char :=
  let q := x.toRat
  if q.den = 1 then ofInt q.num
  else
    (if q.num < 0 then ['-'] else []) ++ digits (q.num.natAbs / q.den)
      ++ '.' :: fraction (q.num.natAbs % q.den) q.den.log2

@[simp] theorem ofDyadic_intCast (n : Int) : ofDyadic (n : Dyadic) = ofInt n := by
  simp [ofDyadic, Dyadic.toRat_intCast]

/-- **The literal of a number**, at least `width` characters long behind its `0x`. -/
def literal (x : Dyadic) (width : Nat) : String :=
  String.ofList ('0' :: 'x' :: pad width (ofDyadic x))

/-- The label of a numbered thing: its hexadecimal digits, without marker or filling. -/
def label (n : Int) : String := String.ofList (ofInt n)

end ChipEight.Hex
