import ChipEight.Number.Binary64

/-!
# Number/Shortest — the fewest decimal digits that read back

A number is shown by a decimal with as few digits as possible among those that are read as the same
double; of two such decimals the nearer one counts.  A decimal with at most twenty-one places before
its point, and at most six zeros between its point and its first digit, is written out; any other
one has a power of ten behind it.
-/

namespace ChipEight.Shortest

/-- How many places a quotient has before its point; zeros behind the point count as places that are
missing.  No double but zero lies below the power `10 ^ -400`. -/
def places (num den : Nat) : Int :=
  if den ≤ num then (Nat.toDigits 10 (num / den)).length
  else (Nat.toDigits 10 (num * Nat.pow 10 400 / den)).length - 400

/-- The two multiples of `10 ^ e` around a quotient, as factors of that power, nearer one first. -/
def neighbours (num den : Nat) (e : Int) : List Nat :=
  let (num, den) :=
    if 0 ≤ e then (num, den * Nat.pow 10 e.toNat) else (num * Nat.pow 10 (-e).toNat, den)
  let near := Binary64.roundHalfEven num den
  [near, 2 * (num / den) + 1 - near]

/-- The factor `m` of a decimal `m · 10 ^ e` that reads back as a number, if there is one. -/
def factor? (x : Dyadic) (e : Int) : Option Nat :=
  let q := x.toRat
  (neighbours q.num.natAbs q.den e).find? fun m =>
    Binary64.ofDecimal (q.num < 0) m e = .finite x

/-- **The shortest decimal** `m · 10 ^ e` of a number.  Seventeen digits are enough for a double;
any other number is given exactly. -/
def decimal (x : Dyadic) : Nat × Int :=
  let q := x.toRat
  let places := places q.num.natAbs q.den
  ((List.range 17).findSome? fun (k : Nat) =>
      let e := places - (k + 1)
      (factor? x e).map (·, e)).getD
    (q.num.natAbs * Nat.pow 5 q.den.log2, -q.den.log2)

/-- Digits without the zeros at their end. -/
def trimZeros (digits : List Char) : List Char := (digits.reverse.dropWhile (· = '0')).reverse

/-- Digits with a point behind so many of them. -/
def layOut (digits : List Char) (point : Int) : List Char :=
  if digits.length ≤ point ∧ point ≤ 21 then
    digits ++ List.replicate (point.toNat - digits.length) '0'
  else if 0 < point ∧ point ≤ 21 then
    digits.take point.toNat ++ '.' :: digits.drop point.toNat
  else if -6 < point ∧ point ≤ 0 then
    '0' :: '.' :: List.replicate (-point).toNat '0' ++ digits
  else
    digits.take 1 ++ (if digits.length = 1 then [] else '.' :: digits.drop 1)
      ++ 'e' :: (if 0 < point then '+' else '-') :: Nat.toDigits 10 (point - 1).natAbs

/-- The text of a dyadic number.  A whole number of up to fifty-three bits needs all its digits. -/
def ofDyadic (x : Dyadic) : String :=
  match (whole? x).filter (·.natAbs ≤ 0x20000000000000) with
  | some n => toString n
  | none =>
    let (m, e) := decimal x
    let digits := Nat.toDigits 10 m
    String.ofList ((if x < 0 then ['-'] else [])
      ++ layOut (trimZeros digits) (digits.length + e))

/-- The text of a whole number. -/
def ofInt (n : Int) : String := ofDyadic (n : Dyadic)

theorem ofInt_of_natAbs_le {n : Int} (h : n.natAbs ≤ 0x20000000000000) :
    ofInt n = toString n := by
  simp [ofInt, ofDyadic, Option.filter, h]

end ChipEight.Shortest

namespace ChipEight

/-- **The text of a number.** -/
def Binary64.text : Binary64 → String
  | .finite x => Shortest.ofDyadic x
  | .infinite false => "Infinity"
  | .infinite true => "-Infinity"
  | .undefined => "NaN"

end ChipEight
