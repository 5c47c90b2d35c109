import ChipEight.Text.Units

/-!
# Json/Misreading — why a text is not JSON

A text goes wrong at a place, which is known by what is left of the text there.  The message names
the place by its position, or shows the characters around it.
-/

namespace ChipEight.Json

inductive Mistake where
  /-- Nothing can start with what comes here. -/
  | unexpected
  | noNameOrEnd
  | noName
  | noColon
  | openRecord
  | openList
  | trailing
  | openText
  | controlCharacter
  | escape
  | unicodeEscape
  | noNumber
  | noFraction
  | noExponent
  deriving DecidableEq

/-- What a mistake is called; what is merely unexpected has no name of its own. -/
def Mistake.name? : Mistake → Option String
  | .unexpected => none
  | .noNameOrEnd => some "Expected property name or '\x7d' in JSON"
  | .noName => some "Expected double-quoted property name in JSON"
  | .noColon => some "Expected ':' after property name in JSON"
  | .openRecord => some "Expected ',' or '\x7d' after property value in JSON"
  | .openList => some "Expected ',' or ']' after array element in JSON"
  | .trailing => some "Unexpected non-whitespace character after JSON"
  | .openText => some "Unterminated string in JSON"
  | .controlCharacter => some "Bad control character in string literal in JSON"
  | .escape => some "Bad escaped character in JSON"
  | .unicodeEscape => some "Bad Unicode escape in JSON"
  | .noNumber => some "No number after minus sign in JSON"
  | .noFraction => some "Unterminated fractional number in JSON"
  | .noExponent => some "Exponent part is missing a number in JSON"

/-- A mistake, and the text that is left where it was made. -/
structure Misreading where
  mistake : Mistake
  rest : List Char
  deriving DecidableEq

namespace Misreading

/-- How many units are shown on either side of a place. -/
def reach : Nat := 10

/-- A text up to a place and from there on, with the place's surroundings if it is a long one. -/
def surroundings (before rest : List Char) : String :=
  let count := Units.count before
  let left := Units.count rest
  let quote (cs : List Char) := "\"" ++ String.ofList cs ++ "\""
  if count + left ≤ 2 * reach then quote (before ++ rest)
  else
    (if reach ≤ count then "..." else "")
      ++ quote (Units.takeEnd reach before ++ Units.take reach rest)
      ++ (if reach < left ∨ count < reach then "..." else "")

/-- A place in numbers. -/
def position (before : List Char) : String :=
  let breaks := before.filter (· = '\n')
  let column := Units.count (before.reverse.takeWhile (· ≠ '\n')) + 1
  s!" at position {Units.count before} (line {breaks.length + 1} column {column})"

/-- **The message** for a text that was misread. -/
def message (text : List Char) (e : Misreading) : String :=
  let before := text.take (text.length - e.rest.length)
  match e.mistake.name?, e.rest with
  | some name, _ => name ++ position before
  | none, [] => "Unexpected end of JSON input"
  | none, c :: _ =>
    if c = '"' then "Unexpected string in JSON" ++ position before
    else if c = '-' ∨ c.isDigit then "Unexpected number in JSON" ++ position before
    else s!"Unexpected token '{c}', {surroundings before e.rest} is not valid JSON"

end Misreading

end ChipEight.Json
