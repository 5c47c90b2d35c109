import ChipEight.Number.Shortest
import ChipEight.Value.Basic

/-!
# Json/Write — values in JSON

The written form has no blanks.  A text is written between quotes, and what cannot stand there is
escaped; a number that is infinite or undefined is written as if it were missing.
-/

namespace ChipEight.Json

/-- A character between quotes.  Some control characters have a letter, the others a number. -/
def escape (c : Char) : List Char :=
  if c = '"' ∨ c = '\\' then ['\\', c]
  else if c.toNat = 0x08 then ['\\', 'b']
  else if c.toNat = 0x0C then ['\\', 'f']
  else if c = '\n' then ['\\', 'n']
  else if c = '\r' then ['\\', 'r']
  else if c = '\t' then ['\\', 't']
  else if c.toNat < 0x20 then
    ['\\', 'u', '0', '0', Nat.digitChar (c.toNat / 16), Nat.digitChar (c.toNat % 16)]
  else [c]

/-- A text between quotes. -/
def quoted (s : String) : String := "\"" ++ String.ofList (s.toList.flatMap escape) ++ "\""

mutual

/-- **The written form of a value.** -/
def write : Value → String
  | .null => "null"
  | .boolean b => if b then "true" else "false"
  | .number (.finite x) => (Binary64.finite x).text
  | .number _ => "null"
  | .text s => quoted s
  | .list items => "[" ++ String.intercalate "," (writeItems items) ++ "]"
  | .record fields => "\x7b" ++ String.intercalate "," (writeFields fields) ++ "\x7d"

def writeItems : List Value → List String
  | [] => []
  | v :: rest => write v :: writeItems rest

def writeFields : List (String × Value) → List String
  | [] => []
  | (name, v) :: rest => (quoted name ++ ":" ++ write v) :: writeFields rest

end

end ChipEight.Json
