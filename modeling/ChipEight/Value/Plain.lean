import ChipEight.Number.Literal
import ChipEight.Number.Shortest
import ChipEight.Value.Basic

/-!
# Value/Plain — a value as plain text

Where text is asked for and another value is given, its plain text is taken: the items of a list
with commas between them, and for every record the same words.  Where a number is asked for, it is
read from that text.  A record with a field of its own under the name by which records are asked for
their text has none, nor has a list that holds one.
-/

namespace ChipEight.Value

/-- The name by which a record is asked for its text. -/
def textName : String := "toString"

mutual

/-- **The plain text of a value**, if it has one. -/
def plain? : Value → Option String
  | .null => some "null"
  | .boolean b => some (if b then "true" else "false")
  | .number x => some x.text
  | .text s => some s
  | .list items => (plainItems items).map (String.intercalate ",")
  | .record fields => if (fields.lookup textName).isSome then none else some "[object Object]"

/-- The plain texts of items; a missing one has the empty text. -/
def plainItems : List Value → Option (List String)
  | [] => some []
  | .null :: rest => (plainItems rest).map ("" :: ·)
  | v :: rest => do
    let s ← plain? v
    let ss ← plainItems rest
    return s :: ss

end

/-- The number that a value stands for, if it has a plain text. -/
def number? : Value → Option Binary64
  | .null => some (.finite 0)
  | .boolean b => some (.finite (if b then 1 else 0))
  | .number x => some x
  | v => (plain? v).map Literal.read

end ChipEight.Value
