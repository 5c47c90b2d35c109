import ChipEight.Json.Write
import ChipEight.Value.Plain

/-!
# Log/Template — messages with places for arguments

A percent sign and a letter mark a place where an argument is put.  Every place uses up one
argument, also where the letter is none that marks a place, or the argument does not suit it; such a
place stays as it is, and so does one for which no argument is left.  Two percent signs are one.
-/

namespace ChipEight.Template

/-- A number as an argument.  Where there is nothing, or null, there is no number. -/
def number? (f : Binary64 → Binary64) : Option Value → Option (Option String)
  | none | some .null => some none
  | some v => v.number?.map fun x => some (f x).text

/-- What is put in the place of a letter.  The outer option fails where an argument has no plain
text, the inner one where the place stays as it is. -/
def place? (letter : Char) (argument : Option Value) : Option (Option String) :=
  match letter, argument with
  | 'd', v | 'f', v => number? id v
  | 'i', v => number? Binary64.floor v
  | 'j', some (.text s) | 'o', some (.text s) | 'O', some (.text s) => some (some ("'" ++ s ++ "'"))
  | 'j', some v | 'o', some v | 'O', some v => some (some (Json.write v))
  | 's', none => some (some "undefined")
  | 's', some v => v.plain?.map some
  | _, _ => some none

/-- Puts arguments in their places.  An argument may be missing among others. -/
def put : List Char → List (Option Value) → Option (List Char)
  | [], _ => some []
  | '%' :: '%' :: cs, arguments => (put cs arguments).map ('%' :: ·)
  | '%' :: letter :: cs, argument :: arguments => do
    match ← place? letter argument with
    | some s => return s.toList ++ (← put cs arguments)
    | none => return '%' :: letter :: (← put cs arguments)
  | c :: cs, arguments => (put cs arguments).map (c :: ·)

/-- **The message of a template.**  Without arguments it is the template itself. -/
def fill (template : String) : List (Option Value) → Option String
  | [] => some template
  | arguments => (put template.toList arguments).map String.ofList

end ChipEight.Template
