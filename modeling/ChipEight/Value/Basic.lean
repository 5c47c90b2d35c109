import ChipEight.Number.Binary64

/-!
# Value/Basic — untyped data

Settings arrive untyped, and so does what a host wants to see in a log.  A value is of one of six
kinds.  A record keeps its fields by name; of two fields of one name the first counts.
-/

namespace ChipEight

inductive Value where
  | null
  | boolean (b : Bool)
  | number (x : Binary64)
  | text (s : String)
  | list (items : List Value)
  | record (fields : List (String × Value))
  deriving Inhabited

namespace Value

/-- The kind of a value, as messages name it. -/
def kind : Value → String
  | .null => "null"
  | .boolean _ => "boolean"
  | .number .undefined => "nan"
  | .number _ => "number"
  | .text _ => "string"
  | .list _ => "array"
  | .record _ => "object"

/-- The fields of a record; other values have none. -/
def fields : Value → List (String × Value)
  | .record fs => fs
  | _ => []

/-- The named parts of a value: its fields, or what it has by number. -/
def parts : Value → List (String × Value)
  | .record fs => fs
  | .list items => items.zipIdx.map fun (v, k) => (toString k, v)
  | .text s => s.toList.zipIdx.map fun (c, k) => (toString k, .text (String.singleton c))
  | _ => []

/-- A record's fields over another's: what the first gives wins. -/
def override (top base : List (String × Value)) : List (String × Value) := top ++ base

/-- The field of a name, if the value is a record that has it. -/
def get? (v : Value) (name : String) : Option Value := v.fields.lookup name

/-- Does a value stand for something?  Nothing, falsehood, zero and empty text do not. -/
def isGiven : Value → Bool
  | .null => false
  | .boolean b => b
  | .number x => x ≠ .finite 0 ∧ x ≠ .undefined
  | .text s => s ≠ ""
  | .list _ | .record _ => true

/-- The field of a name, if it stands for something. -/
def given? (v : Value) (name : String) : Option Value := (v.get? name).filter isGiven

/-- Names that every record answers to, whatever its fields are. -/
def reservedNames : List String :=
  ["__defineGetter__", "__defineSetter__", "__lookupGetter__", "__lookupSetter__", "__proto__",
   "constructor", "hasOwnProperty", "isPrototypeOf", "propertyIsEnumerable", "toLocaleString",
   "toString", "valueOf"]

end Value

end ChipEight
