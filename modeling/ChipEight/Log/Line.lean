import ChipEight.Json.Write
import ChipEight.Log.Form
import ChipEight.Log.Level
import ChipEight.Log.Template

/-!
# Log/Line — what a line of a log says

A line is a record in JSON.  It has a level, where it comes from, what the log is bound to, the
fields and the message of what was written.  Where a name comes twice, what comes later counts.

How a field is shown is looked up under its name.  Names that every record answers to are found
there as well, though they say nothing about fields: most of them cannot be written, and some have
a text of their own.
-/

namespace ChipEight

/-- Why something cannot be written to a log. -/
inductive LineError where
  /-- A record has no plain text. -/
  | noText
  /-- There is no record to answer to a name. -/
  | noRecord
  /-- There is no record to take the text of. -/
  | noRecordText
  /-- There is no function to define a field by. -/
  | noDefinition (name : String)
  /-- Something else stands where a function is called. -/
  | noFunction (expression : String)
  deriving DecidableEq

def LineError.message : LineError → String
  | .noText => "Cannot convert object to primitive value"
  | .noRecord => "Cannot convert undefined or null to object"
  | .noRecordText => "Object.prototype.toLocaleString called on null or undefined"
  | .noDefinition name => "Object.prototype." ++ name ++ ": Expecting function"
  | .noFunction expression => expression ++ " is not a function"

namespace Line

/-- The name of the program that writes. -/
def program : String := "chip8"

/-- The field in which errors are shown. -/
def errorName : String := "err"

/-- The field of the message. -/
def messageName : String := "msg"

/-! ## Fields -/

/-- Where a field comes from. -/
inductive Origin where
  /-- The log is bound to it. -/
  | binding
  | call
  deriving DecidableEq

/-- The plain text of a value that must have one. -/
def plain (v : Value) : Except LineError String :=
  match v.plain? with
  | some s => .ok s
  | none => .error .noText

/-- **How a field is shown.**  A field may be left out. -/
def shown (origin : Origin) (name : String) (v : Value) : Except LineError (Option String) :=
  match name with
  | "err" =>
    match Form.ofValue v with
    | some form => .ok (some (Json.write form))
    | none => .error .noText
  | "constructor" =>
    match v with
    | .null => (plain (.record [])).map some
    | v => (plain v).map some
  | "isPrototypeOf" => .ok (some "false")
  | "toString" => .ok (some "[object Undefined]")
  | "toLocaleString" => .error .noRecordText
  | "valueOf" => .error .noRecord
  | "hasOwnProperty" | "propertyIsEnumerable" => (plain v).bind fun _ => .error .noRecord
  | "__lookupGetter__" | "__lookupSetter__" =>
    (plain v).bind fun _ => if origin = .binding then .error .noRecord else .ok none
  | "__defineGetter__" | "__defineSetter__" => .error (.noDefinition name)
  | "__proto__" => .error (.noFunction "serializers[key]")
  | _ => .ok (some (Json.write v))

/-- A field in a line.  The name of a binding is taken as it is, the one of another field is
quoted. -/
def field (origin : Origin) (name shown : String) : String :=
  "," ++ (if origin = .binding then "\"" ++ name ++ "\"" else Json.quoted name) ++ ":" ++ shown

def fields (origin : Origin) : List (String × Value) → Except LineError String
  | [] => .ok ""
  | (name, v) :: rest => do
    let first ← shown origin name v
    let rest ← fields origin rest
    return (first.map (field origin name)).getD "" ++ rest

/-! ## What a log is bound to -/

/-- Names that a log cannot be bound to. -/
def unbound : List String := ["level", "serializers", "formatters", "customLevels"]

/-- The name by which bindings are asked for their fields. -/
def ownName : String := "hasOwnProperty"

/-- What every line says of that which a log is bound to. -/
def bound (bindings : List (String × Value)) : Except LineError String :=
  if (bindings.lookup ownName).isSome then .error (.noFunction ("bindings." ++ ownName))
  else fields .binding (bindings.filter fun (name, _) => !unbound.contains name)

/-! ## What is written -/

/-- The fields of what is written.  A web request becomes one field, and the items of a list are
named by their numbers. -/
def written : Value → List (String × Value)
  | .record fs => if Form.isRequest (.record fs) then [("req", Form.ofRequest (.record fs))] else fs
  | .list items => (Value.list items).parts
  | _ => []

/-- The message: a value that has no fields is its own message, and a text is the template for what
is given with it; else the message is the given one.  Where there is none, neither as a field, it is
that of the error. -/
def message? (v : Value) (given : Option Value) : Except LineError (Option Value) :=
  match v with
  | .record fs =>
    .ok <| given.or <|
      if Form.isRequest v ∨ (fs.lookup messageName).isSome then none
      else (v.given? errorName).bind (·.get? "message")
  | .list _ | .null => .ok given
  | .text template =>
    match Template.fill template [given] with
    | some message => .ok (some (.text message))
    | none => .error .noText
  | v => .ok (some v)

/-- When, by which process and on which host a line is written. -/
structure Stamp where
  time : Nat
  process : Nat
  host : String

/-- How a line starts. -/
def head (stamp : Stamp) (level : Level) : String :=
  s!"\x7b\"level\":{level.severity},\"time\":{stamp.time},\"pid\":{stamp.process},\"hostname\":"
    ++ Json.quoted stamp.host ++ field .call "name" (Json.quoted program)

/-- **A line**, with what the log is bound to as it was given by `bound`. -/
def text (stamp : Stamp) (level : Level) (bound : String) (v : Value) (message : Option Value) :
    Except LineError String := do
  let fields ← fields .call (written v)
  let message ← message? v message
  let message := message.map fun m => field .call messageName (Json.write m)
  return head stamp level ++ bound ++ fields ++ message.getD "" ++ "\x7d\n"

end Line

end ChipEight
