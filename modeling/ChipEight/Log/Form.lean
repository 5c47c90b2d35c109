import ChipEight.Value.Plain

/-!
# Log/Form — errors and web requests as a log shows them

Two kinds of records have a standard form in a log.  An error is a record with a text as its
`message`; it shows its own message and stack together with those of the errors that caused it.  A
web request is a record with a method, headers and a socket.
-/

namespace ChipEight.Form

/-! ## Errors -/

/-- The message of an error; other records have none. -/
def message? (fields : List (String × Value)) : Option String :=
  match fields.lookup "message" with
  | some (.text m) => some m
  | _ => none

mutual

/-- An error and the errors that caused it, outermost first, each with its fields. -/
def chain : Value → List (List (String × Value))
  | .record fields => if (message? fields).isSome then fields :: causes fields else []
  | _ => []

/-- The errors behind the first field `cause`. -/
def causes : List (String × Value) → List (List (String × Value))
  | [] => []
  | (name, v) :: rest => if name = "cause" then chain v else causes rest

end

/-- The message of an error, with those of its causes. -/
def fullMessage (v : Value) : String :=
  String.intercalate ": " ((chain v).filterMap message?)

/-- The stack of one error, empty where it has none. -/
def stack (fields : List (String × Value)) : Value :=
  ((Value.record fields).given? "stack").getD (.text "")

/-- The stack of an error, with those of its causes.  A single one need not be text; of several,
each has to have a plain text. -/
def fullStack (v : Value) : Option Value :=
  match (chain v).map stack with
  | [s] => some s
  | all => (Value.plainItems all).map fun ss => .text (String.intercalate "\ncaused by: " ss)

/-- The type of an error. -/
def type? (fields : List (String × Value)) : Option Value :=
  if (fields.lookup "constructor").isSome then fields.lookup "name" else some (.text "Object")

/-- The fields that the standard form of an error does not take over. -/
def replaced (fields gathered : List (String × Value)) : List String :=
  ["message", "stack", "raw"] ++ Value.reservedNames
    ++ (if (type? fields).isSome then ["type"] else [])
    ++ gathered.map (·.1)
    ++ (if (causes fields).isEmpty then [] else ["cause"])

mutual

/-- An error in its standard form, if its stack has one; any other value as it is. -/
def ofValue : Value → Option Value
  | .record fields =>
    if (message? fields).isSome then do
      let stack ← fullStack (.record fields)
      let gathered ← ofErrors fields
      let kept ← ofFields (replaced fields gathered) fields
      return .record (((type? fields).map ("type", ·)).toList
        ++ [("message", .text (fullMessage (.record fields))), ("stack", stack)]
        ++ gathered ++ kept)
    else some (.record fields)
  | v => some v

/-- The fields but for some names. -/
def ofFields (skipped : List String) : List (String × Value) → Option (List (String × Value))
  | [] => some []
  | (name, v) :: rest =>
    if skipped.contains name then ofFields skipped rest
    else do
      let v ← ofValue v
      let rest ← ofFields skipped rest
      return (name, v) :: rest

def ofItems : List Value → Option (List Value)
  | [] => some []
  | v :: rest => do
    let v ← ofValue v
    let rest ← ofItems rest
    return v :: rest

/-- The list behind the first field `errors`, as a field of the standard form. -/
def ofErrors : List (String × Value) → Option (List (String × Value))
  | [] => some []
  | (name, v) :: rest =>
    if name = "errors" then
      match v with
      | .list items => (ofItems items).map fun items => [("aggregateErrors", .list items)]
      | _ => some []
    else ofErrors rest

end

/-! ## Web requests -/

/-- Is a record a web request? -/
def isRequest (v : Value) : Bool := ["method", "headers", "socket"].all fun name =>
  (v.given? name).isSome

/-- The address a request asks for. -/
def url? (v : Value) : Option Value :=
  (v.given? "originalUrl").or
    (match v.get? "path" with
    | some (.text path) => some (.text path)
    | _ => (v.given? "url").map fun url => (url.given? "path").getD url)

/-- A web request in its standard form. -/
def ofRequest (v : Value) : Value :=
  let info := v.given? "info"
  let connection := info.or (v.given? "socket")
  .record ([("id", (v.given? "id").or (info.bind (·.get? "id"))), ("method", v.get? "method"),
    ("url", url? v), ("query", v.given? "query"), ("params", v.given? "params"),
    ("headers", v.get? "headers"),
    ("remoteAddress", connection.bind (·.get? "remoteAddress")),
    ("remotePort", connection.bind (·.get? "remotePort"))].filterMap fun (name, part) =>
      part.map (name, ·))

end ChipEight.Form
