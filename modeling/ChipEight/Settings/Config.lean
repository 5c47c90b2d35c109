import ChipEight.Log.Level
import ChipEight.Machine.Screen

/-!
# Settings/Config — the four settings and how they are checked

| setting                | values              | default |
|------------------------|---------------------|---------|
| `instructionsPerFrame` | whole, 1 to 1000    | 8       |
| `drawMode`             | `set`, `xor`        | `set`   |
| `stackDepth`           | whole, 12 to 16     | 16      |
| `logLevel`             | one of the levels   | `info`  |

A record is checked setting by setting in this order; a missing one takes its default, an unknown
one is ignored, and every problem of every setting is reported.
-/

namespace ChipEight

structure Config where
  instructionsPerFrame : Nat
  drawMode : DrawMode
  stackDepth : Nat
  logLevel : Level
  deriving DecidableEq

/-- Settings that were refused: what was being done, and each problem. -/
structure ConfigError where
  summary : String
  issues : List String
  deriving DecidableEq

namespace ConfigError

def message (e : ConfigError) : String :=
  if e.issues.isEmpty then e.summary
  else e.summary ++ ": " ++ String.intercalate "; " e.issues

/-- The refusal of a configuration for these problems. -/
def invalid (issues : List String) : ConfigError := ⟨"Invalid CHIP-8 configuration", issues⟩

end ConfigError

/-- What can be wrong with a value. -/
inductive Problem where
  | kind (expected received : String)
  | fraction
  | below (least : Nat)
  | above (greatest : Nat)
  | noChoice (choices : List String) (received : String)
  | noInteger (raw : String)
  deriving DecidableEq

namespace Problem

/-- Choices as messages list them: quoted, between bars. -/
def quoteAll (choices : List String) : String :=
  String.intercalate " | " (choices.map fun c => "'" ++ c ++ "'")

def message : Problem → String
  | .kind expected received => "Expected " ++ expected ++ ", received " ++ received
  | .fraction => "Expected integer, received float"
  | .below least => "Number must be greater than or equal to " ++ toString least
  | .above greatest => "Number must be less than or equal to " ++ toString greatest
  | .noChoice choices received =>
    "Invalid enum value. Expected " ++ quoteAll choices ++ ", received '" ++ received ++ "'"
  | .noInteger raw => "expected an integer, got \"" ++ raw ++ "\""

/-- A problem of a named setting. -/
def issue (name : String) (p : Problem) : String := name ++ ": " ++ p.message

end Problem

/-- A setting: its name, its default, and what a value of it means or what is wrong with it. -/
structure Setting (α : Type) where
  name : String
  standard : α
  check : Value → Except (List Problem) α

namespace Setting

variable {α : Type}

/-- Is a number below a bound? -/
def isBelow (x : Binary64) (bound : Nat) : Bool :=
  match x with
  | .finite x => x < (bound : Int)
  | .infinite negative => negative
  | .undefined => false

/-- Is a number above a bound? -/
def isAbove (x : Binary64) (bound : Nat) : Bool :=
  match x with
  | .finite x => (bound : Int) < x
  | .infinite negative => !negative
  | .undefined => false

/-- A whole number within bounds, both included.  A fraction outside them has two problems; what is
not a number at all has only that one. -/
def whole (name : String) (standard least greatest : Nat) : Setting Nat where
  name
  standard
  check
    | v@(.number .undefined) => .error [.kind "number" v.kind]
    | .number x =>
      let problems := (if x.whole?.isNone then [.fraction] else [])
        ++ (if isBelow x least then [.below least] else [])
        ++ (if isAbove x greatest then [.above greatest] else [])
      match x.whole?, problems with
      | some n, [] => .ok n.toNat
      | _, _ => .error problems
    | v => .error [.kind "number" v.kind]

/-- One of a list of named values. -/
def choice (name : String) (standard : α) (choices : List (String × α)) : Setting α where
  name
  standard
  check
    | .text s =>
      match choices.lookup s with
      | some a => .ok a
      | none => .error [.noChoice (choices.map (·.1)) s]
    | v => .error [.kind (Problem.quoteAll (choices.map (·.1))) v.kind]

/-- The value a record gives a setting: its default if it is missing, or the issues it has. -/
def resolve (s : Setting α) (fields : List (String × Value)) : Except (List String) α :=
  match fields.lookup s.name with
  | none => .ok s.standard
  | some v =>
    match s.check v with
    | .ok a => .ok a
    | .error problems => .error (problems.map (Problem.issue s.name))

end Setting

/-- The issues of a setting that was refused. -/
def issuesOf {α : Type} : Except (List String) α → List String
  | .ok _ => []
  | .error issues => issues

namespace DrawMode

def name : DrawMode → String
  | .set => "set"
  | .xor => "xor"

def all : List DrawMode := [.set, .xor]

end DrawMode

namespace Config

def instructionsPerFrameSetting : Setting Nat := .whole "instructionsPerFrame" 8 1 1000

def drawModeSetting : Setting DrawMode :=
  .choice "drawMode" .set (DrawMode.all.map fun m => (m.name, m))

def stackDepthSetting : Setting Nat := .whole "stackDepth" 16 12 16

def logLevelSetting : Setting Level :=
  .choice "logLevel" .info (Level.all.map fun l => (l.name, l))

/-- The settings of a record. -/
def ofFields (fields : List (String × Value)) : Except ConfigError Config :=
  let perFrame := instructionsPerFrameSetting.resolve fields
  let mode := drawModeSetting.resolve fields
  let depth := stackDepthSetting.resolve fields
  let level := logLevelSetting.resolve fields
  match perFrame, mode, depth, level with
  | .ok instructionsPerFrame, .ok drawMode, .ok stackDepth, .ok logLevel =>
    .ok { instructionsPerFrame, drawMode, stackDepth, logLevel }
  | _, _, _, _ =>
    .error (.invalid (issuesOf perFrame ++ issuesOf mode ++ issuesOf depth ++ issuesOf level))

/-- **Resolving a configuration**: any value may be handed in, and only a record is one. -/
def resolve : Value → Except ConfigError Config
  | .record fields => ofFields fields
  | v => .error (.invalid [Problem.issue "config" (.kind "object" v.kind)])

/-- A configuration as the record it resolves from. -/
def toFields (c : Config) : List (String × Value) :=
  [("instructionsPerFrame", .number (.finite (c.instructionsPerFrame : Int))),
   ("drawMode", .text c.drawMode.name),
   ("stackDepth", .number (.finite (c.stackDepth : Int))),
   ("logLevel", .text c.logLevel.name)]

end Config

end ChipEight
