import ChipEight.Number.Shortest
import ChipEight.Value.Basic

/-!
# Log/Level — levels and thresholds

What is written to a log has a level, and a log has a threshold: the least level that it keeps.  The
threshold `silent` keeps nothing.  Thresholds are given by name; case matters only for `silent` and
for what is no level.
-/

namespace ChipEight

inductive Level where
  | fatal
  | error
  | warn
  | info
  | debug
  | trace
  | silent
  deriving DecidableEq, Repr

namespace Level

/-- All levels, most severe first. -/
def all : List Level := [.fatal, .error, .warn, .info, .debug, .trace, .silent]

def name : Level → String
  | .fatal => "fatal"
  | .error => "error"
  | .warn => "warn"
  | .info => "info"
  | .debug => "debug"
  | .trace => "trace"
  | .silent => "silent"

/-- How severe a level is.  Silence lies above everything that can be written. -/
def severity : Level → Nat
  | .trace => 10
  | .debug => 20
  | .info => 30
  | .warn => 40
  | .error => 50
  | .fatal => 60
  | .silent => 70

def ofName? (text : String) : Option Level := all.find? (·.name = text)

/-- Does a threshold let a level through? -/
def admits (threshold level : Level) : Bool :=
  level ≠ .silent ∧ threshold.severity ≤ level.severity

end Level

/-- The least level that a log keeps. -/
inductive Threshold where
  | level (l : Level)
  /-- A reserved name: it passes for a threshold, but no level reaches it. -/
  | unreachable
  deriving DecidableEq

/-- Why a log cannot have a threshold. -/
inductive ThresholdError where
  | unknown (name : String)
  /-- The threshold of another log cannot be taken over. -/
  | unreachable
  deriving DecidableEq

def ThresholdError.message : ThresholdError → String
  | .unknown name => "default level:" ++ name ++ " must be included in custom levels"
  | .unreachable => "unknown level undefined"

namespace Threshold

/-- The name that is meant: small letters, if they make a level that can be written, or a reserved
name. -/
def meant (text : String) : String :=
  let small := text.map Char.toLower
  if (Level.ofName? small).any (· ≠ .silent) || Value.reservedNames.contains small then small
  else text

/-- The threshold with exactly this name. -/
def ofName (name : String) : Except ThresholdError Threshold :=
  match Level.ofName? name with
  | some l => .ok (.level l)
  | none => if Value.reservedNames.contains name then .ok .unreachable else .error (.unknown name)

/-- **The threshold that a text means.** -/
def ofText (text : String) : Except ThresholdError Threshold := ofName (meant text)

/-- The threshold at the level of some severity. -/
def ofSeverity (x : Binary64) : Except ThresholdError Threshold :=
  match Level.all.find? fun l => l ≠ .silent ∧ x = .finite (l.severity : Int) with
  | some l => .ok (.level l)
  | none => .error (.unknown x.text)

/-- The level that a log with this threshold keeps from. -/
def floor : Threshold → Level
  | .level l => l
  | .unreachable => .silent

/-- The level of a log that takes over the threshold of another one. -/
def inherited : Threshold → Except ThresholdError Level
  | .level l => .ok l
  | .unreachable => .error .unreachable

end Threshold

end ChipEight
