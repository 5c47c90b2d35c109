import ChipEight.Number.Literal
import ChipEight.Settings.Config

/-!
# Settings/Environment — settings from environment variables

Each setting has a variable.  One that is unset or empty says nothing; a number is read as a literal
and must be whole.  The first number that is not is the only problem reported, and it is reported
under the variable's name: nothing else has been looked at by then.
-/

namespace ChipEight.Environment

def perFrameVariable : String := "NEXT_PUBLIC_CHIP8_INSTRUCTIONS_PER_FRAME"

def drawModeVariable : String := "NEXT_PUBLIC_CHIP8_DRAW_MODE"

def stackDepthVariable : String := "NEXT_PUBLIC_CHIP8_STACK_DEPTH"

def logLevelVariable : String := "NEXT_PUBLIC_CHIP8_LOG_LEVEL"

/-- The text of a variable that is set and not empty. -/
def text? (env : List (String × String)) (name : String) : Option String :=
  (env.lookup name).filter (· ≠ "")

/-- The field a numeric variable gives a setting. -/
def numberField (env : List (String × String)) (name setting : String) :
    Except ConfigError (List (String × Value)) :=
  match text? env name with
  | none => .ok []
  | some raw =>
    let x := Literal.read raw
    match x.whole? with
    | some _ => .ok [(setting, .number x)]
    | none => .error (.invalid [Problem.issue name (.noInteger raw)])

/-- The field a variable gives a setting as it stands. -/
def textField (env : List (String × String)) (name setting : String) :
    List (String × Value) :=
  match text? env name with
  | none => []
  | some raw => [(setting, .text raw)]

/-- The fields that the variables give. -/
def fields (env : List (String × String)) : Except ConfigError (List (String × Value)) := do
  let perFrame ← numberField env perFrameVariable "instructionsPerFrame"
  let mode := textField env drawModeVariable "drawMode"
  let depth ← numberField env stackDepthVariable "stackDepth"
  let level := textField env logLevelVariable "logLevel"
  return perFrame ++ mode ++ depth ++ level

/-- **The configuration of an environment.** -/
def config (env : List (String × String)) : Except ConfigError Config := do
  Config.resolve (.record (← fields env))

/-- The configuration of an environment with overrides laid over it. -/
def configWith (env : List (String × String)) (overrides : Value) :
    Except ConfigError Config := do
  let base ← config env
  Config.resolve (.record (Value.override overrides.fields base.toFields))

end ChipEight.Environment
