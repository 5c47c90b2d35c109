import ChipEight.Log.Basic
import ChipEight.Log.Line

/-!
# Log/Journal — a log of lines

A journal may be bound to fields, which every line of it shows.  A line that cannot be written is
refused only where its level is reached.
-/

namespace ChipEight

/-- Why a journal cannot be had or written to. -/
inductive JournalError where
  | threshold (e : ThresholdError)
  | line (e : LineError)
  deriving DecidableEq

def JournalError.message : JournalError → String
  | .threshold e => e.message
  | .line e => e.message

/-- The threshold that a value means: a text, the severity of a level, or the name of one in plain
text. -/
def Threshold.ofValue : Value → Except JournalError Threshold
  | .text s => (ofText s).mapError .threshold
  | .number x => (ofSeverity x).mapError .threshold
  | v => do
    let name ← (Line.plain v).mapError .line
    (ofName name).mapError .threshold

/-- A threshold, what every line shows, and the lines. -/
structure Journal where
  threshold : Threshold
  bound : String
  lines : Log String

namespace Journal

def empty (threshold : Threshold) : Journal := ⟨threshold, "", .empty threshold.floor⟩

/-- An empty journal that is bound to more fields and takes over the threshold. -/
def child (j : Journal) (bindings : List (String × Value)) : Except JournalError Journal := do
  let bound ← (Line.bound bindings).mapError .line
  let level ← j.threshold.inherited.mapError .threshold
  return { empty (.level level) with bound := j.bound ++ bound }

/-- **Writing.** -/
def write (j : Journal) (stamp : Line.Stamp) (level : Level) (v : Value)
    (message : Option Value) : Except JournalError Journal :=
  if j.lines.threshold.admits level then
    ((Line.text stamp level j.bound v message).mapError .line).map fun line =>
      { j with lines := j.lines.write level line }
  else .ok j

end Journal

end ChipEight
