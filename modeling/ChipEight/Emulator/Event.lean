import ChipEight.Log.Basic
import ChipEight.Log.Line
import ChipEight.Machine.Step

/-!
# Emulator/Event — what the emulator writes to its log

Every event has a level, a message and named fields.  Addresses and words are written as literals,
counts and register numbers as numbers.
-/

namespace ChipEight

inductive Event where
  | loaded (size : Nat) (title : Option String)
  | reset (title : Option String)
  | fetched (f : Fetched)
  | called (pc target : Int) (depth : Nat)
  | returned (pc : Int) (depth : Nat)
  | waiting (register : Int)
  | resumed (key : Key) (register : Int)
  | soundRequested (value : Nat)
  deriving DecidableEq

namespace Event

def level : Event → Level
  | .loaded _ _ | .reset _ => .info
  | .fetched _ => .trace
  | .called _ _ _ | .returned _ _ | .waiting _ | .resumed _ _ => .debug
  | .soundRequested _ => .warn

def message : Event → String
  | .loaded _ _ => "ROM loaded"
  | .reset _ => "reset"
  | .fetched f => f.instruction.listing
  | .called _ _ _ => "call"
  | .returned _ _ => "return"
  | .waiting _ => "waiting for key"
  | .resumed _ _ => "key-wait resumed"
  | .soundRequested _ => "sound timer (FX18) is not implemented"

/-- A title as a field: null where there is none. -/
def titleField : Option String → Value
  | some title => .text title
  | none => .null

/-- A count or a register number as a field. -/
def numberField (n : Int) : Value := .number (.finite n)

def addressField (a : Int) : Value := .text (Hex.literal a 3)

def fields : Event → List (String × Value)
  | .loaded size title => [("size", numberField size), ("rom", titleField title)]
  | .reset title => [("rom", titleField title)]
  | .fetched f => [("pc", addressField f.pc), ("opcode", .text (Hex.literal (f.word : Int) 4))]
  | .called pc target depth =>
    [("pc", addressField pc), ("target", addressField target), ("depth", numberField depth)]
  | .returned pc depth => [("pc", addressField pc), ("depth", numberField depth)]
  | .waiting register => [("register", numberField register)]
  | .resumed key register => [("key", numberField key.val), ("register", numberField register)]
  | .soundRequested value => [("value", numberField value)]

/-- What the emulator's log is bound to. -/
def bindings : List (String × Value) := [("component", .text "chip8")]

/-- The line of an event that was written at some level. -/
def line (stamp : Line.Stamp) (level : Level) (e : Event) : Except LineError String := do
  let bound ← Line.bound bindings
  Line.text stamp level bound (.record e.fields) (some (.text e.message))

/-- Every event can be written. -/
theorem exists_line (stamp : Line.Stamp) (level : Level) (e : Event) :
    ∃ text, e.line stamp level = .ok text := by
  cases e <;> exact ⟨_, rfl⟩

/-- The events of a fetched instruction before it runs: the instruction itself, and what it does to
the control flow if it calls, returns or waits.  The depth is the one it finds. -/
def ofFetched (f : Fetched) (depth : Nat) : List Event :=
  .fetched f ::
    match f.instruction with
    | .call target => [.called f.pc target depth]
    | .ret => [.returned f.pc depth]
    | .waitForKey x => [.waiting x]
    | _ => []

end Event

/-- The log of an emulator. -/
abbrev EventLog := Log Event

/-- Writes an event at its own level. -/
def EventLog.record (l : EventLog) (e : Event) : EventLog := l.write e.level e

end ChipEight
