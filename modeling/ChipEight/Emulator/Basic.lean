import ChipEight.Emulator.Event
import ChipEight.Program.Image
import ChipEight.Settings.Config

/-!
# Emulator/Basic — a machine with a program, driven in frames

The emulator loads programs into the machine and runs it a frame at a time.  A frame is up to
`instructionsPerFrame` steps, fewer if the machine starts to wait for a key, and then one tick of
the delay timer, so the timer follows frames and not instructions.

A step that faults stops the emulator: it answers every further step and frame with the same `Halt`
until it is reset or a program is loaded.  Keys still move on the keypad; the release of a key ends
a key-wait.
-/

namespace ChipEight

/-- An endless row of numbers for random instructions, and how many of it are used up. -/
structure RandomSource where
  values : Nat → Int
  used : Nat

namespace RandomSource

def head (r : RandomSource) : Int := r.values r.used

def tail (r : RandomSource) : RandomSource := { r with used := r.used + 1 }

/-- A row of numbers over and over; zeros if it is empty. -/
def cycle (row : List Int) : RandomSource :=
  let values := row.toArray
  ⟨fun n => values[n % values.size]?.getD 0, 0⟩

end RandomSource

structure Emulator where
  config : Config
  machine : Machine
  /-- The program a reset goes back to; empty while none has been loaded. -/
  image : List UInt8
  title : Option String
  halt : Option Halt
  /-- Has the missing sound been reported since the last reset? -/
  soundReported : Bool
  random : RandomSource
  log : EventLog

/-- A copy of what an observer may want to see of a machine. -/
structure Snapshot where
  pc : Int
  index : Int
  v : List Int
  delayTimer : Int
  stack : List Int
  phase : Phase
  upcoming : Option String
  halt : Option String
  title : Option String
  deriving DecidableEq

namespace Emulator

/-- A machine that is switched on and has no program. -/
def create (config : Config) (random : RandomSource) (threshold : Level) : Emulator where
  config
  machine := .initial config.drawMode config.stackDepth
  image := []
  title := none
  halt := none
  soundReported := false
  random
  log := .empty threshold

/-- Writes an event to the log. -/
def record (e : Emulator) (event : Event) : Emulator := { e with log := e.log.record event }

/-- The machine as a cold start with this program finds it. -/
def coldStart (m : Machine) (image : List UInt8) : Machine :=
  let memory := if image.isEmpty then .initial else Memory.initial.place image
  { m.restart with memory, screen := .blank, keypad := .released, timer := .zero }

/-- **Reset**: a cold start with the program that is loaded. -/
def reset (e : Emulator) : Emulator :=
  { e with machine := coldStart e.machine e.image, halt := none, soundReported := false }.record
    (.reset e.title)

/-- **Loading**: an image is taken over and the machine is reset to run it.  There has to be a byte
of it, and memory has to have room for it; both are known before anything changes. -/
def load (e : Emulator) (image : List UInt8) (title : Option String) :
    Except LoadError Emulator := do
  if image.isEmpty then throw .empty
  let _ ← e.machine.memory.load image
  return ({ e with image, title }.reset).record (.loaded image.length title)

/-! ## Steps and frames -/

/-- The log lines of a fetched instruction, and the report of the first sound it asks for. -/
def observe (e : Emulator) (before : Machine) (f : Fetched) : Emulator :=
  let e := (Event.ofFetched f before.stack.depth).foldl record e
  match before.soundValue f with
  | none => e
  | some value =>
    if e.soundReported then e else { e with soundReported := true }.record (.soundRequested value)

/-- The random numbers left after an instruction: one is used up by a random instruction. -/
def randomAfter (r : RandomSource) (f : Fetched) : RandomSource :=
  match f.instruction with
  | .random _ _ => r.tail
  | _ => r

/-- The halt an answer leaves behind. -/
def haltOf : Except Halt Bool → Option Halt
  | .ok _ => none
  | .error h => some h

/-- **One step** of the machine. -/
def step (e : Emulator) : Emulator × Except Halt Bool :=
  match e.halt with
  | some h => (e, .error h)
  | none =>
    let s := e.machine.step e.random.head
    let after :=
      match s.fetched with
      | none => e
      | some f => { e.observe e.machine f with random := randomAfter e.random f }
    ({ after with machine := s.machine, halt := haltOf s.answer }, s.answer)

/-- Up to `n` steps, until one waits or faults: how many were executed. -/
def steps (e : Emulator) : Nat → Emulator × Except Halt Nat
  | 0 => (e, .ok 0)
  | n + 1 =>
    match e.step with
    | (e', .ok true) => let (last, count) := e'.steps n; (last, count.map (· + 1))
    | (e', .ok false) => (e', .ok 0)
    | (e', .error h) => (e', .error h)

/-- Counts the delay timer down. -/
def tick (e : Emulator) : Emulator :=
  { e with machine := { e.machine with timer := e.machine.timer.tick } }

/-- A frame: the emulator after it, the screen it has shown, and how many instructions it
executed. -/
structure Frame where
  emulator : Emulator
  shown : Option Screen
  answer : Except Halt Nat

/-- **One frame.**  One that faults does not count for the timer and is not shown. -/
def frame (e : Emulator) : Frame :=
  match e.halt with
  | some h => ⟨e, none, .error h⟩
  | none =>
    match e.steps e.config.instructionsPerFrame with
    | (e', .ok count) => ⟨e'.tick, some e'.machine.screen, .ok count⟩
    | (e', .error h) => ⟨e', none, .error h⟩

/-! ## Keys -/

def keyDown (e : Emulator) (key : Binary64) : Emulator :=
  { e with machine := { e.machine with keypad := e.machine.keypad.press key } }

/-- Releases a key; a machine that waits for one goes on with it. -/
def keyUp (e : Emulator) (key : Binary64) : Emulator :=
  let released := { e.machine with keypad := e.machine.keypad.release key }
  match Key.ofNumber? key with
  | none => { e with machine := released }
  | some k =>
    match released.resume k.val with
    | (machine, true) => { e with machine }.record (.resumed k machine.registers.wake)
    | (machine, false) => { e with machine }

/-! ## Observation -/

def isWaiting (e : Emulator) : Bool := e.machine.phase = .waitingForKey

def snapshot (e : Emulator) : Snapshot where
  pc := e.machine.pc
  index := e.machine.registers.index
  v := e.machine.registers.v.toList.map fun b => (b.toNat : Int)
  delayTimer := e.machine.timer.value
  stack := e.machine.stack.toList
  phase := e.machine.phase
  upcoming := e.machine.upcoming
  halt := e.halt.map Halt.message
  title := e.title

end Emulator

end ChipEight
