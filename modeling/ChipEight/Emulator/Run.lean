import ChipEight.Emulator.Basic

/-!
# Emulator/Run — sequences of calls

What a host can ask of an emulator, as data, and what it is answered.  A run performs calls one
after the other; a call that fails is answered with its failure and the run goes on.
-/

namespace ChipEight.Emulator

inductive Call where
  | load (image : List UInt8) (title : Option String)
  | reset
  | step
  | frame
  | keyDown (key : Binary64)
  | keyUp (key : Binary64)
  | observe
  deriving DecidableEq

inductive Reply where
  | done
  | refused (e : LoadError)
  | stepped (answer : Except Halt Bool)
  | framed (shown : Option Screen) (answer : Except Halt Nat)
  | observed (s : Snapshot)

/-- One call, and what it is answered. -/
def perform (e : Emulator) : Call → Emulator × Reply
  | .load image title =>
    match e.load image title with
    | .ok e' => (e', .done)
    | .error err => (e, .refused err)
  | .reset => (e.reset, .done)
  | .step => let (e', answer) := e.step; (e', .stepped answer)
  | .frame => (e.frame.emulator, .framed e.frame.shown e.frame.answer)
  | .keyDown key => (e.keyDown key, .done)
  | .keyUp key => (e.keyUp key, .done)
  | .observe => (e, .observed e.snapshot)

/-- **A run**: the emulator after all calls, and the replies in order. -/
def run (e : Emulator) : List Call → Emulator × List Reply
  | [] => (e, [])
  | c :: cs =>
    let (e', reply) := e.perform c
    let (last, replies) := e'.run cs
    (last, reply :: replies)

end ChipEight.Emulator
