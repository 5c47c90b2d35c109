import ChipEight.Fault
import ChipEight.Machine.Byte

/-!
# Machine/CallStack — pending return addresses

A stack with a capacity.  A push beyond the capacity and a pop of the empty stack are faults and
leave the stack as it is.
-/

namespace ChipEight

/-- The return addresses, newest first, and how many there may be. -/
structure CallStack where
  capacity : Int
  entries : List Int
  deriving DecidableEq

namespace CallStack

/-- The capacity of a stack whose host asks for none. -/
def defaultCapacity : Int := 16

def empty (capacity : Int) : CallStack := ⟨capacity, []⟩

def depth (s : CallStack) : Nat := s.entries.length

/-- The return addresses, oldest first. -/
def toList (s : CallStack) : List Int := s.entries.reverse

def clear (s : CallStack) : CallStack := empty s.capacity

def push (s : CallStack) (address : Int) : Except Fault CallStack :=
  if s.capacity ≤ s.depth then .error (.stackOverflow s.capacity)
  else .ok { s with entries := lowWord address :: s.entries }

def pop (s : CallStack) : Except Fault (Int × CallStack) :=
  match s.entries with
  | [] => .error .stackUnderflow
  | a :: rest => .ok (a, { s with entries := rest })

/-- A push adds its address behind the others. -/
theorem toList_of_push {s t : CallStack} {a : Int} (h : s.push a = .ok t) :
    t.toList = s.toList ++ [lowWord a] := by
  unfold push at h
  split at h
  · cases h
  · cases h; exact List.reverse_cons

/-- A pop gives back what was pushed last. -/
theorem pop_of_push {s t : CallStack} {a : Int} (h : s.push a = .ok t) :
    t.pop = .ok (lowWord a, s) := by
  unfold push at h
  split at h
  · cases h
  · cases h; rfl

end CallStack

end ChipEight
