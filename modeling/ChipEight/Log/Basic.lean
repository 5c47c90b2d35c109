import ChipEight.Log.Level

/-!
# Log/Basic — a record with a threshold

A log keeps what is written to it at or above its threshold, in order.
-/

namespace ChipEight

/-- A threshold and the entries it let through, newest first. -/
structure Log (α : Type) where
  threshold : Level
  recent : List (Level × α)

namespace Log

variable {α : Type}

def empty (threshold : Level) : Log α := ⟨threshold, []⟩

/-- The entries, oldest first. -/
def entries (l : Log α) : List (Level × α) := l.recent.reverse

def write (l : Log α) (level : Level) (entry : α) : Log α :=
  if l.threshold.admits level then { l with recent := (level, entry) :: l.recent } else l

/-- The same log without its entries. -/
def clear (l : Log α) : Log α := empty l.threshold

end Log

end ChipEight
