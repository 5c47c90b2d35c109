/-!
# Archive/Bits — reading a row of bits from its front

A reader takes bits off the front and gives a value and the bits that are left, or says why it
could not.  Every reader here leaves no more bits than it found, which is what lets the loops over
compressed data end.
-/

namespace ChipEight.Bits

/-- Why a row of bits could not be read to the end of what it holds. -/
inductive Stop where
  /-- The bits ran out. -/
  | exhausted
  /-- The bits read so far mean nothing; these come next. -/
  | invalid (left : List Bool)
  /-- The bits ask for data that is not there. -/
  | unavailable
  deriving DecidableEq

/-- A reading that went through went through at its first part too. -/
theorem eq_ok_of_bind {α β : Type} {x : Except Stop α} {f : α → Except Stop β} {b : β}
    (h : x >>= f = .ok b) : ∃ a, x = .ok a ∧ f a = .ok b := by
  cases x with
  | error s => cases h
  | ok a => exact ⟨a, rfl, h⟩

/-- The eight bits of a byte, least significant first. -/
def ofByte (b : UInt8) : List Bool := (List.range 8).map fun k => b.toNat.testBit k

def ofBytes (bs : List UInt8) : List Bool := bs.flatMap ofByte

/-- A number of so many bits, least significant first. -/
def number : Nat → List Bool → Except Stop (Nat × List Bool)
  | 0, bits => .ok (0, bits)
  | _ + 1, [] => .error .exhausted
  | n + 1, b :: bits => do
    let (v, rest) ← number n bits
    return (b.toNat + 2 * v, rest)

theorem length_of_number {n v : Nat} {bits rest : List Bool} (h : number n bits = .ok (v, rest)) :
    rest.length + n = bits.length := by
  induction n generalizing v bits with
  | zero => cases h; rfl
  | succ n ih =>
    cases bits with
    | nil => simp [number] at h
    | cons b bits =>
      obtain ⟨_, hn, h⟩ := eq_ok_of_bind h
      cases h
      simp only [List.length_cons, ← ih hn]
      omega

/-- So many numbers of so many bits each. -/
def numbers (width : Nat) : Nat → List Bool → Except Stop (List Nat × List Bool)
  | 0, bits => .ok ([], bits)
  | n + 1, bits => do
    let (v, rest) ← number width bits
    let (vs, rest) ← numbers width n rest
    return (v :: vs, rest)

theorem length_of_numbers {width n : Nat} {vs : List Nat} {bits rest : List Bool}
    (h : numbers width n bits = .ok (vs, rest)) : rest.length ≤ bits.length := by
  induction n generalizing bits vs with
  | zero => cases h; exact Nat.le_refl _
  | succ n ih =>
    obtain ⟨_, h1, h⟩ := eq_ok_of_bind h
    obtain ⟨_, h2, h⟩ := eq_ok_of_bind h
    cases h
    have := length_of_number h1
    have := ih h2
    omega

end ChipEight.Bits
