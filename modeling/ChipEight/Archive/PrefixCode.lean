import ChipEight.Archive.Bits

/-!
# Archive/PrefixCode — canonical prefix codes

A code is given by the length of each symbol's codeword, zero for a symbol that has none; the words
are then handed out in the order of their lengths and, within a length, of their symbols.  Reading
walks a tree from the root, one bit a branch, so it always takes at least one bit.
-/

namespace ChipEight

inductive CodeTree where
  | empty
  | leaf (symbol : Nat)
  | branch (zero one : CodeTree)

namespace CodeTree

/-- Puts a symbol at the end of a path. -/
def insert (t : CodeTree) (symbol : Nat) : List Bool → CodeTree
  | [] => .leaf symbol
  | b :: path =>
    let (zero, one) :=
      match t with
      | .branch zero one => (zero, one)
      | _ => (.empty, .empty)
    if b then .branch zero (one.insert symbol path) else .branch (zero.insert symbol path) one

/-- The symbol the bits lead to. -/
def walk : CodeTree → List Bool → Except Bits.Stop (Nat × List Bool)
  | .empty, bits => .error (.invalid bits)
  | .leaf s, bits => .ok (s, bits)
  | .branch _ _, [] => .error .exhausted
  | .branch zero one, b :: bits => if b then one.walk bits else zero.walk bits

theorem length_of_walk {t : CodeTree} {bits rest : List Bool} {s : Nat}
    (h : t.walk bits = .ok (s, rest)) : rest.length ≤ bits.length := by
  induction t generalizing bits with
  | empty => simp [walk] at h
  | leaf => cases h; exact Nat.le_refl _
  | branch zero one ihz iho =>
    cases bits with
    | nil => simp [walk] at h
    | cons b bits =>
      simp only [walk] at h
      split at h
      · exact Nat.le_succ_of_le (iho h)
      · exact Nat.le_succ_of_le (ihz h)

end CodeTree

/-- The two branches of a code's root. -/
structure PrefixCode where
  zero : CodeTree
  one : CodeTree

namespace PrefixCode

/-- The longest codeword. -/
def maxLength : Nat := 15

/-- How many words of the greatest length there are. -/
def wordCount : Nat := 1 <<< maxLength

/-- The share of all words of the greatest length that a code's words and their extensions take. -/
def used (lengths : List Nat) : Nat :=
  lengths.foldr (fun l n => (if l = 0 then 0 else 1 <<< (maxLength - l)) + n) 0

/-- Is a list of lengths a code?  It may not ask for more words than there are, and it has to use
them all, except that a code may be left with no word or with a single one of one bit. -/
def IsCode (lengths : List Nat) : Prop :=
  used lengths = wordCount ∨ used lengths < wordCount ∧ ∀ l ∈ lengths, l ≤ 1

instance (lengths : List Nat) : Decidable (IsCode lengths) :=
  inferInstanceAs (Decidable (_ ∨ _ ∧ _))

/-- A word of so many bits, most significant first. -/
def word (length value : Nat) : List Bool :=
  (List.range length).map fun k => value.testBit (length - 1 - k)

/-- The symbols and their words. -/
def words (lengths : List Nat) : List (Nat × List Bool) :=
  let ofLength (l : Nat) := lengths.zipIdx.filter fun (length, _) => length = l
  let (_, found) := (List.range maxLength).foldl (fun (next, found) k =>
    (ofLength (k + 1)).foldl (fun (next, found) (length, symbol) =>
      (next + 1, (symbol, word length next) :: found)) (2 * next, found)) (0, [])
  found.reverse

/-- The code of a list of lengths. -/
def ofLengths (lengths : List Nat) : PrefixCode :=
  match (words lengths).foldl (fun t (symbol, path) => t.insert symbol path) CodeTree.empty with
  | .branch zero one => ⟨zero, one⟩
  | _ => ⟨.empty, .empty⟩

/-- Reads one symbol. -/
def read (c : PrefixCode) (bits : List Bool) : Except Bits.Stop (Nat × List Bool) :=
  (CodeTree.branch c.zero c.one).walk bits

theorem length_of_read {c : PrefixCode} {bits rest : List Bool} {s : Nat}
    (h : c.read bits = .ok (s, rest)) : rest.length < bits.length := by
  cases bits with
  | nil => simp [read, CodeTree.walk] at h
  | cons b bits =>
    simp only [read, CodeTree.walk] at h
    split at h <;> exact Nat.lt_succ_of_le (CodeTree.length_of_walk h)

end PrefixCode

end ChipEight
