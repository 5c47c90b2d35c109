import ChipEight.Json.Scan

/-!
# Json/Read — values from JSON

A text is read in steps.  Between two steps a reader stands at a place in the text: lists and
records around it are half read, and what may come next is known.  Every step uses up some of the
text, so reading ends.
-/

namespace ChipEight.Json

/-- A list or record that is half read, newest part first. -/
inductive Frame where
  | list (items : List Value)
  /-- The fields so far, and the name of the one that is being read. -/
  | record (fields : List (String × Value)) (name : String)

/-- What may come next. -/
inductive Place where
  | value
  /-- The first item of a list, or its end. -/
  | items
  /-- The first field of a record, or its end. -/
  | fields
  /-- A further field. -/
  | field (before : List (String × Value))
  /-- Something behind a value. -/
  | behind (v : Value)

/-- A reader in the middle of a text, innermost frame first. -/
structure Reader where
  place : Place
  frames : List Frame
  rest : List Char

namespace Reader

/-- The text from the next character on that is no blank. -/
def skip (cs : List Char) : List Char := cs.dropWhile isBlank

theorem length_skip (cs : List Char) : (skip cs).length ≤ cs.length :=
  (List.dropWhile_sublist _).length_le

/-- The reader behind a value. -/
def behind (v : Value) (frames : List Frame) (rest : List Char) : Reader :=
  ⟨.behind v, frames, rest⟩

/-- Reads a value, or the mark that opens a list or record. -/
def readValue (frames : List Frame) : List Char → Except Misreading Reader
  | '[' :: cs => .ok ⟨.items, frames, cs⟩
  | '{' :: cs => .ok ⟨.fields, frames, cs⟩
  | '"' :: cs => (scanText cs).map fun (s, rest) => behind (.text s) frames rest
  | 't' :: cs => (scanWord ['r', 'u', 'e'] cs).map (behind (.boolean true) frames)
  | 'f' :: cs => (scanWord ['a', 'l', 's', 'e'] cs).map (behind (.boolean false) frames)
  | 'n' :: cs => (scanWord ['u', 'l', 'l'] cs).map (behind .null frames)
  | c :: cs =>
    if c = '-' ∨ c.isDigit then
      (scanNumber (c :: cs)).map fun (x, rest) => behind (.number x) frames rest
    else .error ⟨.unexpected, c :: cs⟩
  | [] => .error ⟨.unexpected, []⟩

/-- Reads the name of a field and the colon behind it. -/
def readName (mistake : Mistake) (before : List (String × Value)) (frames : List Frame) :
    List Char → Except Misreading Reader
  | '"' :: cs => (scanText cs).bind fun (name, rest) =>
    match skip rest with
    | ':' :: rest => .ok ⟨.value, .record before name :: frames, rest⟩
    | rest => .error ⟨.noColon, rest⟩
  | cs => .error ⟨mistake, cs⟩

/-- Puts a value where it belongs, and reads the mark behind it. -/
def readMark (v : Value) : List Frame → List Char → Except Misreading Reader
  | .list items :: frames, ',' :: cs => .ok ⟨.value, .list (v :: items) :: frames, cs⟩
  | .list items :: frames, ']' :: cs => .ok (behind (.list (v :: items).reverse) frames cs)
  | .list _ :: _, cs => .error ⟨.openList, cs⟩
  | .record fields name :: frames, ',' :: cs => .ok ⟨.field ((name, v) :: fields), frames, cs⟩
  | .record fields name :: frames, '}' :: cs =>
    .ok (behind (.record ((name, v) :: fields)) frames cs)
  | .record _ _ :: _, cs => .error ⟨.openRecord, cs⟩
  | [], cs => .error ⟨.trailing, cs⟩

/-- **One step of a reader.**  Of two fields of one name in a record the later one counts. -/
def step (r : Reader) : Except Misreading Reader :=
  match r.place, skip r.rest with
  | .value, cs => readValue r.frames cs
  | .items, ']' :: cs => .ok (behind (.list []) r.frames cs)
  | .items, cs => readValue (.list [] :: r.frames) cs
  | .fields, '}' :: cs => .ok (behind (.record []) r.frames cs)
  | .fields, cs => readName .noNameOrEnd [] r.frames cs
  | .field before, cs => readName .noName before r.frames cs
  | .behind v, cs => readMark v r.frames cs

theorem length_of_readValue {frames : List Frame} {cs : List Char} {r : Reader}
    (h : readValue frames cs = .ok r) : r.rest.length < cs.length := by
  unfold readValue at h
  split at h
  · cases h; exact Nat.lt_succ_self _
  · cases h; exact Nat.lt_succ_self _
  · obtain ⟨_, ht, h⟩ := eq_ok_of_map h
    cases h
    exact Nat.lt_succ_of_lt (length_of_scanText ht)
  iterate 3
    obtain ⟨_, hw, h⟩ := eq_ok_of_map h
    cases h
    have := length_of_scanWord hw
    simp only [behind, List.length_cons] at this ⊢
    omega
  · split at h
    · obtain ⟨_, hn, h⟩ := eq_ok_of_map h
      cases h
      exact length_of_scanNumber hn
    · cases h
  · cases h

theorem length_of_readName {mistake : Mistake} {before : List (String × Value)}
    {frames : List Frame} {cs : List Char} {r : Reader}
    (h : readName mistake before frames cs = .ok r) : r.rest.length < cs.length := by
  unfold readName at h
  split at h
  · next cs =>
    obtain ⟨⟨name, rest⟩, ht, h⟩ := eq_ok_of_bind h
    have := length_of_scanText ht
    have := length_skip rest
    dsimp only at h
    split at h
    · next hs =>
      cases h
      simp only [hs, List.length_cons] at this ⊢
      omega
    · cases h
  · cases h

theorem length_of_readMark {v : Value} {frames : List Frame} {cs : List Char} {r : Reader}
    (h : readMark v frames cs = .ok r) : r.rest.length < cs.length := by
  unfold readMark at h
  split at h <;> cases h <;> exact Nat.lt_succ_self _

theorem length_of_step {r s : Reader} (h : r.step = .ok s) : s.rest.length < r.rest.length := by
  refine Nat.lt_of_lt_of_le ?_ (length_skip r.rest)
  unfold step at h
  split at h
  · exact length_of_readValue h
  · next hs => cases h; rw [hs]; exact Nat.lt_succ_self _
  · exact length_of_readValue h
  · next hs => cases h; rw [hs]; exact Nat.lt_succ_self _
  · exact length_of_readName h
  · exact length_of_readName h
  · exact length_of_readMark h

/-- The value of a reader that has come to the end of its text. -/
def result? (r : Reader) : Option Value :=
  match r.place, r.frames, skip r.rest with
  | .behind v, [], [] => some v
  | _, _, _ => none

/-- Reads to the end. -/
def run (r : Reader) : Except Misreading Value :=
  match r.result? with
  | some v => .ok v
  | none =>
    match _h : r.step with
    | .error e => .error e
    | .ok s => s.run
termination_by r.rest.length
decreasing_by exact length_of_step _h

end Reader

/-- **The value of a text.** -/
def read (text : String) : Except Misreading Value := Reader.run ⟨.value, [], text.toList⟩

end ChipEight.Json
