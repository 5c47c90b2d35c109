import ChipEight.Json.Misreading
import ChipEight.Number.Literal
import ChipEight.Value.Basic

/-!
# Json/Scan — the texts, numbers and words of JSON

Each of these is read from the front of a text and leaves the rest behind it.  What they leave is
never longer than what they found, and a number or word leaves less.
-/

namespace ChipEight.Json

open Literal (spanDigits valueOf digit?)

/-- A reading, and what it leaves of the text. -/
abbrev Scanned (α : Type) := Except Misreading (α × List Char)

def isBlank (c : Char) : Bool := c = ' ' || c = '\n' || c = '\r' || c = '\t'

theorem eq_ok_of_map {α β : Type} {x : Except Misreading α} {f : α → β} {b : β}
    (h : x.map f = .ok b) : ∃ a, x = .ok a ∧ f a = b := by
  cases x with
  | error e => cases h
  | ok a => exact ⟨a, rfl, Except.ok.inj h⟩

theorem eq_ok_of_bind {α β : Type} {x : Except Misreading α} {f : α → Except Misreading β}
    {b : β} (h : x >>= f = .ok b) : ∃ a, x = .ok a ∧ f a = .ok b := by
  cases x with
  | error e => cases h
  | ok a => exact ⟨a, rfl, h⟩

/-! ## Texts -/

/-- What a letter behind a backslash stands for. -/
def escaped? : Char → Option Nat
  | '"' => some 0x22
  | '\\' => some 0x5C
  | '/' => some 0x2F
  | 'b' => some 0x08
  | 'f' => some 0x0C
  | 'n' => some 0x0A
  | 'r' => some 0x0D
  | 't' => some 0x09
  | _ => none

/-- A number of so many hexadecimal digits. -/
def hexNumber : Nat → Nat → List Char → Scanned Nat
  | 0, v, cs => .ok (v, cs)
  | _ + 1, _, [] => .error ⟨.unicodeEscape, []⟩
  | n + 1, v, c :: cs =>
    match digit? 16 c with
    | some d => hexNumber n (v * 16 + d) cs
    | none => .error ⟨.unicodeEscape, c :: cs⟩

theorem length_of_hexNumber {n v w : Nat} {cs rest : List Char}
    (h : hexNumber n v cs = .ok (w, rest)) : rest.length ≤ cs.length := by
  fun_induction hexNumber n v cs with
  | case1 v cs => cases h; exact Nat.le_refl _
  | case2 => cases h
  | case3 n v c cs d hd ih => exact Nat.le_succ_of_le (ih h)
  | case4 => cases h

/-- The units of a text up to the quote that ends it. -/
def units : List Char → Scanned (List Nat)
  | [] | ['\\'] => .error ⟨.openText, []⟩
  | '"' :: rest => .ok ([], rest)
  | '\\' :: 'u' :: rest =>
    match _h : hexNumber 4 0 rest with
    | .error e => .error e
    | .ok (n, rest) => (units rest).map fun (ns, rest) => (n :: ns, rest)
  | '\\' :: c :: rest =>
    match escaped? c with
    | some n => (units rest).map fun (ns, rest) => (n :: ns, rest)
    | none => .error ⟨.escape, c :: rest⟩
  | c :: rest =>
    if c.toNat < 0x20 then .error ⟨.controlCharacter, c :: rest⟩
    else (units rest).map fun (ns, rest) => (c.toNat :: ns, rest)
termination_by cs => cs.length
decreasing_by
  · have := length_of_hexNumber _h
    simp only [List.length_cons]
    omega
  all_goals simp only [List.length_cons]; omega

theorem length_of_units {ns : List Nat} {cs rest : List Char} (h : units cs = .ok (ns, rest)) :
    rest.length < cs.length := by
  fun_induction units cs generalizing ns with
  | case1 => cases h
  | case2 => cases h
  | case3 rest => cases h; exact Nat.lt_succ_self _
  | case4 => cases h
  | case5 rest n more hn ih =>
    obtain ⟨_, hu, h⟩ := eq_ok_of_map h
    cases h
    have := length_of_hexNumber hn
    have := ih hu
    simp only [List.length_cons]
    omega
  | case6 c rest _ n _ ih =>
    obtain ⟨_, hu, h⟩ := eq_ok_of_map h
    cases h
    have := ih hu
    simp only [List.length_cons]
    omega
  | case7 => cases h
  | case8 => cases h
  | case9 c rest _ _ _ _ _ ih =>
    obtain ⟨_, hu, h⟩ := eq_ok_of_map h
    cases h
    have := ih hu
    simp only [List.length_cons]
    omega

/-- A text up to the quote that ends it. -/
def scanText (cs : List Char) : Scanned String :=
  (units cs).map fun (ns, rest) => (String.ofList (Units.toChars ns), rest)

theorem length_of_scanText {s : String} {cs rest : List Char} (h : scanText cs = .ok (s, rest)) :
    rest.length < cs.length := by
  obtain ⟨_, hu, h⟩ := eq_ok_of_map h
  cases h
  exact length_of_units hu

/-! ## Words -/

/-- The rest of a text behind a word.  It goes wrong at the first letter that differs. -/
def scanWord : List Char → List Char → Except Misreading (List Char)
  | [], cs => .ok cs
  | _ :: _, [] => .error ⟨.unexpected, []⟩
  | w :: ws, c :: cs => if w = c then scanWord ws cs else .error ⟨.unexpected, c :: cs⟩

theorem length_of_scanWord {ws cs rest : List Char} (h : scanWord ws cs = .ok rest) :
    rest.length + ws.length = cs.length := by
  fun_induction scanWord ws cs with
  | case1 => cases h; rfl
  | case2 => cases h
  | case3 w ws cs ih => have := ih h; simp only [List.length_cons]; omega
  | case4 => cases h

/-! ## Numbers -/

theorem length_spanDigits (cs : List Char) :
    (spanDigits 10 cs).2.length + (spanDigits 10 cs).1.length = cs.length := by
  fun_induction spanDigits 10 cs with
  | case1 => rfl
  | case2 c cs d hd ds rest hs ih => simp_all; omega
  | case3 => rfl

/-- Digits, at least one; `mistake` is made where there is none. -/
def scanDigits (mistake : Mistake) (cs : List Char) : Scanned (List Nat) :=
  match spanDigits 10 cs with
  | ([], _) => .error ⟨mistake, cs⟩
  | (ds, rest) => .ok (ds, rest)

theorem length_of_scanDigits {mistake : Mistake} {ds : List Nat} {cs rest : List Char}
    (h : scanDigits mistake cs = .ok (ds, rest)) : rest.length < cs.length := by
  have := length_spanDigits cs
  unfold scanDigits at h
  split at h
  · cases h
  · next ds' rest' hne heq =>
    cases h
    have : 0 < ds.length := List.length_pos_iff.2 hne
    simp_all
    omega

/-- The digits behind a point, if there is a point. -/
def scanFraction : List Char → Scanned (List Nat)
  | '.' :: cs => scanDigits .noFraction cs
  | cs => .ok ([], cs)

theorem length_of_scanFraction {ds : List Nat} {cs rest : List Char}
    (h : scanFraction cs = .ok (ds, rest)) : rest.length ≤ cs.length := by
  unfold scanFraction at h
  split at h
  · have := length_of_scanDigits h
    simp only [List.length_cons]
    omega
  · cases h; exact Nat.le_refl _

/-- The power of ten behind a number, if there is one. -/
def scanExponent : List Char → Scanned Int
  | c :: cs =>
    if c = 'e' ∨ c = 'E' then
      let sign := Literal.spanSign cs
      (scanDigits .noExponent sign.2).map fun (ds, rest) =>
        (if sign.1 then -(valueOf 10 ds : Int) else valueOf 10 ds, rest)
    else .ok (0, c :: cs)
  | [] => .ok (0, [])

theorem length_spanSign (cs : List Char) : (Literal.spanSign cs).2.length ≤ cs.length := by
  unfold Literal.spanSign
  split <;> simp

theorem length_of_scanExponent {e : Int} {cs rest : List Char}
    (h : scanExponent cs = .ok (e, rest)) : rest.length ≤ cs.length := by
  unfold scanExponent at h
  split at h
  · split at h
    · next c cs _ =>
      obtain ⟨_, hd, h⟩ := eq_ok_of_map h
      cases h
      have := length_of_scanDigits hd
      have := length_spanSign cs
      simp only [List.length_cons]
      omega
    · cases h; exact Nat.le_refl _
  · cases h; exact Nat.le_refl _

/-- The digits in front of a point.  Behind a zero at their start there are none. -/
def scanWhole (cs : List Char) : Scanned (List Nat) :=
  (scanDigits .noNumber cs).bind fun r =>
    if r.1.head? = some 0 ∧ 1 < r.1.length then .error ⟨.unexpected, cs.tail⟩ else .ok r

theorem length_of_scanWhole {ds : List Nat} {cs rest : List Char}
    (h : scanWhole cs = .ok (ds, rest)) : rest.length < cs.length := by
  obtain ⟨r, hd, h⟩ := eq_ok_of_bind h
  split at h
  · cases h
  · cases h; exact length_of_scanDigits hd

/-- A number without its sign. -/
def scanMagnitude (negative : Bool) (cs : List Char) : Scanned Binary64 :=
  (scanWhole cs).bind fun (whole, rest) =>
    (scanFraction rest).bind fun (part, rest) =>
      (scanExponent rest).map fun (e, rest) =>
        (.ofDecimal negative (valueOf 10 (whole ++ part)) (e - part.length), rest)

theorem length_of_scanMagnitude {negative : Bool} {x : Binary64} {cs rest : List Char}
    (h : scanMagnitude negative cs = .ok (x, rest)) : rest.length < cs.length := by
  obtain ⟨⟨whole, more⟩, h1, h⟩ := eq_ok_of_bind h
  obtain ⟨⟨part, more⟩, h2, h⟩ := eq_ok_of_bind h
  obtain ⟨⟨e, more⟩, h3, h⟩ := eq_ok_of_map h
  cases h
  have := length_of_scanWhole h1
  have := length_of_scanFraction h2
  have := length_of_scanExponent h3
  omega

/-- A number. -/
def scanNumber : List Char → Scanned Binary64
  | '-' :: cs => scanMagnitude true cs
  | cs => scanMagnitude false cs

theorem length_of_scanNumber {x : Binary64} {cs rest : List Char}
    (h : scanNumber cs = .ok (x, rest)) : rest.length < cs.length := by
  unfold scanNumber at h
  split at h
  · have := length_of_scanMagnitude h
    simp only [List.length_cons]
    omega
  · exact length_of_scanMagnitude h

end ChipEight.Json
