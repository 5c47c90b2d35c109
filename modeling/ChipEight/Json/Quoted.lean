import ChipEight.Json.Scan
import ChipEight.Json.Write

/-!
# Json/Quoted — a quoted text reads back

What is written between quotes is read as the text it was written for: escapes are undone one by
one, and a character is never half of a pair.
-/

namespace ChipEight

theorem Units.single_toNat (c : Char) : single c.toNat = c := by
  have h : c.toNat.isValidChar := c.valid
  simp [single, h, Char.ofNat_toNat]

/-- The numbers of characters are read as these characters. -/
theorem Units.toChars_toNat (cs : List Char) : toChars (cs.map Char.toNat) = cs := by
  induction cs with
  | nil => rfl
  | cons c cs ih =>
    cases cs with
    | nil => simp [toChars, single_toNat]
    | cons d cs =>
      have h : ¬(0xD800 ≤ c.toNat ∧ c.toNat < 0xDC00) := by
        have : c.toNat.isValidChar := c.valid
        simp only [Nat.isValidChar] at this
        omega
      simp only [List.map_cons] at ih
      simp only [List.map_cons, toChars, single_toNat, ih]
      rw [if_neg fun h' => h ⟨h'.1, h'.2.1⟩]

namespace Json

theorem digit?_digitChar : ∀ d < 16, Literal.digit? 16 (Nat.digitChar d) = some d := by decide

/-- Reading undoes one escape. -/
theorem units_escape (c : Char) (cs : List Char) :
    units (escape c ++ cs) = (units cs).map fun (ns, rest) => (c.toNat :: ns, rest) := by
  unfold escape
  split
  case isTrue h => rcases h with rfl | rfl <;> simp [units, escaped?]
  case isFalse hq =>
  split
  case isTrue h => simp [units, escaped?, h]
  split
  case isTrue h => simp [units, escaped?, h]
  split
  case isTrue h => subst h; simp [units, escaped?]
  split
  case isTrue h => subst h; simp [units, escaped?]
  split
  case isTrue h => subst h; simp [units, escaped?]
  split
  case isTrue h =>
    have hx : hexNumber 4 0 ('0' :: '0' :: Nat.digitChar (c.toNat / 16)
        :: Nat.digitChar (c.toNat % 16) :: cs) = .ok (c.toNat, cs) := by
      have h0 : Literal.digit? 16 '0' = some 0 := by decide
      have h1 := digit?_digitChar (c.toNat / 16) (by omega)
      have h2 := digit?_digitChar (c.toNat % 16) (by omega)
      simp only [hexNumber, h0, h1, h2]
      rw [show ((0 * 16 + 0) * 16 + 0) * 16 + c.toNat / 16 = c.toNat / 16 by omega,
        show c.toNat / 16 * 16 + c.toNat % 16 = c.toNat by omega]
    rw [List.cons_append, List.cons_append, units]
    split
    · next he => cases he.symm.trans hx
    · next he => cases he.symm.trans hx; rfl
  case isFalse h =>
    rw [List.cons_append, List.nil_append, units]
    · simp [h]
    all_goals simp_all

/-- The units of a text in its written form are the numbers of its characters. -/
theorem units_flatMap_escape (cs rest : List Char) :
    units (cs.flatMap escape ++ '"' :: rest) = .ok (cs.map Char.toNat, rest) := by
  induction cs with
  | nil => simp [units]
  | cons c cs ih =>
    rw [List.flatMap_cons, List.append_assoc, units_escape, ih]
    rfl

/-- **A quoted text reads back**, whatever comes behind it. -/
theorem scanText_escape (s : String) (rest : List Char) :
    scanText (s.toList.flatMap escape ++ '"' :: rest) = .ok (s, rest) := by
  simp [scanText, units_flatMap_escape, Except.map, Units.toChars_toNat]

end Json

end ChipEight
