import ChipEight.Proofs.Machine.Drawing

/-!
# Proofs/Machine/Picture — screens made of glyphs

A picture is a list of glyphs and where they stand.  A screen that shows a picture is determined by
it (`Shows.eq`), and it shows one glyph more once that glyph has been drawn apart from the others,
in whichever mode (`Shows.draw`).
-/

namespace ChipEight

/-- The rows of a glyph of the font. -/
def Memory.glyph (g : Nat) : List UInt8 := (font.drop (glyphSize * g)).take glyphSize

/-- No glyph is more than four pixels wide. -/
theorem Memory.font_narrow : ∀ row ∈ font, ∀ col < 8,
    row.toNat.testBit (7 - col) = true → col < 4 := by decide +kernel

/-- A glyph with its top left corner at `(x, y)`. -/
structure Stamp where
  glyph : Nat
  x : Nat
  y : Nat
  deriving DecidableEq

namespace Stamp

def rows (t : Stamp) : List UInt8 := Memory.glyph t.glyph

/-- Does one of its bits cover this pixel? -/
def Covers (t : Stamp) (x y : Nat) : Prop :=
  ∃ (k : Nat) (row : UInt8) (col : Nat), t.rows[k]? = some row ∧ col < 8
    ∧ row.toNat.testBit (7 - col) = true ∧ x = t.x + col ∧ y = t.y + k

/-- A glyph of the font that reaches over no edge of the screen. -/
structure Fits (t : Stamp) : Prop where
  glyph : t.glyph < 16
  right : t.x + 8 ≤ 64
  bottom : t.y + 5 ≤ 32

theorem fits_iff {t : Stamp} : t.Fits ↔ t.glyph < 16 ∧ t.x + 8 ≤ 64 ∧ t.y + 5 ≤ 32 :=
  ⟨fun h => ⟨h.glyph, h.right, h.bottom⟩, fun ⟨hg, hx, hy⟩ => ⟨hg, hx, hy⟩⟩

/-- Two glyphs side by side. -/
def Apart (s t : Stamp) : Prop := s.x + 4 ≤ t.x ∨ t.x + 4 ≤ s.x

theorem Fits.within {t : Stamp} (h : t.Fits) : Screen.Within t.x t.y t.rows where
  right := h.right
  bottom := Nat.le_trans (Nat.add_le_add_left (List.length_take_le 5 _) t.y) h.bottom

theorem Covers.columns {t : Stamp} {x y : Nat} (h : t.Covers x y) : t.x ≤ x ∧ x < t.x + 4 := by
  obtain ⟨k, row, col, hrow, hcol, hbit, rfl, -⟩ := h
  have hfont : row ∈ Memory.font :=
    List.mem_of_mem_drop (List.mem_of_mem_take (List.mem_of_getElem? hrow))
  exact ⟨Nat.le_add_right _ _, Nat.add_lt_add_left (Memory.font_narrow row hfont col hcol hbit) _⟩

/-- No pixel is covered twice by glyphs side by side. -/
theorem Apart.not_covers {s t : Stamp} (h : s.Apart t) {x y : Nat} (hs : s.Covers x y) :
    ¬ t.Covers x y := by
  intro ht
  obtain ⟨hs0, hs1⟩ := hs.columns
  obtain ⟨ht0, ht1⟩ := ht.columns
  obtain h | h := h <;> omega

end Stamp

namespace Screen

/-- **A screen that shows a picture**: the pixels that are lit are those its glyphs cover. -/
def Shows (s : Screen) (picture : List Stamp) : Prop :=
  ∀ x < width, ∀ y < height, s.get x y = true ↔ ∃ t ∈ picture, t.Covers x y

theorem shows_blank : blank.Shows [] := fun x _ y _ =>
  iff_of_false (get_blank x y ▸ Bool.false_ne_true) (fun ⟨_, h, _⟩ => List.not_mem_nil h)

namespace Shows

variable {s s' : Screen} {picture : List Stamp}

/-- **There is one screen that shows a picture.** -/
theorem eq (h : s.Shows picture) (h' : s'.Shows picture) : s = s' :=
  ext_get fun x hx y hy => Bool.eq_iff_iff.mpr ((h x hx y hy).trans (h' x hx y hy).symm)

/-- **A glyph is added to a picture** by drawing it beside the others, in either mode. -/
theorem draw (h : s.Shows picture) {t : Stamp} (ht : t.Fits) (hapart : ∀ u ∈ picture, u.Apart t)
    (mode : DrawMode) : (Screen.draw mode s t.x t.y t.rows).1.Shows (picture ++ [t]) := by
  have hwithin := ht.within
  have hdark : ∀ p ∈ footprint t.x t.y t.rows, s.get p.1 p.2 = false := by
    intro p hp
    obtain ⟨k, row, col, hrow, hcol, hbit, rfl⟩ := mem_footprint.mp hp
    have hk : k < t.rows.length := (List.getElem?_eq_some_iff.mp hrow).1
    have hright := hwithin.right
    have hbottom := hwithin.bottom
    have hx : t.x + col < 64 := by omega
    have hy : t.y + k < 32 := by omega
    rw [hwithin.away_column hcol, hwithin.away_row hk]
    refine Bool.eq_false_iff.mpr fun hlit => ?_
    obtain ⟨u, hu, hcovers⟩ := (h (t.x + col) hx (t.y + k) hy).mp hlit
    exact (hapart u hu).not_covers hcovers ⟨k, row, col, hrow, hcol, hbit, rfl, rfl⟩
  intro x hx y hy
  rw [hwithin.get_draw hdark mode hx hy, h x hx y hy]
  simp only [List.mem_append, List.mem_singleton, or_and_right, exists_or, exists_eq_left]
  rfl

end Shows

end Screen

end ChipEight
