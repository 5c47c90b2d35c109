import ChipEight.Proofs.Machine.Drawing
import Mathlib.Data.Finset.Prod

/-!
# Proofs/Machine/Sprite — a sprite by the number of its hits

A sprite that is taller than the screen, or that wraps around its edges, can touch a pixel several
times, and each time it finds what it has left there before.  In the end only the number of hits
matters: in `set` mode whether there was one (`get_touchAll_set`), in `xor` mode whether it was odd
(`get_touchAll_xor`).  The number is counted on the bits of the sprite (`hitCount_footprint`), which
gives drawing in closed form (`draw_hits`).
-/

namespace ChipEight.Screen

/-! ## Points in a row, with repetitions -/

section

variable {s : Screen} {x y : Int}

/-- How many of these points are this pixel. -/
def hitCount (points : List (Int × Int)) (x y : Int) : Nat :=
  points.countP fun p => offset p.1 p.2 = offset x y

theorem hitCount_cons (p : Int × Int) (points : List (Int × Int)) (x y : Int) :
    hitCount (p :: points) x y
      = hitCount points x y + if offset p.1 p.2 = offset x y then 1 else 0 := by
  simp only [hitCount, List.countP_cons, decide_eq_true_eq]

theorem hitCount_pos {points : List (Int × Int)} :
    0 < hitCount points x y ↔ ∃ p ∈ points, offset p.1 p.2 = offset x y := by
  simp only [hitCount, List.countP_pos_iff, decide_eq_true_eq]

/-- A pixel goes by its place. -/
theorem get_congr {x' y' : Int} (h : offset x y = offset x' y') : s.get x y = s.get x' y' := by
  simp only [get, Framebuffer.get, h]

theorem touchAll_cons (mode : DrawMode) (s : Screen) (p : Int × Int) (points : List (Int × Int)) :
    touchAll mode s (p :: points)
      = ((touchAll mode (touch mode s p.1 p.2).1 points).1,
        (touch mode s p.1 p.2).2 || (touchAll mode (touch mode s p.1 p.2).1 points).2) := rfl

theorem get_set_of_offset (s : Screen) (p q x y : Int) (on : Bool) :
    (s.set p q on).get x y = if offset p q = offset x y then on else s.get x y := by
  simp only [get_set, offset_eq_iff, eq_comm (a := x % 64), eq_comm (a := y % 32)]

theorem get_touch_set (s : Screen) (p q x y : Int) :
    (touch .set s p q).1.get x y = (s.get x y || decide (offset p q = offset x y)) := by
  by_cases h : offset p q = offset x y
  · have hpixel := get_congr (s := s) h
    cases hlit : s.get p q <;> simp [touch, hlit, get_set_of_offset, h, ← hpixel]
  · cases hlit : s.get p q <;> simp [touch, hlit, get_set_of_offset, h]

theorem get_touch_xor (s : Screen) (p q x y : Int) :
    (touch .xor s p q).1.get x y = (s.get x y ^^ decide (offset p q = offset x y)) := by
  by_cases h : offset p q = offset x y
  · simp [touch, get_set_of_offset, h, get_congr h]
  · simp [touch, get_set_of_offset, h]

/-- **Lighting pixels**: those that are hit are lit. -/
theorem get_touchAll_set (s : Screen) (points : List (Int × Int)) (x y : Int) :
    (touchAll .set s points).1.get x y = (s.get x y || decide (0 < hitCount points x y)) := by
  induction points generalizing s with
  | nil => simp [touchAll, hitCount]
  | cons p points ih =>
    rw [touchAll_cons, ih, get_touch_set, hitCount_cons]
    by_cases h : offset p.1 p.2 = offset x y <;> simp [h]

/-- **Toggling pixels**: those that are hit an odd number of times are toggled. -/
theorem get_touchAll_xor (s : Screen) (points : List (Int × Int)) (x y : Int) :
    (touchAll .xor s points).1.get x y
      = (s.get x y ^^ decide (hitCount points x y % 2 = 1)) := by
  induction points generalizing s with
  | nil => simp [touchAll, hitCount]
  | cons p points ih =>
    rw [touchAll_cons, ih, get_touch_xor, hitCount_cons]
    generalize hitCount points x y = n
    obtain hn | hn := Nat.mod_two_eq_zero_or_one n <;>
      by_cases h : offset p.1 p.2 = offset x y <;> simp [h, hn, Nat.add_mod]

/-- Lighting pixels is reported if one of them was dark. -/
theorem touchAll_set_reports {points : List (Int × Int)} :
    (touchAll .set s points).2 = true
      ↔ ∃ x y, 0 < hitCount points x y ∧ s.get x y = false := by
  induction points generalizing s with
  | nil => simp [touchAll, hitCount]
  | cons p points ih =>
    have hfirst : (touch .set s p.1 p.2).2 = !s.get p.1 p.2 := by
      cases hlit : s.get p.1 p.2 <;> simp [touch, hlit]
    rw [touchAll_cons, Bool.or_eq_true, hfirst, Bool.not_eq_true', ih]
    simp only [get_touch_set, Bool.or_eq_false_iff, decide_eq_false_iff_not, hitCount_cons]
    constructor
    · rintro (hdark | ⟨x, y, hhit, hdark, -⟩)
      · exact ⟨p.1, p.2, by rw [if_pos rfl]; exact Nat.succ_pos _, hdark⟩
      · exact ⟨x, y, Nat.add_pos_left hhit _, hdark⟩
    · rintro ⟨x, y, hhit, hdark⟩
      by_cases h : offset p.1 p.2 = offset x y
      · exact .inl ((get_congr h).trans hdark)
      · rw [if_neg h] at hhit
        exact .inr ⟨x, y, hhit, hdark, h⟩

/-- Toggling pixels is reported if one that is hit was lit, or is hit again. -/
theorem touchAll_xor_reports {points : List (Int × Int)} :
    (touchAll .xor s points).2 = true
      ↔ ∃ x y, (s.get x y = true ∧ 1 ≤ hitCount points x y) ∨ 2 ≤ hitCount points x y := by
  induction points generalizing s with
  | nil => simp [touchAll, hitCount]
  | cons p points ih =>
    have hfirst : (touch .xor s p.1 p.2).2 = s.get p.1 p.2 := rfl
    rw [touchAll_cons, Bool.or_eq_true, hfirst, ih]
    simp only [get_touch_xor, hitCount_cons]
    constructor
    · rintro (hlit | ⟨x, y, hlater⟩)
      · exact ⟨p.1, p.2, .inl ⟨hlit, by rw [if_pos rfl]; exact Nat.le_add_left 1 _⟩⟩
      · refine ⟨x, y, ?_⟩
        by_cases h : offset p.1 p.2 = offset x y
        · -- The first hit has toggled this pixel, so a second one makes two.
          rw [if_pos h]
          obtain ⟨-, hhit⟩ | hhit := hlater <;> exact .inr (by omega)
        · rw [decide_eq_false h, Bool.xor_false] at hlater
          rwa [if_neg h]
    · rintro ⟨x, y, hhits⟩
      by_cases h : offset p.1 p.2 = offset x y
      · cases hlit : s.get x y with
        | true => exact .inl ((get_congr h).trans hlit)
        | false =>
          rw [if_pos h, hlit] at hhits
          obtain ⟨hcontra, -⟩ | hhit := hhits
          · cases hcontra
          · exact .inr ⟨x, y, .inl ⟨by rw [hlit, decide_eq_true h]; rfl, by omega⟩⟩
      · rw [if_neg h] at hhits
        refine .inr ⟨x, y, ?_⟩
        rwa [decide_eq_false h, Bool.xor_false]

end

/-! ## The bits of a sprite -/

/-- **How often a sprite hits a pixel**: the number of its bits, as pairs of a row and a column,
that are set and come to lie on the pixel. -/
def hits (x y : Int) (rows : List UInt8) (px py : Int) : Nat :=
  ((Finset.range rows.length ×ˢ Finset.range 8).filter fun (row, col) =>
    (rows[row]?.any fun byte => byte.toNat.testBit (7 - col))
      ∧ (x + col) % 64 = px ∧ (y + row) % 32 = py).card

/-- A sprite whose coordinates are added up without rounding. -/
structure Exact (x y : Int) (rows : List UInt8) : Prop where
  column : ∀ col < 8, away x col = x + col
  row : ∀ k < rows.length, away y k = y + k

/-- So are those that do not leave the whole numbers that doubles can tell apart. -/
theorem exact_of_natAbs_le {x y : Int} {rows : List UInt8} (hx : x.natAbs ≤ 0x20000000000000)
    (hright : (x + 7).natAbs ≤ 0x20000000000000) (hy : y.natAbs ≤ 0x20000000000000)
    (hbottom : (y + rows.length).natAbs ≤ 0x20000000000000) : Exact x y rows where
  column _ _ := away_eq (by omega)
  row _ _ := away_eq (by omega)

theorem Exact.away_of_mem_bits {x y : Int} {rows : List UInt8} (h : Exact x y rows) {k col : Nat}
    (hb : (k, col) ∈ bits rows) : away x col = x + col ∧ away y k = y + k := by
  obtain ⟨byte, hbyte, hcol, -⟩ := mem_bits.mp hb
  exact ⟨h.column _ hcol, h.row _ (List.getElem?_eq_some_iff.mp hbyte).1⟩

/-- The points that a sprite touches hit a pixel as often as its bits lie on it. -/
theorem Exact.hitCount_footprint {x y : Int} {rows : List UInt8} (h : Exact x y rows) {px py : Nat}
    (hpx : px < 64) (hpy : py < 32) :
    hitCount (footprint x y rows) px py = hits x y rows px py := by
  have hpixel {k col : Nat} (hb : (k, col) ∈ bits rows) :
      offset (away x col) (away y k) = offset px py
        ↔ (x + col) % 64 = px ∧ (y + k) % 32 = py := by
    obtain ⟨hcolumn, hrow⟩ := h.away_of_mem_bits hb
    rw [offset_eq_iff, hcolumn, hrow]
    omega
  rw [hitCount, footprint_eq, List.countP_map, List.countP_eq_length_filter, hits,
    ← List.toFinset_card_of_nodup ((nodup_bits rows).filter _)]
  refine congrArg Finset.card (Finset.ext fun (k, col) => ?_)
  simp only [List.mem_toFinset, List.mem_filter, Function.comp_apply, decide_eq_true_eq,
    Finset.mem_filter, Finset.mem_product, Finset.mem_range, Option.any_eq_true]
  constructor
  · rintro ⟨hb, hoffset⟩
    obtain ⟨byte, hbyte, hcol, hset⟩ := mem_bits.mp hb
    have hk : k < rows.length := (List.getElem?_eq_some_iff.mp hbyte).1
    exact ⟨⟨hk, hcol⟩, ⟨byte, hbyte, hset⟩, (hpixel hb).mp hoffset⟩
  · rintro ⟨⟨-, hcol⟩, ⟨byte, hbyte, hset⟩, hlies⟩
    have hb : (k, col) ∈ bits rows := mem_bits.mpr ⟨byte, hbyte, hcol, hset⟩
    exact ⟨hb, (hpixel hb).mpr hlies⟩

/-- What holds of the hits on some pixel holds of those on a pixel of the screen. -/
theorem Exact.exists_hitCount_iff {x y : Int} {rows : List UInt8} (h : Exact x y rows)
    (s : Screen) (P : Bool → Nat → Prop) :
    (∃ qx qy, P (s.get qx qy) (hitCount (footprint x y rows) qx qy))
      ↔ ∃ px py : Nat, px < 64 ∧ py < 32 ∧ P (s.get px py) (hits x y rows px py) := by
  constructor
  · rintro ⟨qx, qy, hP⟩
    have hplace : offset (qx % 64).toNat (qy % 32).toNat = offset qx qy := by
      rw [offset_eq_iff]
      omega
    refine ⟨(qx % 64).toNat, (qy % 32).toNat, by omega, by omega, ?_⟩
    rw [← h.hitCount_footprint (by omega) (by omega), get_congr hplace, hitCount, hplace]
    exact hP
  · rintro ⟨px, py, hpx, hpy, hP⟩
    exact ⟨px, py, (h.hitCount_footprint hpx hpy).symm ▸ hP⟩

section

variable {x y : Int} {rows : List UInt8} (h : Exact x y rows) (s : Screen)
include h

/-- Behind a sprite that lights pixels, those are lit that were and those that it hits. -/
theorem Exact.get_draw_set {px py : Nat} (hpx : px < 64) (hpy : py < 32) :
    (draw .set s x y rows).1.get px py = true
      ↔ s.get px py = true ∨ 0 < hits x y rows px py := by
  rw [draw_eq, get_touchAll_set, h.hitCount_footprint hpx hpy, Bool.or_eq_true, decide_eq_true_eq]

theorem Exact.get_draw_xor {px py : Nat} (hpx : px < 64) (hpy : py < 32) :
    (draw .xor s x y rows).1.get px py
      = (s.get px py ^^ decide (hits x y rows px py % 2 = 1)) := by
  rw [draw_eq, get_touchAll_xor, h.hitCount_footprint hpx hpy]

theorem Exact.draw_set_reports : (draw .set s x y rows).2 = true ↔ ∃ px py : Nat, px < 64 ∧ py < 32
    ∧ 0 < hits x y rows px py ∧ s.get px py = false :=
  draw_eq .set s x y rows ▸
    touchAll_set_reports.trans (h.exists_hitCount_iff s fun lit n => 0 < n ∧ lit = false)

theorem Exact.draw_xor_reports : (draw .xor s x y rows).2 = true ↔ ∃ px py : Nat, px < 64 ∧ py < 32
    ∧ ((s.get px py = true ∧ 1 ≤ hits x y rows px py) ∨ 2 ≤ hits x y rows px py) :=
  draw_eq .xor s x y rows ▸ touchAll_xor_reports.trans
    (h.exists_hitCount_iff s fun lit n => (lit = true ∧ 1 ≤ n) ∨ 2 ≤ n)

end

/-- **Drawing in closed form.**  In `set` mode a pixel is lit behind a sprite if it was or if a bit
hits it, and the sprite is reported if one it hits was dark.  In `xor` mode it is toggled if the
number of hits is odd, and the sprite is reported if it hits a pixel that was lit, or one twice. -/
theorem draw_hits {x y : Int} {rows : List UInt8} (hx : x.natAbs ≤ 0x20000000000000)
    (hright : (x + 7).natAbs ≤ 0x20000000000000) (hy : y.natAbs ≤ 0x20000000000000)
    (hbottom : (y + rows.length).natAbs ≤ 0x20000000000000) (s : Screen) :
    (∀ px py : Nat, px < 64 → py < 32 →
        ((draw .set s x y rows).1.get px py = true
          ↔ s.get px py = true ∨ 0 < hits x y rows px py)
        ∧ (draw .xor s x y rows).1.get px py
          = (s.get px py ^^ decide (hits x y rows px py % 2 = 1)))
    ∧ ((draw .set s x y rows).2 = true ↔ ∃ px py : Nat, px < 64 ∧ py < 32
        ∧ 0 < hits x y rows px py ∧ s.get px py = false)
    ∧ ((draw .xor s x y rows).2 = true ↔ ∃ px py : Nat, px < 64 ∧ py < 32
        ∧ ((s.get px py = true ∧ 1 ≤ hits x y rows px py) ∨ 2 ≤ hits x y rows px py)) := by
  have hexact := exact_of_natAbs_le hx hright hy hbottom
  exact ⟨fun px py hpx hpy => ⟨hexact.get_draw_set s hpx hpy, hexact.get_draw_xor s hpx hpy⟩,
    hexact.draw_set_reports s, hexact.draw_xor_reports s⟩

/-- A vertical line one row taller than the screen, whose last row comes to lie on its first. -/
def tallLine : List UInt8 := List.replicate 33 0x80

/-- Drawn across the left edge, it leaves a gap where it meets itself if pixels are toggled, and
none if they are lit. -/
theorem draw_hits_tallLine :
    ((-1 : Int).natAbs ≤ 0x20000000000000 ∧ (-1 + 7 : Int).natAbs ≤ 0x20000000000000
      ∧ (0 : Int).natAbs ≤ 0x20000000000000
      ∧ (0 + tallLine.length : Int).natAbs ≤ 0x20000000000000)
    ∧ hits (-1) 0 tallLine 63 0 = 2
    ∧ (draw .set blank (-1) 0 tallLine).1.get 63 0 = true
    ∧ (draw .xor blank (-1) 0 tallLine).1.get 63 0 = false
    ∧ (draw .set blank (-1) 0 tallLine).2 = true
    ∧ (draw .xor blank (-1) 0 tallLine).2 = true := by
  have htwo : hits (-1) 0 tallLine (63 : Nat) (0 : Nat) = 2 := by decide +kernel
  have hbottom : (0 + tallLine.length : Int).natAbs ≤ 0x20000000000000 := by decide
  obtain ⟨hpixels, hset, hxor⟩ :=
    draw_hits (x := -1) (y := 0) (by decide) (by decide) (by decide) hbottom blank
  obtain ⟨hlit, htoggled⟩ := hpixels 63 0 (by decide) (by decide)
  rw [get_blank, htwo] at htoggled
  refine ⟨by decide, htwo, hlit.mpr (.inr ?_), htoggled, hset.mpr ?_, hxor.mpr ?_⟩
  · exact htwo ▸ Nat.zero_lt_two
  · exact ⟨63, 0, by decide, by decide, htwo ▸ Nat.zero_lt_two, get_blank _ _⟩
  · exact ⟨63, 0, by decide, by decide, .inr (Nat.le_of_eq htwo.symm)⟩

end ChipEight.Screen
