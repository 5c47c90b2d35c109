import ChipEight.Proofs.Machine.Sprite

/-!
# Proofs/Machine/Overlay — sprites drawn one after the other

A sequence of sprites touches the points of each in turn (`drawAll_screen`), so its screen goes by
the number of hits on each pixel, and neither the order of the sprites nor the sheet of the torus
that a corner is given on matters.  Lighting never darkens a pixel, and a draw that is reported
lights at least one more (`countLit_touchAll`); two equal sprites that toggle cancel.
-/

namespace ChipEight

/-- A sprite and the place of its top left corner. -/
structure Sprite where
  x : Int
  y : Int
  rows : List UInt8
  deriving DecidableEq

namespace Sprite

/-- The points it touches. -/
def points (t : Sprite) : List (Int × Int) := Screen.footprint t.x t.y t.rows

/-- **The same sprite some screens further on**, with coordinates that are added up without
rounding in both places. -/
structure Around (t u : Sprite) : Prop where
  column : ∃ a : Int, u.x = t.x + 64 * a
  row : ∃ b : Int, u.y = t.y + 32 * b
  rows : u.rows = t.rows
  exact : Screen.Exact t.x t.y t.rows
  exact' : Screen.Exact u.x u.y u.rows

end Sprite

namespace Screen

def drawSprite (mode : DrawMode) (s : Screen) (t : Sprite) : Screen × Bool :=
  draw mode s t.x t.y t.rows

/-- **Sprites drawn in turn**: the screen behind them, and what each of them reported. -/
def drawAll (mode : DrawMode) (s : Screen) : List Sprite → Screen × List Bool
  | [] => (s, [])
  | t :: ts =>
    let (s', reported) := drawSprite mode s t
    let (last, later) := drawAll mode s' ts
    (last, reported :: later)

variable {mode : DrawMode} {s : Screen} {t u : Sprite} {ts us : List Sprite}
  {ps qs : List (Int × Int)}

/-! ## Points in a row -/

theorem drawSprite_eq (mode : DrawMode) (s : Screen) (t : Sprite) :
    drawSprite mode s t = touchAll mode s t.points := draw_eq mode s t.x t.y t.rows

theorem touchAll_append (mode : DrawMode) (s : Screen) (ps qs : List (Int × Int)) :
    (touchAll mode s (ps ++ qs)).1 = (touchAll mode (touchAll mode s ps).1 qs).1 := by
  induction ps generalizing s with
  | nil => rfl
  | cons p ps ih => exact ih _

theorem drawAll_append (mode : DrawMode) (s : Screen) (ts us : List Sprite) :
    drawAll mode s (ts ++ us) = ((drawAll mode (drawAll mode s ts).1 us).1,
      (drawAll mode s ts).2 ++ (drawAll mode (drawAll mode s ts).1 us).2) := by
  induction ts generalizing s with
  | nil => rfl
  | cons t ts ih => simp only [List.cons_append, drawAll, ih]

theorem length_drawAll (mode : DrawMode) (s : Screen) (ts : List Sprite) :
    (drawAll mode s ts).2.length = ts.length := by
  induction ts generalizing s with
  | nil => rfl
  | cons t ts ih => exact congrArg Nat.succ (ih _)

/-- What a sprite of a sequence reports, it reports on the screen that it finds. -/
theorem reported_drawAll (mode : DrawMode) (s : Screen) (ts us : List Sprite) (t : Sprite) :
    (drawAll mode s (ts ++ t :: us)).2[ts.length]?
      = some (drawSprite mode (drawAll mode s ts).1 t).2 := by
  rw [drawAll_append, ← length_drawAll mode s ts, List.getElem?_append_right (Nat.le_refl _),
    Nat.sub_self]
  rfl

/-- **A sequence of sprites touches the points of each in turn.** -/
theorem drawAll_screen (mode : DrawMode) (s : Screen) (ts : List Sprite) :
    (drawAll mode s ts).1 = (touchAll mode s (ts.flatMap Sprite.points)).1 := by
  induction ts generalizing s with
  | nil => rfl
  | cons t ts ih =>
    rw [List.flatMap_cons, touchAll_append, ← drawSprite_eq]
    exact ih _

theorem hitCount_append (ps qs : List (Int × Int)) (x y : Int) :
    hitCount (ps ++ qs) x y = hitCount ps x y + hitCount qs x y := List.countP_append

/-- **The screen goes by the number of hits.** -/
theorem touchAll_congr (h : ∀ x y, hitCount ps x y = hitCount qs x y) (mode : DrawMode)
    (s : Screen) : (touchAll mode s ps).1 = (touchAll mode s qs).1 := by
  refine ext_get fun x _ y _ => ?_
  cases mode with
  | set => rw [get_touchAll_set, get_touchAll_set, h]
  | xor => rw [get_touchAll_xor, get_touchAll_xor, h]

/-- If pixels are toggled, two hits are none. -/
theorem touchAll_xor_congr (h : ∀ x y, hitCount ps x y % 2 = hitCount qs x y % 2) (s : Screen) :
    (touchAll .xor s ps).1 = (touchAll .xor s qs).1 :=
  ext_get fun x _ y _ => by rw [get_touchAll_xor, get_touchAll_xor, h]

/-- A point goes by its place. -/
theorem touch_congr {x y x' y' : Int} (h : offset x y = offset x' y') (mode : DrawMode)
    (s : Screen) : touch mode s x y = touch mode s x' y' := by
  have hset (on : Bool) : s.set x y on = s.set x' y' on :=
    frame_inj (by simp only [set, Framebuffer.set, h])
  simp only [touch, get_congr h, hset]

theorem touchAll_map_congr {α : Type} {f g : α → Int × Int} {bs : List α}
    (h : ∀ b ∈ bs, offset (f b).1 (f b).2 = offset (g b).1 (g b).2) (mode : DrawMode)
    (s : Screen) : touchAll mode s (bs.map f) = touchAll mode s (bs.map g) := by
  induction bs generalizing s with
  | nil => rfl
  | cons b bs ih =>
    obtain ⟨hb, hbs⟩ := List.forall_mem_cons.mp h
    rw [List.map_cons, List.map_cons, touchAll_cons, touchAll_cons, touch_congr hb, ih hbs]

/-! ## Order and place -/

/-- **The order of the sprites does not matter.** -/
theorem drawAll_perm (h : ts.Perm us) (mode : DrawMode) (s : Screen) :
    (drawAll mode s us).1 = (drawAll mode s ts).1 := by
  rw [drawAll_screen, drawAll_screen]
  exact touchAll_congr (fun x y => (h.symm.flatMap_right Sprite.points).countP_eq _) mode s

/-- **Nor does the screen that a corner is counted from.** -/
theorem drawSprite_around (h : t.Around u) (mode : DrawMode) (s : Screen) :
    drawSprite mode s u = drawSprite mode s t := by
  obtain ⟨a, ha⟩ := h.column
  obtain ⟨b, hb⟩ := h.row
  have hexact := h.exact'
  rw [h.rows] at hexact
  -- Bit by bit: both footprints list the same bits, so it is enough to compare their places.
  rw [drawSprite, drawSprite, draw_eq, draw_eq, footprint_eq, footprint_eq, h.rows]
  refine touchAll_map_congr ?_ mode s
  rintro ⟨k, col⟩ hbit
  obtain ⟨hcolumn, hrow⟩ := h.exact.away_of_mem_bits hbit
  obtain ⟨hcolumn', hrow'⟩ := hexact.away_of_mem_bits hbit
  rw [offset_eq_iff, hcolumn, hrow, hcolumn', hrow', ha, hb]
  omega

theorem drawAll_around (h : List.Forall₂ Sprite.Around ts us) (mode : DrawMode) (s : Screen) :
    drawAll mode s us = drawAll mode s ts := by
  induction h generalizing s with
  | nil => rfl
  | cons htu _ ih => simp only [drawAll, drawSprite_around htu, ih]

/-! ## Lighting -/

/-- A pixel that is lit counts. -/
theorem countLit_set_true {x y : Int} (h : s.get x y = false) :
    (s.set x y true).countLit = s.countLit + 1 := by
  have hdark : s.frame.cells[(offset x y).val] = 0 := Decidable.not_not.mp (of_decide_eq_false h)
  have hcells : (s.set x y true).frame.cells = s.frame.cells.set (offset x y) 1 := rfl
  rw [countLit, countLit, countLit_eq (s.set x y true).binary, countLit_eq s.binary, hcells,
    Vector.count_toList, Vector.count_toList, Vector.count_set, hdark]
  rfl

theorem countLit_touch (s : Screen) (x y : Int) :
    (touch .set s x y).1.countLit = s.countLit + (touch .set s x y).2.toNat := by
  cases hlit : s.get x y with
  | true => simp [touch, hlit]
  | false => simp [touch, hlit, countLit_set_true hlit]

/-- **What is reported lights a pixel at least.** -/
theorem countLit_touchAll (s : Screen) (ps : List (Int × Int)) :
    s.countLit + (touchAll .set s ps).2.toNat ≤ (touchAll .set s ps).1.countLit := by
  induction ps generalizing s with
  | nil => exact Nat.le_refl _
  | cons p ps ih =>
    have hor (a b : Bool) : (a || b).toNat ≤ a.toNat + b.toNat := by revert a b; decide
    calc s.countLit + (touchAll .set s (p :: ps)).2.toNat
      _ ≤ s.countLit + ((touch .set s p.1 p.2).2.toNat
            + (touchAll .set (touch .set s p.1 p.2).1 ps).2.toNat) :=
          Nat.add_le_add_left (hor _ _) _
      _ = (touch .set s p.1 p.2).1.countLit
            + (touchAll .set (touch .set s p.1 p.2).1 ps).2.toNat := by
          rw [countLit_touch, Nat.add_assoc]
      _ ≤ (touchAll .set s (p :: ps)).1.countLit := ih _

theorem countLit_drawSprite (s : Screen) (t : Sprite) :
    s.countLit + (drawSprite .set s t).2.toNat ≤ (drawSprite .set s t).1.countLit := by
  rw [drawSprite_eq]
  exact countLit_touchAll s t.points

/-- Points that are lit stay as they are. -/
theorem touchAll_set_of_lit (h : ∀ p ∈ ps, s.get p.1 p.2 = true) :
    touchAll .set s ps = (s, false) := by
  induction ps with
  | nil => rfl
  | cons p ps ih =>
    obtain ⟨hp, hps⟩ := List.forall_mem_cons.mp h
    have hfirst : touch .set s p.1 p.2 = (s, false) := by simp only [touch, hp, if_true]
    rw [touchAll_cons, hfirst, ih hps]
    rfl

/-- And so are those of a draw that is not reported. -/
theorem lit_of_unreported (h : (touchAll .set s ps).2 = false) :
    ∀ p ∈ ps, s.get p.1 p.2 = true := by
  intro p hp
  by_contra hdark
  have hreported : (touchAll .set s ps).2 = true := touchAll_set_reports.mpr
    ⟨p.1, p.2, hitCount_pos.mpr ⟨p, hp, rfl⟩, Bool.eq_false_iff.mpr hdark⟩
  exact Bool.false_ne_true (h.symm.trans hreported)

/-- **A draw is reported exactly if there are more lit pixels behind it.** -/
theorem drawSprite_reports_iff (s : Screen) (t : Sprite) :
    (drawSprite .set s t).2 = true
      ↔ s.countLit < (drawSprite .set s t).1.countLit := by
  constructor
  · intro h
    have hcount := countLit_drawSprite s t
    rwa [h] at hcount
  · intro hmore
    by_contra h
    rw [drawSprite_eq] at h hmore
    rw [touchAll_set_of_lit (lit_of_unreported (Bool.eq_false_iff.mpr h))] at hmore
    exact Nat.lt_irrefl _ hmore

theorem get_drawAll_set (s : Screen) (ts : List Sprite) {x y : Int} (h : s.get x y = true) :
    (drawAll .set s ts).1.get x y = true := by
  rw [drawAll_screen, get_touchAll_set, h, Bool.true_or]

/-- **A sprite that has been drawn is drawn in vain.** -/
theorem drawSprite_again (h : t ∈ ts) (s : Screen) :
    drawSprite .set (drawAll .set s ts).1 t = ((drawAll .set s ts).1, false) := by
  rw [drawSprite_eq]
  refine touchAll_set_of_lit fun p hp => ?_
  have hhit : 0 < hitCount (ts.flatMap Sprite.points) p.1 p.2 :=
    hitCount_pos.mpr ⟨p, List.mem_flatMap.mpr ⟨t, h, hp⟩, rfl⟩
  rw [drawAll_screen, get_touchAll_set, decide_eq_true hhit, Bool.or_true]

theorem countLit_le (s : Screen) : s.countLit ≤ 2048 :=
  (countLit_eq s.binary).trans_le (List.count_le_length.trans_eq s.frame.cells.length_toList)

/-- Every draw that is reported counts. -/
theorem countLit_drawAll (s : Screen) (ts : List Sprite) :
    s.countLit + (drawAll .set s ts).2.count true ≤ (drawAll .set s ts).1.countLit := by
  induction ts generalizing s with
  | nil => exact Nat.le_refl _
  | cons t ts ih =>
    have hcount (b : Bool) (bs : List Bool) : (b :: bs).count true = b.toNat + bs.count true := by
      cases b <;> simp [Nat.add_comm]
    calc s.countLit + (drawAll .set s (t :: ts)).2.count true
      _ = s.countLit + (drawSprite .set s t).2.toNat
            + (drawAll .set (drawSprite .set s t).1 ts).2.count true :=
          (congrArg (s.countLit + ·) (hcount _ _)).trans (Nat.add_assoc _ _ _).symm
      _ ≤ (drawSprite .set s t).1.countLit
            + (drawAll .set (drawSprite .set s t).1 ts).2.count true :=
          Nat.add_le_add_right (countLit_drawSprite s t) _
      _ ≤ (drawAll .set s (t :: ts)).1.countLit := ih _

/-! ## Toggling -/

/-- **Two equal sprites cancel**, whatever is drawn between them. -/
theorem drawAll_cancel (s : Screen) (before between after : List Sprite) (t : Sprite) :
    (drawAll .xor s (before ++ t :: (between ++ t :: after))).1
      = (drawAll .xor s (before ++ (between ++ after))).1 := by
  rw [drawAll_screen, drawAll_screen]
  -- The points of `t` are there twice on the left, which does not change a parity.
  refine touchAll_xor_congr (fun x y => ?_) s
  simp only [List.flatMap_append, List.flatMap_cons, hitCount_append]
  omega

/-- **The algebra of sprites**, on any screen.  In either mode their order does not matter, nor the
screen that a corner is counted from.  Lit pixels stay lit in `set` mode: a draw is reported exactly
if it lights one more, a sprite that has been drawn is drawn in vain, and so there are at most as
many reports as pixels.  In `xor` mode equal sprites cancel. -/
theorem drawAll_algebra (s : Screen) (ts : List Sprite) :
    (∀ mode us, ts.Perm us ∨ List.Forall₂ Sprite.Around ts us →
      (drawAll mode s us).1 = (drawAll mode s ts).1)
    ∧ ((∀ x y, s.get x y = true → (drawAll .set s ts).1.get x y = true)
      ∧ (∀ before t after, ts = before ++ t :: after →
        let found := (drawAll .set s before).1
        let (behind, reported) := drawSprite .set found t
        (drawAll .set s ts).2[before.length]? = some reported
        ∧ (reported = true ↔ found.countLit < behind.countLit)
        ∧ (t ∈ before → behind = found ∧ reported = false))
      ∧ (drawAll .set s ts).2.count true ≤ 2048)
    ∧ ∀ before between after t, ts = before ++ t :: (between ++ t :: after) →
      (drawAll .xor s (before ++ (between ++ after))).1 = (drawAll .xor s ts).1 := by
  refine ⟨fun mode us h => ?_, ⟨fun x y => get_drawAll_set s ts, ?_, ?_⟩, ?_⟩
  · obtain h | h := h
    · exact drawAll_perm h mode s
    · rw [drawAll_around h]
  · rintro before t after rfl
    refine ⟨reported_drawAll .set s before after t, drawSprite_reports_iff _ t, fun ht => ?_⟩
    exact Prod.ext_iff.mp (drawSprite_again ht s)
  · have hall := countLit_drawAll s ts
    have hbound := (drawAll .set s ts).1.countLit_le
    omega
  · rintro before between after t rfl
    exact (drawAll_cancel s before between after t).symm

/-- A block of four pixels in the four corners of the screen, and a dot that lies on one of them. -/
def corners : Sprite := ⟨63, 31, [0xC0, 0xC0]⟩

def dot : Sprite := ⟨0, 0, [0x80]⟩

/-- In the other order the block and the dot are both reported, but the screen is the same; the
block may as well be counted from the screens to the left and below; and two blocks cancel. -/
theorem drawAll_algebra_corners :
    ([corners, dot].Perm [dot, corners] ∧ List.Forall₂ Sprite.Around [corners, dot]
        [⟨-1, 63, [0xC0, 0xC0]⟩, dot])
      ∧ (drawAll .set blank [corners, dot]).2 = [true, false]
      ∧ (drawAll .set blank [dot, corners]).2 = [true, true]
      ∧ (drawAll .set blank [dot, corners]).1 = (drawAll .set blank [corners, dot]).1
      ∧ (drawAll .xor blank [⟨-1, 63, [0xC0, 0xC0]⟩, dot]).1 = (drawAll .xor blank [corners, dot]).1
      ∧ (drawAll .xor blank [dot]).1 = (drawAll .xor blank [corners, dot, corners]).1 := by
  have hswap : [corners, dot].Perm [dot, corners] := List.Perm.swap _ _ _
  have hexact {x y : Int} {rows : List UInt8} (hx : x.natAbs ≤ 64) (hy : y.natAbs ≤ 64)
      (hrows : rows.length ≤ 2) : Exact x y rows :=
    exact_of_natAbs_le (by omega) (by omega) (by omega) (by omega)
  have haround : List.Forall₂ Sprite.Around [corners, dot] [⟨-1, 63, [0xC0, 0xC0]⟩, dot] := by
    refine .cons ⟨⟨-1, rfl⟩, ⟨1, rfl⟩, rfl, ?_, ?_⟩ (.cons ⟨⟨0, rfl⟩, ⟨0, rfl⟩, rfl, ?_, ?_⟩ .nil)
    all_goals exact hexact (by decide) (by decide) (by decide)
  obtain ⟨hsame, -⟩ := drawAll_algebra blank [corners, dot]
  obtain ⟨-, -, hcancel⟩ := drawAll_algebra blank [corners, dot, corners]
  exact ⟨⟨hswap, haround⟩, by decide +kernel, by decide +kernel, hsame .set _ (.inl hswap),
    hsame .xor _ (.inr haround), hcancel [] [dot] [] corners rfl⟩

end Screen

end ChipEight
