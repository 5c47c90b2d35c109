import ChipEight.Proofs.Machine.Effect
import Mathlib.Data.List.Basic
import Mathlib.Data.Nat.Bitwise

/-!
# Proofs/Machine/Drawing — what a sprite does to dark pixels

The two draw modes differ only where a sprite meets a lit pixel.  A sprite within the screen touches
no pixel twice (`Within.footprint_pairwise`), so where the screen is dark it lights its pixels in
either mode and leaves the others alone (`Within.get_draw`).
-/

namespace ChipEight

theorem Framebuffer.Binary.of_mem {f : Framebuffer} (h : f.Binary) {c : UInt8}
    (hc : c ∈ f.cells.toList) : c = 0 ∨ c = 1 := by
  obtain ⟨i, hi, rfl⟩ := Vector.mem_iff_getElem.mp (Vector.mem_toList_iff.mp hc)
  exact h ⟨i, hi⟩

namespace Screen

/-! ## Pixels -/

/-- A byte that is zero or one goes by whether it is lit. -/
theorem byte_inj {b c : UInt8} (hb : b = 0 ∨ b = 1) (hc : c = 0 ∨ c = 1)
    (h : decide (b ≠ 0) = decide (c ≠ 0)) : b = c := by
  rcases hb with rfl | rfl <;> rcases hc with rfl | rfl <;> first | rfl | cases h

/-- Every place is that of a column and a row. -/
theorem offset_of_place {i : Nat} (hi : i < 2048) :
    (offset (i % 64 : Nat) (i / 64 : Nat)).val = i := by
  simp only [offset]
  omega

theorem frame_inj {s s' : Screen} (h : s.frame = s'.frame) : s = s' := by
  cases s
  cases h
  rfl

/-- Two screens with the same pixels are the same. -/
theorem ext_get {s s' : Screen} (h : ∀ x < width, ∀ y < height, s.get (x : Nat) (y : Nat)
    = s'.get (x : Nat) (y : Nat)) : s = s' := by
  refine frame_inj (congrArg Framebuffer.mk (Vector.ext fun i hi => ?_))
  have hx : i % 64 < 64 := Nat.mod_lt _ (by decide)
  have hy : i / 64 < 32 := by omega
  have hget := h (i % 64) hx (i / 64) hy
  simp only [get, Framebuffer.get, Fin.getElem_fin, offset_of_place hi] at hget
  exact byte_inj (s.binary ⟨i, hi⟩) (s'.binary ⟨i, hi⟩) hget

theorem get_blank (x y : Int) : blank.get x y = false :=
  decide_eq_false (not_not_intro (Vector.getElem_replicate _))

/-- **The lit pixels are counted** by adding up bytes that are zero or one. -/
theorem countLit_eq {f : Framebuffer} (h : f.Binary) : f.countLit = f.cells.toList.count 1 := by
  suffices hsum : ∀ (cells : List UInt8) (lit : Nat), (∀ c ∈ cells, c = 0 ∨ c = 1) →
      cells.foldl (fun lit cell => lit + cell.toNat) lit = lit + cells.count 1 from
    (hsum _ 0 fun c hc => h.of_mem hc).trans (Nat.zero_add _)
  intro cells
  induction cells with
  | nil => exact fun lit _ => (Nat.add_zero lit).symm
  | cons c cells ih =>
    intro lit hcells
    obtain ⟨hc, hcells⟩ := List.forall_mem_cons.mp hcells
    rw [List.foldl_cons, ih _ hcells, List.count_cons, Nat.add_assoc, Nat.add_comm (cells.count 1)]
    rcases hc with rfl | rfl <;> rfl

/-! ## Drawing, point by point -/

/-- One sprite bit: the screen behind it, and whether the pixel changed the way the mode reports. -/
def touch (mode : DrawMode) (s : Screen) (x y : Int) : Screen × Bool :=
  let on := s.get x y
  match mode with
  | .set => if on then (s, false) else (s.set x y true, true)
  | .xor => (s.set x y (!on), on)

/-- The columns of the set bits of a sprite row, from the left. -/
def columns (row : UInt8) : List Nat :=
  (List.range 8).filter fun col => row.toNat.testBit (7 - col)

/-- The pixels a sprite with this origin touches, row by row. -/
def footprint (x y : Int) (rows : List UInt8) : List (Int × Int) :=
  rows.zipIdx.flatMap fun (row, k) => (columns row).map fun col => (away x col, away y k)

/-- Pixels touched in order: the screen behind them, and whether one of them was reported. -/
def touchAll (mode : DrawMode) (s : Screen) : List (Int × Int) → Screen × Bool
  | [] => (s, false)
  | (x, y) :: rest =>
    let (s', first) := touch mode s x y
    let (last, later) := touchAll mode s' rest
    (last, first || later)

theorem frame_touch (mode : DrawMode) (s : Screen) (x y : Int) :
    s.frame.touch mode x y = ((touch mode s x y).1.frame, (touch mode s x y).2) := by
  cases mode with
  | set =>
    rw [Framebuffer.touch, touch, get]
    cases s.frame.get x y <;> rfl
  | xor => rfl

/-- Looking at a bit of a sprite through a mask. -/
theorem masked_eq_zero_iff (row : UInt8) {col : Nat} (hcol : col < 8) :
    row &&& 0x80 >>> UInt8.ofNat col = 0 ↔ row.toNat.testBit (7 - col) = false := by
  have hmask : ∀ col < 8, (0x80 >>> UInt8.ofNat col : UInt8).toNat = 2 ^ (7 - col) := by decide
  rw [← UInt8.toNat_inj, UInt8.toNat_and, hmask col hcol, Nat.and_two_pow]
  cases row.toNat.testBit (7 - col) <;> simp

/-- One point more of a sprite. -/
def drawPoint (mode : DrawMode) (drawn : Framebuffer × Bool) (p : Int × Int) :
    Framebuffer × Bool :=
  let (f, changed) := drawn.1.touch mode p.1 p.2
  (f, drawn.2 || changed)

theorem foldl_drawPoint (mode : DrawMode) (s : Screen) (reported : Bool)
    (points : List (Int × Int)) : points.foldl (drawPoint mode) (s.frame, reported)
      = ((touchAll mode s points).1.frame, reported || (touchAll mode s points).2) := by
  induction points generalizing s reported with
  | nil => exact congrArg (s.frame, ·) (Bool.or_false reported).symm
  | cons p points ih =>
    have hpoint : drawPoint mode (s.frame, reported) p
        = ((touch mode s p.1 p.2).1.frame, reported || (touch mode s p.1 p.2).2) := by
      rw [drawPoint, frame_touch]
    rw [List.foldl_cons, hpoint, ih, Bool.or_assoc]
    rfl

/-- A row of a sprite is drawn at the columns of its bits. -/
theorem drawRow_eq (mode : DrawMode) (x y : Int) (row : UInt8) (drawn : Framebuffer × Bool) :
    Framebuffer.drawRow mode x y row drawn
      = ((columns row).map fun (col : Nat) => (away x col, y)).foldl (drawPoint mode) drawn := by
  rw [List.foldl_map, columns, List.foldl_filter, Framebuffer.drawRow]
  refine List.foldl_ext _ _ _ fun drawn col hcol => ?_
  have hmasked := masked_eq_zero_iff row (List.mem_range.mp hcol)
  cases hbit : row.toNat.testBit (7 - col) with
  | false => simp [hmasked.mpr hbit]
  | true =>
    have hset : ¬ row &&& 0x80 >>> UInt8.ofNat col = 0 := fun h =>
      Bool.false_ne_true ((hmasked.mp h).symm.trans hbit)
    simp only [hset, if_false, if_true, drawPoint]

/-- **A sprite is drawn by touching its points** in order. -/
theorem draw_eq (mode : DrawMode) (s : Screen) (x y : Int) (rows : List UInt8) :
    draw mode s x y rows = touchAll mode s (footprint x y rows) := by
  have hframe : s.frame.draw mode x y rows = ((touchAll mode s (footprint x y rows)).1.frame,
      (touchAll mode s (footprint x y rows)).2) := by
    rw [← Bool.false_or (touchAll mode s (footprint x y rows)).2, ← foldl_drawPoint, footprint,
      List.foldl_flatMap, Framebuffer.draw]
    simp only [drawRow_eq]
  have hscreen := congrArg Prod.fst hframe
  have hreported := congrArg Prod.snd hframe
  exact Prod.ext (frame_inj hscreen) hreported

/-! ## Points in a row -/

theorem get_set_true (s : Screen) (x y x' y' : Int) : (s.set x y true).get x' y' = true
    ↔ s.get x' y' = true ∨ offset x y = offset x' y' := by
  rw [eq_comm (b := offset x' y'), offset_eq_iff, get_set]
  split
  case isTrue h => exact iff_of_true rfl (.inr h)
  case isFalse h => exact (or_iff_left h).symm

/-- A dark pixel lights up in either mode. -/
theorem touch_of_dark {s : Screen} {x y : Int} (h : s.get x y = false) (mode : DrawMode) :
    (touch mode s x y).1 = s.set x y true := by
  cases mode <;> simp [touch, h]

/-- **Different dark pixels light up**, and no others change. -/
theorem get_touchAll_of_dark {s : Screen} {points : List (Int × Int)}
    (hdark : ∀ p ∈ points, s.get p.1 p.2 = false)
    (hapart : points.Pairwise fun p q => offset p.1 p.2 ≠ offset q.1 q.2) (mode : DrawMode)
    (x y : Int) : (touchAll mode s points).1.get x y = true
      ↔ s.get x y = true ∨ ∃ p ∈ points, offset p.1 p.2 = offset x y := by
  induction points generalizing s with
  | nil => simp [touchAll]
  | cons p points ih =>
    obtain ⟨hp, hrest⟩ := List.forall_mem_cons.mp hdark
    obtain ⟨hfirst, hapart⟩ := List.pairwise_cons.mp hapart
    have hlater : ∀ q ∈ points, (s.set p.1 p.2 true).get q.1 q.2 = false := by
      intro q hq
      rw [Bool.eq_false_iff, Ne, get_set_true, hrest q hq]
      exact not_or.mpr ⟨Bool.false_ne_true, hfirst q hq⟩
    have hfirst : (touchAll mode s (p :: points)).1
        = (touchAll mode (s.set p.1 p.2 true) points).1 := by rw [← touch_of_dark hp mode]; rfl
    rw [hfirst, ih hlater hapart, get_set_true, or_assoc]
    simp only [List.mem_cons, or_and_right, exists_or, exists_eq_left]

/-! ## Sprites -/

/-- The bits that are set in a sprite, as pairs of a row and a column. -/
def bits (rows : List UInt8) : List (Nat × Nat) :=
  rows.zipIdx.flatMap fun (row, k) => (columns row).map fun col => (k, col)

theorem mem_bits {rows : List UInt8} {k col : Nat} :
    (k, col) ∈ bits rows
      ↔ ∃ row, rows[k]? = some row ∧ col < 8 ∧ row.toNat.testBit (7 - col) = true := by
  simp only [bits, columns, List.mem_flatMap, List.mem_map, List.mem_filter, List.mem_range,
    Prod.exists, List.mk_mem_zipIdx_iff_getElem?, Prod.mk.injEq]
  constructor
  · rintro ⟨row, _, hrow, _, hbit, rfl, rfl⟩
    exact ⟨row, hrow, hbit⟩
  · rintro ⟨row, hrow, hbit⟩
    exact ⟨row, k, hrow, col, hbit, rfl, rfl⟩

/-- No bit is listed twice. -/
theorem nodup_bits (rows : List UInt8) : (bits rows).Nodup := by
  have hcolumns (row : UInt8) : (columns row).Pairwise (· < ·) :=
    List.pairwise_lt_range.filter _
  have hindices : rows.zipIdx.Pairwise fun a b => a.2 < b.2 := by
    rw [← List.pairwise_map, List.zipIdx_map_snd]
    exact List.pairwise_lt_range' 1
  refine List.pairwise_flatMap.mpr ⟨fun ⟨row, k⟩ _ => ?_, ?_⟩
  · refine List.pairwise_map.mpr ((hcolumns row).imp fun hlt hsame => ?_)
    exact Nat.ne_of_lt hlt (Prod.mk.inj hsame).2
  · refine hindices.imp fun hlt b hb b' hb' hsame => ?_
    obtain ⟨col, -, rfl⟩ := List.mem_map.mp hb
    obtain ⟨col', -, rfl⟩ := List.mem_map.mp hb'
    exact Nat.ne_of_lt hlt (Prod.mk.inj hsame).1

/-- The points that a sprite touches are its bits, as far away from its corner. -/
theorem footprint_eq (x y : Int) (rows : List UInt8) :
    footprint x y rows = (bits rows).map fun b => (away x b.2, away y b.1) := by
  simp only [footprint, bits, List.map_flatMap, List.map_map, Function.comp_def]

theorem mem_footprint {x y : Int} {rows : List UInt8} {p : Int × Int} :
    p ∈ footprint x y rows ↔ ∃ (k : Nat) (row : UInt8) (col : Nat), rows[k]? = some row
      ∧ col < 8 ∧ row.toNat.testBit (7 - col) = true ∧ p = (away x col, away y k) := by
  rw [footprint_eq, List.mem_map]
  constructor
  · rintro ⟨⟨k, col⟩, hb, rfl⟩
    obtain ⟨row, hrow, hcol, hbit⟩ := mem_bits.mp hb
    exact ⟨k, row, col, hrow, hcol, hbit, rfl⟩
  · rintro ⟨k, row, col, hrow, hcol, hbit, rfl⟩
    exact ⟨(k, col), mem_bits.mpr ⟨row, hrow, hcol, hbit⟩, rfl⟩

/-- **A sprite within the screen**, which neither wraps around an edge nor is rounded. -/
structure Within (x y : Nat) (rows : List UInt8) : Prop where
  right : x + 8 ≤ 64
  bottom : y + rows.length ≤ 32

namespace Within

variable {x y : Nat} {rows : List UInt8}

theorem away_column (h : Within x y rows) {col : Nat} (hcol : col < 8) :
    away x col = x + col := by
  have := h.right
  exact away_eq (by omega)

theorem away_row (h : Within x y rows) {k : Nat} (hk : k < rows.length) : away y k = y + k := by
  have := h.bottom
  exact away_eq (by omega)

/-- The pixel of a bit is as far from the corner as the bit. -/
theorem offset_away_eq_iff (h : Within x y rows) {col k x' y' : Nat} (hcol : col < 8)
    (hk : k < rows.length) (hx' : x' < 64) (hy' : y' < 32) :
    offset (away x col) (away y k) = offset x' y' ↔ x' = x + col ∧ y' = y + k := by
  have hright := h.right
  have hbottom := h.bottom
  rw [offset_eq_iff, h.away_column hcol, h.away_row hk]
  omega

/-- Different bits have different pixels. -/
theorem offset_away_inj (h : Within x y rows) {col k col' k' : Nat} (hcol : col < 8)
    (hk : k < rows.length) (hcol' : col' < 8) (hk' : k' < rows.length)
    (hsame : offset (away x col) (away y k) = offset (away x col') (away y k')) :
    col = col' ∧ k = k' := by
  have hright := h.right
  have hbottom := h.bottom
  have hx' : x + col' < 64 := by omega
  have hy' : y + k' < 32 := by omega
  rw [h.away_column hcol', h.away_row hk'] at hsame
  obtain ⟨hx, hy⟩ := (h.offset_away_eq_iff hcol hk hx' hy').mp hsame
  exact ⟨(Nat.add_left_cancel hx).symm, (Nat.add_left_cancel hy).symm⟩

/-- **It touches no pixel twice.** -/
theorem footprint_pairwise (h : Within x y rows) :
    (footprint x y rows).Pairwise fun p q => offset p.1 p.2 ≠ offset q.1 q.2 := by
  have hbit {b : Nat × Nat} (hb : b ∈ bits rows) : b.2 < 8 ∧ b.1 < rows.length := by
    obtain ⟨row, hrow, hcol, -⟩ := mem_bits.mp hb
    exact ⟨hcol, (List.getElem?_eq_some_iff.mp hrow).1⟩
  rw [footprint_eq]
  refine List.pairwise_map.mpr ((nodup_bits rows).imp_of_mem fun ha hb hne hsame => hne ?_)
  obtain ⟨hcol, hk⟩ := hbit ha
  obtain ⟨hcol', hk'⟩ := hbit hb
  obtain ⟨hcolumn, hrow⟩ := h.offset_away_inj hcol hk hcol' hk' hsame
  exact Prod.ext hrow hcolumn

/-- It covers a pixel with the bit that it has there. -/
theorem exists_footprint_iff (h : Within x y rows) {x' y' : Nat} (hx' : x' < 64) (hy' : y' < 32) :
    (∃ p ∈ footprint x y rows, offset p.1 p.2 = offset x' y')
      ↔ ∃ (k : Nat) (row : UInt8) (col : Nat), rows[k]? = some row ∧ col < 8
        ∧ row.toNat.testBit (7 - col) = true ∧ x' = x + col ∧ y' = y + k := by
  constructor
  · rintro ⟨p, hp, hoffset⟩
    obtain ⟨k, row, col, hrow, hcol, hbit, rfl⟩ := mem_footprint.mp hp
    have hk : k < rows.length := (List.getElem?_eq_some_iff.mp hrow).1
    exact ⟨k, row, col, hrow, hcol, hbit, (h.offset_away_eq_iff hcol hk hx' hy').mp hoffset⟩
  · rintro ⟨k, row, col, hrow, hcol, hbit, hpixel⟩
    have hk : k < rows.length := (List.getElem?_eq_some_iff.mp hrow).1
    refine ⟨_, mem_footprint.mpr ⟨k, row, col, hrow, hcol, hbit, rfl⟩, ?_⟩
    exact (h.offset_away_eq_iff hcol hk hx' hy').mpr hpixel

/-- **A sprite on dark pixels** lights those it covers and leaves the others alone, in either
mode. -/
theorem get_draw (h : Within x y rows) {s : Screen}
    (hdark : ∀ p ∈ footprint x y rows, s.get p.1 p.2 = false) (mode : DrawMode) {x' y' : Nat}
    (hx' : x' < 64) (hy' : y' < 32) : (draw mode s x y rows).1.get x' y' = true
      ↔ s.get x' y' = true ∨ ∃ (k : Nat) (row : UInt8) (col : Nat), rows[k]? = some row ∧ col < 8
        ∧ row.toNat.testBit (7 - col) = true ∧ x' = x + col ∧ y' = y + k := by
  rw [draw_eq, get_touchAll_of_dark hdark h.footprint_pairwise, h.exists_footprint_iff hx' hy']

end Within

end Screen

namespace Machine

variable {m : Machine} {n : Int}

/-- **A sprite that can be read whole** is drawn. -/
theorem drawSprite_of_overrun (h0 : 0 ≤ m.registers.index)
    (h : Memory.overrun m.registers.index n.toNat = none) (x y : Int) :
    let rows := m.memory.readUpTo m.registers.index n.toNat
    let drawn := m.screen.draw m.drawMode (m.registers.get x) (m.registers.get y) rows
    m.drawSprite x y n = done { m with
      screen := drawn.1, registers := m.registers.set Registers.flag drawn.2.toNat } := by
  have hall : Memory.shortfall m.registers.index
      (m.memory.readUpTo m.registers.index n.toNat).length n.toNat = none := by
    rw [Memory.length_readUpTo _ h0, Memory.shortfall_eq_overrun h0, h]
  simp only [drawSprite, hall]

theorem drawSprite_of_le {rows : List UInt8} (h0 : 0 ≤ m.registers.index)
    (h : m.registers.index + n ≤ 0x1000)
    (hrows : m.memory.readUpTo m.registers.index n.toNat = rows) (x y : Int) :
    let drawn := m.screen.draw m.drawMode (m.registers.get x) (m.registers.get y) rows
    m.drawSprite x y n = done { m with
      screen := drawn.1, registers := m.registers.set Registers.flag drawn.2.toNat } :=
  hrows ▸ drawSprite_of_overrun h0 (if_neg (by omega)) x y

end Machine

end ChipEight
