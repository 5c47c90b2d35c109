import ChipEight.Proofs.Machine.Drawing

/-!
# Proofs/Machine/Torus — the pixels of a screen, and its text

A coordinate counts modulo the size of the screen, below zero as well as beyond the edge
(`wrap_eq_emod`), and every pixel has a place of its own.  The text of a grid shows all of it: a
row of text for a row of pixels and a mark for a pixel (`getElem?_renderGrid`), so pixels can be
read off their text.

The lit pixels are the lit marks of the text, but they are counted by adding up bytes.  The two
agree because no operation leaves a byte other than zero and one (`binary_run`).
-/

namespace ChipEight.Screen

/-! ## Coordinates -/

/-- A coordinate taken around an edge, by remainders that have the sign of what is divided. -/
def wrap (a size : Int) : Int := (a.tmod size + size).tmod size

/-- **Taken around, a coordinate is its remainder** that is not negative. -/
theorem wrap_eq_emod (a : Int) {size : Int} (h : 0 < size) : wrap a size = a % size := by
  have hlow : 0 ≤ a.tmod size + size := by
    have := Int.lt_tmod_of_pos a h
    omega
  calc wrap a size
    _ = (a.tmod size + size) % size := Int.tmod_eq_emod_of_nonneg hlow
    _ = (a - size * a.tdiv size) % size := by rw [Int.add_emod_right, Int.tmod_def]
    _ = a % size := Int.sub_mul_emod_self_left ..

/-- A row of places after the other, from the top. -/
theorem offset_eq_wrap (x y : Int) :
    ((offset x y).val : Int) = wrap y height * width + wrap x width := by
  have hx := Int.emod_nonneg x (show (64 : Int) ≠ 0 by decide)
  have hy := Int.emod_nonneg y (show (32 : Int) ≠ 0 by decide)
  rw [wrap_eq_emod y (by decide), wrap_eq_emod x (by decide)]
  simp only [offset, height, width]
  omega

/-! ## Text -/

section

variable {width height : Nat} {lit lit' : Nat → Nat → Bool}

/-- What stands for a pixel in a text. -/
def mark (on : Bool) : Char := if on then litMark else darkMark

theorem mark_eq_litMark_iff {on : Bool} : mark on = litMark ↔ on = true := by
  cases on <;> decide

theorem mark_inj {on on' : Bool} (h : mark on = mark on') : on = on' := by
  rw [Bool.eq_iff_iff, ← mark_eq_litMark_iff, ← mark_eq_litMark_iff, h]

theorem getElem?_renderGrid {y : Nat} (hy : y < height) :
    (renderGrid width height lit)[y]?
      = some (String.ofList ((List.range width).map fun x => mark (lit x y))) := by
  rw [renderGrid, List.getElem?_map, List.getElem?_range hy]
  rfl

/-- A grid can be read off its text. -/
theorem renderGrid_inj (h : renderGrid width height lit = renderGrid width height lit') {x y : Nat}
    (hx : x < width) (hy : y < height) : lit x y = lit' x y := by
  have hrow := String.ofList_inj.mp (List.map_inj_left.mp h y (List.mem_range.mpr hy))
  exact mark_inj (List.map_inj_left.mp hrow x (List.mem_range.mpr hx))

end

end ChipEight.Screen

namespace ChipEight.Framebuffer

open Screen

/-- A byte of the screen is that of a column and a row. -/
theorem get_of_place (f : Framebuffer) {i : Nat} (hi : i < 2048) :
    f.get (i % 64 : Nat) (i / 64 : Nat) = decide (f.cells[i] ≠ 0) := by
  simp only [get, Fin.getElem_fin, offset_of_place hi]

/-- Around the edges there are no other pixels. -/
theorem get_emod (f : Framebuffer) (x y : Int) : f.get x y = f.get (x % 64) (y % 32) := by
  have hoffset : offset x y = offset (x % 64) (y % 32) :=
    (offset_eq_iff ..).mpr ⟨(Int.emod_emod_of_dvd x (by decide)).symm,
      (Int.emod_emod_of_dvd y (by decide)).symm⟩
  simp only [get, hoffset]

/-- **Bytes with the same text** are the same pixels. -/
theorem render_eq_iff {f f' : Framebuffer} :
    f.render = f'.render ↔ ∀ x y, f.get x y = f'.get x y := by
  refine ⟨fun h x y => ?_, fun h => ?_⟩
  · obtain ⟨a, ha⟩ := Int.eq_ofNat_of_zero_le (Int.emod_nonneg x (show (64 : Int) ≠ 0 by decide))
    obtain ⟨b, hb⟩ := Int.eq_ofNat_of_zero_le (Int.emod_nonneg y (show (32 : Int) ≠ 0 by decide))
    rw [render, render] at h
    rw [f.get_emod, f'.get_emod, ha, hb]
    exact renderGrid_inj h (show a < 64 by omega) (show b < 32 by omega)
  · simp only [render, h]

/-! ## Counting -/

/-- Rows of places, put one behind the other. -/
theorem flatMap_range_mul (width height : Nat) :
    (List.range height).flatMap (fun y => (List.range width).map (y * width + ·))
      = List.range (height * width) := by
  induction height with
  | zero => rw [Nat.zero_mul]; rfl
  | succ height ih =>
    rw [List.range_succ, List.flatMap_append, ih, List.flatMap_singleton, Nat.succ_mul,
      List.range_add]

/-- The pixels of the bytes, row by row. -/
theorem map_cells (f : Framebuffer) : f.cells.toList.map (fun c => decide (c ≠ 0))
    = (List.range height).flatMap fun (y : Nat) => (List.range width).map fun (x : Nat) =>
        f.get x y := by
  have hall : f.cells.toList.map (fun c => decide (c ≠ 0))
      = (List.range (height * width)).map fun (i : Nat) => f.get (i % 64 : Nat) (i / 64 : Nat) := by
    refine List.ext_getElem (by simp [height, width]) fun i hi _ => ?_
    rw [List.getElem_map, List.getElem_map, List.getElem_range,
      f.get_of_place (by simpa using hi), Vector.getElem_toList]
  rw [hall, ← flatMap_range_mul, List.map_flatMap]
  refine congrArg (List.flatMap · _) (funext fun y => ?_)
  rw [List.map_map]
  refine List.map_congr_left fun x hx => ?_
  have hx : x < 64 := List.mem_range.mp hx
  have hcolumn : (y * width + x) % 64 = x := by simp only [width]; omega
  have hrow : (y * width + x) / 64 = y := by simp only [width]; omega
  rw [Function.comp_apply, hcolumn, hrow]

/-- The text, row after row, has a mark for each byte in order. -/
theorem flatMap_render (f : Framebuffer) : f.render.flatMap String.toList
    = f.cells.toList.map fun c => mark (decide (c ≠ 0)) := by
  have hmarks := congrArg (List.map mark) f.map_cells
  rw [List.map_map, List.map_flatMap] at hmarks
  rw [render, renderGrid, List.flatMap_map]
  refine Eq.trans ?_ hmarks.symm
  refine congrArg (List.flatMap · _) (funext fun y => ?_)
  rw [String.toList_ofList, List.map_map]
  rfl

/-- **Bytes that are zero or one are counted right**: their sum is the number of lit marks. -/
theorem Binary.count_render {f : Framebuffer} (h : f.Binary) :
    (f.render.flatMap String.toList).count litMark = f.countLit := by
  rw [flatMap_render, countLit_eq h, List.count, List.count, List.countP_map]
  refine List.countP_congr fun c hc => ?_
  rw [Function.comp_apply, beq_iff_eq, beq_iff_eq, mark_eq_litMark_iff, decide_eq_true_eq]
  rcases h.of_mem hc with rfl | rfl <;> decide

/-! ## Operations -/

/-- What is done to the pixels. -/
inductive Op where
  | set (x y : Int) (on : Bool)
  | draw (x y : Int) (rows : List UInt8)
  | clear
  deriving DecidableEq

def apply (mode : DrawMode) (f : Framebuffer) : Op → Framebuffer
  | .set x y on => f.set x y on
  | .draw x y rows => (f.draw mode x y rows).1
  | .clear => cleared

/-- The bytes behind a row of operations, which begin with all pixels dark. -/
def run (mode : DrawMode) (ops : List Op) : Framebuffer := ops.foldl (apply mode) cleared

theorem Binary.apply {f : Framebuffer} (h : f.Binary) (mode : DrawMode) (op : Op) :
    (f.apply mode op).Binary := by
  cases op with
  | set x y on => exact h.set x y on
  | draw x y rows => exact h.draw mode x y rows
  | clear => exact binary_cleared

/-- **Whatever is done, every byte is zero or one.** -/
theorem binary_run (mode : DrawMode) (ops : List Op) : (run mode ops).Binary := by
  suffices hrun : ∀ f : Framebuffer, f.Binary → (ops.foldl (Framebuffer.apply mode) f).Binary from
    hrun _ binary_cleared
  induction ops with
  | nil => exact fun _ h => h
  | cons op ops ih => exact fun f h => ih _ (h.apply mode op)

end ChipEight.Framebuffer

namespace ChipEight.Screen

theorem render_eq_iff {s s' : Screen} : s.render = s'.render ↔ ∀ x y, s.get x y = s'.get x y :=
  Framebuffer.render_eq_iff

/-- The screen behind an operation. -/
def apply (mode : DrawMode) (s : Screen) : Framebuffer.Op → Screen
  | .set x y on => s.set x y on
  | .draw x y rows => (s.draw mode x y rows).1
  | .clear => blank

def run (mode : DrawMode) (ops : List Framebuffer.Op) : Screen := ops.foldl (apply mode) blank

/-- **Operations on the screen** are those on its bytes. -/
theorem frame_run (mode : DrawMode) (ops : List Framebuffer.Op) :
    (run mode ops).frame = Framebuffer.run mode ops := by
  suffices hrun : ∀ s : Screen, (ops.foldl (apply mode) s).frame
      = ops.foldl (Framebuffer.apply mode) s.frame from hrun blank
  induction ops with
  | nil => exact fun _ => rfl
  | cons op ops ih =>
    intro s
    have hop : (s.apply mode op).frame = s.frame.apply mode op := by cases op <;> rfl
    rw [List.foldl_cons, List.foldl_cons, ih, hop]

/-! ## The torus and its text -/

/-- **A screen is a torus of 64 by 32 pixels, and its text loses nothing.**  Wherever a coordinate
lies, its pixel has a place on the screen; setting a pixel changes it for all coordinates that agree
with its own around the edges, and no other.  The text of a grid of any size has a row for each of
its rows and a character for each pixel of that row, which shows whether the pixel is lit.  So bytes
have the same text exactly when they have the same pixels.  And whatever pixels are set, sprites
drawn and screens cleared, every byte is zero or one, their sum is the number of lit marks, and they
are the bytes of the screen to which the same is done. -/
theorem torus_lossless :
    (∀ x y : Int, (offset x y).val ≤ 2047
      ∧ ((offset x y).val : Int) = wrap y height * width + wrap x width)
    ∧ (∀ (f : Framebuffer) (x y x' y' : Int) (on : Bool), (f.set x y on).get x' y'
        = if x' % 64 = x % 64 ∧ y' % 32 = y % 32 then on else f.get x' y')
    ∧ (∀ (width height : Nat) (lit : Nat → Nat → Bool),
        (renderGrid width height lit).length = height
        ∧ ∀ y < height, ∃ row, (renderGrid width height lit)[y]? = some row ∧ row.length = width
          ∧ ∀ x < width, ∃ c, row.toList[x]? = some c ∧ (c = litMark ∨ c = darkMark)
            ∧ (c = litMark ↔ lit x y = true))
    ∧ (∀ f f' : Framebuffer, f.render = f'.render ↔ ∀ x y, f.get x y = f'.get x y)
    ∧ ∀ (mode : DrawMode) (ops : List Framebuffer.Op),
        let f := Framebuffer.run mode ops
        (∀ c ∈ f.cells.toList, c = 0 ∨ c = 1)
          ∧ f.countLit = (f.render.flatMap String.toList).count litMark
          ∧ (run mode ops).frame = f := by
  refine ⟨fun x y => ⟨Nat.le_of_lt_succ (offset x y).isLt, offset_eq_wrap x y⟩,
    Framebuffer.get_set, ?_, fun _ _ => Framebuffer.render_eq_iff, fun mode ops => ?_⟩
  · intro width height lit
    refine ⟨by rw [renderGrid, List.length_map, List.length_range], fun y hy => ?_⟩
    refine ⟨_, getElem?_renderGrid hy, ?_,
      fun x hx => ⟨mark (lit x y), ?_, ?_, mark_eq_litMark_iff⟩⟩
    · rw [String.length_ofList, List.length_map, List.length_range]
    · rw [String.toList_ofList, List.getElem?_map, List.getElem?_range hx]
      rfl
    · cases lit x y
      · exact .inr rfl
      · exact .inl rfl
  · have hbinary := Framebuffer.binary_run mode ops
    exact ⟨fun _ => hbinary.of_mem, hbinary.count_render.symm, frame_run mode ops⟩

/-- A pixel set from beyond the edges, a sprite across the edge that turns it off and lights two
others, and a grid of its own. -/
theorem torus_lossless_corner :
    let f := Framebuffer.cleared.set (-1) 33 true
    let corner : Nat → Nat → Bool := fun x y => x = 2 ∧ y = 1
    let drawn := Framebuffer.run .xor [.clear, .set (-1) 33 true, .draw 62 1 [0xE0]]
    (f.get 63 1 = true ∧ f.get 127 (-31) = true ∧ f.get 62 1 = false)
      ∧ f.render ≠ Framebuffer.cleared.render
      ∧ 1 < 2 ∧ 2 < 3 ∧ (∃ row, (renderGrid 3 2 corner)[1]? = some row ∧ row.length = 3
        ∧ row.toList[2]? = some litMark)
      ∧ drawn.countLit = 2 ∧ (drawn.render.flatMap String.toList).count litMark = 2 := by
  intro f corner drawn
  obtain ⟨-, hset, hgrid, hsame, hrun⟩ := torus_lossless
  have hcleared (x y : Int) : Framebuffer.cleared.get x y = false := get_blank x y
  have hcount : drawn.countLit = 2 := by decide +kernel
  obtain ⟨-, hmarked, -⟩ := hrun .xor [.clear, .set (-1) 33 true, .draw 62 1 [0xE0]]
  have hlit : f.get 63 1 = true := hset .cleared (-1) 33 63 1 true
  have hdark : f.get 62 1 = false := (hset .cleared (-1) 33 62 1 true).trans (hcleared 62 1)
  refine ⟨⟨hlit, hset .cleared (-1) 33 127 (-31) true, hdark⟩, fun h => ?_, by decide, by decide,
    ?_, hcount, hmarked.symm.trans hcount⟩
  · cases hlit.symm.trans (((hsame f .cleared).mp h 63 1).trans (hcleared 63 1))
  · obtain ⟨-, hrows⟩ := hgrid 3 2 corner
    obtain ⟨row, hrow, hlength, hmarks⟩ := hrows 1 (by decide)
    obtain ⟨c, hc, -, hmark⟩ := hmarks 2 (by decide)
    exact ⟨row, hrow, hlength, hc.trans (congrArg some (hmark.mpr rfl))⟩

end ChipEight.Screen
