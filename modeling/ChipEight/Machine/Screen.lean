import ChipEight.Number.Binary64

/-!
# Machine/Screen — a torus of 64 by 32 pixels

Coordinates run to the right and down and wrap around both edges.  They are doubles, so far away
from the screen the pixels of a sprite fall together.  A sprite is a byte per row, most significant
bit leftmost; the two draw modes differ in what a sprite bit does to a lit pixel.

* `set` lights it or leaves it lit, and a draw reports whether a pixel was newly lit;
* `xor` toggles it, and a draw reports whether a pixel was turned off.

A pixel is kept in a byte, of which any value but zero is lit, and lit pixels are counted by adding
the bytes up (`Framebuffer`).  That counts pixels because all that is ever written is zero and one,
which a `Screen` knows of its bytes.
-/

namespace ChipEight

inductive DrawMode where
  | set
  | xor
  deriving DecidableEq, Repr

/-! ## Coordinates -/

namespace Screen

def width : Nat := 64

def height : Nat := 32

/-- The place of a pixel in the row order. -/
def offset (x y : Int) : Fin 2048 :=
  ⟨(y % 32).toNat * 64 + (x % 64).toNat, by
    have hx := Int.emod_nonneg x (show (64 : Int) ≠ 0 by decide)
    have hy := Int.emod_nonneg y (show (32 : Int) ≠ 0 by decide)
    omega⟩

/-- Two coordinates name one pixel exactly when they agree around the torus. -/
theorem offset_eq_iff (x y x' y' : Int) :
    offset x y = offset x' y' ↔ x % 64 = x' % 64 ∧ y % 32 = y' % 32 := by
  simp only [offset, Fin.mk.injEq]
  omega

/-- The coordinate so many pixels away from a sprite's origin. -/
def away (origin : Int) (k : Nat) : Int := Binary64.nearestWhole (origin + k)

/-- Within the reach of whole doubles nothing is rounded. -/
theorem away_eq {origin : Int} {k : Nat} (h : (origin + k).natAbs ≤ 0x20000000000000) :
    away origin k = origin + k :=
  Binary64.nearestWhole_of_natAbs_le h

/-! ## Text -/

/-- The text of a lit pixel. -/
def litMark : Char := '█'

/-- The text of a dark pixel. -/
def darkMark : Char := ' '

/-- A grid of any size as rows of text. -/
def renderGrid (width height : Nat) (lit : Nat → Nat → Bool) : List String :=
  (List.range height).map fun y =>
    String.ofList ((List.range width).map fun x => if lit x y then litMark else darkMark)

end Screen

/-! ## Bytes for pixels -/

/-- A byte for each pixel, in rows from the top left. -/
structure Framebuffer where
  cells : Vector UInt8 2048
  deriving DecidableEq

namespace Framebuffer

def cleared : Framebuffer := ⟨Vector.replicate 2048 0⟩

/-- A pixel is lit if its byte is not zero. -/
def get (f : Framebuffer) (x y : Int) : Bool := f.cells[Screen.offset x y] ≠ 0

def set (f : Framebuffer) (x y : Int) (on : Bool) : Framebuffer :=
  ⟨f.cells.set (Screen.offset x y) (if on then 1 else 0)⟩

/-- One sprite bit: the pixels behind it, and whether its own changed the way the mode reports. -/
def touch (mode : DrawMode) (f : Framebuffer) (x y : Int) : Framebuffer × Bool :=
  let on := f.get x y
  match mode with
  | .set => if on then (f, false) else (f.set x y true, true)
  | .xor => (f.set x y (!on), on)

/-- A row of a sprite, bit by bit from the left; bits that are not set are passed over. -/
def drawRow (mode : DrawMode) (x y : Int) (row : UInt8) (drawn : Framebuffer × Bool) :
    Framebuffer × Bool :=
  (List.range 8).foldl (fun (f, reported) col =>
    if row &&& 0x80 >>> UInt8.ofNat col = 0 then (f, reported)
    else
      let (f, changed) := f.touch mode (Screen.away x col) y
      (f, reported || changed)) drawn

/-- **Drawing a sprite** with its top left corner at `(x, y)`, row by row from the top: the pixels
behind it, and whether one of them was reported. -/
def draw (mode : DrawMode) (f : Framebuffer) (x y : Int) (rows : List UInt8) :
    Framebuffer × Bool :=
  rows.zipIdx.foldl (fun drawn (row, k) => drawRow mode x (Screen.away y k) row drawn) (f, false)

/-- The number of lit pixels, as the sum of the bytes. -/
def countLit (f : Framebuffer) : Nat := f.cells.toList.foldl (fun lit cell => lit + cell.toNat) 0

def render (f : Framebuffer) : List String :=
  Screen.renderGrid Screen.width Screen.height fun x y => f.get x y

/-- **Every byte is zero or one.** -/
def Binary (f : Framebuffer) : Prop := ∀ i : Fin 2048, f.cells[i] = 0 ∨ f.cells[i] = 1

theorem binary_cleared : cleared.Binary := fun i => .inl (Vector.getElem_replicate i.isLt)

namespace Binary

variable {f : Framebuffer} (h : f.Binary)

include h

theorem set (x y : Int) (on : Bool) : (f.set x y on).Binary := by
  intro i
  simp only [Framebuffer.set, Fin.getElem_fin, Vector.getElem_set]
  split
  · cases on
    · exact .inl rfl
    · exact .inr rfl
  · exact h i

theorem touch (mode : DrawMode) (x y : Int) : (f.touch mode x y).1.Binary := by
  cases mode with
  | set =>
    rw [Framebuffer.touch]
    split
    · exact h
    · exact h.set x y true
  | xor => exact h.set x y _

theorem drawRow (mode : DrawMode) (x y : Int) (row : UInt8) (reported : Bool) :
    (Framebuffer.drawRow mode x y row (f, reported)).1.Binary := by
  let binary (drawn : Framebuffer × Bool) : Prop := drawn.1.Binary
  refine List.foldlRecOn (motive := binary) _ _ h fun drawn hdrawn col _ => ?_
  dsimp only
  split
  · exact hdrawn
  · exact Binary.touch hdrawn mode _ y

theorem draw (mode : DrawMode) (x y : Int) (rows : List UInt8) :
    (f.draw mode x y rows).1.Binary := by
  let binary (drawn : Framebuffer × Bool) : Prop := drawn.1.Binary
  exact List.foldlRecOn (motive := binary) _ _ h fun drawn hdrawn row _ =>
    Binary.drawRow hdrawn mode x _ row.1 drawn.2

end Binary

theorem get_set (f : Framebuffer) (x y x' y' : Int) (on : Bool) : (f.set x y on).get x' y'
    = if x' % 64 = x % 64 ∧ y' % 32 = y % 32 then on else f.get x' y' := by
  have h := Screen.offset_eq_iff x y x' y'
  simp only [get, set, Fin.getElem_fin, Vector.getElem_set, ← Fin.ext_iff]
  simp only [h, eq_comm]
  cases on <;> split <;> rfl

end Framebuffer

/-! ## The screen -/

/-- **The screen**: bytes of which each is zero or one. -/
structure Screen where
  frame : Framebuffer
  binary : frame.Binary
  deriving DecidableEq

namespace Screen

def blank : Screen := ⟨.cleared, Framebuffer.binary_cleared⟩

def get (s : Screen) (x y : Int) : Bool := s.frame.get x y

def set (s : Screen) (x y : Int) (on : Bool) : Screen :=
  ⟨s.frame.set x y on, s.binary.set x y on⟩

theorem get_set (s : Screen) (x y x' y' : Int) (on : Bool) :
    (s.set x y on).get x' y' = if x' % 64 = x % 64 ∧ y' % 32 = y % 32 then on else s.get x' y' :=
  s.frame.get_set x y x' y' on

/-- **Drawing a sprite** on the screen. -/
def draw (mode : DrawMode) (s : Screen) (x y : Int) (rows : List UInt8) : Screen × Bool :=
  let drawn := s.frame.draw mode x y rows
  (⟨drawn.1, s.binary.draw mode x y rows⟩, drawn.2)

/-- The number of lit pixels. -/
def countLit (s : Screen) : Nat := s.frame.countLit

def render (s : Screen) : List String := s.frame.render

end Screen

end ChipEight
