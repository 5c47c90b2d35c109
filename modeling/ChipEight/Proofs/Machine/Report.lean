import ChipEight.Proofs.Machine.Aftermath
import ChipEight.Proofs.Machine.Arithmetic
import ChipEight.Proofs.Machine.Overlay

/-!
# Proofs/Machine/Report — what a sprite reports can be seen on the screen

While a sprite is drawn it reports single hits, but unless it is taller than the screen it hits no
pixel twice (`hits_le_one`), wherever it wraps around.  So its report says no more than the screens
before and behind it, in either mode, and that is what an instruction leaves in `VF`
(`step_drawn`).
-/

namespace ChipEight

namespace Screen

variable {x y : Int} {rows : List UInt8}

/-- **No pixel is hit twice** by a sprite that is not taller than the screen. -/
theorem hits_le_one (x y : Int) (hrows : rows.length ≤ 32) (px py : Int) :
    hits x y rows px py ≤ 1 := by
  refine Finset.card_le_one.mpr fun (row, col) hb (row', col') hb' => ?_
  simp only [Finset.mem_filter, Finset.mem_product, Finset.mem_range] at hb hb'
  obtain ⟨⟨hrow, hcol⟩, -, hx, hy⟩ := hb
  obtain ⟨⟨hrow', hcol'⟩, -, hx', hy'⟩ := hb'
  -- The bits lie at most 7 columns and 31 rows apart, so neither 64 nor 32 comes between them.
  have hsame : row = row' ∧ col = col' := ⟨by omega, by omega⟩
  exact Prod.ext hsame.1 hsame.2

section

variable (h : Exact x y rows) (s : Screen)
include h

/-- Lighting is reported if a pixel has been lit. -/
theorem Exact.draw_set_reports_iff : (draw .set s x y rows).2 = true ↔ ∃ px py : Nat,
    px < 64 ∧ py < 32 ∧ s.get px py = false ∧ (draw .set s x y rows).1.get px py = true := by
  rw [h.draw_set_reports]
  refine exists₂_congr fun px py => and_congr_right fun hpx => and_congr_right fun hpy => ?_
  rw [h.get_draw_set s hpx hpy]
  cases s.get px py <;> simp

/-- Toggling is reported if a pixel has been turned off. -/
theorem Exact.draw_xor_reports_iff (hrows : rows.length ≤ 32) :
    (draw .xor s x y rows).2 = true ↔ ∃ px py : Nat,
      px < 64 ∧ py < 32 ∧ s.get px py = true ∧ (draw .xor s x y rows).1.get px py = false := by
  rw [h.draw_xor_reports]
  refine exists₂_congr fun px py => and_congr_right fun hpx => and_congr_right fun hpy => ?_
  have honce := hits_le_one x y hrows px py
  rw [h.get_draw_xor s hpx hpy]
  cases s.get px py <;> simp <;> omega

end

end Screen

namespace Machine

open Screen (hits)

/-- **A sprite that an instruction has drawn** with its corner at `(x, y)`.  Nothing has changed but
the program counter, the screen and `VF`; the pixels that a bit has hit are lit or toggled, and `VF`
tells if that has lit or darkened one. -/
structure Drawn (m : Machine) (x y : Nat) (rows : List UInt8) (after : Machine) : Prop where
  machine : let drawn := m.screen.draw m.drawMode x y rows
    after = { m with
      pc := m.pc + 2, screen := drawn.1
      registers := m.registers.set Registers.flag drawn.2.toNat }
  once : ∀ px py, hits x y rows px py ≤ 1
  lights : m.drawMode = .set → ∀ px py : Nat, px < 64 → py < 32 →
    (after.screen.get px py = true ↔ m.screen.get px py = true ∨ hits x y rows px py = 1)
  toggles : m.drawMode = .xor → ∀ px py : Nat, px < 64 → py < 32 →
    after.screen.get px py = (m.screen.get px py ^^ decide (hits x y rows px py = 1))
  flag : after.registers.get Registers.flag ≤ 1
  lit : m.drawMode = .set → (after.registers.get Registers.flag = 1 ↔ ∃ px py : Nat,
    px < 64 ∧ py < 32 ∧ m.screen.get px py = false ∧ after.screen.get px py = true)
  counted : m.drawMode = .set →
    (after.registers.get Registers.flag = 1 ↔ m.screen.countLit < after.screen.countLit)
  darkened : m.drawMode = .xor → (after.registers.get Registers.flag = 1 ↔ ∃ px py : Nat,
    px < 64 ∧ py < 32 ∧ m.screen.get px py = true ∧ after.screen.get px py = false)

variable {m : Machine}

/-- A sprite that is not taller than the screen, with its corner where two bytes say. -/
theorem drawn_of_le (m : Machine) {x y : Nat} {rows : List UInt8} (hx : x < 0x100)
    (hy : y < 0x100) (hrows : rows.length ≤ 32) :
    let drawn := m.screen.draw m.drawMode x y rows
    m.Drawn x y rows { m with
      pc := m.pc + 2, screen := drawn.1
      registers := m.registers.set Registers.flag drawn.2.toNat } := by
  have hexact : Screen.Exact x y rows :=
    Screen.exact_of_natAbs_le (by omega) (by omega) (by omega) (by omega)
  have honce := Screen.hits_le_one x y hrows
  have hflag (b : Bool) : (m.registers.set Registers.flag b.toNat).get Registers.flag = b.toNat :=
    m.registers.get_set_flag (Nat.lt_of_le_of_lt b.toNat_le (by decide))
  constructor
  case machine => rfl
  case once => exact honce
  case lights =>
    intro hmode px py hpx hpy
    have hone : 0 < hits x y rows px py ↔ hits x y rows px py = 1 := by
      have := honce px py
      omega
    simp only [hmode, hexact.get_draw_set m.screen hpx hpy, hone]
  case toggles =>
    intro hmode px py hpx hpy
    have hodd : hits x y rows px py % 2 = 1 ↔ hits x y rows px py = 1 := by
      have := honce px py
      omega
    simp only [hmode, hexact.get_draw_xor m.screen hpx hpy, hodd]
  case flag => exact (hflag _).trans_le (Bool.toNat_le _)
  all_goals
    intro hmode
    simp only [hflag, Bool.toNat_eq_one, hmode]
  case lit => exact hexact.draw_set_reports_iff m.screen
  case counted => exact Screen.drawSprite_reports_iff m.screen ⟨x, y, rows⟩
  case darkened => exact hexact.draw_xor_reports_iff m.screen hrows

/-- **An instruction that draws a sprite, from end to end.**  If its rows lie in memory it is
executed, and it draws them with the corner where the registers said that it found.  Without rows
`I` may be anywhere; then nothing is drawn, and `VF` is cleared. -/
theorem step_drawn (random : Int) {w : Nat} (hphase : m.phase = .running)
    (hindex : 0 ≤ m.registers.index) (hread : m.memory.readWord m.pc = .ok w)
    (hword : w / 0x1000 = 0xD)
    (hreach : w % 0x10 = 0 ∨ m.registers.index + (w % 0x10 : Nat) - 1 ≤ 0xFFF) :
    ∃ rows : List UInt8, rows.length = w % 0x10
      ∧ (∀ (k : Nat) (b : UInt8), rows[k]? = some b →
        m.memory.read (m.registers.index + k) = .ok b)
      ∧ (m.step random).answer = .ok true
      ∧ m.Drawn (m.registers.get (w / 0x100 % 0x10 : Nat)) (m.registers.get (w / 0x10 % 0x10 : Nat))
        rows (m.step random).machine
      ∧ (w % 0x10 = 0 → (m.step random).machine.screen = m.screen
        ∧ (m.step random).machine.registers.get Registers.flag = 0) := by
  have hnone : Memory.overrun m.registers.index (w % 0x10 : Nat) = none := if_neg (by omega)
  have hdrawn := drawSprite_of_overrun (m := m.advance) (n := (w % 0x10 : Nat)) hindex hnone
    (w / 0x100 % 0x10 : Nat) (w / 0x10 % 0x10 : Nat)
  have hstepping : m.Stepping random _ :=
    .executed hphase hread (ofWord?_of_draw hword) (congrArg Effect.fault hdrawn)
  have hstep := hstepping.step_eq
  rw [execute, hdrawn, advance_eq hread] at hstep
  have hlength : (m.memory.readUpTo m.registers.index (w % 0x10)).length = w % 0x10 := by
    rw [Memory.length_readUpTo _ hindex]
    omega
  rw [hstep]
  refine ⟨_, hlength, fun k b hb => Memory.read_of_readUpTo hb, rfl, ?_, fun hzero => ?_⟩
  · exact m.drawn_of_le (m.registers.get_lt _) (m.registers.get_lt _) (by omega)
  · simp only [done, hzero]
    exact ⟨rfl, m.registers.get_set_flag (f := 0) (by decide)⟩

/-- A machine about to draw the first byte of its program across the right edge of the screen, with
`VF` for both coordinates. -/
def beforeSprite : Machine := holding [0xDF, 0xF1] (Registers.zero.set Registers.flag 63)

theorem step_drawn_beforeSprite :
    (beforeSprite.phase = .running ∧ 0 ≤ beforeSprite.registers.index
        ∧ beforeSprite.memory.readWord beforeSprite.pc = .ok 0xDFF1 ∧ 0xDFF1 / 0x1000 = 0xD
        ∧ beforeSprite.registers.index + (0xDFF1 % 0x10 : Nat) - 1 ≤ 0xFFF)
      ∧ (beforeSprite.step 0).answer = .ok true
      ∧ (beforeSprite.step 0).machine.screen.get 63 31 = true
      ∧ (beforeSprite.step 0).machine.registers.get Registers.flag = 1
      ∧ 0 < (beforeSprite.step 0).machine.screen.countLit := by
  have hread : beforeSprite.memory.readWord beforeSprite.pc = .ok 0xDFF1 := rfl
  have hreach : beforeSprite.registers.index + (0xDFF1 % 0x10 : Nat) - 1 ≤ 0xFFF := by decide
  obtain ⟨rows, hlength, hrows, hanswer, hdrawn, -⟩ :=
    beforeSprite.step_drawn 0 rfl (by decide) hread (by decide) (.inr hreach)
  obtain ⟨b, rfl⟩ := List.length_eq_one_iff.mp hlength
  obtain rfl : 0xDF = b := Except.ok.inj (hrows 0 b rfl)
  have hhit : Screen.hits 63 63 [0xDF] 63 31 = 1 := by decide +kernel
  have hlit := (hdrawn.lights rfl 63 31 (by decide) (by decide)).mpr (.inr hhit)
  have hflag := (hdrawn.lit rfl).mpr
    ⟨63, 31, by decide, by decide, Screen.get_blank 63 31, hlit⟩
  have hmore := Nat.zero_lt_of_lt ((hdrawn.counted rfl).mp hflag)
  exact ⟨⟨rfl, by decide, hread, by decide, hreach⟩, hanswer, hlit, hflag, hmore⟩

end Machine

end ChipEight
