import ChipEight.Proofs.Machine.Blocks
import ChipEight.Proofs.Machine.Picture

/-!
# Proofs/Program/Outline — running a program without its machine

An outline says of a machine what a program that draws glyphs depends on: the program counter, the
registers but the flag, the bytes stored last, and the screen as a picture.  It leaves the flag and
the draw mode open, and an instruction carries an outline on without looking at them (`after`).
Where the instruction is one of those that an outline can follow (`Allows`), a step of any machine
that the outline describes executes it, and then the outline that is carried on describes the
machine (`Describes.step`).
-/

namespace ChipEight

/-! ## Digits -/

theorem Machine.length_decimalDigits (n : Nat) : (decimalDigits n).length = 3 := rfl

theorem Machine.map_decimalDigits (n : Nat) : (decimalDigits n).map UInt8.toNat
    = [n / 100 % 0x100, n / 10 % 10, n % 10] := by
  have hten : n / 10 % 10 % 0x100 = n / 10 % 10 := by omega
  have hunit : n % 10 % 0x100 = n % 10 := by omega
  simp only [decimalDigits, List.map_cons, List.map_nil, UInt8.toNat_ofNat', hten, hunit]

/-! ## Outlines -/

/-- **What is known of a machine** in the course of a program. -/
structure Outline where
  pc : Int
  phase : Phase
  /-- The registers below the flag. -/
  v : Nat → Nat
  index : Nat
  wake : Int
  /-- Where bytes were stored last, and these bytes. -/
  storedAt : Nat
  stored : List UInt8
  picture : List Stamp

/-- The instruction that an image holds at an address, if it is loaded to the program start. -/
def instructionAt (image : List UInt8) (a : Int) : Option Instruction :=
  if a < Memory.programStart then none
  else do
    let high ← image[(a - Memory.programStart).toNat]?
    let low ← image[(a - Memory.programStart).toNat + 1]?
    Instruction.ofWord? (high.toNat * 0x100 + low.toNat)

namespace Outline

/-- One register changed. -/
def put (o : Outline) (x : Int) (value : Nat) : Outline :=
  { o with v := fun r => if r = x.toNat then value else o.v r }

/-- The glyph that a sprite at `I` shows at `(Vx, Vy)`. -/
def stamp (o : Outline) (x y : Int) : Stamp :=
  ⟨o.index / Memory.glyphSize, o.v x.toNat, o.v y.toNat⟩

/-- Behind `FX29` it is the glyph of `Vx`. -/
theorem glyph_of_index (g : Nat) : Memory.glyphSize * g / Memory.glyphSize = g :=
  Nat.mul_div_cancel_left g (by decide)

/-- **What an instruction makes of an outline** whose program counter has moved past it. -/
def after (o : Outline) : Instruction → Outline
  | .clearScreen => { o with picture := [] }
  | .jump a => { o with pc := a }
  | .loadByte x nn => o.put x nn.toNat
  | .addByte x nn => o.put x ((o.v x.toNat + nn.toNat) % 0x100)
  | .loadIndex a => { o with index := a.toNat }
  | .loadGlyph x => { o with index := Memory.glyphSize * o.v x.toNat }
  | .draw x y _ => { o with picture := o.picture ++ [o.stamp x y] }
  | .storeDigits x =>
    { o with storedAt := o.index, stored := Machine.decimalDigits (o.v x.toNat) }
  | .loadRegisters _ =>
    { o with v := fun r => (o.stored.map UInt8.toNat)[r]?.getD (o.v r)
             index := o.index + o.stored.length }
  | .waitForKey x => { o with wake := x, phase := .waitingForKey }
  | _ => o

/-- An instruction that is fetched and executed. -/
def next (o : Outline) (i : Instruction) : Outline := { o with pc := o.pc + 2 }.after i

/-- The key that the machine waits for is there. -/
def resume (o : Outline) (k : Key) : Outline := { o.put o.wake k with phase := .running }

/-- **Can the outline follow this instruction?**  It may not touch the flag, sprites are glyphs on
dark pixels, bytes are stored behind the program, and only what was stored is loaded. -/
def Allows (image : List UInt8) (o : Outline) : Instruction → Prop
  | .clearScreen | .jump _ | .loadIndex _ => True
  | .loadByte x _ | .addByte x _ | .waitForKey x => x < 0xF
  | .loadGlyph x => x < 0xF ∧ o.v x.toNat < 16
  | .draw x y n => x < 0xF ∧ y < 0xF ∧ n = Memory.glyphSize
      ∧ o.index = Memory.glyphSize * (o.stamp x y).glyph ∧ (o.stamp x y).Fits
      ∧ ∀ t ∈ o.picture, t.Apart (o.stamp x y)
  | .storeDigits x =>
    x < 0xF ∧ Memory.programStart + image.length ≤ o.index ∧ o.index + 3 ≤ Memory.size
  | .loadRegisters x => x < 0xF ∧ o.stored.length = x + 1 ∧ o.index = o.storedAt
      ∧ o.index + o.stored.length ≤ Memory.size
  | _ => False

end Outline

/-! ## Machines that an outline describes -/

/-- **A machine as an outline has it**, with its program intact. -/
structure Describes (image : List UInt8) (o : Outline) (m : Machine) : Prop where
  pc : m.pc = o.pc
  phase : m.phase = o.phase
  v : ∀ r : Nat, r < 0xF → m.registers.get r = o.v r
  index : m.registers.index = o.index
  wake : m.registers.wake = o.wake
  program : ∀ a : Int, 0 ≤ a → a < Memory.programStart + image.length →
    m.memory.read a = (Memory.initial.place image).read a
  stored : m.memory.readUpTo o.storedAt o.stored.length = o.stored
  picture : m.screen.Shows o.picture

namespace Describes

variable {image : List UInt8} {o : Outline} {m : Machine}

/-- Neither keys nor the timer are described. -/
theorem others (h : Describes image o m) (keypad : Keypad) (timer : Timer) :
    Describes image o { m with keypad, timer } :=
  ⟨h.pc, h.phase, h.v, h.index, h.wake, h.program, h.stored, h.picture⟩

theorem goto (h : Describes image o m) (pc : Int) :
    Describes image { o with pc } { m with pc } :=
  ⟨rfl, h.phase, h.v, h.index, h.wake, h.program, h.stored, h.picture⟩

theorem get (h : Describes image o m) {x : Int} (h0 : 0 ≤ x) (hx : x < 0xF) :
    m.registers.get x = o.v x.toNat := by
  rw [← h.v x.toNat (by omega), Int.toNat_of_nonneg h0]

/-- A register is changed. -/
theorem put (h : Describes image o m) {x : Int} (h0 : 0 ≤ x) (hx : x < 0xF) {value : Int} {n : Nat}
    (hn : (value % 0x100).toNat = n) :
    Describes image (o.put x n) { m with registers := m.registers.set x value } := by
  refine ⟨h.pc, h.phase, fun r hr => ?_, h.index, h.wake, h.program, h.stored, h.picture⟩
  have hsame : (r : Int) % 16 = x % 16 ↔ r = x.toNat := by omega
  simp only [Registers.get_set, hsame, hn, h.v r hr, Outline.put]

/-- The flag is changed. -/
theorem flag (h : Describes image o m) (value : Int) :
    Describes image o { m with registers := m.registers.set Registers.flag value } := by
  refine ⟨h.pc, h.phase, fun r hr => ?_, h.index, h.wake, h.program, h.stored, h.picture⟩
  have hother : ¬ (r : Int) % 16 = Registers.flag % 16 := by
    rw [Registers.flag]
    omega
  rw [Registers.get_set, if_neg hother, h.v r hr]

theorem setIndex (h : Describes image o m) {value : Nat} (hvalue : value < 0x10000) :
    Describes image { o with index := value }
      { m with registers := m.registers.setIndex value } := by
  refine ⟨h.pc, h.phase, h.v, ?_, h.wake, h.program, h.stored, h.picture⟩
  exact lowWord_eq_self (Int.natCast_nonneg value) (Int.ofNat_lt.mpr hvalue)

/-- The screen is changed. -/
theorem screen (h : Describes image o m) {screen : Screen} {picture : List Stamp}
    (hshows : screen.Shows picture) :
    Describes image { o with picture } { m with screen } :=
  ⟨h.pc, h.phase, h.v, h.index, h.wake, h.program, h.stored, hshows⟩

/-- Bytes are written behind the program. -/
theorem store (h : Describes image o m) {start : Nat} {bs : List UInt8}
    (hbehind : Memory.programStart + image.length ≤ start)
    (htop : start + bs.length ≤ Memory.size) : Describes image
      { o with storedAt := start, stored := bs }
      { m with memory := (m.memory.writeUpTo start bs).1 } := by
  refine ⟨h.pc, h.phase, h.v, h.index, h.wake, fun a h0 h1 => ?_, ?_, h.picture⟩
  · rw [← h.program a h0 h1]
    exact m.memory.read_writeUpTo_of_outside bs (.inl (by omega))
  · exact m.memory.readUpTo_writeUpTo (Int.natCast_nonneg start) (Int.ofNat_le.mpr htop)

/-- The bytes stored last are loaded to the first registers, and `I` is moved. -/
theorem load (h : Describes image o m) (hcount : 0 + o.stored.length ≤ 0x10) {value : Nat}
    (hvalue : value < 0x10000) : Describes image
      { o with v := fun r => (o.stored.map UInt8.toNat)[r]?.getD (o.v r), index := value }
      { m with registers := (m.registers.setFrom 0 o.stored).setIndex value } := by
  refine ⟨h.pc, h.phase, fun r hr => ?_, ?_, ?_, h.program, h.stored, h.picture⟩
  · have hget := m.registers.get_setFrom o.stored hcount (Nat.lt_succ_of_lt hr)
    rw [if_pos (Nat.zero_le r), Nat.sub_zero, h.v r hr] at hget
    exact hget
  · exact lowWord_eq_self (Int.natCast_nonneg value) (Int.ofNat_lt.mpr hvalue)
  · exact (m.registers.wake_setFrom 0 o.stored).trans h.wake

/-! ### Instructions -/

/-- The font is where it was. -/
theorem glyph (h : Describes image o m) {g : Nat} (hg : g < 16)
    (hindex : m.registers.index = (Memory.glyphSize * g : Nat)) :
    m.memory.readUpTo m.registers.index Memory.glyphSize = Memory.glyph g := by
  have hsize : Memory.glyphSize = 5 := rfl
  have hstart : (Memory.programStart : Int) = 0x200 := rfl
  have hlast : Memory.glyphSize * g + Memory.glyphSize ≤ Memory.font.length := by
    change 5 * g + 5 ≤ 80
    omega
  rw [hindex, Memory.glyph, ← Memory.readUpTo_font hlast]
  refine Memory.readUpTo_congr fun b h0 h1 => ?_
  rw [hsize] at h0 h1
  rw [h.program b (by omega) (by omega)]
  exact Memory.read_place_of_lt _ _ (by omega) (by omega)

theorem draw (h : Describes image o m) {x y n : Int} (hx : 0 ≤ x) (hy : 0 ≤ y)
    (hi : o.Allows image (.draw x y n)) : (m.drawSprite x y n).fault = none
      ∧ Describes image (o.after (.draw x y n)) (m.drawSprite x y n).machine := by
  obtain ⟨hx', hy', rfl, hglyph, hfits, hapart⟩ := hi
  have hlt := hfits.glyph
  have hindex : m.registers.index = (Memory.glyphSize * (o.stamp x y).glyph : Nat) :=
    hglyph ▸ h.index
  have htop : m.registers.index + Memory.glyphSize ≤ 0x1000 := by
    rw [hindex]
    change ((5 * (o.stamp x y).glyph : Nat) : Int) + 5 ≤ 0x1000
    omega
  rw [Machine.drawSprite_of_le (n := Memory.glyphSize) (hindex ▸ Int.natCast_nonneg _) htop
    (h.glyph hlt hindex), h.get hx hx', h.get hy hy']
  exact ⟨rfl, (h.screen (h.picture.draw hfits hapart m.drawMode)).flag _⟩

theorem storeDigits (h : Describes image o m) {x : Int} (hx : 0 ≤ x)
    (hi : o.Allows image (.storeDigits x)) : (m.storeDigits x).fault = none
      ∧ Describes image (o.after (.storeDigits x)) (m.storeDigits x).machine := by
  obtain ⟨hx', hbehind, htop⟩ := hi
  have hsize : Memory.size = 0x1000 := rfl
  have hindex := h.index
  have hmachine : (m.storeDigits x).machine = { m with memory :=
      (m.memory.writeUpTo m.registers.index (Machine.decimalDigits (m.registers.get x))).1 } := rfl
  constructor
  · rw [Machine.storeDigits_fault (by omega)]
    exact if_neg (by omega)
  · rw [hmachine, hindex, h.get hx hx']
    exact h.store hbehind htop

theorem loadRegisters (h : Describes image o m) {x : Int} (hx : 0 ≤ x)
    (hi : o.Allows image (.loadRegisters x)) : (m.loadRegisters x).fault = none
      ∧ Describes image (o.after (.loadRegisters x)) (m.loadRegisters x).machine := by
  obtain ⟨hx', hlength, hat, htop⟩ := hi
  have hsize : Memory.size = 0x1000 := rfl
  have hindex := h.index
  have hbytes : m.memory.readUpTo m.registers.index (x.toNat + 1) = o.stored := by
    have hcount : x.toNat + 1 = o.stored.length := by omega
    rw [hcount, hindex, hat, h.stored]
  let loaded := (m.registers.setFrom 0 o.stored).setIndex (o.index + o.stored.length : Nat)
  have hmachine : (m.loadRegisters x).machine = { m with registers := loaded } := by
    simp only [loaded, ← hbytes, Int.natCast_add, ← hindex]
    rfl
  constructor
  · rw [Machine.loadRegisters_fault (by omega)]
    exact if_neg (by omega)
  · rw [hmachine]
    exact h.load (by omega) (by omega)

/-- **An instruction that the outline allows** comes to its end, and the outline that is carried on
describes what it leaves. -/
theorem execute (h : Describes image o m) (random : Int) {i : Instruction} (hfits : i.Fits)
    (hi : o.Allows image i) : (m.execute random i).fault = none
      ∧ Describes image (o.after i) (m.execute random i).machine := by
  cases i with
  | clearScreen => exact ⟨rfl, h.screen Screen.shows_blank⟩
  | jump a => exact ⟨rfl, h.goto a⟩
  | loadIndex a =>
    obtain ⟨h0, h1⟩ := hfits
    obtain ⟨a, rfl⟩ := Int.eq_ofNat_of_zero_le h0
    exact ⟨rfl, h.setIndex (by omega)⟩
  | loadByte x nn =>
    obtain ⟨⟨hx, -⟩, h0, h1⟩ := hfits
    exact ⟨rfl, h.put hx hi (by omega)⟩
  | addByte x nn =>
    obtain ⟨⟨hx, -⟩, h0, -⟩ := hfits
    refine ⟨rfl, h.put hx hi ?_⟩
    rw [h.get hx hi]
    omega
  | loadGlyph x =>
    obtain ⟨hx, hglyph⟩ := hi
    have hindex : (Memory.fontStart + m.registers.get x * Memory.glyphSize) % Memory.size
        = Memory.glyphSize * o.v x.toNat := by
      rw [h.get hfits.1 hx]
      change (0 + o.v x.toNat * 5) % 0x1000 = 5 * o.v x.toNat
      omega
    have hlt : Memory.glyphSize * o.v x.toNat < 0x10000 := by
      change 5 * o.v x.toNat < 0x10000
      omega
    rw [Machine.execute, hindex]
    exact ⟨rfl, h.setIndex hlt⟩
  | waitForKey x =>
    exact ⟨rfl, h.pc, rfl, h.v, h.index, rfl, h.program, h.stored, h.picture⟩
  | draw x y n => exact h.draw hfits.1.1 hfits.2.1.1 hi
  | storeDigits x => exact h.storeDigits hfits.1 hi
  | loadRegisters x => exact h.loadRegisters hfits.1 hi
  | _ => exact hi.elim

/-! ### Steps -/

/-- The program counter is at an instruction of the program. -/
theorem readWord (h : Describes image o m) (hfits : image.length ≤ Memory.capacity)
    {i : Instruction} (hi : instructionAt image o.pc = some i) :
    ∃ w, m.memory.readWord m.pc = .ok w ∧ Instruction.ofWord? w = some i := by
  rw [instructionAt] at hi
  split at hi
  case isTrue => cases hi
  case isFalse hstart =>
  obtain ⟨high, hhigh, hi⟩ := Option.bind_eq_some_iff.mp hi
  obtain ⟨low, hlow, hword⟩ := Option.bind_eq_some_iff.mp hi
  obtain ⟨k, hk⟩ := Int.le.dest (Int.not_lt.mp hstart)
  have hplace : (o.pc - Memory.programStart).toNat = k := by omega
  rw [hplace] at hhigh hlow
  obtain ⟨hk0, rfl⟩ := List.getElem?_eq_some_iff.mp hhigh
  obtain ⟨hk1, rfl⟩ := List.getElem?_eq_some_iff.mp hlow
  refine ⟨_, ?_, hword⟩
  have hread := Memory.initial.readWord_place_add hfits hk1
  rw [Memory.readWord] at hread ⊢
  rw [h.pc, ← hk, h.program _ (by omega) (by omega), h.program _ (by omega) (by omega)]
  exact hread

/-- **A step follows the outline.** -/
theorem step (h : Describes image o m) (hfits : image.length ≤ Memory.capacity)
    (hphase : o.phase = .running) {i : Instruction} (hat : instructionAt image o.pc = some i)
    (hi : o.Allows image i) (random : Int) : (m.step random).answer = .ok true
      ∧ Describes image (o.next i) (m.step random).machine := by
  obtain ⟨w, hread, hword⟩ := h.readWord hfits hat
  have hadvance : m.advance = { m with pc := o.pc + 2 } :=
    congrArg (fun pc => { m with pc })
      ((Machine.advance_pc_of_readWord hread).1.trans (congrArg (· + 2) h.pc))
  obtain ⟨hfault, hdescribes⟩ :=
    (h.goto (o.pc + 2)).execute random (Machine.fits_of_fetched hread hword) hi
  rw [← hadvance] at hfault hdescribes
  rw [(Machine.Stepping.executed (h.phase.trans hphase) hread hword hfault).step_eq]
  exact ⟨rfl, hdescribes⟩

/-- The key that the machine waits for is there. -/
theorem resume (h : Describes image o m) (h0 : 0 ≤ o.wake) (h1 : o.wake < 0xF) (k : Key)
    (keypad : Keypad) : Describes image (o.resume k) { m with
      registers := m.registers.set m.registers.wake k.val, keypad, phase := .running } := by
  have hbyte : ((k.val : Int) % 0x100).toNat = k.val := by omega
  have hput := h.put h0 h1 hbyte
  rw [h.wake]
  exact ⟨hput.pc, rfl, hput.v, hput.index, hput.wake, hput.program, hput.stored, hput.picture⟩

end Describes

/-! ## Up to the next wait -/

namespace Outline

/-- The outline behind instructions that are executed one after the other. -/
def afterAll (o : Outline) (is : List Instruction) : Outline := is.foldl next o

/-- **Can the outline follow these instructions to a wait for a key?** -/
def Clear (image : List UInt8) (o : Outline) : List Instruction → Prop
  | [] => o.phase = .waitingForKey ∧ 0 ≤ o.wake ∧ o.wake < 0xF
  | i :: rest => o.phase = .running ∧ instructionAt image o.pc = some i ∧ o.Allows image i
      ∧ (o.next i).Clear image rest

end Outline

end ChipEight
