import ChipEight.Machine.Memory

/-!
# Proofs/Machine/Transfer — how far a block transfer gets

A transfer runs upwards and stops at the top of memory, so from an address on or above zero it moves
every byte that lies below `0x1000`.  What it reports is the first address it could not reach.
-/

namespace ChipEight.Memory

/-! ## Words -/

/-- A word that lies in memory can be read, and has sixteen bits. -/
theorem readWord_of_le (m : Memory) {a : Int} (h0 : 0 ≤ a) (h : a ≤ 0xFFE) :
    ∃ w, m.readWord a = .ok w ∧ w < 0x10000 := by
  have ha : InRange a := ⟨h0, by omega⟩
  have hb : InRange (a + 1) := ⟨by omega, by omega⟩
  refine ⟨_, by rw [readWord, read_of_inRange m ha, read_of_inRange m hb]; rfl, ?_⟩
  have := (m.cells.get ⟨a.toNat, ha.toNat_lt⟩).toNat_lt
  have := (m.cells.get ⟨(a + 1).toNat, hb.toNat_lt⟩).toNat_lt
  omega

/-- A word that reaches beyond memory is missed at its first byte outside. -/
theorem readWord_of_gt (m : Memory) {a : Int} (h : 0xFFE < a) :
    m.readWord a = .error (.addressOutOfRange (max a 0x1000 : Int)) := by
  by_cases ha : InRange a
  · have hmax : max a 0x1000 = a + 1 := by unfold InRange at ha; omega
    have hb : ¬ InRange (a + 1) := by unfold InRange; omega
    rw [readWord, read_of_inRange m ha, read_of_not_inRange m hb, hmax]
    rfl
  · have hmax : max a 0x1000 = a := by unfold InRange at ha; omega
    rw [readWord, read_of_not_inRange m ha, hmax]
    rfl

/-- A word can only be read where both of its bytes are. -/
theorem bounds_of_readWord {m : Memory} {a : Int} {w : Nat} (h : m.readWord a = .ok w) :
    0 ≤ a ∧ a ≤ 0xFFE ∧ w < 0x10000 := by
  by_cases ha : InRange a
  · by_cases hb : InRange (a + 1)
    · obtain ⟨h0, -⟩ := ha
      obtain ⟨-, h1⟩ := hb
      obtain ⟨v, hv, hlt⟩ := m.readWord_of_le h0 (by omega)
      obtain rfl : v = w := Except.ok.inj (hv.symm.trans h)
      exact ⟨h0, by omega, hlt⟩
    · rw [readWord, read_of_inRange m ha, read_of_not_inRange m hb] at h
      cases h
  · rw [readWord, read_of_not_inRange m ha] at h
    cases h

theorem listAt_of_readWord {m : Memory} {a : Int} {w : Nat} (h : m.readWord a = .ok w) :
    m.listAt a = .ok (Instruction.listWord w) := by
  rw [listAt, h]
  rfl

/-! ## What memory holds from the start -/

/-- Above the font, memory is zero at power-on. -/
theorem read_initial {a : Int} (h0 : 0x50 ≤ a) (h1 : a < 0x1000) : initial.read a = .ok 0 := by
  have ha : InRange a := ⟨by omega, h1⟩
  have hfont : font.toArray.size ≤ a.toNat := by
    have hsize : font.toArray.size = 0x50 := rfl
    omega
  have hcell : initial.cells.get ⟨a.toNat, ha.toNat_lt⟩ = font.toArray[a.toNat]?.getD 0 :=
    Vector.getElem_ofFn ha.toNat_lt
  rw [read_of_inRange _ ha, hcell, Array.getElem?_eq_none hfont]
  rfl

/-- And below it is the font. -/
theorem read_font {k : Nat} (hk : k < font.length) : initial.read k = .ok font[k] := by
  have hfont : k < 0x50 := hk
  have ha : InRange k := ⟨by omega, by omega⟩
  have hcell : initial.cells.get ⟨(k : Int).toNat, ha.toNat_lt⟩
      = font.toArray[(k : Int).toNat]?.getD 0 := Vector.getElem_ofFn ha.toNat_lt
  rw [read_of_inRange _ ha, hcell, Int.toNat_natCast, List.getElem?_toArray,
    List.getElem?_eq_getElem hk, Option.getD_some]

/-- An image does not reach below the program start. -/
theorem read_place_of_lt (m : Memory) (image : List UInt8) {a : Int} (h0 : 0 ≤ a)
    (h : a < programStart) : (m.place image).read a = m.read a := by
  have hstart : (programStart : Int) = 0x200 := rfl
  have ha : InRange a := ⟨h0, by omega⟩
  rw [read_of_inRange _ ha, read_of_inRange _ ha]
  refine congrArg Except.ok ((Vector.getElem_ofFn ha.toNat_lt).trans (if_pos ?_))
  change a.toNat < programStart
  omega

/-- **An image that fits** is found in memory byte by byte. -/
theorem read_place (m : Memory) {image : List UInt8} (hfits : image.length ≤ capacity) {k : Nat}
    (hk : k < image.length) : (m.place image).read (programStart + k : Int) = .ok image[k] := by
  have hstart : (programStart : Int) = 0x200 := rfl
  have hcapacity : capacity = 0xE00 := rfl
  have ha : InRange (programStart + k : Int) := ⟨by omega, by omega⟩
  have hk' : (programStart + k : Int).toNat - programStart = k := by omega
  rw [read_of_inRange _ ha]
  refine congrArg Except.ok ((Vector.getElem_ofFn ha.toNat_lt).trans ((if_neg ?_).trans ?_))
  · change ¬ (programStart + k : Int).toNat < programStart
    omega
  · simp only [hk', List.getElem?_toArray, List.getElem?_eq_getElem hk, Option.getD_some]

/-- The word it starts with is where programs start. -/
theorem readWord_place (m : Memory) {high low : UInt8} {rest : List UInt8}
    (hfits : (high :: low :: rest).length ≤ capacity) :
    (m.place (high :: low :: rest)).readWord programStart
      = .ok (high.toNat * 0x100 + low.toNat) := by
  have hhigh : (m.place (high :: low :: rest)).read programStart = .ok high :=
    m.read_place hfits (k := 0) (Nat.zero_lt_succ _)
  have hlow : (m.place (high :: low :: rest)).read (programStart + 1) = .ok low :=
    m.read_place hfits (k := 1) (Nat.succ_lt_succ (Nat.zero_lt_succ _))
  rw [readWord, hhigh, hlow]
  rfl

/-- And so is every other word of it. -/
theorem readWord_place_add (m : Memory) {image : List UInt8} (hfits : image.length ≤ capacity)
    {k : Nat} (hk : k + 1 < image.length) :
    (m.place image).readWord (programStart + k : Int)
      = .ok (image[k].toNat * 0x100 + image[k + 1].toNat) := by
  have hhigh := m.read_place hfits (k := k) (by omega)
  have hlow := m.read_place hfits hk
  rw [Int.natCast_succ, ← Int.add_assoc] at hlow
  rw [readWord, hhigh, hlow]
  rfl

theorem readWord_initial {a : Int} (h0 : 0x50 ≤ a) (h1 : a < 0xFFF) :
    initial.readWord a = .ok 0 := by
  rw [readWord, read_initial h0 (by omega), read_initial (by omega) (by omega)]
  rfl

/-! ## Blocks -/

/-- The first address outside memory among `n` from `a` on, as a fault. -/
def overrun (a : Int) (n : Nat) : Option Fault :=
  if 0 < n ∧ 0xFFF < a + n - 1 then some (.addressOutOfRange (max a 0x1000 : Int)) else none

theorem length_readUpTo (m : Memory) {a : Int} (ha : 0 ≤ a) (n : Nat) :
    (m.readUpTo a n).length = min n (0x1000 - a).toNat := by
  induction n generalizing a with
  | zero => simp [readUpTo]
  | succ n ih =>
    by_cases hr : InRange a
    · rw [readUpTo, read_of_inRange m hr, List.length_cons, ih (by omega)]
      unfold InRange at hr
      omega
    · rw [readUpTo, read_of_not_inRange m hr, List.length_nil]
      unfold InRange at hr
      omega

theorem length_readUpTo_le (m : Memory) (a : Int) (n : Nat) : (m.readUpTo a n).length ≤ n := by
  induction n generalizing a with
  | zero => exact Nat.le_refl 0
  | succ n ih =>
    rw [readUpTo]
    split
    · exact Nat.succ_le_succ (ih (a + 1))
    · exact Nat.zero_le _

/-- A block is read off the cells it covers. -/
theorem readUpTo_congr {m m' : Memory} {a : Int} {n : Nat}
    (h : ∀ b, a ≤ b → b < a + n → m.read b = m'.read b) : m.readUpTo a n = m'.readUpTo a n := by
  induction n generalizing a with
  | zero => rfl
  | succ n ih =>
    rw [readUpTo, readUpTo, h a (by omega) (by omega), ih fun b hb hlt => h b (by omega) (by omega)]

/-- **The rows of glyphs**, as far as the font goes. -/
theorem readUpTo_font {k n : Nat} (h : k + n ≤ font.length) :
    initial.readUpTo k n = (font.drop k).take n := by
  induction n generalizing k with
  | zero => rfl
  | succ n ih =>
    have hnext : initial.readUpTo (k + 1) n = (font.drop (k + 1)).take n :=
      ih (k := k + 1) (by omega)
    have hk : k < font.length := by omega
    rw [readUpTo, read_font hk, hnext, ← List.getElem_cons_drop hk, List.take_succ_cons]

theorem write_of_inRange (m : Memory) {a : Int} (h : InRange a) (value : Int) :
    m.write a value = .ok ⟨m.cells.set a.toNat (lowByte value) h.toNat_lt⟩ := dif_pos h

theorem write_of_not_inRange (m : Memory) {a : Int} (h : ¬ InRange a) (value : Int) :
    m.write a value = .error (.addressOutOfRange a) := dif_neg h

theorem count_writeUpTo (m : Memory) {a : Int} (ha : 0 ≤ a) (bs : List UInt8) :
    (m.writeUpTo a bs).2 = min bs.length (0x1000 - a).toNat := by
  induction bs generalizing m a with
  | nil => simp [writeUpTo]
  | cons b bs ih =>
    by_cases hr : InRange a
    · rw [writeUpTo, write_of_inRange m hr]
      simp only [ih _ (show 0 ≤ a + 1 by omega), List.length_cons]
      unfold InRange at hr
      omega
    · rw [writeUpTo, write_of_not_inRange m hr, List.length_cons]
      unfold InRange at hr
      simp only
      omega

/-- **The fault of a transfer** that gets as far as memory goes. -/
theorem shortfall_eq_overrun {a : Int} (ha : 0 ≤ a) (n : Nat) :
    shortfall a (min n (0x1000 - a).toNat) n = overrun a n := by
  unfold shortfall overrun
  by_cases h : 0 < n ∧ 0xFFF < a + n - 1
  · have hmax : a + (min n (0x1000 - a).toNat : Nat) = max a 0x1000 := by omega
    rw [if_pos (by omega), if_pos h, hmax]
  · rw [if_neg (by omega), if_neg h]

end ChipEight.Memory
