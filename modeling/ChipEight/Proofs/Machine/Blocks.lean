import ChipEight.Proofs.Machine.Footprint

/-!
# Proofs/Machine/Blocks — what a block transfer has moved

A block that is written is found in memory, and one that is read is found in the registers, as far
as memory goes and byte by byte (`filledFrom_writeUpTo`, `v_setFrom_zero`).
-/

namespace ChipEight

namespace Memory

/-- Cells outside a block that is written keep their bytes. -/
theorem read_writeUpTo_of_outside (M : Memory) {start : Int} (bs : List UInt8) {a : Int}
    (h : a < start ∨ start + bs.length ≤ a) : (M.writeUpTo start bs).1.read a = M.read a := by
  by_cases ha : InRange a
  · have hcell := Int.toNat_of_nonneg ha.1
    rw [read_of_inRange _ ha, read_of_inRange _ ha]
    exact congrArg Except.ok
      (Machine.cells_writeUpTo M start bs (a := ⟨a.toNat, ha.toNat_lt⟩) (by rwa [hcell]))
  · rw [read_of_not_inRange _ ha, read_of_not_inRange _ ha]

/-- And those inside hold what was written, as far as memory goes. -/
theorem read_writeUpTo (M : Memory) {start : Int} (h0 : 0 ≤ start) {bs : List UInt8} {k : Nat}
    {b : UInt8} (hb : bs[k]? = some b) (htop : start + k ≤ 0xFFF) :
    (M.writeUpTo start bs).1.read (start + k) = .ok b := by
  induction bs generalizing M start k with
  | nil => cases hb
  | cons c bs ih =>
    have hs : InRange start := ⟨h0, by omega⟩
    obtain ⟨M', hwrite⟩ : ∃ M', M.write start c.toNat = .ok M' := ⟨_, M.write_of_inRange hs _⟩
    have hlast : (M.writeUpTo start (c :: bs)).1 = (M'.writeUpTo (start + 1) bs).1 := by
      rw [writeUpTo, hwrite]
    rw [hlast]
    cases k with
    | zero =>
      obtain rfl : c = b := Option.some.inj hb
      have hhead : M'.read start = .ok c := by
        rw [read_of_write hwrite, if_pos rfl, lowByte_toNat]
      rw [Int.natCast_zero, Int.add_zero, ← hhead]
      exact M'.read_writeUpTo_of_outside bs (.inl (Int.lt_succ start))
    | succ k =>
      have hnext : start + (k + 1 : Nat) = start + 1 + k := by omega
      rw [hnext]
      exact ih M' (by omega) hb (by omega)

/-- **What is left of memory behind a transfer to it**: bytes from an address on as far as it goes,
and everything else as it was. -/
structure FilledFrom (M : Memory) (start : Int) (bs : List UInt8) (M' : Memory) : Prop where
  below : ∀ a < start, M'.read a = M.read a
  filled : ∀ (k : Nat) (b : UInt8), bs[k]? = some b → start + k ≤ 0xFFF →
    M'.read (start + k) = .ok b
  above : ∀ a, start + bs.length ≤ a → M'.read a = M.read a

theorem filledFrom_writeUpTo (M : Memory) {start : Int} (h0 : 0 ≤ start) (bs : List UInt8) :
    M.FilledFrom start bs (M.writeUpTo start bs).1 where
  below _ ha := M.read_writeUpTo_of_outside bs (.inl ha)
  filled _ _ hb htop := M.read_writeUpTo h0 hb htop
  above _ ha := M.read_writeUpTo_of_outside bs (.inr ha)

/-- A block of cells is read one by one. -/
theorem readUpTo_eq_of_read {M : Memory} {start : Int} {bs : List UInt8}
    (h : ∀ (k : Nat) (b : UInt8), bs[k]? = some b → M.read (start + k) = .ok b) :
    M.readUpTo start bs.length = bs := by
  induction bs generalizing start with
  | nil => rfl
  | cons b bs ih =>
    have hhead : M.read start = .ok b := by simpa using h 0 b rfl
    rw [List.length_cons, readUpTo, hhead, ih fun k c hc => ?_]
    have hnext : start + 1 + k = start + (k + 1 : Nat) := by omega
    rw [hnext]
    exact h (k + 1) c hc

theorem read_of_readUpTo {M : Memory} {start : Int} {n k : Nat} {b : UInt8}
    (h : (M.readUpTo start n)[k]? = some b) : M.read (start + k) = .ok b := by
  induction n generalizing start k with
  | zero => cases h
  | succ n ih =>
    cases hread : M.read start with
    | error => rw [readUpTo, hread] at h; cases h
    | ok c =>
      rw [readUpTo, hread] at h
      cases k with
      | zero =>
        obtain rfl : c = b := Option.some.inj h
        rwa [Int.natCast_zero, Int.add_zero]
      | succ k =>
        have hnext : start + (k + 1 : Nat) = start + 1 + k := by omega
        rw [hnext]
        exact ih h

/-- **What was written is read back.** -/
theorem readUpTo_writeUpTo (M : Memory) {start : Int} (h0 : 0 ≤ start) {bs : List UInt8}
    (h : start + bs.length ≤ 0x1000) : (M.writeUpTo start bs).1.readUpTo start bs.length = bs := by
  refine readUpTo_eq_of_read fun k b hb => M.read_writeUpTo h0 hb ?_
  have hk := (List.getElem?_eq_some_iff.mp hb).1
  omega

end Memory

namespace Registers

/-- Registers that are loaded in a row hold what was loaded. -/
theorem get_setFrom (R : Registers) {start r : Nat} (bs : List UInt8)
    (h : start + bs.length ≤ 0x10) (hr : r < 0x10) : (R.setFrom start bs).get r
      = if start ≤ r then (bs.map UInt8.toNat)[r - start]?.getD (R.get r) else R.get r := by
  induction bs generalizing R start with
  | nil => simp [setFrom]
  | cons b bs ih =>
    rw [List.length_cons] at h
    have hnext : ((start : Int) + 1) = (start + 1 : Nat) := rfl
    have hb := b.toNat_lt
    rw [setFrom, hnext, ih (R.set start b.toNat) (by omega), get_set]
    obtain hlt | rfl | hgt := Nat.lt_trichotomy r start
    · rw [if_neg (by omega), if_neg (by omega), if_neg (by omega)]
    · rw [if_neg (by omega), if_pos rfl, if_pos (Nat.le_refl r), Nat.sub_self]
      change ((b.toNat : Int) % 0x100).toNat = b.toNat
      omega
    · obtain ⟨k, rfl⟩ := Nat.exists_eq_add_of_lt hgt
      have hk : start + k + 1 - start = k + 1 := by omega
      have hk' : start + k + 1 - (start + 1) = k := by omega
      rw [if_pos (by omega), if_neg (by omega), if_pos (by omega), hk, hk', List.map_cons,
        List.getElem?_cons_succ]

theorem slot_val (r : Fin 16) : slot r.val = r := by
  refine Fin.ext ?_
  simp only [slot]
  omega

/-- **What is left of the registers behind a transfer to them**: bytes as far as there are some, and
the others as they were. -/
theorem v_setFrom_zero (R : Registers) {bs : List UInt8} (h : bs.length ≤ 0x10) (r : Fin 16) :
    (R.setFrom 0 bs).v[r] = bs[r.val]?.getD R.v[r] := by
  have hfits : 0 + bs.length ≤ 0x10 := by omega
  have hget := R.get_setFrom bs hfits r.isLt
  have hslot (S : Registers) : S.get r.val = S.v[r].toNat :=
    congrArg (fun i : Fin 16 => S.v[i].toNat) (slot_val r)
  rw [if_pos (Nat.zero_le _), Nat.sub_zero, hslot, hslot, List.getElem?_map] at hget
  refine UInt8.toNat_inj.mp (hget.trans ?_)
  cases bs[r.val]? <;> rfl

/-- A register that a block reaches holds the byte of memory it was loaded from. -/
theorem read_of_loaded (R : Registers) {M : Memory} {a : Int} {n : Nat} {r : Fin 16}
    (h : (M.readUpTo a n).length ≤ 0x10) (hr : r.val < (M.readUpTo a n).length) :
    M.read (a + r.val) = .ok (R.setFrom 0 (M.readUpTo a n)).v[r] := by
  have hbyte := List.getElem?_eq_getElem hr
  rw [v_setFrom_zero R h, hbyte]
  exact Memory.read_of_readUpTo hbyte

/-- And the others hold what they did. -/
theorem v_setFrom_of_le (R : Registers) {bs : List UInt8} {r : Fin 16} (h : bs.length ≤ 0x10)
    (hr : bs.length ≤ r.val) : (R.setFrom 0 bs).v[r] = R.v[r] := by
  rw [v_setFrom_zero R h, List.getElem?_eq_none hr]
  rfl

end Registers

end ChipEight
