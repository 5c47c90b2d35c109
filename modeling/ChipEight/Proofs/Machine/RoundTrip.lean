import ChipEight.Proofs.Machine.Aftermath

/-!
# Proofs/Machine/RoundTrip — stored registers are loaded back

A transfer between registers and memory that does not reach beyond memory moves every byte and
leaves `I` behind the last one (`storeRegisters_of_le`, `loadRegisters_of_le`).  Either of the two
undoes the other from the same address (`transfers_inverse`).
-/

namespace ChipEight

namespace Memory

/-- Writing what is there changes nothing. -/
theorem write_of_read {M : Memory} {a : Int} {b : UInt8} (h : M.read a = .ok b) :
    M.write a b.toNat = .ok M := by
  by_cases ha : InRange a
  · obtain rfl := Except.ok.inj ((M.read_of_inRange ha).symm.trans h)
    rw [M.write_of_inRange ha, lowByte_toNat]
    exact congrArg (fun cells => Except.ok (Memory.mk cells)) (Vector.set_getElem_self _)
  · cases (M.read_of_not_inRange ha).symm.trans h

/-- **What was read is written back** without effect. -/
theorem writeUpTo_readUpTo (M : Memory) (a : Int) (n : Nat) :
    (M.writeUpTo a (M.readUpTo a n)).1 = M := by
  induction n generalizing a with
  | zero => rfl
  | succ n ih =>
    cases hread : M.read a with
    | error => rw [readUpTo, hread]; rfl
    | ok b =>
      rw [readUpTo, hread, writeUpTo, write_of_read hread]
      exact ih (a + 1)

/-- A block within memory is read whole. -/
theorem length_readUpTo_of_le (M : Memory) {a : Int} {n : Nat} (h0 : 0 ≤ a) (h : a + n ≤ 0x1000) :
    (M.readUpTo a n).length = n := by
  rw [M.length_readUpTo h0]
  omega

/-- A transfer that has moved all its bytes does not fall short. -/
theorem shortfall_self (a : Int) (n : Nat) : shortfall a n n = none := if_neg (Nat.lt_irrefl n)

end Memory

namespace Registers

/-- The first registers one by one. -/
theorem getElem?_take (R : Registers) (n : Nat) (r : Fin 16) :
    (R.take n)[r.val]? = if r.val < n then some (R.v.get r) else none := by
  have hr : r.val < R.v.toList.length := R.v.length_toList.symm ▸ r.isLt
  rw [take, List.getElem?_take, List.getElem?_eq_getElem hr, Vector.getElem_toList]
  rfl

/-- **Registers that are loaded** are taken as they were loaded. -/
theorem take_setFrom (R : Registers) {bs : List UInt8} (h : bs.length ≤ 0x10) :
    (R.setFrom 0 bs).take bs.length = bs := by
  refine List.ext_getElem? fun k => ?_
  by_cases hk : k < bs.length
  · have hv : (R.setFrom 0 bs).v.get ⟨k, by omega⟩ = bs[k]?.getD (R.v.get ⟨k, by omega⟩) :=
      R.v_setFrom_zero h ⟨k, by omega⟩
    rw [getElem?_take _ _ ⟨k, by omega⟩, if_pos hk, hv, List.getElem?_eq_getElem hk]
    rfl
  · rw [List.getElem?_eq_none (by rw [length_take _ h]; omega), List.getElem?_eq_none (by omega)]

/-- Registers that are loaded with the first ones of others, and agree with them from there on, are
the others. -/
theorem setFrom_take {R S : Registers} {n : Nat} (hn : n ≤ 0x10)
    (h : ∀ r : Fin 16, n ≤ r.val → S.v.get r = R.v.get r) : (S.setFrom 0 (R.take n)).v = R.v := by
  refine Vector.ext fun k hk => ?_
  have hv := S.v_setFrom_zero (Nat.le_trans (Nat.le_of_eq (R.length_take hn)) hn) ⟨k, hk⟩
  refine hv.trans ?_
  rw [getElem?_take R n ⟨k, hk⟩]
  split
  case isTrue => rfl
  case isFalse hlt => exact h ⟨k, hk⟩ (Nat.not_lt.mp hlt)

end Registers

namespace Machine

variable {m : Machine} {x : Nat}

/-! ## Transfers within memory -/

/-- Behind a transfer within memory, `I` stands behind the last cell. -/
theorem setIndex_of_le (R : Registers) {a : Int} (h0 : 0 ≤ a) (h : a + x ≤ 0xFFF) :
    R.setIndex (a + (x + 1 : Nat)) = { R with index := a + x + 1 } := by
  rw [Registers.setIndex, lowWord_eq_self (by omega) (by omega)]
  exact congrArg (Registers.mk R.v · R.wake) (by omega)

theorem storeRegisters_of_le (hx : x < 0x10) (h0 : 0 ≤ m.registers.index)
    (h : m.registers.index + x ≤ 0xFFF) : m.storeRegisters x = done { m with
      memory := (m.memory.writeUpTo m.registers.index (m.registers.take (x + 1))).1
      registers := { m.registers with index := m.registers.index + x + 1 } } := by
  have hmoved := m.memory.count_writeUpTo h0 (m.registers.take (x + 1))
  rw [m.registers.length_take hx, Nat.min_eq_left (by omega)] at hmoved
  simp only [storeRegisters, Int.toNat_natCast, hmoved, Memory.shortfall_self,
    setIndex_of_le m.registers h0 h]
  rfl

theorem loadRegisters_of_le (h0 : 0 ≤ m.registers.index) (h : m.registers.index + x ≤ 0xFFF) :
    m.loadRegisters x = done { m with
      registers := { m.registers with
        v := (m.registers.setFrom 0 (m.memory.readUpTo m.registers.index (x + 1))).v
        index := m.registers.index + x + 1 } } := by
  have hmoved := m.memory.length_readUpTo_of_le (n := x + 1) h0 (by omega)
  simp only [loadRegisters, Int.toNat_natCast, hmoved, Memory.shortfall_self,
    setIndex_of_le _ h0 h, Registers.wake_setFrom]
  rfl

/-- **What `FX55` leaves of memory**: the registers up to the last from `I` on, and the other cells
as they were. -/
structure Stored (m : Machine) (x : Nat) (memory : Memory) : Prop where
  cell : ∀ r : Fin 16, r.val ≤ x → memory.read (m.registers.index + r.val)
    = .ok (m.registers.v.get r)
  others : ∀ a, a < m.registers.index ∨ m.registers.index + x < a →
    memory.read a = m.memory.read a

/-- **What `FX65` leaves of the registers**: the cells from `I` on up to the last, and the others as
they were. -/
structure Loaded (m : Machine) (x : Nat) (v : Vector UInt8 16) : Prop where
  register : ∀ r : Fin 16, r.val ≤ x → m.memory.read (m.registers.index + r.val) = .ok (v.get r)
  others : ∀ r : Fin 16, x < r.val → v.get r = m.registers.v.get r

section

variable (hx : x < 0x10) (h0 : 0 ≤ m.registers.index) (h : m.registers.index + x ≤ 0xFFF)
include hx h0 h

theorem storeRegisters_stored : m.Stored x (m.storeRegisters x).machine.memory := by
  have hfilled := m.memory.filledFrom_writeUpTo h0 (m.registers.take (x + 1))
  have hlength : (m.registers.take (x + 1)).length = x + 1 := m.registers.length_take hx
  rw [storeRegisters_of_le hx h0 h]
  refine ⟨fun r hr => hfilled.filled r.val _ ?_ (by omega), fun a ha => ?_⟩
  · rw [Registers.getElem?_take, if_pos (by omega)]
  · obtain hbelow | habove := ha
    · exact hfilled.below a hbelow
    · exact hfilled.above a (by omega)

theorem loadRegisters_loaded : m.Loaded x (m.loadRegisters x).machine.registers.v := by
  have hlength := m.memory.length_readUpTo_of_le (n := x + 1) h0 (by omega)
  have hfits := Nat.le_trans (Nat.le_of_eq hlength) hx
  rw [loadRegisters_of_le h0 h]
  exact ⟨fun r hr => m.registers.read_of_loaded hfits (by omega),
    fun r hr => m.registers.v_setFrom_of_le hfits (by omega)⟩

/-- **What was stored is loaded back**, whatever has become of the registers. -/
theorem loadRegisters_storeRegisters {v : Vector UInt8 16}
    (hv : ∀ r : Fin 16, x < r.val → v.get r = m.registers.v.get r) :
    let stored := (m.storeRegisters x).machine
    loadRegisters { stored with
      registers := { stored.registers with v, index := m.registers.index } } x = done stored := by
  have hlength : (m.registers.take (x + 1)).length = x + 1 := m.registers.length_take hx
  have hfits : m.registers.index + (m.registers.take (x + 1)).length ≤ 0x1000 := by omega
  have hback := m.memory.readUpTo_writeUpTo h0 hfits
  rw [hlength] at hback
  have hregisters := Registers.setFrom_take (R := m.registers)
    (S := { m.registers with v, index := m.registers.index }) hx hv
  rw [storeRegisters_of_le hx h0 h]
  intro stored
  have hload := loadRegisters_of_le (m := { stored with
    registers := { stored.registers with v, index := m.registers.index } }) h0 h
  refine hload.trans ?_
  simp only [stored, done, hback, hregisters]

/-- **What was loaded is stored back** without effect. -/
theorem storeRegisters_loadRegisters :
    let loaded := (m.loadRegisters x).machine
    storeRegisters { loaded with
      registers := { loaded.registers with index := m.registers.index } } x = done loaded := by
  have hlength := m.memory.length_readUpTo_of_le (n := x + 1) h0 (by omega)
  have htake := m.registers.take_setFrom (Nat.le_trans (Nat.le_of_eq hlength) hx)
  rw [hlength] at htake
  have hback := m.memory.writeUpTo_readUpTo m.registers.index (x + 1)
  rw [loadRegisters_of_le h0 h]
  intro loaded
  -- The registers that are stored hold what was read, so memory is written with what it holds.
  have hstore := storeRegisters_of_le (m := { loaded with
    registers := { loaded.registers with index := m.registers.index } }) hx h0 h
  refine hstore.trans ?_
  rw [Registers.take] at htake
  simp only [loaded, done, Registers.take, htake, hback]

end

/-- **Stores and loads are inverse transfers** as long as they stay within memory, also up to its
last cell.  A store fills the cells from `I` on with the registers and a load the registers with the
cells, each leaves `I` behind the last cell, and neither changes anything else.  From the same `I`,
a load brings back the registers of a store, and a store leaves memory as a load has found it. -/
theorem transfers_inverse (m : Machine) (random : Int) (hx : x < 0x10)
    (h0 : 0 ≤ m.registers.index) (h : m.registers.index + x ≤ 0xFFF) :
    let stored := (m.execute random (.storeRegisters x)).machine
    let loaded := (m.execute random (.loadRegisters x)).machine
    (m.execute random (.storeRegisters x) = done { m with
        memory := stored.memory
        registers := { m.registers with index := m.registers.index + x + 1 } }
      ∧ m.Stored x stored.memory)
    ∧ (m.execute random (.loadRegisters x) = done { m with
        registers := { m.registers with
          v := loaded.registers.v, index := m.registers.index + x + 1 } }
      ∧ m.Loaded x loaded.registers.v)
    ∧ (∀ v : Vector UInt8 16, (∀ r : Fin 16, x < r.val → v.get r = m.registers.v.get r) →
      execute { stored with
        registers := { stored.registers with v, index := m.registers.index } }
        random (.loadRegisters x) = done stored)
    ∧ execute { loaded with registers := { loaded.registers with index := m.registers.index } }
        random (.storeRegisters x) = done loaded := by
  have hstore := storeRegisters_of_le hx h0 h
  have hload := loadRegisters_of_le h0 h
  refine ⟨⟨hstore.trans ?_, storeRegisters_stored hx h0 h⟩,
    ⟨hload.trans ?_, loadRegisters_loaded hx h0 h⟩,
    fun v hv => loadRegisters_storeRegisters hx h0 h hv, storeRegisters_loadRegisters hx h0 h⟩
  · simp only [execute, hstore, done]
  · simp only [execute, hload, done]

/-- A machine whose sixteen registers just fit between `I` and the end of memory. -/
def beforeStore : Machine := holding [] ⟨.ofFn fun r => 0x10 * UInt8.ofNat r + 1, 0xFF0, 0⟩

/-- They are stored up to the last cell, which leaves `I` outside memory, and they are loaded back
when all of them have been cleared. -/
theorem transfers_inverse_beforeStore :
    let stored := (beforeStore.execute 0 (.storeRegisters (15 : Nat))).machine
    (15 < 0x10 ∧ 0 ≤ beforeStore.registers.index
        ∧ beforeStore.registers.index + (15 : Nat) ≤ 0xFFF)
      ∧ stored.registers.index = 0x1000
      ∧ stored.memory.read 0xFFF = .ok 0xF1
      ∧ execute { stored with registers := ⟨.replicate 16 0, 0xFF0, 0⟩ } 0
          (.loadRegisters (15 : Nat)) = done stored := by
  obtain ⟨⟨hstore, hstored⟩, -, hback, -⟩ :=
    beforeStore.transfers_inverse 0 (x := 15) (by decide) (by decide) (by decide)
  have hindex := congrArg (fun e => e.machine.registers.index) hstore
  have hclear := hback (.replicate 16 0) fun r hr => absurd r.isLt (by omega)
  exact ⟨⟨by decide, by decide, by decide⟩, hindex, hstored.cell 15 (by decide), hclear⟩

end Machine

end ChipEight
