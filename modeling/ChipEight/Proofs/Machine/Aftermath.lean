import ChipEight.Proofs.Machine.Blocks
import ChipEight.Proofs.Machine.Halting

/-!
# Proofs/Machine/Aftermath — what a halt leaves of its machine

A step that halts has moved the program counter past the word it fetched, if it has fetched one.  Of
the instructions that can fault, calls, returns and sprites are all or nothing.  A transfer is not:
what it has moved up to the top of memory stands, and `I` stands behind it.  `Leaves` lists these
machines, and `step_leaves` says that there are no others.
-/

namespace ChipEight.Machine

/-- **What a halt leaves of a machine**, by the word that was fetched. -/
inductive Leaves (m : Machine) : Option Int → Machine → Prop
  /-- The fetch has failed. -/
  | unread {fault : Fault} (hread : m.memory.readWord m.pc = .error fault) : Leaves m none m
  /-- A word that is no instruction, `2NNN` on a full stack, `00EE` on an empty one, and `DXYN`
  reading beyond memory. -/
  | untouched {w : Nat} (hread : m.memory.readWord m.pc = .ok w)
      (hword : (∀ i : Instruction, i.Fits → i.encode ≠ w)
        ∨ (w / 0x1000 = 0x2 ∧ m.stack.capacity ≤ m.stack.depth)
        ∨ (w = 0x00EE ∧ m.stack.depth = 0)
        ∨ (w / 0x1000 = 0xD ∧ 0 < w % 0x10
          ∧ 0xFFF < m.registers.index + (w % 0x10 : Nat) - 1)) :
      Leaves m (some w) { m with pc := m.pc + 2 }
  /-- `FX33` writing the digits of `VX` beyond memory. -/
  | digits {w : Nat} {memory : Memory} (hread : m.memory.readWord m.pc = .ok w)
      (hword : w / 0x1000 = 0xF ∧ w % 0x100 = 0x33) (hlast : 0xFFF < m.registers.index + 2)
      (hmemory : let v := m.registers.get (w / 0x100 % 0x10 : Nat)
        m.memory.FilledFrom m.registers.index
          [UInt8.ofNat (v / 100), UInt8.ofNat (v / 10 % 10), UInt8.ofNat (v % 10)] memory) :
      Leaves m (some w) { m with pc := m.pc + 2, memory }
  /-- `FX55` reaching beyond memory. -/
  | stored {w : Nat} {memory : Memory} (hread : m.memory.readWord m.pc = .ok w)
      (hword : w / 0x1000 = 0xF ∧ w % 0x100 = 0x55)
      (hlast : 0xFFF < m.registers.index + (w / 0x100 % 0x10 : Nat))
      (hmemory : m.memory.FilledFrom m.registers.index
        (m.registers.v.toList.take (w / 0x100 % 0x10 + 1)) memory) :
      Leaves m (some w) { m with
        pc := m.pc + 2, memory
        registers := { m.registers with index := max m.registers.index 0x1000 } }
  /-- `FX65` reaching beyond memory. -/
  | loaded {w : Nat} {v : Vector UInt8 16} (hread : m.memory.readWord m.pc = .ok w)
      (hword : w / 0x1000 = 0xF ∧ w % 0x100 = 0x65)
      (hlast : 0xFFF < m.registers.index + (w / 0x100 % 0x10 : Nat))
      (hloaded : ∀ r : Fin 16, m.registers.index + r.val ≤ 0xFFF →
        m.memory.read (m.registers.index + r.val) = .ok v[r])
      (hkept : ∀ r : Fin 16, 0xFFF < m.registers.index + r.val → v[r] = m.registers.v[r]) :
      Leaves m (some w) { m with
        pc := m.pc + 2
        registers := { m.registers with v, index := max m.registers.index 0x1000 } }

variable {m : Machine}

/-! ## Instructions that fault -/

theorem advance_eq {w : Nat} (hread : m.memory.readWord m.pc = .ok w) :
    m.advance = { m with pc := m.pc + 2 } :=
  congrArg (fun pc => { m with pc }) (advance_pc_of_readWord hread).1

/-- A sprite that cannot be read whole is not drawn. -/
theorem drawSprite_of_fault {x y n : Int} {fault : Fault}
    (h : (m.drawSprite x y n).fault = some fault) : (m.drawSprite x y n).machine = m := by
  cases hshort : Memory.shortfall m.registers.index
    (m.memory.readUpTo m.registers.index n.toNat).length n.toNat with
  | some f => simp only [drawSprite, hshort]
  | none =>
    simp only [drawSprite, hshort] at h
    cases h

/-- Behind a transfer that reaches beyond memory, `I` stands at the first address outside. -/
theorem setIndex_of_overrun (R : Registers) {a : Int} (h0 : 0 ≤ a) (h1 : a ≤ 0xFFFF) {n moved : Nat}
    (hmoved : moved = min n (0x1000 - a).toNat) (hlast : 0 < n ∧ 0xFFF < a + n - 1) :
    R.setIndex (a + moved) = { R with index := max a 0x1000 } := by
  have htop : a + moved = max a 0x1000 := by omega
  rw [Registers.setIndex, htop, lowWord_eq_self (by omega) (by omega)]

theorem storeRegisters_of_overrun (h0 : 0 ≤ m.registers.index) (h1 : m.registers.index ≤ 0xFFFF)
    {x : Nat} (hx : x < 0x10) (hlast : 0xFFF < m.registers.index + x) :
    ∃ memory, m.memory.FilledFrom m.registers.index (m.registers.v.toList.take (x + 1)) memory
      ∧ (m.storeRegisters x).machine = { m with
        memory, registers := { m.registers with index := max m.registers.index 0x1000 } } := by
  have hmoved := m.memory.count_writeUpTo h0 (m.registers.take (x + 1))
  rw [m.registers.length_take (by omega)] at hmoved
  refine ⟨_, m.memory.filledFrom_writeUpTo h0 _, ?_⟩
  rw [← setIndex_of_overrun m.registers h0 h1 hmoved ⟨by omega, by omega⟩]
  rfl

theorem loadRegisters_of_overrun (h0 : 0 ≤ m.registers.index) (h1 : m.registers.index ≤ 0xFFFF)
    {x : Nat} (hx : x < 0x10) (hlast : 0xFFF < m.registers.index + x) :
    ∃ v : Vector UInt8 16,
      (∀ r : Fin 16, m.registers.index + r.val ≤ 0xFFF →
        m.memory.read (m.registers.index + r.val) = .ok v[r])
      ∧ (∀ r : Fin 16, 0xFFF < m.registers.index + r.val → v[r] = m.registers.v[r])
      ∧ (m.loadRegisters x).machine = { m with
        registers := { m.registers with v, index := max m.registers.index 0x1000 } } := by
  let bytes := m.memory.readUpTo m.registers.index (x + 1)
  have hmoved : bytes.length = min (x + 1) (0x1000 - m.registers.index).toNat :=
    m.memory.length_readUpTo h0 (x + 1)
  have hfits : bytes.length ≤ 0x10 := by omega
  refine ⟨(m.registers.setFrom 0 bytes).v, fun r hr => ?_, fun r hr => ?_, ?_⟩
  · exact m.registers.read_of_loaded hfits (show r.val < bytes.length by omega)
  · exact m.registers.v_setFrom_of_le hfits (show bytes.length ≤ r.val by omega)
  · have hindex := setIndex_of_overrun (m.registers.setFrom 0 bytes) h0 h1 hmoved
      ⟨by omega, by omega⟩
    change { m with registers :=
      (m.registers.setFrom 0 bytes).setIndex (m.registers.index + bytes.length) } = _
    rw [hindex, m.registers.wake_setFrom 0 bytes]

/-- What the word says of an instruction `FXnn`. -/
theorem service_of_encode {x : Int} {n w : Nat} (hx : 0 ≤ x ∧ x < 0x10) (hn : n < 0x100)
    (hencode : (0xF000 + n : Nat) + 0x100 * x = w) :
    x = (w / 0x100 % 0x10 : Nat) ∧ w / 0x1000 = 0xF ∧ w % 0x100 = n := by
  omega

/-- What an instruction leaves that was fetched and then faults. -/
theorem leaves_of_fault (h0 : 0 ≤ m.registers.index) (h1 : m.registers.index ≤ 0xFFFF) {w : Nat}
    {i : Instruction} {fault : Fault} {random : Int} (hread : m.memory.readWord m.pc = .ok w)
    (hword : Instruction.ofWord? w = some i)
    (hfault : (m.advance.execute random i).fault = some fault) :
    m.Leaves (some w) (m.advance.execute random i).machine := by
  obtain ⟨-, -, hw⟩ := Memory.bounds_of_readWord hread
  obtain ⟨hfits, hencode⟩ := Instruction.encode_of_ofWord? hw hword
  have hobstacle := (fault_of_fetched h0 hread hword random).symm.trans hfault
  cases i with
  | call a =>
    obtain ⟨ha0, ha1⟩ := hfits
    rw [Instruction.encode] at hencode
    rw [obstacle] at hobstacle
    split at hobstacle
    case isTrue hfull =>
      rw [execute, enter_of_le (m := m.advance) hfull, advance_eq hread]
      exact .untouched hread (.inr (.inl ⟨by omega, hfull⟩))
    case isFalse => cases hobstacle
  | ret =>
    rw [Instruction.encode] at hencode
    rw [obstacle] at hobstacle
    split at hobstacle
    case isTrue hempty =>
      rw [execute, leave_of_nil (m := m.advance) hempty, advance_eq hread]
      have hdepth : m.stack.depth = 0 := List.length_eq_zero_iff.mpr hempty
      exact .untouched hread (.inr (.inr (.inl ⟨by omega, hdepth⟩)))
    case isFalse => cases hobstacle
  | draw x y n =>
    obtain ⟨⟨hx0, hx1⟩, ⟨hy0, hy1⟩, hn0, hn1⟩ := hfits
    rw [Instruction.encode] at hencode
    obtain ⟨⟨hpos, hlast⟩, -⟩ := overrun_eq_some_iff.mp hobstacle
    rw [execute] at hfault ⊢
    rw [drawSprite_of_fault hfault, advance_eq hread]
    exact .untouched hread (.inr (.inr (.inr ⟨by omega, by omega, by omega⟩)))
  | storeDigits x =>
    obtain ⟨⟨-, hlast⟩, -⟩ := overrun_eq_some_iff.mp hobstacle
    have hn : 0x33 < 0x100 := by decide
    obtain ⟨rfl, hform⟩ := service_of_encode hfits hn hencode
    rw [advance_eq hread]
    exact .digits hread hform (by omega) (m.memory.filledFrom_writeUpTo h0 _)
  | storeRegisters x =>
    obtain ⟨⟨-, hlast⟩, -⟩ := overrun_eq_some_iff.mp hobstacle
    have hn : 0x55 < 0x100 := by decide
    obtain ⟨rfl, hform⟩ := service_of_encode hfits hn hencode
    have hbeyond : 0xFFF < m.registers.index + (w / 0x100 % 0x10 : Nat) := by omega
    obtain ⟨memory, hmemory, hmachine⟩ :=
      storeRegisters_of_overrun (m := m.advance) h0 h1 (by omega) hbeyond
    rw [execute, hmachine, advance_eq hread]
    exact .stored hread hform hbeyond hmemory
  | loadRegisters x =>
    obtain ⟨⟨-, hlast⟩, -⟩ := overrun_eq_some_iff.mp hobstacle
    have hn : 0x65 < 0x100 := by decide
    obtain ⟨rfl, hform⟩ := service_of_encode hfits hn hencode
    have hbeyond : 0xFFF < m.registers.index + (w / 0x100 % 0x10 : Nat) := by omega
    obtain ⟨v, hloaded, hkept, hmachine⟩ :=
      loadRegisters_of_overrun (m := m.advance) h0 h1 (by omega) hbeyond
    rw [execute, hmachine, advance_eq hread]
    exact .loaded hread hform hbeyond hloaded hkept
  | _ => cases hobstacle

/-! ## Steps -/

/-- **What a step that halts leaves behind** is what `Leaves` lists, whatever it halts with.  `I` is
a word, as it is in every machine that a run gets to (`InBounds`). -/
theorem step_leaves {random : Int} (h0 : 0 ≤ m.registers.index) (h1 : m.registers.index ≤ 0xFFFF)
    {h : Halt} (herror : (m.step random).answer = .error h) :
    m.Leaves h.word (m.step random).machine := by
  have hs := m.step_stepping random
  generalize m.step random = s at hs herror ⊢
  cases hs with
  | waiting | executed => cases herror
  | unreadable _ hread =>
    cases herror
    exact .unread hread
  | unknown _ hread hword =>
    cases herror
    obtain ⟨-, -, hw⟩ := Memory.bounds_of_readWord hread
    rw [advance_eq hread]
    exact .untouched hread (.inl ((Instruction.ofWord?_eq_none_iff hw).mp hword))
  | stopped _ hread hword hfault =>
    cases herror
    exact leaves_of_fault h0 h1 hread hword hfault

/-- Of two bytes that are wanted from the last cell on, one is loaded. -/
theorem step_leaves_beforeTransfer :
    (0 ≤ beforeTransfer.registers.index ∧ beforeTransfer.registers.index ≤ 0xFFFF)
      ∧ (beforeTransfer.step 0).answer
        = .error ⟨.addressOutOfRange (0x1000 : Int), some 0xF165, 0⟩
      ∧ beforeTransfer.Leaves (some 0xF165) (beforeTransfer.step 0).machine
      ∧ (beforeTransfer.step 0).machine.registers.index = 0x1000 := by
  have herror : (beforeTransfer.step 0).answer
      = .error ⟨.addressOutOfRange (0x1000 : Int), some 0xF165, 0⟩ :=
    step_answer_of_halts rfl (by decide) (.block beforeTransfer_readWord (by decide) (by decide)) 0
  exact ⟨by decide, herror, step_leaves (by decide) (by decide) herror, rfl⟩

end ChipEight.Machine
