import ChipEight.Proofs.Machine.Stepping

/-!
# Proofs/Machine/Halting — exactly when a step comes to a halt

`Halts` lists, from the word at the program counter, the machines that halt at their next step and
what they halt with.  It looks at nothing but the program counter, the word, `I` and the depth of
the call stack, and `step_answer_eq_error_iff` says that this decides every step of a running
machine.
-/

namespace ChipEight.Machine

/-- **What the next step of a running machine halts with**, by the word at its program counter. -/
inductive Halts (m : Machine) : Halt → Prop
  | fetch (hpc : 0xFFE < m.pc) :
      Halts m ⟨.addressOutOfRange (max m.pc 0x1000 : Int), none, m.pc⟩
  | unknown {w : Nat} (hread : m.memory.readWord m.pc = .ok w)
      (hword : ∀ i : Instruction, i.Fits → i.encode ≠ w) :
      Halts m ⟨.unknownInstruction w, some w, m.pc⟩
  /-- `2NNN` on a full stack. -/
  | overflow {w : Nat} (hread : m.memory.readWord m.pc = .ok w) (hword : w / 0x1000 = 0x2)
      (hfull : m.stack.depth = m.stack.capacity) :
      Halts m ⟨.stackOverflow m.stack.capacity, some w, m.pc⟩
  /-- `00EE` on an empty stack. -/
  | underflow {w : Nat} (hread : m.memory.readWord m.pc = .ok w) (hword : w = 0x00EE)
      (hempty : m.stack.depth = 0) : Halts m ⟨.stackUnderflow, some w, m.pc⟩
  /-- `DXYN` reading beyond memory. -/
  | draw {w : Nat} (hread : m.memory.readWord m.pc = .ok w) (hword : w / 0x1000 = 0xD)
      (hheight : 0 < w % 0x10) (hlast : 0xFFF < m.registers.index + (w % 0x10 : Nat) - 1) :
      Halts m ⟨.addressOutOfRange (max m.registers.index 0x1000 : Int), some w, m.pc⟩
  /-- `FX33` writing beyond memory. -/
  | digits {w : Nat} (hread : m.memory.readWord m.pc = .ok w)
      (hword : w / 0x1000 = 0xF ∧ w % 0x100 = 0x33) (hlast : 0xFFF < m.registers.index + 2) :
      Halts m ⟨.addressOutOfRange (max m.registers.index 0x1000 : Int), some w, m.pc⟩
  /-- `FX55` and `FX65` reaching beyond memory. -/
  | block {w : Nat} (hread : m.memory.readWord m.pc = .ok w)
      (hword : w / 0x1000 = 0xF ∧ (w % 0x100 = 0x55 ∨ w % 0x100 = 0x65))
      (hlast : 0xFFF < m.registers.index + (w / 0x100 % 0x10 : Nat)) :
      Halts m ⟨.addressOutOfRange (max m.registers.index 0x1000 : Int), some w, m.pc⟩

/-! ## Words of the instructions that can halt -/

theorem ofWord?_of_call {w : Nat} (h : w / 0x1000 = 0x2) :
    Instruction.ofWord? w = some (.call (w % 0x1000 : Nat)) := by
  have hf : w / 0x1000 % 0x10 = 0x2 := by omega
  simp only [Instruction.ofWord?, hf]

theorem ofWord?_of_draw {w : Nat} (h : w / 0x1000 = 0xD) :
    Instruction.ofWord? w
      = some (.draw (w / 0x100 % 0x10 : Nat) (w / 0x10 % 0x10 : Nat) (w % 0x10 : Nat)) := by
  have hf : w / 0x1000 % 0x10 = 0xD := by omega
  simp only [Instruction.ofWord?, hf]

theorem ofWord?_of_service {w n : Nat} (h : w / 0x1000 = 0xF) (hn : w % 0x100 = n) :
    Instruction.ofWord? w = Instruction.service? (w / 0x100 % 0x10 : Nat) n := by
  have hf : w / 0x1000 % 0x10 = 0xF := by omega
  simp only [Instruction.ofWord?, hf, hn]

/-! ## From the fault to the word -/

theorem overrun_eq_some_iff {a : Int} {n : Nat} {fault : Fault} :
    Memory.overrun a n = some fault ↔
      (0 < n ∧ 0xFFF < a + n - 1) ∧ fault = .addressOutOfRange (max a 0x1000 : Int) := by
  unfold Memory.overrun
  split
  case isTrue h => simp only [h, Option.some.injEq, true_and, and_self, eq_comm]
  case isFalse h => simp only [h, reduceCtorEq, false_and]

/-- An instruction that meets an obstacle has one of the words that are listed. -/
theorem halts_of_obstacle {m : Machine} {w : Nat} {i : Instruction} {fault : Fault}
    (hdepth : m.stack.depth ≤ m.stack.capacity) (hread : m.memory.readWord m.pc = .ok w)
    (hword : Instruction.ofWord? w = some i) (hfault : m.obstacle i = some fault) :
    m.Halts ⟨fault, some w, m.pc⟩ := by
  obtain ⟨-, -, hw⟩ := Memory.bounds_of_readWord hread
  obtain ⟨hfits, hencode⟩ := Instruction.encode_of_ofWord? hw hword
  cases i with
  | call a =>
    obtain ⟨ha0, ha1⟩ := hfits
    rw [Instruction.encode] at hencode
    rw [obstacle] at hfault
    split at hfault <;> cases hfault
    exact .overflow hread (by omega) (by omega)
  | ret =>
    rw [Instruction.encode] at hencode
    rw [obstacle] at hfault
    split at hfault
    case isTrue h =>
      cases hfault
      exact .underflow hread (by omega) (List.length_eq_zero_iff.mpr h)
    case isFalse => cases hfault
  | draw x y n =>
    obtain ⟨⟨hx0, hx1⟩, ⟨hy0, hy1⟩, hn0, hn1⟩ := hfits
    rw [Instruction.encode] at hencode
    obtain ⟨⟨hpos, hlast⟩, rfl⟩ := overrun_eq_some_iff.mp hfault
    exact .draw hread (by omega) (by omega) (by omega)
  | storeDigits x =>
    obtain ⟨hx0, hx1⟩ := hfits
    rw [Instruction.encode] at hencode
    obtain ⟨⟨hpos, hlast⟩, rfl⟩ := overrun_eq_some_iff.mp hfault
    exact .digits hread ⟨by omega, by omega⟩ (by omega)
  | storeRegisters x | loadRegisters x =>
    obtain ⟨hx0, hx1⟩ := hfits
    rw [Instruction.encode] at hencode
    obtain ⟨⟨hpos, hlast⟩, rfl⟩ := overrun_eq_some_iff.mp hfault
    exact .block hread ⟨by omega, by omega⟩ (by omega)
  | _ => cases hfault

/-! ## From the word to the fault -/

/-- The fault of an instruction that was fetched. -/
theorem fault_of_fetched {m : Machine} (hindex : 0 ≤ m.registers.index) {w : Nat}
    (hread : m.memory.readWord m.pc = .ok w) {i : Instruction}
    (hword : Instruction.ofWord? w = some i) (random : Int) :
    (m.advance.execute random i).fault = m.obstacle i :=
  execute_fault (m := m.advance) hindex random (fits_of_fetched hread hword)

/-- The answer of a step that fetched an instruction. -/
theorem step_answer_of_fetched {m : Machine} (hphase : m.phase = .running)
    (hindex : 0 ≤ m.registers.index) {w : Nat} (hread : m.memory.readWord m.pc = .ok w)
    {i : Instruction} (hword : Instruction.ofWord? w = some i) {fault : Fault}
    (hfault : m.obstacle i = some fault) (random : Int) :
    (m.step random).answer = .error ⟨fault, some w, m.pc⟩ := by
  obtain ⟨-, -, hw⟩ := Memory.bounds_of_readWord hread
  have hexecute : (m.advance.execute random i).fault = some fault :=
    (fault_of_fetched hindex hread hword random).trans hfault
  simp only [step, hphase, hread, decode_of_ofWord? hw hword, hexecute]

theorem step_answer_of_halts {m : Machine} (hphase : m.phase = .running)
    (hindex : 0 ≤ m.registers.index) {h : Halt} (hhalts : m.Halts h) (random : Int) :
    (m.step random).answer = .error h := by
  cases hhalts with
  | fetch hpc => simp only [step, hphase, m.memory.readWord_of_gt hpc]
  | unknown hread hword =>
    obtain ⟨-, -, hw⟩ := Memory.bounds_of_readWord hread
    have hnone := (Instruction.ofWord?_eq_none_iff hw).mpr hword
    simp only [step, hphase, hread, decode_of_ofWord?_none hw hnone]
  | overflow hread hword hfull =>
    refine step_answer_of_fetched hphase hindex hread (ofWord?_of_call hword) ?_ random
    exact if_pos (by omega)
  | underflow hread hword hempty =>
    subst hword
    refine step_answer_of_fetched hphase hindex hread (i := .ret) rfl ?_ random
    exact if_pos (List.length_eq_zero_iff.mp hempty)
  | draw hread hword hheight hlast =>
    refine step_answer_of_fetched hphase hindex hread (ofWord?_of_draw hword) ?_ random
    exact if_pos ⟨hheight, hlast⟩
  | digits hread hword hlast =>
    refine step_answer_of_fetched hphase hindex hread (ofWord?_of_service hword.1 hword.2) ?_ random
    exact if_pos ⟨by decide, by omega⟩
  | block hread hword hlast =>
    obtain ⟨hf, h | h⟩ := hword
    all_goals
      refine step_answer_of_fetched hphase hindex hread (ofWord?_of_service hf h) ?_ random
      exact if_pos ⟨by omega, by omega⟩

/-! ## The answer of a step -/

/-- A running machine either comes to a halt that is listed, or executes an instruction. -/
theorem halts_or_answer_eq_true {m : Machine} (hphase : m.phase = .running) (hpc : 0 ≤ m.pc)
    (hindex : 0 ≤ m.registers.index) (hdepth : m.stack.depth ≤ m.stack.capacity) (random : Int) :
    (∃ h, m.Halts h ∧ (m.step random).answer = .error h) ∨ (m.step random).answer = .ok true := by
  have hs := m.step_stepping random
  generalize m.step random = s at hs
  cases hs with
  | waiting hwaiting => rw [hphase] at hwaiting; cases hwaiting
  | unreadable _ hread =>
    left
    by_cases hle : m.pc ≤ 0xFFE
    · obtain ⟨w, hw, -⟩ := m.memory.readWord_of_le hpc hle
      rw [hread] at hw
      cases hw
    · rw [m.memory.readWord_of_gt (Int.not_le.mp hle)] at hread
      cases hread
      exact ⟨_, .fetch (Int.not_le.mp hle), rfl⟩
  | unknown _ hread hword =>
    obtain ⟨-, -, hw⟩ := Memory.bounds_of_readWord hread
    exact .inl ⟨_, .unknown hread ((Instruction.ofWord?_eq_none_iff hw).mp hword), rfl⟩
  | executed => exact .inr rfl
  | @stopped w i fault _ hread hword hfault =>
    have hobstacle : m.obstacle i = some fault :=
      (fault_of_fetched hindex hread hword random).symm.trans hfault
    exact .inl ⟨_, halts_of_obstacle hdepth hread hword hobstacle, rfl⟩

/-- **A step of a running machine halts exactly where `Halts` says so, and then with that halt**;
every other step of it answers that it executed an instruction. -/
theorem step_answer_eq_error_iff (m : Machine) (random : Int) (hphase : m.phase = .running)
    (hpc : 0 ≤ m.pc) (hindex : 0 ≤ m.registers.index)
    (hdepth : m.stack.depth ≤ m.stack.capacity) :
    (∀ h, (m.step random).answer = .error h ↔ m.Halts h)
      ∧ ((∀ h, ¬ m.Halts h) → (m.step random).answer = .ok true) := by
  have hcases := halts_or_answer_eq_true hphase hpc hindex hdepth random
  refine ⟨fun h => ⟨fun herror => ?_, fun hm => step_answer_of_halts hphase hindex hm random⟩,
    fun hnone => ?_⟩
  · rcases hcases with ⟨h', hm, h'error⟩ | htrue
    · rw [herror] at h'error
      cases h'error
      exact hm
    · rw [herror] at htrue
      cases htrue
  · rcases hcases with ⟨h', hm, -⟩ | htrue
    · exact absurd hm (hnone h')
    · exact htrue

/-- A machine about to execute `F165`, which wants two bytes from the last cell of memory on. -/
def beforeTransfer : Machine := holding [0xF1, 0x65] { Registers.zero with index := 0xFFF }

theorem beforeTransfer_readWord :
    beforeTransfer.memory.readWord beforeTransfer.pc = .ok 0xF165 := rfl

theorem step_answer_beforeTransfer :
    beforeTransfer.phase = .running ∧ 0 ≤ beforeTransfer.pc
      ∧ 0 ≤ beforeTransfer.registers.index
      ∧ beforeTransfer.stack.depth ≤ beforeTransfer.stack.capacity
      ∧ (beforeTransfer.step 0).answer
        = .error ⟨.addressOutOfRange (0x1000 : Int), some 0xF165, 0⟩ := by
  refine ⟨rfl, by decide, by decide, by decide, ?_⟩
  have hiff := step_answer_eq_error_iff beforeTransfer 0 rfl (by decide) (by decide) (by decide)
  exact (hiff.1 _).mpr (.block beforeTransfer_readWord (by decide) (by decide))

end ChipEight.Machine
