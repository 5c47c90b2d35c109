import ChipEight.Machine.Execute
import ChipEight.Proofs.Machine.Transfer

/-!
# Proofs/Machine/Effect — what an instruction changes, and what stops it

Most instructions change the registers or the program counter alone.  The first sections say which
of them reach the call stack and the phase; the last one names the fault of every instruction
(`execute_fault`): the stack is full or empty, or a transfer leaves memory.
-/

namespace ChipEight

/-! ## The call stack -/

namespace CallStack

theorem push_of_lt {s : CallStack} (h : s.depth < s.capacity) (a : Int) :
    s.push a = .ok { s with entries := lowWord a :: s.entries } := if_neg (Int.not_le.mpr h)

theorem push_of_le {s : CallStack} (h : s.capacity ≤ s.depth) (a : Int) :
    s.push a = .error (.stackOverflow s.capacity) := if_pos h

theorem pop_of_nil {s : CallStack} (h : s.entries = []) : s.pop = .error .stackUnderflow := by
  rw [pop, h]

theorem pop_of_cons {s : CallStack} {a : Int} {rest : List Int} (h : s.entries = a :: rest) :
    s.pop = .ok (a, { s with entries := rest }) := by rw [pop, h]

end CallStack

/-! ## The registers -/

namespace Registers

@[simp] theorem wake_setFrom (R : Registers) (r : Int) (bs : List UInt8) :
    (R.setFrom r bs).wake = R.wake := by
  induction bs generalizing R r with
  | nil => rfl
  | cons b bs ih => rw [setFrom, ih, wake_set]

theorem length_take (R : Registers) {n : Nat} (h : n ≤ 16) : (R.take n).length = n := by
  rw [take, List.length_take, Vector.length_toList, Nat.min_eq_left h]

end Registers

namespace Machine

/-! ## What is left alone -/

theorem skipIf_machine (m : Machine) (condition : Bool) :
    (m.skipIf condition).machine
      = { m with pc := if condition then lowWord (m.pc + 2) else m.pc } := by
  cases condition <;> rfl

theorem drawSprite_machine (m : Machine) (x y n : Int) :
    ∃ screen v, (m.drawSprite x y n).machine
      = { m with screen, registers := { m.registers with v } } := by
  simp only [drawSprite]
  split
  · exact ⟨m.screen, m.registers.v, rfl⟩
  · exact ⟨_, _, rfl⟩

theorem enter_of_lt {m : Machine} (h : m.stack.depth < m.stack.capacity) (a : Int) :
    m.enter a = done { m with
      stack := { m.stack with entries := lowWord m.pc :: m.stack.entries }, pc := a } := by
  rw [enter, CallStack.push_of_lt h]

theorem enter_of_le {m : Machine} (h : m.stack.capacity ≤ m.stack.depth) (a : Int) :
    m.enter a = ⟨m, some (.stackOverflow m.stack.capacity)⟩ := by
  rw [enter, CallStack.push_of_le h]

theorem leave_of_nil {m : Machine} (h : m.stack.entries = []) :
    m.leave = ⟨m, some .stackUnderflow⟩ := by rw [leave, CallStack.pop_of_nil h]

theorem leave_of_cons {m : Machine} {a : Int} {rest : List Int} (h : m.stack.entries = a :: rest) :
    m.leave = done { m with stack := { m.stack with entries := rest }, pc := a } := by
  rw [leave, CallStack.pop_of_cons h]

/-- A call changes the entries of the stack and the program counter at most. -/
theorem enter_machine (m : Machine) (a : Int) :
    ∃ entries pc, (m.enter a).machine = { m with stack := { m.stack with entries }, pc } := by
  by_cases h : m.stack.capacity ≤ m.stack.depth
  · rw [enter_of_le h]
    exact ⟨m.stack.entries, m.pc, rfl⟩
  · rw [enter_of_lt (Int.not_le.mp h)]
    exact ⟨_, _, rfl⟩

/-- And so does a return. -/
theorem leave_machine (m : Machine) :
    ∃ entries pc, m.leave.machine = { m with stack := { m.stack with entries }, pc } := by
  cases h : m.stack.entries with
  | nil =>
    rw [leave_of_nil h]
    exact ⟨m.stack.entries, m.pc, rfl⟩
  | cons a rest =>
    rw [leave_of_cons h]
    exact ⟨_, _, rfl⟩

/-- **Only calls and returns touch the call stack.** -/
theorem execute_stack (m : Machine) (random : Int) {i : Instruction}
    (hcall : ∀ a, i ≠ .call a) (hret : i ≠ .ret) :
    (m.execute random i).machine.stack = m.stack := by
  cases i with
  | call a => exact absurd rfl (hcall a)
  | ret => exact absurd rfl hret
  | skipEqualByte | skipDifferentByte | skipEqual | skipDifferent | skipPressed | skipReleased =>
    rw [execute, skipIf_machine]
  | draw x y n =>
    obtain ⟨screen, v, h⟩ := m.drawSprite_machine x y n
    rw [execute, h]
  | _ => rfl

theorem execute_capacity (m : Machine) (random : Int) (i : Instruction) :
    (m.execute random i).machine.stack.capacity = m.stack.capacity := by
  cases i with
  | call a =>
    obtain ⟨entries, pc, h⟩ := m.enter_machine a
    rw [execute, h]
  | ret =>
    obtain ⟨entries, pc, h⟩ := m.leave_machine
    rw [execute, h]
  | _ => rw [execute_stack m random (by simp) (by simp)]

/-- **Only a wait for a key changes the phase.** -/
theorem execute_phase (m : Machine) (random : Int) {i : Instruction}
    (hwait : ∀ x, i ≠ .waitForKey x) : (m.execute random i).machine.phase = m.phase := by
  cases i with
  | waitForKey x => exact absurd rfl (hwait x)
  | call a =>
    obtain ⟨entries, pc, h⟩ := m.enter_machine a
    rw [execute, h]
  | ret =>
    obtain ⟨entries, pc, h⟩ := m.leave_machine
    rw [execute, h]
  | skipEqualByte | skipDifferentByte | skipEqual | skipDifferent | skipPressed | skipReleased =>
    rw [execute, skipIf_machine]
  | draw x y n =>
    obtain ⟨screen, v, h⟩ := m.drawSprite_machine x y n
    rw [execute, h]
  | _ => rfl

/-! ## What stops an instruction -/

/-- The fault an instruction meets on a machine, if it meets one. -/
def obstacle (m : Machine) : Instruction → Option Fault
  | .call _ =>
    if m.stack.capacity ≤ m.stack.depth then some (.stackOverflow m.stack.capacity) else none
  | .ret => if m.stack.entries = [] then some .stackUnderflow else none
  | .draw _ _ n => Memory.overrun m.registers.index n.toNat
  | .storeDigits _ => Memory.overrun m.registers.index 3
  | .storeRegisters x | .loadRegisters x => Memory.overrun m.registers.index (x.toNat + 1)
  | _ => none

theorem drawSprite_fault {m : Machine} (hindex : 0 ≤ m.registers.index) (x y n : Int) :
    (m.drawSprite x y n).fault = Memory.overrun m.registers.index n.toNat := by
  have h : Memory.shortfall m.registers.index
        (m.memory.readUpTo m.registers.index n.toNat).length n.toNat
      = Memory.overrun m.registers.index n.toNat := by
    rw [Memory.length_readUpTo _ hindex, Memory.shortfall_eq_overrun hindex]
  unfold drawSprite
  simp only [h]
  split <;> simp_all [done]

theorem storeDigits_fault {m : Machine} (hindex : 0 ≤ m.registers.index) (x : Int) :
    (m.storeDigits x).fault = Memory.overrun m.registers.index 3 := by
  have h := m.memory.count_writeUpTo hindex (decimalDigits (m.registers.get x))
  refine Eq.trans ?_ (Memory.shortfall_eq_overrun hindex 3)
  exact congrArg (Memory.shortfall _ · 3) h

theorem storeRegisters_fault {m : Machine} (hindex : 0 ≤ m.registers.index) {x : Int}
    (hx : x < 0x10) :
    (m.storeRegisters x).fault = Memory.overrun m.registers.index (x.toNat + 1) := by
  refine Eq.trans ?_ (Memory.shortfall_eq_overrun hindex _)
  refine congrArg (Memory.shortfall _ · _) ((Memory.count_writeUpTo _ hindex _).trans ?_)
  rw [Registers.length_take _ (by omega)]

theorem loadRegisters_fault {m : Machine} (hindex : 0 ≤ m.registers.index) (x : Int) :
    (m.loadRegisters x).fault = Memory.overrun m.registers.index (x.toNat + 1) := by
  refine Eq.trans ?_ (Memory.shortfall_eq_overrun hindex _)
  exact congrArg (Memory.shortfall _ · _) (Memory.length_readUpTo _ hindex _)

/-- **The fault of an instruction.** -/
theorem execute_fault {m : Machine} (hindex : 0 ≤ m.registers.index) (random : Int)
    {i : Instruction} (hi : i.Fits) : (m.execute random i).fault = m.obstacle i := by
  cases i with
  | call a =>
    by_cases h : m.stack.capacity ≤ m.stack.depth
    · rw [execute, enter_of_le h, obstacle, if_pos h]
    · rw [execute, enter_of_lt (Int.not_le.mp h), obstacle, if_neg h]; rfl
  | ret =>
    cases h : m.stack.entries with
    | nil => rw [execute, leave_of_nil h, obstacle, if_pos h]
    | cons a rest => rw [execute, leave_of_cons h, obstacle, h, if_neg (List.cons_ne_nil _ _)]; rfl
  | skipEqualByte | skipDifferentByte | skipEqual | skipDifferent | skipPressed | skipReleased =>
    rw [execute, skipIf]
    split <;> rfl
  | draw x y n => exact drawSprite_fault hindex x y n
  | storeDigits x => exact storeDigits_fault hindex x
  | storeRegisters x => exact storeRegisters_fault hindex hi.2
  | loadRegisters x => exact loadRegisters_fault hindex x
  | _ => rfl

end Machine

end ChipEight
