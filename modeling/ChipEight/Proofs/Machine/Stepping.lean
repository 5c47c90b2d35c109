import ChipEight.Machine.Step
import ChipEight.Proofs.Instruction.Coding
import ChipEight.Proofs.Machine.Effect

/-!
# Proofs/Machine/Stepping — the five ways a step can go

A step waits, fails to fetch, fails to decode, executes an instruction, or is stopped by one
(`step_stepping`).  What holds of every step is proved by going through them.
-/

namespace ChipEight

namespace Step

/-- The instruction a step executed to its end. -/
def executed (s : Step) : Option Fetched :=
  match s.answer with
  | .ok true => s.fetched
  | _ => none

theorem executed_eq_some_iff {s : Step} {f : Fetched} :
    s.executed = some f ↔ s.answer = .ok true ∧ s.fetched = some f := by
  unfold executed
  split
  case h_1 h => simp only [h, true_and]
  case h_2 h => exact iff_of_false nofun fun hs => h hs.1

end Step

namespace Machine

/-- **The ways a step can go**, with what decides between them. -/
inductive Stepping (m : Machine) (random : Int) : Step → Prop
  | waiting (hphase : m.phase = .waitingForKey) : Stepping m random ⟨m, none, .ok false⟩
  | unreadable {fault : Fault} (hphase : m.phase = .running)
      (hread : m.memory.readWord m.pc = .error fault) :
      Stepping m random ⟨m, none, .error ⟨fault, none, m.pc⟩⟩
  | unknown {w : Nat} (hphase : m.phase = .running) (hread : m.memory.readWord m.pc = .ok w)
      (hword : Instruction.ofWord? w = none) :
      Stepping m random ⟨m.advance, none, .error ⟨.unknownInstruction w, some w, m.pc⟩⟩
  | executed {w : Nat} {i : Instruction} (hphase : m.phase = .running)
      (hread : m.memory.readWord m.pc = .ok w) (hword : Instruction.ofWord? w = some i)
      (hfault : (m.advance.execute random i).fault = none) :
      Stepping m random ⟨(m.advance.execute random i).machine, some ⟨m.pc, w, i⟩, .ok true⟩
  | stopped {w : Nat} {i : Instruction} {fault : Fault} (hphase : m.phase = .running)
      (hread : m.memory.readWord m.pc = .ok w) (hword : Instruction.ofWord? w = some i)
      (hfault : (m.advance.execute random i).fault = some fault) :
      Stepping m random
        ⟨(m.advance.execute random i).machine, some ⟨m.pc, w, i⟩, .error ⟨fault, some w, m.pc⟩⟩

theorem decode_of_ofWord? {w : Nat} (hw : w < 0x10000) {i : Instruction}
    (h : Instruction.ofWord? w = some i) : Instruction.decode w = .ok i := by
  have : ((w : Int) % 0x10000).toNat = w := by omega
  rw [Instruction.decode, this, h]

theorem decode_of_ofWord?_none {w : Nat} (hw : w < 0x10000) (h : Instruction.ofWord? w = none) :
    Instruction.decode w = .error (.unknownInstruction w) := by
  have hlow : (w : Int) % 0x10000 = w := by omega
  rw [Instruction.decode, hlow, Int.toNat_natCast, h]

/-- An instruction that was fetched is one that a word can hold. -/
theorem fits_of_fetched {m : Machine} {w : Nat} {i : Instruction}
    (hread : m.memory.readWord m.pc = .ok w) (hword : Instruction.ofWord? w = some i) : i.Fits := by
  obtain ⟨-, -, hw⟩ := Memory.bounds_of_readWord hread
  exact (Instruction.encode_of_ofWord? hw hword).1

theorem step_stepping (m : Machine) (random : Int) : Stepping m random (m.step random) := by
  cases hphase : m.phase with
  | waitingForKey =>
    simp only [step, hphase]
    exact .waiting hphase
  | running =>
    cases hread : m.memory.readWord m.pc with
    | error fault =>
      simp only [step, hphase, hread]
      exact .unreadable hphase hread
    | ok w =>
      obtain ⟨-, -, hw⟩ := Memory.bounds_of_readWord hread
      cases hword : Instruction.ofWord? w with
      | none =>
        simp only [step, hphase, hread, decode_of_ofWord?_none hw hword]
        exact .unknown hphase hread hword
      | some i =>
        simp only [step, hphase, hread, decode_of_ofWord? hw hword]
        cases hfault : (m.advance.execute random i).fault with
        | none => exact .executed hphase hread hword hfault
        | some fault => exact .stopped hphase hread hword hfault

/-- Each way excludes the others. -/
theorem Stepping.step_eq {m : Machine} {random : Int} {s : Step} (h : Stepping m random s) :
    m.step random = s := by
  cases h with
  | waiting hphase => simp only [step, hphase]
  | unreadable hphase hread => simp only [step, hphase, hread]
  | unknown hphase hread hword =>
    obtain ⟨-, -, hw⟩ := Memory.bounds_of_readWord hread
    simp only [step, hphase, hread, decode_of_ofWord?_none hw hword]
  | executed hphase hread hword hfault | stopped hphase hread hword hfault =>
    obtain ⟨-, -, hw⟩ := Memory.bounds_of_readWord hread
    simp only [step, hphase, hread, decode_of_ofWord? hw hword, hfault]

/-- Whatever answers `true` has executed an instruction. -/
theorem exists_executed {m : Machine} {random : Int} (h : (m.step random).answer = .ok true) :
    ∃ f, (m.step random).executed = some f := by
  have hs := m.step_stepping random
  generalize m.step random = s at hs h ⊢
  cases hs with
  | waiting | unreadable | unknown | stopped => cases h
  | executed => exact ⟨_, rfl⟩

/-- A word that was fetched leaves the program counter between the second cell and the end of
memory, so wrapping it has no effect. -/
theorem advance_pc_of_readWord {m : Machine} {w : Nat} (h : m.memory.readWord m.pc = .ok w) :
    m.advance.pc = m.pc + 2 ∧ 2 ≤ m.advance.pc ∧ m.advance.pc ≤ 0x1000 := by
  obtain ⟨h0, h1, -⟩ := Memory.bounds_of_readWord h
  have hpc : m.advance.pc = m.pc + 2 := lowWord_eq_self (by omega) (by omega)
  exact ⟨hpc, by omega, by omega⟩

/-- A machine about to run the bytes at the bottom of its memory, which holds nothing else. -/
def holding (bytes : List UInt8) (registers : Registers) : Machine where
  registers
  pc := 0
  stack := .empty CallStack.defaultCapacity
  phase := .running
  memory := ((Memory.mk (.replicate 0x1000 0)).writeUpTo 0 bytes).1
  screen := .blank
  drawMode := .set
  keypad := .released
  timer := .zero

end Machine

end ChipEight
