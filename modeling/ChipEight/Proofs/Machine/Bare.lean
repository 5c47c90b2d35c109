import ChipEight.Proofs.Machine.Stepping

/-!
# Proofs/Machine/Bare — what runs without keys, timer and random numbers

Five kinds of instruction look at the timer, the keys or a random number, or wait for a key.  All
the others do the same on the bare machine, which has no keys and no time, and so does the error
path of every instruction: a step of a machine is a step of the bare one (`step_bare`).
-/

namespace ChipEight

/-- **It looks at neither the timer nor the keys nor a random number.** -/
def Instruction.Secluded : Instruction → Prop
  | .readTimer _ | .waitForKey _ | .random _ _ | .skipPressed _ | .skipReleased _ => False
  | _ => True

namespace Machine

/-- **The machine without keys and time**: its registers, program counter, call stack, phase, memory
and screen. -/
def bare (m : Machine) : Machine := { m with keypad := .released, timer := .zero }

/-! ## Instructions -/

theorem enter_bare (m : Machine) (a : Int) :
    (m.enter a).machine.bare = (m.bare.enter a).machine.bare
      ∧ (m.enter a).fault = (m.bare.enter a).fault := by
  by_cases h : m.stack.capacity ≤ m.stack.depth
  · rw [enter_of_le h, enter_of_le (m := m.bare) h]
    exact ⟨rfl, rfl⟩
  · rw [enter_of_lt (Int.not_le.mp h), enter_of_lt (m := m.bare) (Int.not_le.mp h)]
    exact ⟨rfl, rfl⟩

theorem leave_bare (m : Machine) :
    m.leave.machine.bare = m.bare.leave.machine.bare ∧ m.leave.fault = m.bare.leave.fault := by
  cases h : m.stack.entries with
  | nil =>
    rw [leave_of_nil h, leave_of_nil (m := m.bare) h]
    exact ⟨rfl, rfl⟩
  | cons a rest =>
    rw [leave_of_cons h, leave_of_cons (m := m.bare) h]
    exact ⟨rfl, rfl⟩

theorem skipIf_bare (m : Machine) (condition : Bool) :
    (m.skipIf condition).machine.bare = (m.bare.skipIf condition).machine.bare
      ∧ (m.skipIf condition).fault = (m.bare.skipIf condition).fault := by
  cases condition <;> exact ⟨rfl, rfl⟩

theorem drawSprite_bare (m : Machine) (x y n : Int) :
    (m.drawSprite x y n).machine.bare = (m.bare.drawSprite x y n).machine.bare
      ∧ (m.drawSprite x y n).fault = (m.bare.drawSprite x y n).fault := by
  have hrows : m.bare.memory.readUpTo m.bare.registers.index n.toNat
      = m.memory.readUpTo m.registers.index n.toNat := rfl
  have hindex : m.bare.registers.index = m.registers.index := rfl
  rw [drawSprite, drawSprite, hrows, hindex]
  cases Memory.shortfall m.registers.index
      (m.memory.readUpTo m.registers.index n.toNat).length n.toNat with
  | some fault => exact ⟨rfl, rfl⟩
  | none => exact ⟨rfl, rfl⟩

/-- **A secluded instruction does on the bare machine what it does on any.** -/
theorem execute_bare (m : Machine) (random : Int) {i : Instruction} (hi : i.Secluded) :
    (m.execute random i).machine.bare = (m.bare.execute 0 i).machine.bare
      ∧ (m.execute random i).fault = (m.bare.execute 0 i).fault := by
  cases i with
  | readTimer | waitForKey | random | skipPressed | skipReleased => exact hi.elim
  | call a => exact m.enter_bare a
  | ret => exact m.leave_bare
  | skipEqualByte | skipDifferentByte | skipEqual | skipDifferent => exact m.skipIf_bare _
  | draw x y n => exact m.drawSprite_bare x y n
  | _ => exact ⟨rfl, rfl⟩

/-- The others never fault. -/
theorem fault_of_not_secluded (m : Machine) (random : Int) {i : Instruction} (hi : ¬ i.Secluded) :
    (m.execute random i).fault = none := by
  cases i with
  | readTimer | waitForKey | random => rfl
  | skipPressed | skipReleased =>
    rw [execute, skipIf]
    split <;> rfl
  | _ => exact absurd trivial hi

/-! ## Steps -/

/-- **A step is a step of the bare machine**: it fetches the same and answers the same, and unless
it executes one of the other instructions it leaves the same bare machine. -/
theorem step_bare (m : Machine) (random : Int) :
    (m.step random).fetched = (m.bare.step 0).fetched
      ∧ (m.step random).answer = (m.bare.step 0).answer
      ∧ ((∀ f, (m.step random).executed = some f → f.instruction.Secluded) →
          (m.step random).machine.bare = (m.bare.step 0).machine.bare) := by
  have hs := m.step_stepping random
  generalize m.step random = s at hs ⊢
  cases hs with
  | waiting hphase =>
    rw [(Stepping.waiting hphase : Stepping m.bare 0 _).step_eq]
    exact ⟨rfl, rfl, fun _ => rfl⟩
  | unreadable hphase hread =>
    rw [(Stepping.unreadable hphase hread : Stepping m.bare 0 _).step_eq]
    exact ⟨rfl, rfl, fun _ => rfl⟩
  | unknown hphase hread hword =>
    rw [(Stepping.unknown hphase hread hword : Stepping m.bare 0 _).step_eq]
    exact ⟨rfl, rfl, fun _ => rfl⟩
  | @executed w i hphase hread hword hfault =>
    by_cases hi : i.Secluded
    · obtain ⟨hmachine, hsame⟩ := m.advance.execute_bare random hi
      have hfault' := hsame.symm.trans hfault
      rw [(Stepping.executed hphase hread hword hfault' : Stepping m.bare 0 _).step_eq]
      exact ⟨rfl, rfl, fun _ => hmachine⟩
    · have hfault' := m.bare.advance.fault_of_not_secluded 0 hi
      rw [(Stepping.executed hphase hread hword hfault' : Stepping m.bare 0 _).step_eq]
      exact ⟨rfl, rfl, fun h => absurd (h _ rfl) hi⟩
  | @stopped w i fault hphase hread hword hfault =>
    by_cases hi : i.Secluded
    · obtain ⟨hmachine, hsame⟩ := m.advance.execute_bare random hi
      have hfault' := hsame.symm.trans hfault
      rw [(Stepping.stopped hphase hread hword hfault' : Stepping m.bare 0 _).step_eq]
      exact ⟨rfl, rfl, fun _ => hmachine⟩
    · cases (m.advance.fault_of_not_secluded random hi).symm.trans hfault

theorem executed_bare (m : Machine) (random : Int) :
    (m.step random).executed = (m.bare.step 0).executed := by
  obtain ⟨hfetched, hanswer, -⟩ := m.step_bare random
  rw [Step.executed, Step.executed, hfetched, hanswer]

/-! ## The course of a machine -/

/-- **The bare machine so many instructions ahead.** -/
def ahead (m : Machine) : Nat → Machine
  | 0 => m.bare
  | n + 1 => (m.bare.step 0).machine.ahead n

/-- The instructions on the way there. -/
def course (m : Machine) : Nat → List Fetched
  | 0 => []
  | n + 1 => (m.bare.step 0).executed.toList ++ (m.bare.step 0).machine.course n

theorem course_succ {m : Machine} {f : Fetched} (h : (m.bare.step 0).executed = some f) (n : Nat) :
    m.course (n + 1) = f :: (m.bare.step 0).machine.course n := by
  rw [course, h]
  rfl

theorem ahead_congr {m m' : Machine} (h : m.bare = m'.bare) (n : Nat) : m.ahead n = m'.ahead n := by
  cases n with
  | zero => exact h
  | succ n => rw [ahead, ahead, h]

theorem course_congr {m m' : Machine} (h : m.bare = m'.bare) (n : Nat) :
    m.course n = m'.course n := by
  cases n with
  | zero => rfl
  | succ n => rw [course, course, h]

end Machine

end ChipEight
