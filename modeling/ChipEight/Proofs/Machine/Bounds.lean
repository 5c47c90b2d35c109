import ChipEight.Proofs.Machine.Stepping

/-!
# Proofs/Machine/Bounds — how far a machine can get

Jumps, calls and returns set the program counter without wrapping it, so its bound rests on the
others: a return address was a program counter just behind a fetched word, and the farthest jump
adds a byte to an address of twelve bits.  `InBounds` holds them together, and every instruction
keeps it, also one that faults half way.
-/

namespace ChipEight.Machine

/-- **A machine within its bounds.** -/
structure InBounds (m : Machine) : Prop where
  pc : 0 ≤ m.pc ∧ m.pc ≤ 0x10FE
  index : 0 ≤ m.registers.index ∧ m.registers.index ≤ 0xFFFF
  wake : 0 ≤ m.registers.wake ∧ m.registers.wake ≤ 0xF
  depth : m.stack.depth ≤ m.stack.capacity
  returns : ∀ a ∈ m.stack.entries, 2 ≤ a ∧ a ≤ 0x1000

namespace InBounds

variable {m : Machine}

/-- The bounds say nothing about the byte registers, the phase and the devices. -/
theorem others (h : m.InBounds) (v : Vector UInt8 16) (phase : Phase) (memory : Memory)
    (screen : Screen) (keypad : Keypad) (timer : Timer) :
    InBounds { m with registers := { m.registers with v }, phase, memory, screen, keypad, timer } :=
  ⟨h.pc, h.index, h.wake, h.depth, h.returns⟩

theorem goto (h : m.InBounds) {a : Int} (h0 : 0 ≤ a) (h1 : a ≤ 0x10FE) :
    InBounds { m with pc := a } :=
  ⟨⟨h0, h1⟩, h.index, h.wake, h.depth, h.returns⟩

/-- `I` wraps, so it may be set to anything. -/
theorem setIndex (h : m.InBounds) (value : Int) :
    InBounds { m with registers := m.registers.setIndex value } :=
  ⟨h.pc, ⟨lowWord_nonneg value, Int.le_of_lt_add_one (lowWord_lt value)⟩, h.wake, h.depth,
    h.returns⟩

/-- Wrapping the program counter behind a word has no effect, and it has none behind the next. -/
theorem lowWord_pc (h : m.InBounds) : lowWord (m.pc + 2) = m.pc + 2 := by
  obtain ⟨h0, h1⟩ := h.pc
  exact lowWord_eq_self (by omega) (by omega)

/-! ## Instructions -/

/-- A call from behind a fetched word. -/
theorem enter (h : m.InBounds) (hpc : 2 ≤ m.pc ∧ m.pc ≤ 0x1000) {a : Int} (h0 : 0 ≤ a)
    (h1 : a ≤ 0x10FE) : (m.enter a).machine.InBounds := by
  by_cases hfull : m.stack.capacity ≤ m.stack.depth
  · rw [enter_of_le hfull]
    exact h
  · rw [enter_of_lt (Int.not_le.mp hfull)]
    refine ⟨⟨h0, h1⟩, h.index, h.wake, ?_, ?_⟩
    · exact Int.add_one_le_of_lt (Int.not_le.mp hfull)
    · intro r hr
      rcases List.mem_cons.mp hr with rfl | hr
      · rw [lowWord_eq_self (by omega) (by omega)]
        exact hpc
      · exact h.returns r hr

theorem leave (h : m.InBounds) : m.leave.machine.InBounds := by
  cases hentries : m.stack.entries with
  | nil =>
    rw [leave_of_nil hentries]
    exact h
  | cons a rest =>
    rw [leave_of_cons hentries]
    obtain ⟨ha0, ha1⟩ := h.returns a (hentries ▸ List.mem_cons_self)
    have hdepth := h.depth
    rw [CallStack.depth, hentries, List.length_cons] at hdepth
    have hpc : 0 ≤ a ∧ a ≤ 0x10FE := ⟨by omega, by omega⟩
    refine ⟨hpc, h.index, h.wake, ?_, fun r hr => ?_⟩
    · exact Int.le_of_lt (Int.lt_of_add_one_le hdepth)
    · exact h.returns r (hentries ▸ List.mem_cons_of_mem a hr)

/-- **An instruction keeps the bounds**, whether or not it comes to its end. -/
theorem execute (h : m.InBounds) (hpc : 2 ≤ m.pc ∧ m.pc ≤ 0x1000) (random : Int)
    {i : Instruction} (hi : i.Fits) : (m.execute random i).machine.InBounds := by
  cases i with
  | ret => exact h.leave
  | jump a =>
    obtain ⟨h0, h1⟩ := hi
    exact h.goto h0 (by omega)
  | call a =>
    obtain ⟨h0, h1⟩ := hi
    exact h.enter hpc h0 (by omega)
  | jumpOffset a =>
    obtain ⟨h0, h1⟩ := hi
    have := m.registers.get_lt 0
    exact h.goto (by omega) (by omega)
  | skipEqualByte | skipDifferentByte | skipEqual | skipDifferent | skipPressed | skipReleased =>
    rw [Machine.execute, skipIf_machine, h.lowWord_pc]
    refine h.goto ?_ ?_ <;> split <;> omega
  | loadIndex a => exact h.setIndex a
  | addIndex x => exact h.setIndex _
  | loadGlyph x => exact h.setIndex _
  | draw x y n =>
    obtain ⟨screen, v, heq⟩ := m.drawSprite_machine x y n
    rw [Machine.execute, heq]
    exact h.others _ _ _ _ _ _
  | waitForKey x =>
    obtain ⟨h0, h1⟩ := hi
    exact ⟨h.pc, h.index, ⟨h0, Int.le_of_lt_add_one h1⟩, h.depth, h.returns⟩
  | storeRegisters x =>
    have hs := h.setIndex (m.registers.index + (m.memory.writeUpTo m.registers.index
      (m.registers.take (x.toNat + 1))).2)
    exact hs.others _ _ _ _ _ _
  | loadRegisters x =>
    have hs := h.setIndex (m.registers.index
      + (m.memory.readUpTo m.registers.index (x.toNat + 1)).length)
    refine ⟨hs.pc, hs.index, ?_, hs.depth, hs.returns⟩
    exact (Registers.wake_setFrom m.registers 0 _).symm ▸ h.wake
  | _ => exact h.others _ _ _ _ _ _

/-! ## Steps and what else moves a machine -/

/-- **A step keeps the bounds.** -/
theorem step (h : m.InBounds) (random : Int) : (m.step random).machine.InBounds := by
  have hadvance {w : Nat} (hread : m.memory.readWord m.pc = .ok w) : m.advance.InBounds := by
    obtain ⟨-, h2, hle⟩ := advance_pc_of_readWord hread
    exact h.goto (Int.le_trans (by decide) h2) (Int.le_trans hle (by decide))
  have hexecute {w : Nat} {i : Instruction} (hread : m.memory.readWord m.pc = .ok w)
      (hword : Instruction.ofWord? w = some i) : (m.advance.execute random i).machine.InBounds :=
    (hadvance hread).execute (advance_pc_of_readWord hread).2 random (fits_of_fetched hread hword)
  have hs := m.step_stepping random
  generalize m.step random = s at hs ⊢
  cases hs with
  | waiting => exact h
  | unreadable => exact h
  | unknown _ hread => exact hadvance hread
  | executed _ hread hword => exact hexecute hread hword
  | stopped _ hread hword => exact hexecute hread hword

theorem resume (h : m.InBounds) (key : Int) : (m.resume key).1.InBounds := by
  unfold Machine.resume
  split
  · exact h
  · exact h.others _ _ _ _ _ _

/-- A machine with cleared registers at the program start, with no calls pending. -/
theorem of_cleared (hregisters : m.registers = .zero) (hpc : m.pc = Memory.programStart)
    (hentries : m.stack.entries = []) (hcapacity : 0 ≤ m.stack.capacity) : m.InBounds := by
  refine ⟨?_, ?_, ?_, ?_, ?_⟩
  · rw [hpc]; decide
  · rw [hregisters]; decide
  · rw [hregisters]; decide
  · rw [CallStack.depth, hentries]; exact hcapacity
  · rw [hentries]; exact fun a ha => absurd ha List.not_mem_nil

theorem restart (h : m.InBounds) : m.restart.InBounds :=
  of_cleared rfl rfl rfl (Int.le_trans (Int.natCast_nonneg m.stack.depth) h.depth)

end InBounds

theorem inBounds_initial (mode : DrawMode) {capacity : Int} (h : 0 ≤ capacity) :
    (initial mode capacity).InBounds := .of_cleared rfl rfl rfl h

/-! ## Where nothing wraps -/

/-- **Wrapping the program counter changes nothing**: not behind a fetched word, not behind a
skipped one, and not as the return address of a call. -/
structure NeverWraps (m : Machine) : Prop where
  fetch : m.advance = { m with pc := m.pc + 2 }
  skip : ∀ condition : Bool,
    m.advance.skipIf condition = done { m with pc := if condition then m.pc + 4 else m.pc + 2 }
  call : ∀ s, m.advance.stack.push m.advance.pc = .ok s →
    s = { m.stack with entries := (m.pc + 2) :: m.stack.entries }

theorem InBounds.neverWraps {m : Machine} (h : m.InBounds) : m.NeverWraps := by
  obtain ⟨h0, h1⟩ := h.pc
  have hadvance : m.advance = { m with pc := m.pc + 2 } := by rw [advance, h.lowWord_pc]
  refine ⟨hadvance, fun condition => ?_, fun s hs => ?_⟩
  · have hskip : lowWord (m.pc + 2 + 2) = m.pc + 4 := by
      rw [lowWord_eq_self (by omega) (by omega)]
      omega
    rw [hadvance, skipIf, hskip]
    cases condition <;> rfl
  · have hcall : lowWord (m.pc + 2) = m.pc + 2 := lowWord_eq_self (by omega) (by omega)
    rw [hadvance, CallStack.push, hcall] at hs
    split at hs
    · cases hs
    · cases hs; rfl

/-- Registers, cells and the timer hold bytes, and the cells of the screen zeros and ones. -/
structure HoldsBytes (m : Machine) : Prop where
  register : ∀ r, m.registers.get r ≤ 0xFF
  cell : ∀ a b, m.memory.read a = .ok b → b.toNat ≤ 0xFF
  timer : 0 ≤ m.timer.value ∧ m.timer.value ≤ 0xFF
  pixel : ∀ i : Fin 2048, m.screen.frame.cells[i] = 0 ∨ m.screen.frame.cells[i] = 1

theorem holdsBytes (m : Machine) : m.HoldsBytes where
  register r := Nat.le_of_lt_succ (m.registers.get_lt r)
  cell _ b _ := Nat.le_of_lt_succ b.toNat_lt
  timer := m.timer.byte
  pixel i := m.screen.binary i

/-! ## What a halt says about the phase -/

/-- An instruction that waits for a key does not fault, so a step that halts leaves its machine
running. -/
theorem phase_of_step_eq_error {m : Machine} {random : Int} {f : Halt}
    (h : (m.step random).answer = .error f) : (m.step random).machine.phase = .running := by
  have hs := m.step_stepping random
  generalize m.step random = s at hs h ⊢
  cases hs with
  | waiting => cases h
  | unreadable hphase => exact hphase
  | unknown hphase => exact hphase
  | executed => cases h
  | @stopped w i fault hphase _ _ hfault =>
    refine (m.advance.execute_phase random ?_).trans hphase
    rintro x rfl
    cases hfault

/-- **No step changes the capacity of the call stack.** -/
theorem step_capacity (m : Machine) (random : Int) :
    (m.step random).machine.stack.capacity = m.stack.capacity := by
  have hs := m.step_stepping random
  generalize m.step random = s at hs ⊢
  cases hs with
  | waiting => rfl
  | unreadable => rfl
  | unknown => rfl
  | executed => exact m.advance.execute_capacity random _
  | stopped => exact m.advance.execute_capacity random _

end ChipEight.Machine
