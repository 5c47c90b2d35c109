import ChipEight.Proofs.Machine.Stepping

/-!
# Proofs/Machine/Footprint — the places an instruction can change

`Instruction.Footprint` lists, instruction by instruction, the registers, cells and devices that may
differ behind it; everything else is as it was, also where the instruction faults half way
(`execute_content`).  The program counter always moves, and `Proceeds` says where to.
-/

namespace ChipEight

/-! ## Places -/

/-- **What a machine consists of**, the program counter apart. -/
inductive Place where
  | register (r : Fin 16)
  | index
  | wake
  | phase
  | stack
  | cell (a : Fin 0x1000)
  | screen
  | drawMode
  | keypad
  | timer
  deriving DecidableEq

namespace Place

/-- The register that a number names. -/
def v (x : Int) : Place := .register (Registers.slot x)

/-- What is found at a place. -/
def Content : Place → Type
  | .register _ | .cell _ => UInt8
  | .index | .wake => Int
  | .phase => Phase
  | .stack => CallStack
  | .screen => Screen
  | .drawMode => DrawMode
  | .keypad => Keypad
  | .timer => Timer

end Place

def Machine.content (m : Machine) : (p : Place) → p.Content
  | .register r => m.registers.v[r]
  | .index => m.registers.index
  | .wake => m.registers.wake
  | .phase => m.phase
  | .stack => m.stack
  | .cell a => m.memory.cells.get a
  | .screen => m.screen
  | .drawMode => m.drawMode
  | .keypad => m.keypad
  | .timer => m.timer

/-- **The places an instruction may change**, with `I` where it finds it. -/
def Instruction.Footprint (index : Int) : Instruction → Place → Prop
  | .clearScreen, p => p = .screen
  | .call _, p | .ret, p => p = .stack
  | .loadByte x _, p | .addByte x _, p | .move x _, p | .random x _, p | .readTimer x, p =>
    p = .v x
  | .or x _, p | .and x _, p | .xor x _, p | .add x _, p | .subtract x _, p | .subtractFrom x _, p
  | .shiftRight x _, p | .shiftLeft x _, p => p = .v x ∨ p = .v Registers.flag
  | .loadIndex _, p | .addIndex _, p | .loadGlyph _, p => p = .index
  | .draw _ _ _, p => p = .screen ∨ p = .v Registers.flag
  | .setTimer _, p => p = .timer
  | .waitForKey _, p => p = .phase ∨ p = .wake
  | .storeDigits _, p => ∃ a, p = .cell a ∧ index ≤ a.val ∧ a.val ≤ index + 2
  | .storeRegisters x, p => p = .index ∨ ∃ a, p = .cell a ∧ index ≤ a.val ∧ a.val ≤ index + x
  | .loadRegisters x, p => p = .index ∨ ∃ r, p = .register r ∧ r.val ≤ x
  | .jump _, _ | .jumpOffset _, _ | .skipEqualByte _ _, _ | .skipDifferentByte _ _, _
  | .skipEqual _ _, _ | .skipDifferent _ _, _ | .skipPressed _, _ | .skipReleased _, _
  | .setSound _, _ => False

/-- Does it write to memory? -/
def Instruction.Stores : Instruction → Prop
  | .storeDigits _ | .storeRegisters _ => True
  | _ => False

namespace Machine

/-! ## One change at a time -/

section

variable (m : Machine) {p : Place}

theorem content_pc (pc : Int) : content { m with pc } p = m.content p := by cases p <;> rfl

theorem content_stack (h : p ≠ .stack) (stack : CallStack) (pc : Int) :
    content { m with stack, pc } p = m.content p := by
  cases p with
  | stack => exact absurd rfl h
  | _ => rfl

theorem content_screen (h : p ≠ .screen) (screen : Screen) :
    content { m with screen } p = m.content p := by
  cases p with
  | screen => exact absurd rfl h
  | _ => rfl

theorem content_timer (h : p ≠ .timer) (timer : Timer) :
    content { m with timer } p = m.content p := by
  cases p with
  | timer => exact absurd rfl h
  | _ => rfl

theorem content_wait (hphase : p ≠ .phase) (hwake : p ≠ .wake) (phase : Phase) (r : Int) :
    content { m with registers := m.registers.setWake r, phase } p = m.content p := by
  cases p with
  | phase => exact absurd rfl hphase
  | wake => exact absurd rfl hwake
  | _ => rfl

theorem content_index (h : p ≠ .index) (value : Int) :
    content { m with registers := m.registers.setIndex value } p = m.content p := by
  cases p with
  | index => exact absurd rfl h
  | _ => rfl

theorem content_set {x : Int} (h : p ≠ .v x) (value : Int) :
    content { m with registers := m.registers.set x value } p = m.content p := by
  cases p with
  | register r =>
    exact Vector.getElem_set_ne (Registers.slot x).isLt r.isLt
      fun heq => h (congrArg _ (Fin.ext heq.symm))
  | _ => rfl

theorem content_setFlagged {x : Int} (hx : p ≠ .v x)
    (hflag : p ≠ .v Registers.flag) (value : Int) (flagged : Nat) :
    content { m with registers := m.registers.setFlagged x value flagged } p = m.content p :=
  (content_set { m with registers := m.registers.set x value } hflag flagged).trans
    (m.content_set hx value)

theorem content_memory {memory : Memory}
    (h : ∀ a, p = .cell a → memory.cells.get a = m.memory.cells.get a) :
    content { m with memory } p = m.content p := by
  cases p with
  | cell a => exact h a rfl
  | _ => rfl

end

/-! ## Blocks -/

/-- A block transfer leaves the cells outside its block alone. -/
theorem cells_writeUpTo (M : Memory) (start : Int) (bs : List UInt8) {a : Fin 0x1000}
    (h : a.val < start ∨ start + bs.length ≤ a.val) :
    (M.writeUpTo start bs).1.cells.get a = M.cells.get a := by
  induction bs generalizing M start with
  | nil => rfl
  | cons b bs ih =>
    rw [List.length_cons] at h
    by_cases hs : Memory.InRange start
    · rw [Memory.writeUpTo, Memory.write_of_inRange M hs]
      refine (ih _ (start + 1) (by omega)).trans ?_
      have hs0 := hs.1
      exact Vector.getElem_set_ne hs.toNat_lt a.isLt (by omega)
    · rw [Memory.writeUpTo, Memory.write_of_not_inRange M hs]

/-- Registers that are loaded in a row leave those above it alone. -/
theorem v_setFrom (R : Registers) {start : Int} (h0 : 0 ≤ start) (bs : List UInt8) {r : Fin 16}
    (h : start + bs.length ≤ 0x10) (hr : r.val < start ∨ start + bs.length ≤ r.val) :
    (R.setFrom start bs).v[r] = R.v[r] := by
  induction bs generalizing R start with
  | nil => rfl
  | cons b bs ih =>
    rw [List.length_cons] at h hr
    rw [Registers.setFrom, ih (R.set start b.toNat) (by omega) (by omega) (by omega)]
    refine Vector.getElem_set_ne (Registers.slot start).isLt r.isLt ?_
    simp only [Registers.slot]
    omega

/-! ## Instructions -/

section

variable (m : Machine) {p : Place}

theorem content_drawn (hscreen : p ≠ .screen) (hflag : p ≠ .v Registers.flag) (screen : Screen)
    (value : Int) :
    content { m with screen, registers := m.registers.set Registers.flag value } p
      = m.content p :=
  (content_set { m with screen } (x := Registers.flag) hflag value).trans
    (m.content_screen hscreen screen)

theorem content_drawSprite (x y n : Int) (hscreen : p ≠ .screen) (hflag : p ≠ .v Registers.flag) :
    (m.drawSprite x y n).machine.content p = m.content p := by
  simp only [drawSprite]
  split
  · rfl
  · exact m.content_drawn hscreen hflag _ _

theorem content_storeDigits (x : Int)
    (h : ∀ a, p = .cell a → ¬ (m.registers.index ≤ a.val ∧ a.val ≤ m.registers.index + 2)) :
    (m.storeDigits x).machine.content p = m.content p := by
  have hmachine : (m.storeDigits x).machine = { m with memory :=
      (m.memory.writeUpTo m.registers.index (decimalDigits (m.registers.get x))).1 } := rfl
  have hlength : (decimalDigits (m.registers.get x)).length = 3 := rfl
  rw [hmachine]
  refine m.content_memory fun a ha => cells_writeUpTo _ _ _ ?_
  have := h a ha
  omega

theorem content_stored {memory : Memory} (hindex : p ≠ .index)
    (h : ∀ a, p = .cell a → memory.cells.get a = m.memory.cells.get a) (value : Int) :
    content { m with memory, registers := m.registers.setIndex value } p = m.content p :=
  (content_index { m with memory } hindex value).trans (m.content_memory h)

theorem content_storeRegisters {x : Int} (hx : 0 ≤ x) (hindex : p ≠ .index)
    (h : ∀ a, p = .cell a → ¬ (m.registers.index ≤ a.val ∧ a.val ≤ m.registers.index + x)) :
    (m.storeRegisters x).machine.content p = m.content p := by
  have hlength : (m.registers.take (x.toNat + 1)).length ≤ x.toNat + 1 := List.length_take_le _ _
  refine m.content_stored hindex (fun a ha => cells_writeUpTo _ _ _ ?_) _
  have := h a ha
  omega

theorem content_loaded {R : Registers} (hindex : p ≠ .index)
    (hv : ∀ r, p = .register r → R.v[r] = m.registers.v[r]) (hwake : R.wake = m.registers.wake)
    (value : Int) : content { m with registers := R.setIndex value } p = m.content p := by
  cases p with
  | register r => exact hv r rfl
  | index => exact absurd rfl hindex
  | wake => exact hwake
  | _ => rfl

theorem content_loadRegisters {x : Int} (hx : 0 ≤ x ∧ x < 0x10) (hindex : p ≠ .index)
    (h : ∀ r, p = .register r → ¬ r.val ≤ x) :
    (m.loadRegisters x).machine.content p = m.content p := by
  have hlength : (m.memory.readUpTo m.registers.index (x.toNat + 1)).length ≤ x.toNat + 1 :=
    m.memory.length_readUpTo_le _ _
  refine m.content_loaded hindex (fun r hr => ?_) (m.registers.wake_setFrom 0 _) _
  have := h r hr
  exact v_setFrom m.registers (Int.le_refl 0) _ (by omega) (by omega)

/-- **An instruction leaves everything outside its footprint alone**, whether or not it comes to
its end. -/
theorem execute_content (random : Int) {i : Instruction} (hi : i.Fits)
    (hp : ¬ i.Footprint m.registers.index p) :
    (m.execute random i).machine.content p = m.content p := by
  cases i with
  | clearScreen => exact m.content_screen hp _
  | ret =>
    obtain ⟨entries, pc, h⟩ := m.leave_machine
    rw [execute, h]
    exact m.content_stack hp _ _
  | call a =>
    obtain ⟨entries, pc, h⟩ := m.enter_machine a
    rw [execute, h]
    exact m.content_stack hp _ _
  | jump | jumpOffset => exact m.content_pc _
  | skipEqualByte | skipDifferentByte | skipEqual | skipDifferent | skipPressed | skipReleased =>
    rw [execute, skipIf_machine]
    exact m.content_pc _
  | loadByte | addByte | move | random | readTimer => exact m.content_set hp _
  | or | and | xor | add | subtract | subtractFrom | shiftRight | shiftLeft =>
    exact m.content_setFlagged (fun h => hp (.inl h)) (fun h => hp (.inr h)) _ _
  | loadIndex | addIndex | loadGlyph => exact m.content_index hp _
  | draw x y n => exact m.content_drawSprite x y n (fun h => hp (.inl h)) (fun h => hp (.inr h))
  | setTimer => exact m.content_timer hp _
  | setSound => rfl
  | waitForKey => exact m.content_wait (fun h => hp (.inl h)) (fun h => hp (.inr h)) _ _
  | storeDigits x => exact m.content_storeDigits x fun a ha hle => hp ⟨a, ha, hle⟩
  | storeRegisters x =>
    exact m.content_storeRegisters hi.1 (fun h => hp (.inl h))
      fun a ha hle => hp (.inr ⟨a, ha, hle⟩)
  | loadRegisters x =>
    exact m.content_loadRegisters hi (fun h => hp (.inl h)) fun r hr hle => hp (.inr ⟨r, hr, hle⟩)

end

/-! ## Steps -/

/-- **A step leaves everything outside the footprint of what it fetches alone**, whatever it
answers. -/
theorem step_content (m : Machine) (random : Int) {p : Place}
    (h : ∀ f, (m.step random).fetched = some f → ¬ f.instruction.Footprint m.registers.index p) :
    (m.step random).machine.content p = m.content p := by
  have hs := m.step_stepping random
  generalize m.step random = s at hs h ⊢
  cases hs with
  | waiting | unreadable => rfl
  | unknown => exact m.content_pc _
  | executed _ hread hword | stopped _ hread hword =>
    have hfits := fits_of_fetched hread hword
    exact (m.advance.execute_content random hfits (h _ rfl)).trans (m.content_pc _)

/-- No step changes the draw mode. -/
theorem step_drawMode (m : Machine) (random : Int) :
    (m.step random).machine.drawMode = m.drawMode := by
  refine m.step_content random (p := .drawMode) fun f _ => ?_
  cases f.instruction <;> simp [Instruction.Footprint, Place.v]

/-- No step moves a key. -/
theorem step_keypad (m : Machine) (random : Int) : (m.step random).machine.keypad = m.keypad := by
  refine m.step_content random (p := .keypad) fun f _ => ?_
  cases f.instruction <;> simp [Instruction.Footprint, Place.v]

/-- Only `FX33` and `FX55` change memory. -/
theorem step_memory (m : Machine) (random : Int)
    (h : ∀ f, (m.step random).fetched = some f → ¬ f.instruction.Stores) :
    (m.step random).machine.memory = m.memory := by
  refine congrArg Memory.mk (Vector.ext fun a ha => ?_)
  refine m.step_content random (p := .cell ⟨a, ha⟩) fun f hf => ?_
  have hstores := h f hf
  revert hstores
  cases f.instruction <;> simp [Instruction.Footprint, Instruction.Stores, Place.v]

/-! ## Control -/

/-- The skips whose condition holds. -/
def skips (m : Machine) : Instruction → Bool
  | .skipEqualByte x nn => (m.registers.get x : Int) = nn
  | .skipDifferentByte x nn => (m.registers.get x : Int) ≠ nn
  | .skipEqual x y => m.registers.get x = m.registers.get y
  | .skipDifferent x y => m.registers.get x ≠ m.registers.get y
  | .skipPressed x => m.keypad.isPressed (.finite (m.registers.get x : Int))
  | .skipReleased x => !m.keypad.isPressed (.finite (m.registers.get x : Int))
  | _ => false

/-- **Where control is behind an instruction**, and what a call and a return do to the stack. -/
def Proceeds (m : Machine) (i : Instruction) (after : Machine) : Prop :=
  match i with
  | .jump a => after.pc = a
  | .jumpOffset a => after.pc = a + m.registers.get 0
  | .call a =>
    after.pc = a ∧ after.stack = { m.stack with entries := (m.pc + 2) :: m.stack.entries }
  | .ret => m.stack = { after.stack with entries := after.pc :: after.stack.entries }
  | i => after.pc = m.pc + if m.skips i then 4 else 2

theorem skipIf_proceeds {m : Machine} (h0 : 0 ≤ m.pc) (h1 : m.pc ≤ 0xFFE) (condition : Bool) :
    (m.advance.skipIf condition).machine.pc = m.pc + if condition then 4 else 2 := by
  have hadvance : m.advance.pc = m.pc + 2 := lowWord_eq_self (by omega) (by omega)
  have hskip : lowWord (m.pc + 2 + 2) = m.pc + 4 := by
    rw [lowWord_eq_self (by omega) (by omega)]
    omega
  rw [skipIf_machine, hadvance, hskip]
  cases condition <;> rfl

theorem execute_proceeds {m : Machine} (h0 : 0 ≤ m.pc) (h1 : m.pc ≤ 0xFFE) (random : Int)
    {i : Instruction} (hfault : (m.advance.execute random i).fault = none) :
    m.Proceeds i (m.advance.execute random i).machine := by
  have hadvance : m.advance.pc = m.pc + 2 := lowWord_eq_self (by omega) (by omega)
  cases i with
  | jump | jumpOffset => rfl
  | call a =>
    by_cases hfull : m.advance.stack.capacity ≤ m.advance.stack.depth
    · rw [execute, enter_of_le hfull] at hfault
      cases hfault
    · rw [execute, enter_of_lt (Int.not_le.mp hfull), hadvance]
      refine ⟨rfl, ?_⟩
      rw [lowWord_eq_self (by omega) (by omega)]
      rfl
  | ret =>
    cases hentries : m.advance.stack.entries with
    | nil =>
      rw [execute, leave_of_nil hentries] at hfault
      cases hfault
    | cons a rest =>
      rw [execute, leave_of_cons hentries]
      exact congrArg (CallStack.mk m.stack.capacity) hentries
  | skipEqualByte | skipDifferentByte | skipEqual | skipDifferent | skipPressed | skipReleased =>
    exact skipIf_proceeds h0 h1 _
  | draw x y n =>
    obtain ⟨screen, v, h⟩ := m.advance.drawSprite_machine x y n
    rw [execute, h]
    exact hadvance
  | _ => exact hadvance

/-- **What a step that executes an instruction leaves alone**, and where it goes on: nothing changes
outside the footprint of the instruction. -/
structure Executes (m : Machine) (w : Nat) (i : Instruction) (s : Step) : Prop where
  read : m.memory.readWord m.pc = .ok w
  fits : i.Fits
  encode : i.encode = w
  fetched : s.fetched = some ⟨m.pc, w, i⟩
  frame : ∀ p, s.machine.content p ≠ m.content p → i.Footprint m.registers.index p
  proceeds : m.Proceeds i s.machine

theorem step_executes {m : Machine} {random : Int} (hphase : m.phase = .running)
    (hanswer : (m.step random).answer = .ok true) : ∃ w i, m.Executes w i (m.step random) := by
  have hs := m.step_stepping random
  generalize m.step random = s at hs hanswer ⊢
  cases hs with
  | waiting hwaiting => cases hphase.symm.trans hwaiting
  | unreadable | unknown | stopped => cases hanswer
  | @executed w i _ hread hword hfault =>
    obtain ⟨h0, h1, hw⟩ := Memory.bounds_of_readWord hread
    obtain ⟨hfits, hencode⟩ := Instruction.encode_of_ofWord? hw hword
    have hframe {p : Place} (hp : ¬ i.Footprint m.registers.index p) :
        (m.advance.execute random i).machine.content p = m.content p :=
      (m.advance.execute_content random hfits hp).trans (m.content_pc _)
    exact ⟨w, i, hread, hfits, hencode, rfl,
      fun p hp => Classical.byContradiction fun hout => hp (hframe hout),
      execute_proceeds h0 h1 random hfault⟩

end Machine

end ChipEight
