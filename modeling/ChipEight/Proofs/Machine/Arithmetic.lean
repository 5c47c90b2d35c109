import ChipEight.Machine.Execute

/-!
# Proofs/Machine/Arithmetic — results and flags

An operation reads its operands before it writes, and it writes its result before its flag.  So it
does not matter which of its registers are the same one: `Instruction.outcome?` gives the result and
the flag from the bytes that were there before, and behind the operation the registers hold them and
are otherwise as they were (`execute_outcome`).
-/

namespace ChipEight

open Instruction (FieldFits)

/-- What an operation makes of the registers: a result in one of them, and a flag if it sets one. -/
structure Outcome where
  target : Int
  result : Int
  flag : Option Nat
  deriving DecidableEq

/-- **The outcome of arithmetic**, by the bytes it finds in the registers.  The flag of an addition
is its carry; that of a subtraction is zero if it borrows. -/
def Instruction.outcome? (V : Int → Nat) : Instruction → Option Outcome
  | .addByte x nn => some ⟨x, (V x + nn) % 256, none⟩
  | .move x y => some ⟨x, V y, none⟩
  | .or x y => some ⟨x, (V x ||| V y : Nat), some 0⟩
  | .and x y => some ⟨x, (V x &&& V y : Nat), some 0⟩
  | .xor x y => some ⟨x, (V x ^^^ V y : Nat), some 0⟩
  | .add x y => some ⟨x, (V x + V y) % 256, some (if V x + V y > 255 then 1 else 0)⟩
  | .subtract x y => some ⟨x, (V x - V y) % 256, some (if V y > V x then 0 else 1)⟩
  | .subtractFrom x y => some ⟨x, (V y - V x) % 256, some (if V x > V y then 0 else 1)⟩
  | .shiftRight x y => some ⟨x, (V y / 2 : Nat), some (V y % 2)⟩
  | .shiftLeft x y => some ⟨x, 2 * V y % 256, some (V y / 128)⟩
  | _ => none

/-- **An outcome between two states of the registers.**  The flag takes precedence over a result
that is meant for `VF`. -/
structure Outcome.Takes (o : Outcome) (R R' : Registers) : Prop where
  flag : ∀ f ∈ o.flag, R'.get Registers.flag = f
  result : (o.target = Registers.flag → o.flag = none) → R'.get o.target = o.result
  others : ∀ r : Int, FieldFits 0x10 r → r ≠ o.target → (r = Registers.flag → o.flag = none) →
    R'.get r = R.get r
  index : R'.index = R.index
  wake : R'.wake = R.wake

/-! ## Writing registers -/

/-- What a byte wraps to is the byte. -/
theorem emod_of_byte {n : Nat} (h : n < 256) : (n : Int) % 256 = n := by omega

namespace Registers

variable (R : Registers) {x r : Int}

/-- A register that is set holds the byte that its value wraps to. -/
theorem get_set_self (x value : Int) : ((R.set x value).get x : Int) = value % 256 := by
  rw [get_set, if_pos rfl]
  exact Int.toNat_of_nonneg (Int.emod_nonneg value (by decide))

/-- The others keep theirs. -/
theorem get_set_of_ne (hx : FieldFits 0x10 x) (hr : FieldFits 0x10 r) (h : r ≠ x) (value : Int) :
    (R.set x value).get r = R.get r := by
  obtain ⟨hx0, hx1⟩ := hx
  obtain ⟨hr0, hr1⟩ := hr
  exact (R.get_set x r value).trans (if_neg (by omega))

theorem flag_fits : FieldFits 0x10 flag := by decide

/-- A flag is a byte, so it is found as it was written. -/
theorem get_set_flag {f : Nat} (hf : f < 256) : (R.set flag f).get flag = f := by
  have h := R.get_set_self flag f
  omega

end Registers

namespace Outcome.Takes

variable {x value result : Int}

/-- A result without a flag. -/
theorem set (R : Registers) (hx : FieldFits 0x10 x) (hresult : value % 256 = result) :
    Takes ⟨x, result, none⟩ R (R.set x value) where
  flag := nofun
  result _ := (R.get_set_self x value).trans hresult
  others _ hr hne _ := R.get_set_of_ne hx hr hne value
  index := rfl
  wake := rfl

/-- A result and then its flag. -/
theorem setFlagged (R : Registers) (hx : FieldFits 0x10 x) (hresult : value % 256 = result)
    {f : Nat} (hf : f < 256) : Takes ⟨x, result, some f⟩ R (R.setFlagged x value f) where
  flag _ h := Option.some.inj h ▸ (R.set x value).get_set_flag hf
  result h := by
    have hne : x ≠ Registers.flag := fun heq => nomatch h heq
    exact (congrArg Int.ofNat (Registers.get_set_of_ne _ Registers.flag_fits hx hne f)).trans
      ((R.get_set_self x value).trans hresult)
  others r hr hne h := by
    have hflag : r ≠ Registers.flag := fun heq => nomatch h heq
    exact (Registers.get_set_of_ne _ Registers.flag_fits hr hflag f).trans
      (R.get_set_of_ne hx hr hne value)
  index := rfl
  wake := rfl

end Outcome.Takes

namespace Machine

variable (m : Machine)

theorem execute_takes (random : Int) {i : Instruction} {o : Outcome} (hi : i.Fits)
    (ho : i.outcome? m.registers.get = some o) :
    ∃ R, m.execute random i = done { m with registers := R } ∧ o.Takes m.registers R := by
  have hV := m.registers.get_lt
  cases i with
  | addByte x nn =>
    obtain rfl := Option.some.inj ho
    exact ⟨_, rfl, .set _ hi.1 rfl⟩
  | move x y =>
    obtain rfl := Option.some.inj ho
    exact ⟨_, rfl, .set _ hi.1 (emod_of_byte (hV y))⟩
  | or x y =>
    obtain rfl := Option.some.inj ho
    have hbyte := Nat.or_lt_two_pow (n := 8) (hV x) (hV y)
    exact ⟨_, rfl, .setFlagged _ hi.1 (emod_of_byte hbyte) (by decide)⟩
  | and x y =>
    obtain rfl := Option.some.inj ho
    have hbyte := Nat.and_lt_two_pow (m.registers.get x) (n := 8) (hV y)
    exact ⟨_, rfl, .setFlagged _ hi.1 (emod_of_byte hbyte) (by decide)⟩
  | xor x y =>
    obtain rfl := Option.some.inj ho
    have hbyte := Nat.xor_lt_two_pow (n := 8) (hV x) (hV y)
    exact ⟨_, rfl, .setFlagged _ hi.1 (emod_of_byte hbyte) (by decide)⟩
  | add x y | subtract x y | subtractFrom x y =>
    obtain rfl := Option.some.inj ho
    exact ⟨_, rfl, .setFlagged _ hi.1 rfl (by split <;> decide)⟩
  | shiftRight x y =>
    obtain rfl := Option.some.inj ho
    have hy := hV y
    exact ⟨_, rfl, .setFlagged _ hi.1 (emod_of_byte (by omega)) (by omega)⟩
  | shiftLeft x y =>
    obtain rfl := Option.some.inj ho
    have hy := hV y
    exact ⟨_, rfl, .setFlagged _ hi.1 (by rw [Int.mul_comm]) (by omega)⟩
  | _ => cases ho

/-- **A carry is exact**: the flag of an addition is what its result lacks. -/
theorem execute_add_carry (random : Int) {x y : Int} (hx : FieldFits 0x10 x) (hy : FieldFits 0x10 y)
    (hflag : x ≠ Registers.flag) :
    let R := (m.execute random (.add x y)).machine.registers
    R.get x + 256 * R.get Registers.flag = m.registers.get x + m.registers.get y := by
  obtain ⟨R, hR, htakes⟩ := m.execute_takes random (i := .add x y) ⟨hx, hy⟩ rfl
  have hcarry := htakes.flag _ rfl
  have hsum : (R.get x : Int) = (m.registers.get x + m.registers.get y) % 256 :=
    htakes.result fun heq => absurd heq hflag
  have hxlt := m.registers.get_lt x
  have hylt := m.registers.get_lt y
  rw [hR]
  simp only [done]
  split at hcarry <;> omega

/-- **Arithmetic on registers**, whichever of them are the same.  An operation does not fault, and
it changes nothing but the registers: these take its outcome.  In particular a register and the
carry behind an addition are its exact sum. -/
theorem execute_outcome (random : Int) :
    (∀ (i : Instruction) (o : Outcome), i.Fits → i.outcome? m.registers.get = some o →
      ∃ R, m.execute random i = done { m with registers := R } ∧ o.Takes m.registers R)
    ∧ ∀ x y : Int, FieldFits 0x10 x → FieldFits 0x10 y → x ≠ Registers.flag →
      let R := (m.execute random (.add x y)).machine.registers
      R.get x + 256 * R.get Registers.flag = m.registers.get x + m.registers.get y :=
  ⟨fun _ _ hi ho => m.execute_takes random hi ho,
    fun _ _ hx hy hflag => m.execute_add_carry random hx hy hflag⟩

/-- A machine with 100 in `V0` and 200 in `VF`. -/
def beforeAddition : Machine :=
  { initial .set 16 with registers := (Registers.zero.set 0 100).set Registers.flag 200 }

/-- Where `VF` is added to itself, the carry is left and not the sum; where it is added to `V0`, it
is read before the carry takes its place. -/
theorem execute_outcome_flagOperand :
    ((Instruction.add 0xF 0xF).Fits
        ∧ (Instruction.add 0xF 0xF).outcome? beforeAddition.registers.get
          = some ⟨0xF, 144, some 1⟩)
      ∧ (∃ R, beforeAddition.execute 0 (.add 0xF 0xF) = done { beforeAddition with registers := R }
        ∧ R.get Registers.flag = 1 ∧ R.get 0 = 100)
      ∧ (FieldFits 0x10 0 ∧ FieldFits 0x10 0xF ∧ (0 : Int) ≠ Registers.flag)
      ∧ let R := (beforeAddition.execute 0 (.add 0 0xF)).machine.registers
        R.get 0 + 256 * R.get Registers.flag = 300 := by
  obtain ⟨htable, hcarry⟩ := beforeAddition.execute_outcome 0
  have hfits : (Instruction.add 0xF 0xF).Fits := ⟨by decide, by decide⟩
  obtain ⟨R, hR, htakes⟩ := htable (.add 0xF 0xF) ⟨0xF, 144, some 1⟩ hfits (by decide)
  have hzero : R.get 0 = 100 := htakes.others 0 (by decide) (by decide) (by decide)
  exact ⟨⟨hfits, by decide⟩, ⟨R, hR, htakes.flag 1 rfl, hzero⟩,
    ⟨by decide, by decide, by decide⟩, hcarry 0 0xF (by decide) (by decide) (by decide)⟩

end Machine

end ChipEight
