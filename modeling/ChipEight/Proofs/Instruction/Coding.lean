import ChipEight.Instruction.Encoding

/-!
# Proofs/Instruction/Coding — reading a word and writing an instruction are inverse

A word and an instruction whose fields fit determine each other (`ofWord?_eq_some_iff`), so
`Instruction.encode` says without any reading which words are instructions.
-/

namespace ChipEight.Instruction

/-! ## The parts of a word

A word is put together from the digit of its family and the fields of an instruction.  Each layout
gives back its parts. -/

theorem address_parts {w : Nat} {a : Int} (f : Nat) (hf : f < 0x10) (ha : FieldFits 0x1000 a)
    (hw : 0x1000 * f + a = w) :
    w / 0x1000 % 0x10 = f ∧ ((w % 0x1000 : Nat) : Int) = a := by
  obtain ⟨ha0, ha1⟩ := ha
  constructor <;> omega

theorem byte_parts {w : Nat} {x n : Int} (f : Nat) (hf : f < 0x10) (hx : FieldFits 0x10 x)
    (hn : FieldFits 0x100 n) (hw : 0x1000 * f + 0x100 * x + n = w) :
    w / 0x1000 % 0x10 = f ∧ ((w / 0x100 % 0x10 : Nat) : Int) = x
      ∧ ((w % 0x100 : Nat) : Int) = n := by
  obtain ⟨hx0, hx1⟩ := hx
  obtain ⟨hn0, hn1⟩ := hn
  refine ⟨?_, ?_, ?_⟩ <;> omega

theorem nibble_parts {w : Nat} {x y n : Int} (f : Nat) (hf : f < 0x10) (hx : FieldFits 0x10 x)
    (hy : FieldFits 0x10 y) (hn : FieldFits 0x10 n)
    (hw : 0x1000 * f + 0x100 * x + 0x10 * y + n = w) :
    w / 0x1000 % 0x10 = f ∧ ((w / 0x100 % 0x10 : Nat) : Int) = x
      ∧ ((w / 0x10 % 0x10 : Nat) : Int) = y ∧ ((w % 0x10 : Nat) : Int) = n := by
  obtain ⟨hx0, hx1⟩ := hx
  obtain ⟨hy0, hy1⟩ := hy
  obtain ⟨hn0, hn1⟩ := hn
  refine ⟨?_, ?_, ?_, ?_⟩ <;> omega

/-! ## Families that read on -/

theorem ofWord?_arithmetic {w : Nat} {x y : Int} (n : Nat) (hn : n < 0x10)
    (h : FieldFits 0x10 x ∧ FieldFits 0x10 y)
    (hw : 0x8000 + 0x100 * x + 0x10 * y + n = w) : ofWord? w = arithmetic? x y n := by
  obtain ⟨hf, hx, hy, hn⟩ :=
    nibble_parts 8 (by decide) h.1 h.2 (n := n) ⟨by omega, by omega⟩ hw
  simp only [ofWord?, hf, hx, hy, Int.ofNat_inj.1 hn]

theorem ofWord?_keySkip {w : Nat} {x : Int} (n : Nat) (hn : n < 0x100) (hx : FieldFits 0x10 x)
    (hw : 0xE000 + 0x100 * x + n = w) :
    ofWord? w = if n = 0x9E then some (.skipPressed x)
      else if n = 0xA1 then some (.skipReleased x) else none := by
  obtain ⟨hf, hx, hn⟩ := byte_parts 0xE (by decide) hx (n := n) ⟨by omega, by omega⟩ hw
  simp only [ofWord?, hf, hx, Int.ofNat_inj.1 hn]

theorem ofWord?_service {w : Nat} {x : Int} (n : Nat) (hn : n < 0x100) (hx : FieldFits 0x10 x)
    (hw : 0xF000 + 0x100 * x + n = w) : ofWord? w = service? x n := by
  obtain ⟨hf, hx, hn⟩ := byte_parts 0xF (by decide) hx (n := n) ⟨by omega, by omega⟩ hw
  simp only [ofWord?, hf, hx, Int.ofNat_inj.1 hn]

/-! ## Words from instructions -/

/-- **The word of an instruction reads as that instruction.** -/
theorem ofWord?_encode {w : Nat} {i : Instruction} (h : i.Fits) (hw : i.encode = w) :
    ofWord? w = some i := by
  cases i with
  | clearScreen => obtain rfl : w = 0x00E0 := Int.ofNat_inj.1 hw.symm; rfl
  | ret => obtain rfl : w = 0x00EE := Int.ofNat_inj.1 hw.symm; rfl
  | jump a =>
    obtain ⟨hf, ha⟩ := address_parts 0x1 (by decide) h hw
    simp only [ofWord?, hf, ha]
  | call a =>
    obtain ⟨hf, ha⟩ := address_parts 0x2 (by decide) h hw
    simp only [ofWord?, hf, ha]
  | loadIndex a =>
    obtain ⟨hf, ha⟩ := address_parts 0xA (by decide) h hw
    simp only [ofWord?, hf, ha]
  | jumpOffset a =>
    obtain ⟨hf, ha⟩ := address_parts 0xB (by decide) h hw
    simp only [ofWord?, hf, ha]
  | skipEqualByte x nn =>
    obtain ⟨hf, hx, hnn⟩ := byte_parts 0x3 (by decide) h.1 h.2 hw
    simp only [ofWord?, hf, hx, hnn]
  | skipDifferentByte x nn =>
    obtain ⟨hf, hx, hnn⟩ := byte_parts 0x4 (by decide) h.1 h.2 hw
    simp only [ofWord?, hf, hx, hnn]
  | loadByte x nn =>
    obtain ⟨hf, hx, hnn⟩ := byte_parts 0x6 (by decide) h.1 h.2 hw
    simp only [ofWord?, hf, hx, hnn]
  | addByte x nn =>
    obtain ⟨hf, hx, hnn⟩ := byte_parts 0x7 (by decide) h.1 h.2 hw
    simp only [ofWord?, hf, hx, hnn]
  | random x nn =>
    obtain ⟨hf, hx, hnn⟩ := byte_parts 0xC (by decide) h.1 h.2 hw
    simp only [ofWord?, hf, hx, hnn]
  | skipEqual x y =>
    obtain ⟨hf, hx, hy, hn⟩ := nibble_parts 0x5 (by decide) h.1 h.2 (n := 0)
      ⟨by decide, by decide⟩ ((Int.add_zero _).trans hw)
    simp only [ofWord?, hf, hx, hy, Int.ofNat_inj.1 hn, if_true]
  | skipDifferent x y =>
    obtain ⟨hf, hx, hy, hn⟩ := nibble_parts 0x9 (by decide) h.1 h.2 (n := 0)
      ⟨by decide, by decide⟩ ((Int.add_zero _).trans hw)
    simp only [ofWord?, hf, hx, hy, Int.ofNat_inj.1 hn, if_true]
  | draw x y n =>
    obtain ⟨hf, hx, hy, hn⟩ := nibble_parts 0xD (by decide) h.1 h.2.1 h.2.2 hw
    simp only [ofWord?, hf, hx, hy, hn]
  | move x y => exact ofWord?_arithmetic 0x0 (by decide) h (by rw [← hw, encode]; omega)
  | or x y => exact ofWord?_arithmetic 0x1 (by decide) h (by rw [← hw, encode]; omega)
  | and x y => exact ofWord?_arithmetic 0x2 (by decide) h (by rw [← hw, encode]; omega)
  | xor x y => exact ofWord?_arithmetic 0x3 (by decide) h (by rw [← hw, encode]; omega)
  | add x y => exact ofWord?_arithmetic 0x4 (by decide) h (by rw [← hw, encode]; omega)
  | subtract x y => exact ofWord?_arithmetic 0x5 (by decide) h (by rw [← hw, encode]; omega)
  | shiftRight x y => exact ofWord?_arithmetic 0x6 (by decide) h (by rw [← hw, encode]; omega)
  | subtractFrom x y => exact ofWord?_arithmetic 0x7 (by decide) h (by rw [← hw, encode]; omega)
  | shiftLeft x y => exact ofWord?_arithmetic 0xE (by decide) h (by rw [← hw, encode]; omega)
  | skipPressed x => exact ofWord?_keySkip 0x9E (by decide) h (by rw [← hw, encode]; omega)
  | skipReleased x => exact ofWord?_keySkip 0xA1 (by decide) h (by rw [← hw, encode]; omega)
  | readTimer x => exact ofWord?_service 0x07 (by decide) h (by rw [← hw, encode]; omega)
  | waitForKey x => exact ofWord?_service 0x0A (by decide) h (by rw [← hw, encode]; omega)
  | setTimer x => exact ofWord?_service 0x15 (by decide) h (by rw [← hw, encode]; omega)
  | setSound x => exact ofWord?_service 0x18 (by decide) h (by rw [← hw, encode]; omega)
  | addIndex x => exact ofWord?_service 0x1E (by decide) h (by rw [← hw, encode]; omega)
  | loadGlyph x => exact ofWord?_service 0x29 (by decide) h (by rw [← hw, encode]; omega)
  | storeDigits x => exact ofWord?_service 0x33 (by decide) h (by rw [← hw, encode]; omega)
  | storeRegisters x => exact ofWord?_service 0x55 (by decide) h (by rw [← hw, encode]; omega)
  | loadRegisters x => exact ofWord?_service 0x65 (by decide) h (by rw [← hw, encode]; omega)

/-! ## Instructions from words -/

theorem encode_of_arithmetic? {x y : Int} {n : Nat} {i : Instruction}
    (hx : FieldFits 0x10 x) (hy : FieldFits 0x10 y) (h : arithmetic? x y n = some i) :
    i.Fits ∧ i.encode = 0x8000 + 0x100 * x + 0x10 * y + n := by
  unfold arithmetic? at h
  split at h <;> cases h <;> exact ⟨⟨hx, hy⟩, by rw [encode]; omega⟩

theorem encode_of_service? {x : Int} {n : Nat} {i : Instruction} (hx : FieldFits 0x10 x)
    (h : service? x n = some i) : i.Fits ∧ i.encode = 0xF000 + 0x100 * x + n := by
  unfold service? at h
  split at h <;> cases h <;> exact ⟨hx, by rw [encode]; omega⟩

/-- A word that reads as an instruction is the word of that instruction, and the fields fit. -/
theorem encode_of_ofWord? {w : Nat} {i : Instruction} (hw : w < 0x10000)
    (h : ofWord? w = some i) : i.Fits ∧ i.encode = w := by
  have hx : FieldFits 0x10 ((w / 0x100 % 0x10 : Nat) : Int) := ⟨by omega, by omega⟩
  have hy : FieldFits 0x10 ((w / 0x10 % 0x10 : Nat) : Int) := ⟨by omega, by omega⟩
  have hn : FieldFits 0x10 ((w % 0x10 : Nat) : Int) := ⟨by omega, by omega⟩
  have hnn : FieldFits 0x100 ((w % 0x100 : Nat) : Int) := ⟨by omega, by omega⟩
  have ha : FieldFits 0x1000 ((w % 0x1000 : Nat) : Int) := ⟨by omega, by omega⟩
  unfold ofWord? at h
  simp only at h
  split at h
  case h_1 =>
    split at h
    · cases h; exact ⟨trivial, by rw [encode]; omega⟩
    · split at h <;> cases h
      exact ⟨trivial, by rw [encode]; omega⟩
  case h_6 | h_10 =>
    all_goals
      split at h <;> cases h
      exact ⟨⟨hx, hy⟩, by rw [encode]; omega⟩
  case h_9 =>
    obtain ⟨hfits, hi⟩ := encode_of_arithmetic? hx hy h
    exact ⟨hfits, by omega⟩
  case h_15 =>
    split at h
    · cases h; exact ⟨hx, by rw [encode]; omega⟩
    · split at h <;> cases h
      exact ⟨hx, by rw [encode]; omega⟩
  case h_16 =>
    -- What is left of sixteen digits once fifteen are excluded.
    have hf : w / 0x1000 % 0x10 = 0xF := by simp only [imp_false] at *; omega
    obtain ⟨hfits, hi⟩ := encode_of_service? hx h
    exact ⟨hfits, by omega⟩
  all_goals cases h
  case h_14 => exact ⟨⟨hx, hy, hn⟩, by rw [encode]; omega⟩
  case h_2 | h_3 | h_11 | h_12 => all_goals exact ⟨ha, by rw [encode]; omega⟩
  all_goals exact ⟨⟨hx, hnn⟩, by rw [encode]; omega⟩

/-- **A word and an instruction whose fields fit determine each other.** -/
theorem ofWord?_eq_some_iff {w : Nat} (hw : w < 0x10000) {i : Instruction} :
    ofWord? w = some i ↔ i.Fits ∧ i.encode = w :=
  ⟨encode_of_ofWord? hw, fun h => ofWord?_encode h.1 h.2⟩

/-- A word is no instruction exactly when no instruction has it. -/
theorem ofWord?_eq_none_iff {w : Nat} (hw : w < 0x10000) :
    ofWord? w = none ↔ ∀ i : Instruction, i.Fits → i.encode ≠ w := by
  rw [Option.eq_none_iff_forall_ne_some]
  refine forall_congr' fun i => ?_
  rw [ne_eq, ofWord?_eq_some_iff hw, not_and]

/-! ## Decoding -/

/-- The word that an integer stands for. -/
theorem toNat_word (w : Int) :
    ((w % 0x10000).toNat : Int) = w % 0x10000 ∧ (w % 0x10000).toNat < 0x10000 := by
  omega

/-- **Decoding undoes encoding**, and decodes nothing else. -/
theorem decode_eq_ok_iff {w : Int} {i : Instruction} :
    decode w = .ok i ↔ i.Fits ∧ i.encode = w % 0x10000 := by
  obtain ⟨hword, hlt⟩ := toNat_word w
  have h := ofWord?_eq_some_iff hlt (i := i)
  rw [hword] at h
  rw [← h, decode]
  rcases ofWord? (w % 0x10000).toNat with _ | j
  · exact iff_of_false nofun nofun
  · rw [Except.ok.injEq, Option.some.injEq]

/-- A word that no instruction has is the fault that names it. -/
theorem decode_eq_error {w : Int} (h : ∀ i : Instruction, i.Fits → i.encode ≠ w % 0x10000) :
    decode w = .error (.unknownInstruction (w % 0x10000)) := by
  obtain ⟨hword, hlt⟩ := toNat_word w
  have hnone := (ofWord?_eq_none_iff hlt).mpr fun i hi => hword.symm ▸ h i hi
  rw [decode, hnone]

end ChipEight.Instruction
