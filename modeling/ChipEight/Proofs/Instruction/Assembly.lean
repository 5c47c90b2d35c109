import ChipEight.Proofs.Instruction.Listing
import ChipEight.Proofs.Machine.Transfer
import ChipEight.Proofs.Number.Shortest

/-!
# Proofs/Instruction/Assembly — a line tells its instruction

Instructions share names: eleven are called `LD`, and only the shape of their operands tells them
apart.  So a line is taken apart into words, the words are read as operands by their first
characters, and name and operands together are looked up.  This assembler reads back every line of
an instruction whose fields are natural numbers (`assemble_listing`), and so no two of them have the
same line (`listing_inj`).
-/

namespace ChipEight.Instruction

open Literal (spanDigits valueOf readDecimal)

/-! ## Words -/

/-- The words of a line: there are blanks between them, and commas count for nothing. -/
def words : List Char → List (List Char)
  | [] => [[]]
  | c :: cs =>
    if c = ' ' then [] :: words cs
    else if c = ',' then words cs
    else
      match words cs with
      | [] => [[c]]
      | word :: rest => (c :: word) :: rest

/-- It has neither blanks nor commas. -/
def Plain (text : List Char) : Prop := ∀ c ∈ text, c ≠ ' ' ∧ c ≠ ','

instance (text : List Char) : Decidable (Plain text) := List.decidableBAll _ text

/-- A plain text is part of the word behind it. -/
theorem words_append {text : List Char} (h : Plain text) (cs : List Char) {word : List Char}
    {rest : List (List Char)} (hcs : words cs = word :: rest) :
    words (text ++ cs) = (text ++ word) :: rest := by
  induction text with
  | nil => exact hcs
  | cons c text ih =>
    obtain ⟨⟨hblank, hcomma⟩, htext⟩ := List.forall_mem_cons.mp h
    rw [List.cons_append, words, if_neg hblank, if_neg hcomma, ih htext]
    rfl

theorem words_plain {text : List Char} (h : Plain text) : words text = [text] := by
  have hwords := words_append h [] rfl
  rwa [List.append_nil] at hwords

theorem words_blank {text : List Char} (h : Plain text) (cs : List Char) :
    words (text ++ ' ' :: cs) = text :: words cs := by
  have hwords := words_append h (' ' :: cs) rfl
  rwa [List.append_nil] at hwords

theorem words_comma {text : List Char} (h : Plain text) (cs : List Char) :
    words (text ++ ',' :: ' ' :: cs) = text :: words cs := by
  have hwords := words_append h (',' :: ' ' :: cs) rfl
  rwa [List.append_nil] at hwords

/-! ## Operands -/

/-- What a word of a line stands for, other than the first. -/
inductive Operand where
  | register (x : Int)
  | number (v : Int)
  | decimal (n : Int)
  | named (name : String)

/-- The operand that a word stands for. -/
def operand : List Char → Operand
  | 'V' :: cs => .register (valueOf 16 (spanDigits 16 cs).1)
  | '0' :: 'x' :: cs => .number (valueOf 16 (spanDigits 16 cs).1)
  | cs =>
    match (readDecimal false cs).whole? with
    | some n => .decimal n
    | none => .named (String.ofList cs)

/-- The digits of a number that is not negative. -/
theorem hex_ofInt {v : Int} (hv : 0 ≤ v) : Hex.ofInt v = Hex.digits v.toNat := by
  have habs : v.natAbs = v.toNat := by omega
  rw [Hex.ofInt, if_neg (Int.not_lt.mpr hv), habs]

theorem toList_register {x : Int} (hx : 0 ≤ x) :
    (register x).toList = 'V' :: Hex.pad 0 (Hex.digits x.toNat) := by
  rw [register, Hex.label, String.toList_append, hex_ofInt hx, Hex.pad, Nat.zero_sub]
  exact congrArg ('V' :: ·) String.toList_ofList

theorem toList_literal {v : Int} (hv : 0 ≤ v) (width : Nat) :
    (Hex.literal v width).toList = '0' :: 'x' :: Hex.pad width (Hex.digits v.toNat) := by
  rw [Hex.literal, String.toList_ofList, Hex.ofDyadic_intCast, hex_ofInt hv]

theorem operand_register {x : Int} (hx : 0 ≤ x) : operand (register x).toList = .register x := by
  obtain ⟨ds, hspan, hvalue⟩ := Hex.spanDigits_pad 0 x.toNat
  rw [toList_register hx, operand, hspan, hvalue, Int.toNat_of_nonneg hx]

theorem operand_literal {v : Int} (hv : 0 ≤ v) (width : Nat) :
    operand (Hex.literal v width).toList = .number v := by
  obtain ⟨ds, hspan, hvalue⟩ := Hex.spanDigits_pad width v.toNat
  rw [toList_literal hv, operand, hspan, hvalue, Int.toNat_of_nonneg hv]

/-- A text that reads as a number looks neither like a register nor like a literal. -/
theorem operand_decimal {n : Int} (hn : 0 ≤ n) (hholds : Binary64.Holds n.toNat) :
    operand (Shortest.ofInt n).toList = .decimal n := by
  have hread := Shortest.readDecimal_ofInt hholds
  rw [Int.toNat_of_nonneg hn] at hread
  generalize (Shortest.ofInt n).toList = text at hread
  unfold operand
  split
  case h_1 cs => cases hread
  case h_2 cs => cases hread
  case h_3 =>
    rw [hread]
    simp [Binary64.whole?]

/-! ## Words that operands are -/

theorem plain_pad (width n : Nat) : Plain (Hex.pad width (Hex.digits n)) := by
  have hdigit : ∀ d < 16, Hex.digit d ≠ ' ' ∧ Hex.digit d ≠ ',' := by decide
  obtain ⟨ds, hdigits, hlt, -⟩ := Hex.exists_digits n
  refine List.forall_mem_append.mpr ⟨fun c hc => ?_, fun c hc => ?_⟩
  · exact List.eq_of_mem_replicate hc ▸ by decide
  · rw [hdigits] at hc
    obtain ⟨d, hd, rfl⟩ := List.mem_map.mp hc
    exact hdigit d (hlt d hd)

theorem plain_register {x : Int} (hx : 0 ≤ x) : Plain (register x).toList := by
  rw [toList_register hx]
  exact List.forall_mem_cons.mpr ⟨by decide, plain_pad 0 _⟩

theorem plain_literal {v : Int} (hv : 0 ≤ v) (width : Nat) :
    Plain (Hex.literal v width).toList := by
  rw [toList_literal hv]
  exact List.forall_mem_cons.mpr
    ⟨by decide, List.forall_mem_cons.mpr ⟨by decide, plain_pad width _⟩⟩

theorem plain_decimal {n : Int} (hn : 0 ≤ n) (hholds : Binary64.Holds n.toNat) :
    Plain (Shortest.ofInt n).toList := by
  have hmem := Shortest.mem_ofInt hholds
  rw [Int.toNat_of_nonneg hn] at hmem
  intro c hc
  refine ⟨?_, ?_⟩
  · rintro rfl
    exact absurd (hmem _ hc) (by simp [Shortest.Occurs])
  · rintro rfl
    exact absurd (hmem _ hc) (by simp [Shortest.Occurs])

/-! ## Lines -/

/-- The operation of a name on two registers. -/
def ofRegisters? (x y : Int) : String → Option Instruction
  | "SE" => some (.skipEqual x y)
  | "SNE" => some (.skipDifferent x y)
  | "LD" => some (.move x y)
  | "OR" => some (.or x y)
  | "AND" => some (.and x y)
  | "XOR" => some (.xor x y)
  | "ADD" => some (.add x y)
  | "SUB" => some (.subtract x y)
  | "SUBN" => some (.subtractFrom x y)
  | "SHR" => some (.shiftRight x y)
  | "SHL" => some (.shiftLeft x y)
  | _ => none

/-- The operation of a name on a register and a byte. -/
def ofByte? (x nn : Int) : String → Option Instruction
  | "SE" => some (.skipEqualByte x nn)
  | "SNE" => some (.skipDifferentByte x nn)
  | "LD" => some (.loadByte x nn)
  | "ADD" => some (.addByte x nn)
  | "RND" => some (.random x nn)
  | _ => none

/-- What loads a register, by the name of the source. -/
def ofSource? (x : Int) : String → Option Instruction
  | "DT" => some (.readTimer x)
  | "K" => some (.waitForKey x)
  | "[I]" => some (.loadRegisters x)
  | _ => none

/-- What takes a register, by the name of the target. -/
def ofTarget? (x : Int) : String → Option Instruction
  | "DT" => some (.setTimer x)
  | "ST" => some (.setSound x)
  | "F" => some (.loadGlyph x)
  | "B" => some (.storeDigits x)
  | "[I]" => some (.storeRegisters x)
  | _ => none

/-- The instruction of a name and operands. -/
def ofOperands? : String → List Operand → Option Instruction
  | "CLS", [] => some .clearScreen
  | "RET", [] => some .ret
  | "JP", [.number a] => some (.jump a)
  | "CALL", [.number a] => some (.call a)
  | "SKP", [.register x] => some (.skipPressed x)
  | "SKNP", [.register x] => some (.skipReleased x)
  | "JP", [.register _, .number a] => some (.jumpOffset a)
  | "LD", [.named "I", .number a] => some (.loadIndex a)
  | "ADD", [.named "I", .register x] => some (.addIndex x)
  | "LD", [.register x, .named source] => ofSource? x source
  | "LD", [.named target, .register x] => ofTarget? x target
  | "DRW", [.register x, .register y, .decimal n] => some (.draw x y n)
  | name, [.register x, .register y] => ofRegisters? x y name
  | name, [.register x, .number nn] => ofByte? x nn name
  | _, _ => none

/-- **The assembler**: the instruction that a line stands for. -/
def assemble (line : String) : Option Instruction :=
  match words line.toList with
  | [] => none
  | name :: operands => ofOperands? (String.ofList name) (operands.map operand)

theorem assemble_unary (name : String) {t : String} (hname : Plain name.toList)
    (ht : Plain t.toList) :
    assemble (name ++ " " ++ t) = ofOperands? name [operand t.toList] := by
  have hline : (name ++ " " ++ t).toList = name.toList ++ ' ' :: t.toList := by
    simp
  rw [assemble, hline, words_blank hname, words_plain ht]
  simp

theorem assemble_binary {name l r : String} (hname : Plain name.toList) (hl : Plain l.toList)
    (hr : Plain r.toList) :
    assemble (binary name l r) = ofOperands? name [operand l.toList, operand r.toList] := by
  have hline : (binary name l r).toList
      = name.toList ++ ' ' :: (l.toList ++ ',' :: ' ' :: r.toList) := by
    simp [binary]
  rw [assemble, hline, words_blank hname, words_comma hl, words_plain hr]
  simp

theorem assemble_ternary (name : String) {l r t : String} (hname : Plain name.toList)
    (hl : Plain l.toList) (hr : Plain r.toList) (ht : Plain t.toList) :
    assemble (binary name l r ++ ", " ++ t)
      = ofOperands? name [operand l.toList, operand r.toList, operand t.toList] := by
  have hline : (binary name l r ++ ", " ++ t).toList
      = name.toList ++ ' ' :: (l.toList ++ ',' :: ' ' :: (r.toList ++ ',' :: ' ' :: t.toList)) := by
    simp [binary]
  rw [assemble, hline, words_blank hname, words_comma hl, words_comma hr, words_plain ht]
  simp

/-! ## Reading back -/

/-- **Every field is a natural number.**  The height of a sprite is written in decimal, with the
shortest digits that tell it from other doubles, so it has to be a double itself. -/
def Natural : Instruction → Prop
  | .clearScreen | .ret => True
  | .jump a | .call a | .loadIndex a | .jumpOffset a => 0 ≤ a
  | .skipEqualByte x nn | .skipDifferentByte x nn | .loadByte x nn | .addByte x nn
  | .random x nn => 0 ≤ x ∧ 0 ≤ nn
  | .skipEqual x y | .skipDifferent x y | .move x y | .or x y | .and x y | .xor x y | .add x y
  | .subtract x y | .shiftRight x y | .subtractFrom x y | .shiftLeft x y => 0 ≤ x ∧ 0 ≤ y
  | .draw x y n => 0 ≤ x ∧ 0 ≤ y ∧ 0 ≤ n ∧ Binary64.Holds n.toNat
  | .skipPressed x | .skipReleased x | .readTimer x | .waitForKey x | .setTimer x | .setSound x
  | .addIndex x | .loadGlyph x | .storeDigits x | .storeRegisters x | .loadRegisters x => 0 ≤ x

section

variable {x y v : Int} {name : String}

theorem assemble_literal (name : String) (hv : 0 ≤ v) (hname : Plain name.toList) :
    assemble (name ++ " " ++ Hex.literal v 3) = ofOperands? name [.number v] := by
  rw [assemble_unary name hname (plain_literal hv 3), operand_literal hv]

theorem assemble_register (name : String) (hx : 0 ≤ x) (hname : Plain name.toList) :
    assemble (name ++ " " ++ register x) = ofOperands? name [.register x] := by
  rw [assemble_unary name hname (plain_register hx), operand_register hx]

theorem assemble_registers (hx : 0 ≤ x) (hy : 0 ≤ y) (hname : Plain name.toList) :
    assemble (binary name (register x) (register y))
      = ofOperands? name [.register x, .register y] := by
  rw [assemble_binary hname (plain_register hx) (plain_register hy), operand_register hx,
    operand_register hy]

theorem assemble_byte (hx : 0 ≤ x) (hv : 0 ≤ v) (hname : Plain name.toList) :
    assemble (binary name (register x) (Hex.literal v 2))
      = ofOperands? name [.register x, .number v] := by
  rw [assemble_binary hname (plain_register hx) (plain_literal hv 2), operand_register hx,
    operand_literal hv]

theorem assemble_source (hx : 0 ≤ x) {source : String} (hname : Plain name.toList)
    (hsource : Plain source.toList) :
    assemble (binary name (register x) source)
      = ofOperands? name [.register x, operand source.toList] := by
  rw [assemble_binary hname (plain_register hx) hsource, operand_register hx]

theorem assemble_target (hx : 0 ≤ x) {target : String} (hname : Plain name.toList)
    (htarget : Plain target.toList) :
    assemble (binary name target (register x))
      = ofOperands? name [operand target.toList, .register x] := by
  rw [assemble_binary hname htarget (plain_register hx), operand_register hx]

theorem assemble_address (hv : 0 ≤ v) {target : String} (hname : Plain name.toList)
    (htarget : Plain target.toList) :
    assemble (binary name target (Hex.literal v 3))
      = ofOperands? name [operand target.toList, .number v] := by
  rw [assemble_binary hname htarget (plain_literal hv 3), operand_literal hv]

end

/-- **The assembler reads lines back.** -/
theorem assemble_listing {i : Instruction} (h : i.Natural) : assemble i.listing = some i := by
  cases i with
  | clearScreen | ret => rfl
  | skipEqual x y | skipDifferent x y | move x y | or x y | and x y | xor x y | add x y
  | subtract x y | shiftRight x y | subtractFrom x y | shiftLeft x y =>
    exact assemble_registers h.1 h.2 (by decide)
  | skipEqualByte x nn | skipDifferentByte x nn | loadByte x nn | addByte x nn | random x nn =>
    exact assemble_byte h.1 h.2 (by decide)
  | readTimer x | waitForKey x | loadRegisters x => exact assemble_source h (by decide) (by decide)
  | setTimer x | setSound x | addIndex x | loadGlyph x | storeDigits x | storeRegisters x =>
    exact assemble_target h (by decide) (by decide)
  | loadIndex a | jumpOffset a => exact assemble_address h (by decide) (by decide)
  | jump a => exact assemble_literal "JP" h (by decide)
  | call a => exact assemble_literal "CALL" h (by decide)
  | skipPressed x => exact assemble_register "SKP" h (by decide)
  | skipReleased x => exact assemble_register "SKNP" h (by decide)
  | draw x y n =>
    obtain ⟨hx, hy, hn, hholds⟩ := h
    have hline := assemble_ternary "DRW" (by decide) (plain_register hx) (plain_register hy)
      (plain_decimal hn hholds)
    rw [operand_register hx, operand_register hy, operand_decimal hn hholds] at hline
    exact hline

/-- **No two instructions with natural fields have the same line.** -/
theorem listing_inj {i j : Instruction} (hi : i.Natural) (hj : j.Natural)
    (h : i.listing = j.listing) : i = j := by
  have hassemble := congrArg assemble h
  rw [assemble_listing hi, assemble_listing hj] at hassemble
  exact Option.some.inj hassemble

/-- A height that is no double has the line of the double next to it. -/
example : ¬ Binary64.Holds (10 ^ 23)
    ∧ (draw 0 0 (10 ^ 23)).listing = (draw 0 0 99999999999999991611392).listing := by
  decide +kernel

/-- What a word can hold is a natural number. -/
theorem Fits.natural {i : Instruction} (h : i.Fits) : i.Natural := by
  cases i with
  | clearScreen | ret => trivial
  | draw x y n =>
    obtain ⟨hx, hy, hn0, hn1⟩ := h
    exact ⟨hx.1, hy.1, hn0, Binary64.holds_of_lt (by omega)⟩
  | jump | call | loadIndex | jumpOffset => exact h.1
  | skipEqualByte | skipDifferentByte | loadByte | addByte | random => exact ⟨h.1.1, h.2.1⟩
  | skipEqual | skipDifferent | move | or | and | xor | add | subtract | shiftRight | subtractFrom
  | shiftLeft => exact ⟨h.1.1, h.2.1⟩
  | _ => exact h.1

/-- **A word is told by its line**, whether or not it is an instruction. -/
theorem listWord_inj {v w : Nat} (hv : v < 0x10000) (hw : w < 0x10000)
    (h : listWord v = listWord w) : v = w := by
  cases hword : ofWord? w with
  | none =>
    have hdata : listWord w = dataLine w := listWord_eq_data_iff.mpr ⟨hword, rfl⟩
    exact (listWord_eq_data_iff.mp (h.trans hdata)).2
  | some j =>
    cases hword' : ofWord? v with
    | none =>
      have hdata : listWord v = dataLine v := listWord_eq_data_iff.mpr ⟨hword', rfl⟩
      exact (listWord_eq_data_iff.mp (h.symm.trans hdata)).2.symm
    | some i =>
      obtain ⟨hi, hiv⟩ := encode_of_ofWord? hv hword'
      obtain ⟨hj, hjw⟩ := encode_of_ofWord? hw hword
      rw [listWord, listWord, hword, hword'] at h
      have hij := listing_inj (Fits.natural hi) (Fits.natural hj) h
      exact Int.ofNat_inj.mp (hiv.symm.trans ((congrArg encode hij).trans hjw))

/-! ## Nothing is lost -/

/-- **Words, instructions and lines tell each other.**  An integer decodes to the one instruction
that is encoded by the word it stands for, and to the fault that names the word if there is none.
Two instructions with natural fields have the same line only if they are the same.  So what is
listed from two places in memory is the same exactly when the words there are, instructions or
not. -/
theorem listing_lossless :
    (∀ (w : Int) (i : Instruction), decode w = .ok i ↔ i.Fits ∧ i.encode = w % 0x10000)
    ∧ (∀ w : Int, (∀ i : Instruction, i.Fits → i.encode ≠ w % 0x10000) →
      decode w = .error (.unknownInstruction (w % 0x10000)))
    ∧ (∀ i j : Instruction, i.Natural → j.Natural → i.listing = j.listing → i = j)
    ∧ ∀ (m m' : Memory) (a a' : Int), 0 ≤ a ∧ a ≤ 0xFFE → 0 ≤ a' ∧ a' ≤ 0xFFE →
      ∃ w w' line line', m.readWord a = .ok w ∧ m'.readWord a' = .ok w'
        ∧ m.listAt a = .ok line ∧ m'.listAt a' = .ok line' ∧ (line = line' ↔ w = w') := by
  refine ⟨fun w i => decode_eq_ok_iff, fun w => decode_eq_error, fun i j => listing_inj,
    fun m m' a a' ha ha' => ?_⟩
  obtain ⟨w, hread, hw⟩ := m.readWord_of_le ha.1 ha.2
  obtain ⟨w', hread', hw'⟩ := m'.readWord_of_le ha'.1 ha'.2
  exact ⟨w, w', listWord w, listWord w', hread, hread', Memory.listAt_of_readWord hread,
    Memory.listAt_of_readWord hread', listWord_inj hw hw', congrArg listWord⟩

theorem listing_lossless_draw :
    decode (-0x2EDB) = .ok (.draw 1 2 5)
    ∧ decode 0x1FFFF = .error (.unknownInstruction 0xFFFF)
    ∧ (draw 1 2 5).listing ≠ (draw 1 2 16).listing
    ∧ Memory.initial.listAt 0x50 = Memory.initial.listAt 0xFFE
    ∧ Memory.initial.listAt 0x50 ≠ (Memory.initial.place [0xFF, 0xFF]).listAt 0x200 := by
  obtain ⟨hdecode, herror, hline, hmemory⟩ := listing_lossless
  have h5 : (draw 1 2 5).Natural := ⟨by decide, by decide, by decide, by decide⟩
  have h16 : (draw 1 2 16).Natural := ⟨by decide, by decide, by decide, by decide⟩
  refine ⟨(hdecode _ _).mpr ⟨⟨by decide, by decide, by decide⟩, by decide⟩,
    herror _ ((ofWord?_eq_none_iff (w := 0xFFFF) (by decide)).mp (by decide)),
    fun h => absurd (hline _ _ h5 h16 h) (by decide), ?_, ?_⟩
  · obtain ⟨w, w', line, line', hread, hread', hlist, hlist', hlines⟩ :=
      hmemory Memory.initial Memory.initial 0x50 0xFFE (by decide) (by decide)
    obtain rfl : w = 0 :=
      Except.ok.inj (hread.symm.trans (Memory.readWord_initial (by decide) (by decide)))
    obtain rfl : w' = 0 :=
      Except.ok.inj (hread'.symm.trans (Memory.readWord_initial (by decide) (by decide)))
    rw [hlist, hlist', hlines.mpr rfl]
  · obtain ⟨w, w', line, line', hread, hread', hlist, hlist', hlines⟩ :=
      hmemory Memory.initial (Memory.initial.place [0xFF, 0xFF]) 0x50 0x200 (by decide) (by decide)
    obtain rfl : w = 0 :=
      Except.ok.inj (hread.symm.trans (Memory.readWord_initial (by decide) (by decide)))
    obtain rfl : w' = 0xFFFF :=
      Except.ok.inj (hread'.symm.trans (Memory.initial.readWord_place (by decide)))
    rw [hlist, hlist']
    exact fun h => absurd (hlines.mp (Except.ok.inj h)) (by decide)

end ChipEight.Instruction
