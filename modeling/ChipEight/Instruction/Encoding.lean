import ChipEight.Fault
import ChipEight.Instruction.Basic

/-!
# Instruction/Encoding — words and the instructions they encode

A word is sixteen bits, read as four hexadecimal digits.  The first digit picks the family; families
0, 8, E and F go on to look at the low digit or the low byte, and 5 and 9 ask for a low digit of 0.
`ofWord?` reads a word, `encode` writes one, and `decode` is reading with a fault for the words that
encode nothing.
-/

namespace ChipEight.Instruction

/-- The instruction of family 8 for each last digit. -/
def arithmetic? (x y : Int) : Nat → Option Instruction
  | 0x0 => some (.move x y)
  | 0x1 => some (.or x y)
  | 0x2 => some (.and x y)
  | 0x3 => some (.xor x y)
  | 0x4 => some (.add x y)
  | 0x5 => some (.subtract x y)
  | 0x6 => some (.shiftRight x y)
  | 0x7 => some (.subtractFrom x y)
  | 0xE => some (.shiftLeft x y)
  | _ => none

/-- The instruction of family F for each low byte. -/
def service? (x : Int) : Nat → Option Instruction
  | 0x07 => some (.readTimer x)
  | 0x0A => some (.waitForKey x)
  | 0x15 => some (.setTimer x)
  | 0x18 => some (.setSound x)
  | 0x1E => some (.addIndex x)
  | 0x29 => some (.loadGlyph x)
  | 0x33 => some (.storeDigits x)
  | 0x55 => some (.storeRegisters x)
  | 0x65 => some (.loadRegisters x)
  | _ => none

/-- The instruction a sixteen-bit word encodes, if it encodes one. -/
def ofWord? (w : Nat) : Option Instruction :=
  let x : Int := (w / 0x100 % 0x10 : Nat)
  let y : Int := (w / 0x10 % 0x10 : Nat)
  let n := w % 0x10
  let nn := w % 0x100
  let address : Int := (w % 0x1000 : Nat)
  match w / 0x1000 % 0x10 with
  | 0x0 => if w % 0x1000 = 0x0E0 then some .clearScreen
    else if w % 0x1000 = 0x0EE then some .ret else none
  | 0x1 => some (.jump address)
  | 0x2 => some (.call address)
  | 0x3 => some (.skipEqualByte x nn)
  | 0x4 => some (.skipDifferentByte x nn)
  | 0x5 => if n = 0 then some (.skipEqual x y) else none
  | 0x6 => some (.loadByte x nn)
  | 0x7 => some (.addByte x nn)
  | 0x8 => arithmetic? x y n
  | 0x9 => if n = 0 then some (.skipDifferent x y) else none
  | 0xA => some (.loadIndex address)
  | 0xB => some (.jumpOffset address)
  | 0xC => some (.random x nn)
  | 0xD => some (.draw x y n)
  | 0xE => if nn = 0x9E then some (.skipPressed x)
    else if nn = 0xA1 then some (.skipReleased x) else none
  | _ => service? x nn

/-- The word of an instruction whose fields fit. -/
def encode : Instruction → Int
  | .clearScreen => 0x00E0
  | .ret => 0x00EE
  | .jump a => 0x1000 + a
  | .call a => 0x2000 + a
  | .skipEqualByte x nn => 0x3000 + 0x100 * x + nn
  | .skipDifferentByte x nn => 0x4000 + 0x100 * x + nn
  | .skipEqual x y => 0x5000 + 0x100 * x + 0x10 * y
  | .loadByte x nn => 0x6000 + 0x100 * x + nn
  | .addByte x nn => 0x7000 + 0x100 * x + nn
  | .move x y => 0x8000 + 0x100 * x + 0x10 * y
  | .or x y => 0x8001 + 0x100 * x + 0x10 * y
  | .and x y => 0x8002 + 0x100 * x + 0x10 * y
  | .xor x y => 0x8003 + 0x100 * x + 0x10 * y
  | .add x y => 0x8004 + 0x100 * x + 0x10 * y
  | .subtract x y => 0x8005 + 0x100 * x + 0x10 * y
  | .shiftRight x y => 0x8006 + 0x100 * x + 0x10 * y
  | .subtractFrom x y => 0x8007 + 0x100 * x + 0x10 * y
  | .shiftLeft x y => 0x800E + 0x100 * x + 0x10 * y
  | .skipDifferent x y => 0x9000 + 0x100 * x + 0x10 * y
  | .loadIndex a => 0xA000 + a
  | .jumpOffset a => 0xB000 + a
  | .random x nn => 0xC000 + 0x100 * x + nn
  | .draw x y n => 0xD000 + 0x100 * x + 0x10 * y + n
  | .skipPressed x => 0xE09E + 0x100 * x
  | .skipReleased x => 0xE0A1 + 0x100 * x
  | .readTimer x => 0xF007 + 0x100 * x
  | .waitForKey x => 0xF00A + 0x100 * x
  | .setTimer x => 0xF015 + 0x100 * x
  | .setSound x => 0xF018 + 0x100 * x
  | .addIndex x => 0xF01E + 0x100 * x
  | .loadGlyph x => 0xF029 + 0x100 * x
  | .storeDigits x => 0xF033 + 0x100 * x
  | .storeRegisters x => 0xF055 + 0x100 * x
  | .loadRegisters x => 0xF065 + 0x100 * x

/-- **Decoding.** Any integer stands for the sixteen-bit word it is congruent to; a word that
encodes nothing is a fault that names it. -/
def decode (w : Int) : Except Fault Instruction :=
  match ofWord? (w % 0x10000).toNat with
  | some i => .ok i
  | none => .error (.unknownInstruction (w % 0x10000))

end ChipEight.Instruction
