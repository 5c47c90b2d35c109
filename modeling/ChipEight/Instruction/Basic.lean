/-!
# Instruction/Basic — the thirty-four instructions

`x` and `y` number registers, `nn` is a byte and `n` a nibble written in the instruction itself, and
an address is twelve bits wide.  The type puts no bound on these fields: what a listing prints is
defined for any of them, and `Fits` singles out the instructions that a word can hold.
-/

namespace ChipEight

inductive Instruction where
  | clearScreen
  | ret
  | jump (address : Int)
  | call (address : Int)
  | skipEqualByte (x nn : Int)
  | skipDifferentByte (x nn : Int)
  | skipEqual (x y : Int)
  | loadByte (x nn : Int)
  | addByte (x nn : Int)
  | move (x y : Int)
  | or (x y : Int)
  | and (x y : Int)
  | xor (x y : Int)
  | add (x y : Int)
  | subtract (x y : Int)
  | shiftRight (x y : Int)
  | subtractFrom (x y : Int)
  | shiftLeft (x y : Int)
  | skipDifferent (x y : Int)
  | loadIndex (address : Int)
  | jumpOffset (address : Int)
  | random (x nn : Int)
  | draw (x y n : Int)
  | skipPressed (x : Int)
  | skipReleased (x : Int)
  | readTimer (x : Int)
  | waitForKey (x : Int)
  | setTimer (x : Int)
  | setSound (x : Int)
  | addIndex (x : Int)
  | loadGlyph (x : Int)
  | storeDigits (x : Int)
  | storeRegisters (x : Int)
  | loadRegisters (x : Int)
  deriving DecidableEq, Repr

namespace Instruction

/-- A field that can hold so many values, from zero up. -/
def FieldFits (size v : Int) : Prop := 0 ≤ v ∧ v < size

instance (size v : Int) : Decidable (FieldFits size v) := inferInstanceAs (Decidable (_ ∧ _))

/-- Every field has the width its pattern gives it. -/
def Fits : Instruction → Prop
  | .clearScreen | .ret => True
  | .jump a | .call a | .loadIndex a | .jumpOffset a => FieldFits 0x1000 a
  | .skipEqualByte x nn | .skipDifferentByte x nn | .loadByte x nn | .addByte x nn
  | .random x nn => FieldFits 0x10 x ∧ FieldFits 0x100 nn
  | .skipEqual x y | .skipDifferent x y | .move x y | .or x y | .and x y | .xor x y | .add x y
  | .subtract x y | .shiftRight x y | .subtractFrom x y | .shiftLeft x y =>
    FieldFits 0x10 x ∧ FieldFits 0x10 y
  | .draw x y n => FieldFits 0x10 x ∧ FieldFits 0x10 y ∧ FieldFits 0x10 n
  | .skipPressed x | .skipReleased x | .readTimer x | .waitForKey x | .setTimer x | .setSound x
  | .addIndex x | .loadGlyph x | .storeDigits x | .storeRegisters x | .loadRegisters x =>
    FieldFits 0x10 x

end Instruction

end ChipEight
