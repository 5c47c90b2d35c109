import ChipEight.Instruction.Encoding
import ChipEight.Number.Shortest

/-!
# Instruction/Listing — assembler notation

Registers are `V` and their hexadecimal number, bytes and addresses are literals of two and three
digits, and a sprite's height is decimal.  A word that encodes no instruction is listed as data.
-/

namespace ChipEight.Instruction

def register (r : Int) : String := "V" ++ Hex.label r

/-- An operation and its two operands. -/
def binary (name left right : String) : String := name ++ " " ++ left ++ ", " ++ right

/-- **The line of an instruction** in a listing. -/
def listing : Instruction → String
  | .clearScreen => "CLS"
  | .ret => "RET"
  | .jump a => "JP " ++ Hex.literal a 3
  | .call a => "CALL " ++ Hex.literal a 3
  | .skipEqualByte x nn => binary "SE" (register x) (Hex.literal nn 2)
  | .skipDifferentByte x nn => binary "SNE" (register x) (Hex.literal nn 2)
  | .skipEqual x y => binary "SE" (register x) (register y)
  | .loadByte x nn => binary "LD" (register x) (Hex.literal nn 2)
  | .addByte x nn => binary "ADD" (register x) (Hex.literal nn 2)
  | .move x y => binary "LD" (register x) (register y)
  | .or x y => binary "OR" (register x) (register y)
  | .and x y => binary "AND" (register x) (register y)
  | .xor x y => binary "XOR" (register x) (register y)
  | .add x y => binary "ADD" (register x) (register y)
  | .subtract x y => binary "SUB" (register x) (register y)
  | .shiftRight x y => binary "SHR" (register x) (register y)
  | .subtractFrom x y => binary "SUBN" (register x) (register y)
  | .shiftLeft x y => binary "SHL" (register x) (register y)
  | .skipDifferent x y => binary "SNE" (register x) (register y)
  | .loadIndex a => binary "LD" "I" (Hex.literal a 3)
  | .jumpOffset a => binary "JP" "V0" (Hex.literal a 3)
  | .random x nn => binary "RND" (register x) (Hex.literal nn 2)
  | .draw x y n => binary "DRW" (register x) (register y) ++ ", " ++ Shortest.ofInt n
  | .skipPressed x => "SKP " ++ register x
  | .skipReleased x => "SKNP " ++ register x
  | .readTimer x => binary "LD" (register x) "DT"
  | .waitForKey x => binary "LD" (register x) "K"
  | .setTimer x => binary "LD" "DT" (register x)
  | .setSound x => binary "LD" "ST" (register x)
  | .addIndex x => binary "ADD" "I" (register x)
  | .loadGlyph x => binary "LD" "F" (register x)
  | .storeDigits x => binary "LD" "B" (register x)
  | .storeRegisters x => binary "LD" "[I]" (register x)
  | .loadRegisters x => binary "LD" (register x) "[I]"

/-- **The line of a word**: its instruction, or the word itself as data. -/
def listWord (w : Nat) : String :=
  match ofWord? w with
  | some i => i.listing
  | none => "DW " ++ Hex.literal (w : Int) 4

end ChipEight.Instruction
