import ChipEight.Proofs.Instruction.Coding
import ChipEight.Proofs.Text.Hex
import ChipEight.Instruction.Listing

/-!
# Proofs/Instruction/Listing — lines of instructions and lines of data

No line of an instruction looks like one of data (`listing_ne_data`), so the line of a word tells
whether the word is an instruction, and if it is none, which word it is (`listWord_eq_data_iff`).
-/

namespace ChipEight.Instruction

/-- The line of a word that is listed as data. -/
def dataLine (w : Nat) : String := "DW " ++ Hex.literal (w : Int) 4

theorem dataLine_inj {v w : Nat} (h : dataLine v = dataLine w) : v = w :=
  Hex.literal_inj ((String.append_right_inj _).mp h)

/-- The first two characters tell an instruction from data. -/
theorem listing_ne_data (i : Instruction) (w : Nat) : i.listing ≠ dataLine w := by
  intro h
  have htake := congrArg (fun line : String => line.toList.take 2) h
  revert htake
  cases i <;> simp [listing, binary, dataLine]

/-- **A word listed as data** is no instruction, and its line tells which word it is. -/
theorem listWord_eq_data_iff {v w : Nat} : listWord v = dataLine w ↔ ofWord? v = none ∧ v = w := by
  rw [listWord]
  rcases ofWord? v with _ | i
  · exact ⟨fun h => ⟨rfl, dataLine_inj h⟩, fun h => congrArg dataLine h.2⟩
  · exact iff_of_false (i.listing_ne_data w) nofun

end ChipEight.Instruction
