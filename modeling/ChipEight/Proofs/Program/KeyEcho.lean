import ChipEight.Program.Catalog
import ChipEight.Proofs.Program.Outline

/-!
# Proofs/Program/KeyEcho — one round of the program that echoes keys

The program sets its count to zero and waits.  Each key leads it once through the same straight line
of instructions to the same wait: it clears the screen, draws the glyph of the key, writes the count
in decimal and draws its three digits (`Echoes.round`).
-/

namespace ChipEight.Catalog

/-- What the program does before it waits for the first time. -/
def echoOpening : List Instruction := [.loadByte 3 0, .waitForKey 0]

/-- What it does with a key, up to the next wait. -/
def echoRound : List Instruction :=
  [.clearScreen, .addByte 3 1,
   .loadGlyph 0, .loadByte 1 1, .loadByte 2 1, .draw 1 2 5,
   .loadIndex 0x300, .storeDigits 3, .loadRegisters 2,
   .loadByte 4 0x14, .loadByte 5 1, .loadGlyph 0, .draw 4 5 5,
   .addByte 4 5, .loadGlyph 1, .draw 4 5 5,
   .addByte 4 5, .loadGlyph 2, .draw 4 5 5,
   .jump 0x202, .waitForKey 0]

/-- **What is shown behind some keys**: the last of them, and their number in decimal modulo 256. -/
def echoPicture (keys : List Key) : List Stamp :=
  match keys.getLast? with
  | none => []
  | some k =>
    let n := keys.length % 0x100
    [⟨k, 1, 1⟩, ⟨n / 100, 20, 1⟩, ⟨n / 10 % 10, 25, 1⟩, ⟨n % 10, 30, 1⟩]

/-- **The outline of the program where it waits** behind some keys. -/
structure Echoes (keys : List Key) (o : Outline) : Prop where
  pc : o.pc = 0x204
  wake : o.wake = 0
  count : o.v 3 = keys.length % 0x100
  picture : o.picture = echoPicture keys

namespace Echoes

variable {keys : List Key} {o : Outline}

/-- **From one wait to the next.** -/
theorem round (h : Echoes keys o) (k : Key) : (o.resume k).Clear keyEchoImage echoRound
    ∧ Echoes (keys ++ [k]) ((o.resume k).afterAll echoRound) := by
  obtain ⟨hpc, hwake, hcount, -⟩ := h
  have hnext : (o.v 3 + 1) % 0x100 = (keys.length + 1) % 0x100 := by omega
  -- From here on the new count is any byte, and the outline goes through the round with `n` in it.
  generalize hn : (keys.length + 1) % 0x100 = n at hnext
  have hlt : n < 0x100 := hn ▸ Nat.mod_lt _ (by decide)
  have hhundreds : n / 100 % 0x100 = n / 100 := by omega
  have hglyphs : n / 100 < 16 ∧ n / 10 % 10 < 16 ∧ n % 10 < 16 := by omega
  constructor
  · simp +decide [echoRound, Outline.Clear, Outline.Allows, Outline.resume, Outline.next,
      Outline.after, Outline.put, Outline.stamp, Machine.length_decimalDigits,
      Machine.map_decimalDigits, Stamp.fits_iff, Stamp.Apart, hpc, hwake, hnext, hhundreds, hglyphs]
  constructor
  case pc | wake => rfl
  all_goals
    simp [echoRound, echoPicture, Outline.afterAll, Outline.resume, Outline.next, Outline.after,
      Outline.put, Outline.stamp, Outline.glyph_of_index, Machine.map_decimalDigits, hwake, hnext,
      hn, hhundreds]

/-- Before the first key. -/
def start : Outline where
  pc := Memory.programStart
  phase := .running
  v _ := 0
  index := 0
  wake := 0
  storedAt := 0
  stored := []
  picture := []

theorem opening : start.Clear keyEchoImage echoOpening
    ∧ Echoes [] (start.afterAll echoOpening) := by
  constructor
  · simp +decide [echoOpening, start, Outline.Clear, Outline.Allows]
  · exact ⟨rfl, rfl, rfl, rfl⟩

end Echoes

end ChipEight.Catalog
