import ChipEight.Program.File
import ChipEight.Proofs.Emulator.Run
import ChipEight.Proofs.Machine.Stepping

/-!
# Proofs/Program/Entrances — every way in asks the same of an image

An image is checked as bytes, taken in by memory, loaded by an emulator, or read from a file.  The
size is looked at in each of these places anew, and they agree: an image of one byte up to what
memory has room for is taken, and any other one is refused for the same reason.  A file is taken for
an archive by two bytes that no instruction has (`isArchive_of_startsWithInstruction`), so an image
that could run is never unpacked.
-/

namespace ChipEight

/-! ## The size -/

/-- Why an image of the wrong size is refused. -/
def refusal (image : List UInt8) : LoadError :=
  if image.isEmpty then .empty else .tooLarge image.length

theorem checkImage_of_fits {image : List UInt8} (h : image ≠ [] ∧ image.length ≤ Memory.capacity) :
    checkImage image = .ok image := Emulator.checkImage_eq_ok_iff.mpr ⟨h, rfl⟩

theorem checkImage_of_not_fits {image : List UInt8}
    (h : ¬ (image ≠ [] ∧ image.length ≤ Memory.capacity)) :
    checkImage image = .error (refusal image) := by
  unfold checkImage refusal
  split
  case isTrue => rfl
  case isFalse hbytes =>
    refine if_pos (Nat.lt_of_not_le fun hroom => h ⟨fun hempty => hbytes ?_, hroom⟩)
    rw [hempty]
    rfl

/-- Memory looks at the size too, and takes the empty image as well. -/
theorem Memory.load_eq (m : Memory) (image : List UInt8) :
    m.load image
      = if image.length ≤ Memory.capacity then .ok (m.place image) else .error (refusal image) := by
  unfold Memory.load
  split
  case isTrue hlarge =>
    have hbytes : ¬ image.isEmpty := fun h0 => by
      rw [List.isEmpty_iff.mp h0] at hlarge
      exact Nat.not_lt_zero _ hlarge
    rw [if_neg (Nat.not_le.mpr hlarge), refusal, if_neg hbytes]
  case isFalse hroom => rw [if_pos (Nat.le_of_not_lt hroom)]

theorem fits_of_checkImage {bytes image : List UInt8} {α : Type} {f : LoadError → α}
    (h : (checkImage bytes).mapError f = .ok image) :
    image ≠ [] ∧ image.length ≤ Memory.capacity := by
  cases hcheck : checkImage bytes with
  | error err =>
    rw [hcheck] at h
    cases h
  | ok checked =>
    obtain ⟨hfits, rfl⟩ := Emulator.checkImage_eq_ok_iff.mp hcheck
    rw [hcheck] at h
    cases h
    exact hfits

/-- What is read from a file can be loaded. -/
theorem fits_of_readProgramFile {data image : List UInt8} (h : readProgramFile data = .ok image) :
    image ≠ [] ∧ image.length ≤ Memory.capacity := by
  unfold readProgramFile at h
  split at h
  · cases hextract : extractProgram data none with
    | error err =>
      rw [hextract] at h
      cases h
    | ok bytes =>
      rw [hextract] at h
      exact fits_of_checkImage h
  · exact fits_of_checkImage h

/-! ## The contents of memory -/

/-- The cells in order are what is read at the addresses in order. -/
theorem Memory.getElem_toList_of_read {m : Memory} {k : Nat} {b : UInt8} (h : m.read k = .ok b)
    (hk : k < m.cells.toList.length) : m.cells.toList[k] = b := by
  have hlength : m.cells.toList.length = 0x1000 := Vector.length_toList
  have hlt : k < 0x1000 := hlength ▸ hk
  rw [read_of_inRange _ ⟨Int.natCast_nonneg k, by omega⟩] at h
  exact (Vector.getElem_toList hk).trans (Except.ok.inj h)

/-- Behind an image memory is zero. -/
theorem Memory.read_place_of_le (m : Memory) (image : List UInt8) {a : Int}
    (h : (programStart + image.length : Int) ≤ a) (h1 : a < 0x1000) :
    (m.place image).read a = .ok 0 := by
  have hstart : (programStart : Int) = 0x200 := rfl
  have ha : InRange a := ⟨by omega, h1⟩
  have hbehind : image.toArray.size ≤ a.toNat - programStart := by
    rw [List.size_toArray]
    omega
  rw [read_of_inRange _ ha]
  refine congrArg Except.ok ((Vector.getElem_ofFn ha.toNat_lt).trans ((if_neg ?_).trans ?_))
  · change ¬ a.toNat < programStart
    omega
  · simp only [Array.getElem?_eq_none hbehind, Option.getD_none]

/-- **Memory with an image**, from the bottom to the top: the font, zeros up to the program start,
the image, and zeros. -/
theorem Memory.toList_place {image : List UInt8} (hfits : image.length ≤ capacity) :
    (initial.place image).cells.toList
      = font ++ List.replicate (programStart - font.length) 0
        ++ image ++ List.replicate (capacity - image.length) 0 := by
  have hfont : font.length = 0x50 := rfl
  have hstart : programStart = 0x200 := rfl
  have hcapacity : capacity = 0xE00 := rfl
  refine List.ext_getElem ?_ fun k hk hk' => ?_
  · simp only [Vector.length_toList, List.length_append, List.length_replicate]
    omega
  have hread {b : UInt8} (hb : (initial.place image).read k = .ok b) :=
    getElem_toList_of_read hb hk
  have hlength : (initial.place image).cells.toList.length = 0x1000 := Vector.length_toList
  have hlt : k < 0x1000 := hlength ▸ hk
  have hlow (hlt : k < programStart) :=
    initial.read_place_of_lt image (a := k) (by omega) (by omega)
  simp only [List.getElem_append, List.length_append, List.length_replicate, List.getElem_replicate]
  split
  case isTrue hdata =>
    split
    case isTrue hbelow =>
      split
      case isTrue hglyph => exact hread ((hlow (by omega)).trans (read_font hglyph))
      case isFalse hglyph =>
        exact hread ((hlow (by omega)).trans (read_initial (by omega) (by omega)))
    case isFalse hbelow =>
      have himage := initial.read_place hfits (k := k - programStart) (by omega)
      have hplace : ((programStart : Int) + (k - programStart : Nat)) = k := by omega
      rw [hplace] at himage
      exact (hread himage).trans (getElem_congr_idx (by omega))
  case isFalse hdata => exact hread (initial.read_place_of_le image (by omega) (by omega))

/-! ## Loads -/

namespace Emulator

variable {e : Emulator} {image : List UInt8} {title : Option String}

theorem load_eq_ok_iff :
    (∃ e', e.load image title = .ok e') ↔ image ≠ [] ∧ image.length ≤ Memory.capacity := by
  refine ⟨?_, fun hfits => ⟨_, load_of_ok hfits⟩⟩
  rintro ⟨e', h⟩
  obtain ⟨err, -, heq⟩ | ⟨hfits, -⟩ := e.load_cases image title
  · cases heq.symm.trans h
  · exact hfits

/-- A load is refused exactly where the size check refuses the image, and for that reason. -/
theorem load_eq_error_iff {err : LoadError} :
    e.load image title = .error err ↔ checkImage image = .error err := by
  refine ⟨fun h => ?_, load_of_error⟩
  obtain ⟨err', hcheck, heq⟩ | ⟨-, heq⟩ := e.load_cases image title
  · obtain rfl := Except.error.inj (heq.symm.trans h)
    exact hcheck
  · cases heq.symm.trans h

/-- **What a load leaves in memory.** -/
theorem toList_cells_of_load {e' : Emulator} (h : e.load image title = .ok e') :
    e'.machine.memory.cells.toList
      = Memory.font ++ List.replicate (Memory.programStart - Memory.font.length) 0
        ++ image ++ List.replicate (Memory.capacity - image.length) 0 := by
  obtain ⟨hbytes, hroom⟩ := load_eq_ok_iff.mp ⟨e', h⟩
  obtain rfl := Except.ok.inj ((load_of_ok ⟨hbytes, hroom⟩).symm.trans h)
  have hmemory : (coldStart e.machine image).memory = Memory.initial.place image :=
    if_neg fun hempty => hbytes (List.isEmpty_iff.mp hempty)
  exact (congrArg (·.cells.toList) hmemory).trans (Memory.toList_place hroom)

end Emulator

/-! ## Files -/

/-- The word an image starts with is an instruction. -/
def StartsWithInstruction (image : List UInt8) : Prop :=
  ∃ high low rest i, image = high :: low :: rest
    ∧ Instruction.decode (high.toNat * 0x100 + low.toNat : Nat) = .ok i

/-- **No instruction looks like an archive.** -/
theorem isArchive_of_startsWithInstruction {image : List UInt8} (h : StartsWithInstruction image) :
    isArchive image = false := by
  obtain ⟨high, low, rest, i, rfl, hdecode⟩ := h
  refine Bool.eq_false_iff.mpr fun harchive => ?_
  have hmark : high = 0x50 ∧ low = 0x4B := by
    simpa [isArchive, Archive.memberSignature] using (Bool.and_eq_true_iff.mp harchive).2
  obtain ⟨rfl, rfl⟩ := hmark
  have hnone : Instruction.decode (0x504B : Nat) = .error (.unknownInstruction 0x504B) := rfl
  cases hnone.symm.trans hdecode

theorem isArchive_of_short {image : List UInt8} (h : image.length < 4) : isArchive image = false :=
  Bool.and_eq_false_iff.mpr (.inl (decide_eq_false (Nat.not_le.mpr h)))

/-- A file that is no archive is an image. -/
theorem readProgramFile_of_not_isArchive {data : List UInt8} (h : isArchive data = false) :
    readProgramFile data = (checkImage data).mapError .load := by
  rw [readProgramFile, h]
  rfl

/-! ## All of them -/

/-- **All ways in agree.**  An image has to have from one byte up to 3584: then it passes the check
as it is, and any emulator loads it and finds it in its memory between zeros, above the font.  Any
other one is refused by the check and by every emulator for the same reason; memory by itself looks
for the upper bound only, and gives that reason too.  What is read from a file can always be
loaded.  And a file is an image, and treated as one, if it is too short for an archive or if it
starts with an instruction. -/
theorem entrances_agree (image : List UInt8) (e : Emulator) (title : Option String) :
    ((∃ bytes, checkImage image = .ok bytes) ↔ 1 ≤ image.length ∧ image.length ≤ 3584)
    ∧ ((∃ e', e.load image title = .ok e') ↔ 1 ≤ image.length ∧ image.length ≤ 3584)
    ∧ (∀ bytes, checkImage image = .ok bytes → bytes = image)
    ∧ (∀ e', e.load image title = .ok e' → e'.machine.memory.cells.toList
        = Memory.font ++ List.replicate (0x200 - 80) 0 ++ image
          ++ List.replicate (3584 - image.length) 0)
    ∧ (∀ err, checkImage image = .error err ↔ e.load image title = .error err)
    ∧ (∀ err, e.load image title = .error err → err = refusal image)
    ∧ (∀ m : Memory, m.load image
        = if image.length ≤ 3584 then .ok (m.place image) else .error (refusal image))
    ∧ (∀ data, readProgramFile data = .ok image → ∃ e', e.load image title = .ok e')
    ∧ (image.length < 4 ∨ StartsWithInstruction image →
        readProgramFile image = (checkImage image).mapError .load) := by
  have hsize : image ≠ [] ∧ image.length ≤ Memory.capacity
      ↔ 1 ≤ image.length ∧ image.length ≤ 3584 :=
    and_congr_left' (List.length_pos_iff.symm)
  refine ⟨⟨?_, fun h => ⟨image, checkImage_of_fits (hsize.mpr h)⟩⟩,
    Emulator.load_eq_ok_iff.trans hsize, fun bytes h => (Emulator.checkImage_eq_ok_iff.mp h).2,
    fun e' => Emulator.toList_cells_of_load, fun err => Emulator.load_eq_error_iff.symm,
    fun err h => ?_, fun m => m.load_eq image,
    fun data h => Emulator.load_eq_ok_iff.mpr (fits_of_readProgramFile h), fun h => ?_⟩
  · rintro ⟨bytes, h⟩
    exact hsize.mp (Emulator.checkImage_eq_ok_iff.mp h).1
  · have hcheck := Emulator.load_eq_error_iff.mp h
    refine Except.error.inj (hcheck.symm.trans (checkImage_of_not_fits fun hfits => ?_))
    cases hcheck.symm.trans (checkImage_of_fits hfits)
  · exact readProgramFile_of_not_isArchive
      (h.elim isArchive_of_short isArchive_of_startsWithInstruction)

/-- A jump to itself with the mark of an archive behind it, and an image of one byte too many. -/
theorem entrances_agree_jump :
    let e := Emulator.create ⟨8, .set, 16, .info⟩ (.cycle []) .info
    let jump : List UInt8 := [0x12, 0x00, 0x50, 0x4B]
    let large : List UInt8 := List.replicate 3585 0
    StartsWithInstruction jump ∧ (∃ e', e.load jump none = .ok e')
      ∧ readProgramFile jump = (checkImage jump).mapError .load
      ∧ ¬ ∃ e', e.load large none = .ok e' := by
  intro e jump large
  have hstarts : StartsWithInstruction jump :=
    ⟨0x12, 0x00, [0x50, 0x4B], .jump 0x200, rfl,
      Machine.decode_of_ofWord? (w := 0x1200) (by decide) (by decide)⟩
  obtain ⟨-, hloads, -, -, -, -, -, -, hfile⟩ := entrances_agree jump e none
  obtain ⟨-, hlarge, -⟩ := entrances_agree large e none
  refine ⟨hstarts, hloads.mpr ⟨by decide, by decide⟩, hfile (.inr hstarts), fun h => ?_⟩
  have hsize : large.length = 3585 := List.length_replicate
  have hroom := (hlarge.mp h).2
  omega

end ChipEight
