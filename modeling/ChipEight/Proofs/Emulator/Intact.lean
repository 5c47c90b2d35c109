import ChipEight.Proofs.Emulator.Restart

/-!
# Proofs/Emulator/Intact — font and program as long as nothing is stored

A restart puts the font and the program into memory, and of all instructions only `FX33` and `FX55`
write there.  So a run from a restart in which neither is fetched finds both as they were
(`play_intact`), whatever else it does and whether or not it comes to a halt.
-/

namespace ChipEight

/-- **Font and image are in place.** -/
structure Memory.Holds (m : Memory) (image : List UInt8) : Prop where
  font : ∀ (k : Nat) (hk : k < font.length), m.read k = .ok font[k]
  image : ∀ (k : Nat) (hk : k < image.length), m.read (programStart + k) = .ok image[k]

namespace Emulator

/-- The program in memory is the one a reset goes back to. -/
structure Intact (e : Emulator) : Prop where
  fits : e.image.length ≤ Memory.capacity
  memory : e.machine.memory.Holds e.image

theorem coldStart_holds (m : Machine) {image : List UInt8}
    (hfits : image.length ≤ Memory.capacity) : (coldStart m image).memory.Holds image := by
  cases image with
  | nil => exact ⟨fun k hk => Memory.read_font hk, nofun⟩
  | cons byte rest =>
    refine ⟨fun k hk => ?_, fun k hk => Memory.initial.read_place hfits hk⟩
    have hfont : k < 0x50 := hk
    have hstart : (Memory.programStart : Int) = 0x200 := rfl
    exact (Memory.initial.read_place_of_lt _ (Int.natCast_nonneg k) (by omega)).trans
      (Memory.read_font hk)

/-! ## Restarts -/

theorem reset_intact {e : Emulator} (hfits : e.image.length ≤ Memory.capacity) : e.reset.Intact :=
  ⟨hfits, coldStart_holds e.machine hfits⟩

theorem load_intact {e : Emulator} {image : List UInt8} {title : Option String}
    (hload : (Call.load image title).Loads) : (e.perform (.load image title)).1.Intact := by
  rw [perform_load hload]
  exact ⟨hload.2, coldStart_holds e.machine hload.2⟩

/-- No program that has been loaded is too long. -/
theorem kept_fits : Kept fun e => e.image.length ≤ Memory.capacity where
  step {e} h := (e.beat_program (b := .step) id).1 ▸ h
  tick h := h
  reset h := h
  load {e e' image title} hload _ := by
    rcases e.load_cases image title with ⟨err, -, heq⟩ | ⟨hfits, heq⟩
    · rw [heq] at hload
      cases hload
    · rw [heq] at hload
      cases hload
      exact hfits.2
  keyDown _ h := h
  keyUp {e} key h := (e.beat_program (b := .keyUp key) id).1 ▸ h

/-- **Behind a restart, font and program are in place.** -/
theorem restart_intact (config : Config) (random : RandomSource) (threshold : Level)
    (history : List Call) {c : Call} (hc : c.Restarts) :
    (reached config random threshold (history ++ [c])).Intact := by
  have hfits := kept_fits.run (e := create config random threshold) (Nat.zero_le _) history
  rw [reached_append]
  cases c with
  | load => exact load_intact hc
  | reset => exact reset_intact hfits
  | _ => exact hc.elim

/-! ## Beats -/

theorem beat_intact {e : Emulator} (h : e.Intact) {b : Beat}
    (hstores : ∀ s f, b.taken e = some s → s.fetched = some f → ¬ f.instruction.Stores) :
    (e.beat b).Intact := by
  cases b with
  | step =>
    cases hhalt : e.halt with
    | some f =>
      rw [beat, step_of_halt hhalt]
      exact h
    | none =>
      obtain ⟨_, _, _, hs⟩ := step_of_none hhalt
      have htaken : Beat.step.taken e = some e.next := Beat.taken_step hhalt
      have hmemory := e.machine.step_memory e.random.head fun f => hstores e.next f htaken
      rw [beat, hs]
      exact ⟨h.fits, hmemory ▸ h.memory⟩
  | tick | keyDown => exact ⟨h.fits, h.memory⟩
  | reset => exact reset_intact h.fits
  | load image title =>
    by_cases hload : (Call.load image title).Loads
    · exact load_intact hload
    · rw [beat_refused hload]
      exact h
  | keyUp key =>
    rcases e.keyUp_cases key with heq | ⟨k, log, -, hphase, heq⟩
    · rw [beat, heq]
      exact ⟨h.fits, h.memory⟩
    · rw [beat, heq]
      simp only [Machine.resume, hphase]
      exact ⟨h.fits, h.memory⟩

/-- **As long as no instruction that stores is fetched**, font and program stay in place. -/
theorem play_intact {e : Emulator} (h : e.Intact) {beats : List Beat}
    (hstores : ∀ f ∈ e.fetched beats, ¬ f.instruction.Stores) : (e.play beats).Intact := by
  induction beats generalizing e with
  | nil => exact h
  | cons b beats ih =>
    rw [fetched_cons] at hstores
    obtain ⟨hfirst, hrest⟩ := List.forall_mem_append.mp hstores
    refine ih (beat_intact h fun s f hs hf => ?_) hrest
    exact hfirst f (List.mem_filterMap.mpr ⟨s, Option.mem_toList.mpr hs, hf⟩)

/-- **What instructions leave alone, and so whole runs.**  A step of a running machine that answers
`true` changes nothing outside the footprint of the instruction at the program counter.  A run from
a reset or from a load that succeeds, in which no instruction that stores is fetched, finds the font
and the program in memory, wherever it is cut off; the program is the one from the start as long as
no other is loaded. -/
theorem reached_footprint :
    (∀ (m : Machine) (random : Int), m.phase = .running → (m.step random).answer = .ok true →
      ∃ w i, m.Executes w i (m.step random))
    ∧ ∀ config random threshold history (c : Call), c.Restarts →
        let start := reached config random threshold (history ++ [c])
        (∀ image title, c = .load image title → start.image = image)
        ∧ ∀ later beats, beats <+: start.beats later →
            (∀ f ∈ start.fetched beats, ¬ f.instruction.Stores) →
            let last := start.play beats
            last.machine.memory.Holds last.image
              ∧ ((∀ b ∈ beats, ¬ b.Loads) → last.image = start.image) := by
  refine ⟨fun m random => Machine.step_executes, ?_⟩
  intro config random threshold history c hc start
  refine ⟨?_, fun later beats _ hstores => ⟨?_, fun hbeats => (start.play_program hbeats).1⟩⟩
  · rintro image title rfl
    exact (reached_load config random threshold history hc).2.1
  · exact (play_intact (restart_intact config random threshold history hc) hstores).memory

/-- A program of one instruction that does not store. -/
theorem reached_footprint_loadByte :
    let load : Call := .load [0x60, 0x05] none
    let e := reached ⟨8, .set, 16, .info⟩ (.cycle [7]) .info [load]
    load.Loads ∧ e.fetched [.step] = [⟨0x200, 0x6005, .loadByte 0 5⟩]
      ∧ e.machine.Executes 0x6005 (.loadByte 0 5) e.next
      ∧ (e.play [.step]).machine.memory.Holds [0x60, 0x05] := by
  intro load e
  have hload : load.Loads := ⟨by decide, by decide⟩
  obtain ⟨hhalt, -, hmachine⟩ :
      e.halt = none ∧ e.image = _ ∧ e.machine = coldStart (.initial .set 16) [0x60, 0x05] :=
    reached_load ⟨8, .set, 16, .info⟩ (.cycle [7]) .info [] hload
  have hphase : e.machine.phase = .running := by rw [hmachine]; rfl
  have hnext := next_of_load hmachine (by decide) (i := .loadByte 0 5) (by decide) rfl
  obtain ⟨hstep, hrun⟩ := reached_footprint
  obtain ⟨w, i, hexecutes⟩ := hstep e.machine e.random.head hphase (congrArg Step.answer hnext)
  have hfetched : e.next.fetched = some ⟨0x200, 0x6005, .loadByte 0 5⟩ :=
    congrArg Step.fetched hnext
  obtain ⟨-, rfl, rfl⟩ := Fetched.mk.inj (Option.some.inj (hexecutes.fetched.symm.trans hfetched))
  have hfetches : e.fetched [.step] = [⟨0x200, 0x6005, .loadByte 0 5⟩] := by
    rw [fetched_cons, Beat.taken_step hhalt, Option.toList_some, List.filterMap_cons_some hfetched]
    rfl
  obtain ⟨himage, hintact⟩ := hrun ⟨8, .set, 16, .info⟩ (.cycle [7]) .info [] load hload
  obtain ⟨hholds, hsame⟩ := hintact [.step] [.step] (List.prefix_refl _) fun f hf =>
    List.mem_singleton.mp (hfetches ▸ hf : f ∈ [_]) ▸ id
  have hprogram := (hsame (List.forall_mem_singleton.mpr id)).trans (himage _ _ rfl)
  exact ⟨hload, hfetches, hexecutes, hprogram ▸ hholds⟩

end Emulator

end ChipEight
