import ChipEight.Proofs.Emulator.KeyWait
import ChipEight.Proofs.Instruction.Listing
import ChipEight.Proofs.Machine.Halting

/-!
# Proofs/Emulator/Prediction — the line that is shown and the step that follows

An observer is shown the line of the word at the program counter, which is found without taking the
step.  It foretells what the step does (`Foretells`): there is no line where the fetch fails, a line
of data where the word is no instruction, and otherwise the line of the instruction that is fetched,
which may then be stopped by the call stack or the end of memory.  What is shown of a machine that
waits for a key foretells the step behind the wait.
-/

namespace ChipEight

/-- Is it a fault of the call stack or of memory? -/
def Fault.OfStackOrMemory : Fault → Prop
  | .stackOverflow _ | .stackUnderflow | .addressOutOfRange _ => True
  | .unknownInstruction _ => False

namespace Machine

/-! ## The line -/

theorem peek_of_readWord {m : Machine} {w : Nat} (h : m.memory.readWord m.pc = .ok w) :
    m.peek = .ok (some (Instruction.listWord w)) := by
  obtain ⟨h0, h1, -⟩ := Memory.bounds_of_readWord h
  rw [peek, if_pos ⟨⟨h0, by omega⟩, by omega, by omega⟩, Memory.listAt_of_readWord h]
  rfl

/-- A word that cannot be read is not looked for. -/
theorem peek_of_error {m : Machine} {fault : Fault} (h : m.memory.readWord m.pc = .error fault) :
    m.peek = .ok none := by
  refine if_neg fun ⟨⟨h0, _⟩, _, h1⟩ => ?_
  obtain ⟨w, hread, -⟩ := m.memory.readWord_of_le h0 (by omega)
  cases hread.symm.trans h

theorem upcoming_of_readWord {m : Machine} {w : Nat} (h : m.memory.readWord m.pc = .ok w) :
    m.upcoming = some (Instruction.listWord w) := by
  rw [upcoming, peek_of_readWord h]

theorem upcoming_of_error {m : Machine} {fault : Fault}
    (h : m.memory.readWord m.pc = .error fault) : m.upcoming = none := by
  rw [upcoming, peek_of_error h]

/-- **Looking for the line never fails.** -/
theorem peek_eq (m : Machine) : m.peek = .ok m.upcoming := by
  rcases hread : m.memory.readWord m.pc with fault | w
  · rw [peek_of_error hread, upcoming_of_error hread]
  · rw [peek_of_readWord hread, upcoming_of_readWord hread]

/-! ## The step -/

theorem ofStackOrMemory_of_obstacle {m : Machine} {i : Instruction} {fault : Fault}
    (h : m.obstacle i = some fault) : fault.OfStackOrMemory := by
  have hoverrun {a : Int} {n : Nat} (h : Memory.overrun a n = some fault) :
      fault.OfStackOrMemory := by
    obtain ⟨-, rfl⟩ := overrun_eq_some_iff.mp h
    trivial
  cases i with
  | call | ret =>
    obtain ⟨-, hfault⟩ := Option.ite_none_right_eq_some.mp h
    exact Option.some.inj hfault ▸ trivial
  | draw | storeDigits | storeRegisters | loadRegisters => exact hoverrun h
  | _ => cases h

/-- **What a line says about a step** of the machine it is shown of. -/
structure Foretells (line : Option String) (m : Machine) (s : Step) : Prop where
  /-- There is no line exactly where the word reaches beyond memory, -/
  none_iff : line = none ↔ 0xFFE < m.pc
  /-- and then no word is fetched. -/
  unread : line = none → ∃ h, s.answer = .error h ∧ h.word = none
  /-- A word is listed as data exactly where it is unknown to the step, -/
  data_iff : ∀ w : Nat, line = some (Instruction.dataLine w)
    ↔ ∃ h, s.answer = .error h ∧ h.cause = .unknownInstruction w
  /-- which reports that very word. -/
  unknown : ∀ h (w : Int), s.answer = .error h → h.cause = .unknownInstruction w → h.word = some w
  /-- Any other line is that of the instruction which the step comes to execute, and nothing but the
  call stack and the end of memory can stop it. -/
  instruction : ∀ text, line = some text → (∀ w, text ≠ Instruction.dataLine w) →
    ∃ f, s.fetched = some f ∧ Instruction.decode f.word = .ok f.instruction
      ∧ text = f.instruction.listing
      ∧ (s.answer = .ok true
        ∨ ∃ h, s.answer = .error h ∧ h.cause.OfStackOrMemory ∧ h.word = some (f.word : Int))

namespace Foretells

variable {m : Machine}

/-- Beyond the end of memory there is no line, and the step faults without a word. -/
theorem of_unread {fault : Fault} (hread : m.memory.readWord m.pc = .error fault) (h0 : 0 ≤ m.pc) :
    Foretells m.upcoming m ⟨m, none, .error ⟨fault, none, m.pc⟩⟩ := by
  have hpc : 0xFFE < m.pc := by
    refine Int.not_le.mp fun hle => ?_
    obtain ⟨w, hw, -⟩ := m.memory.readWord_of_le h0 hle
    cases hw.symm.trans hread
  have hcause : ∀ w, fault ≠ .unknownInstruction w := by
    rw [m.memory.readWord_of_gt hpc] at hread
    rintro w rfl
    cases hread
  rw [upcoming_of_error hread]
  refine ⟨iff_of_true rfl hpc, fun _ => ⟨_, rfl, rfl⟩, fun w => iff_of_false nofun ?_, ?_, nofun⟩
  · rintro ⟨h, herror, hunknown⟩
    obtain rfl := Except.error.inj herror
    exact hcause w hunknown
  · rintro h w herror hunknown
    obtain rfl := Except.error.inj herror
    exact absurd hunknown (hcause w)

variable {w : Nat} (hread : m.memory.readWord m.pc = .ok w)
include hread

theorem upcoming_eq_none_iff : m.upcoming = none ↔ 0xFFE < m.pc := by
  obtain ⟨-, hle, -⟩ := Memory.bounds_of_readWord hread
  rw [upcoming_of_readWord hread]
  exact iff_of_false nofun (Int.not_lt.mpr hle)

theorem upcoming_eq_data_iff {v : Nat} :
    m.upcoming = some (Instruction.dataLine v) ↔ Instruction.ofWord? w = none ∧ w = v := by
  rw [upcoming_of_readWord hread, Option.some_inj, Instruction.listWord_eq_data_iff]

/-- A word that is listed as data is unknown to the step. -/
theorem of_unknown (hword : Instruction.ofWord? w = none) (after : Machine) :
    Foretells m.upcoming m ⟨after, none, .error ⟨.unknownInstruction w, some w, m.pc⟩⟩ := by
  have hline : m.upcoming = some (Instruction.dataLine w) :=
    (upcoming_eq_data_iff hread).mpr ⟨hword, rfl⟩
  refine ⟨upcoming_eq_none_iff hread, fun hnone => ?_, fun v => ?_, ?_, fun text htext hdata => ?_⟩
  · cases hline.symm.trans hnone
  · rw [upcoming_eq_data_iff hread]
    constructor
    · rintro ⟨-, rfl⟩
      exact ⟨_, rfl, rfl⟩
    · rintro ⟨h, herror, hunknown⟩
      obtain rfl := Except.error.inj herror
      exact ⟨hword, Int.ofNat_inj.mp (Fault.unknownInstruction.inj hunknown)⟩
  · rintro h v herror hunknown
    obtain rfl := Except.error.inj herror
    rw [Fault.unknownInstruction.inj hunknown]
  · exact absurd (Option.some.inj (htext.symm.trans hline)) (hdata w)

/-- A word that is listed as an instruction is fetched as that instruction. -/
theorem of_fetched {i : Instruction} (hword : Instruction.ofWord? w = some i) (after : Machine)
    {answer : Except Halt Bool} (hanswer : answer = .ok true
      ∨ ∃ h, answer = .error h ∧ h.cause.OfStackOrMemory ∧ h.word = some (w : Int)) :
    Foretells m.upcoming m ⟨after, some ⟨m.pc, w, i⟩, answer⟩ := by
  obtain ⟨-, -, hw⟩ := Memory.bounds_of_readWord hread
  have hknown : ∀ h (v : Int), answer = .error h → h.cause ≠ .unknownInstruction v := by
    rintro h v herror hunknown
    obtain htrue | ⟨h', herror', hcause, -⟩ := hanswer
    · cases htrue.symm.trans herror
    · obtain rfl := Except.error.inj (herror'.symm.trans herror)
      rw [hunknown] at hcause
      exact hcause
  refine ⟨upcoming_eq_none_iff hread, fun hnone => ?_, fun v => iff_of_false ?_ ?_, ?_, ?_⟩
  · cases (upcoming_of_readWord hread).symm.trans hnone
  · rw [upcoming_eq_data_iff hread, hword]
    exact nofun
  · rintro ⟨h, herror, hunknown⟩
    exact hknown h v herror hunknown
  · rintro h v herror hunknown
    exact absurd hunknown (hknown h v herror)
  · rintro text htext -
    refine ⟨_, rfl, decode_of_ofWord? hw hword, ?_, hanswer⟩
    rw [upcoming_of_readWord hread, Instruction.listWord, hword] at htext
    exact (Option.some.inj htext).symm

end Foretells

/-- **The line at the program counter foretells the step of a running machine.** -/
theorem upcoming_foretells {m : Machine} (hphase : m.phase = .running) (hm : m.InBounds)
    (random : Int) : Foretells m.upcoming m (m.step random) := by
  have hs := m.step_stepping random
  generalize m.step random = s at hs ⊢
  cases hs with
  | waiting hwaiting => cases hphase.symm.trans hwaiting
  | unreadable _ hread => exact .of_unread hread hm.pc.1
  | unknown _ hread hword => exact .of_unknown hread hword _
  | executed _ hread hword => exact .of_fetched hread hword _ (.inl rfl)
  | stopped _ hread hword hfault =>
    have hobstacle := (fault_of_fetched hm.index.1 hread hword random).symm.trans hfault
    exact .of_fetched hread hword _ (.inr ⟨_, rfl, ofStackOrMemory_of_obstacle hobstacle, rfl⟩)

end Machine

namespace Emulator

/-! ## What an observer is shown -/

/-- What is shown of an emulator that runs foretells its step. -/
theorem InBounds.foretells {config : Config} {e : Emulator} (h : InBounds config e)
    (hphase : e.machine.phase = .running) (hhalt : e.halt = none) :
    e.step.2 = e.next.answer ∧ Machine.Foretells e.snapshot.upcoming e.machine e.next :=
  ⟨step_answer hhalt, Machine.upcoming_foretells hphase h.machine e.random.head⟩

/-- A wait hands on the line that is shown, since nothing moves that it depends on. -/
theorem resumed_of_waiting {e : Emulator} (hhalt : e.halt = none)
    (hwaiting : e.machine.phase = .waitingForKey) {later : List Call}
    (hlater : ∀ b ∈ e.beats later, ¬ b.EndsWait) {key : Binary64} {k : Key}
    (hk : Key.ofNumber? key = some k) :
    let resumed := (e.run later).1.keyUp key
    resumed.machine.phase = .running ∧ resumed.halt = none
      ∧ resumed.snapshot.upcoming = e.snapshot.upcoming := by
  obtain ⟨keypad, timer, hplay⟩ := play_of_waiting hhalt hwaiting hlater
  rw [play_beats] at hplay
  have hphase : (e.run later).1.machine.phase = .waitingForKey := by rw [hplay]; exact hwaiting
  obtain ⟨log, hkeyUp⟩ := keyUp_of_waiting hphase hk
  rw [hkeyUp, hplay]
  exact ⟨rfl, hhalt, rfl⟩

/-- **The prediction agrees with the step**, wherever calls have led.  To look for it never fails;
what is shown of an emulator that runs foretells its next step; and what is shown of one that waits
for a key foretells the step behind the wait, whatever happens until a key ends it. -/
theorem reached_upcoming (config : Config) (random : RandomSource) (threshold : Level)
    (calls : List Call) :
    let e := reached config random threshold calls
    e.machine.peek = .ok e.snapshot.upcoming
    ∧ (e.machine.phase = .running → e.halt = none → e.step.2 = e.next.answer
        ∧ Machine.Foretells e.snapshot.upcoming e.machine e.next)
    ∧ (e.machine.phase = .waitingForKey → ∀ later, (∀ b ∈ e.beats later, ¬ b.EndsWait) →
        ∀ key k, Key.ofNumber? key = some k →
          let resumed := (e.run later).1.keyUp key
          resumed.step.2 = resumed.next.answer
            ∧ Machine.Foretells e.snapshot.upcoming resumed.machine resumed.next) := by
  intro e
  have hbounds : InBounds config e := .reached random threshold calls
  refine ⟨e.machine.peek_eq, hbounds.foretells, ?_⟩
  intro hwaiting later hlater key k hk resumed
  have hhalt : e.halt = none := by
    refine Classical.byContradiction fun hhalted => ?_
    cases hwaiting.symm.trans (hbounds.halted hhalted)
  have hresumed : InBounds config resumed := (InBounds.kept.run hbounds later).keyUp key
  -- The line is that of the machine behind the wait, which runs.
  obtain ⟨hrunning, hnone, hsame⟩ := resumed_of_waiting hhalt hwaiting hlater hk
  rw [← hsame]
  exact hresumed.foretells hrunning hnone

/-- A program that waits for a key with a zero word behind the wait. -/
theorem reached_upcoming_keyWait :
    let load : Call := .load [0xF3, 0x0A, 0x00, 0x00] none
    let started := reached ⟨8, .set, 16, .info⟩ (.cycle [7]) .info [load]
    let waiting := reached ⟨8, .set, 16, .info⟩ (.cycle [7]) .info [load, .step]
    let resumed := (waiting.run [.frame]).1.keyUp (.finite 5)
    Machine.Foretells started.snapshot.upcoming started.machine started.next
      ∧ waiting.machine.phase = .waitingForKey
      ∧ waiting.snapshot.upcoming = some (Instruction.dataLine 0)
      ∧ ∃ h, resumed.step.2 = .error h ∧ h.cause = .unknownInstruction 0 := by
  intro load started waiting resumed
  have hload : load.Loads := ⟨by decide, by decide⟩
  have hword : Instruction.ofWord? 0xF30A = some (.waitForKey 3) :=
    Instruction.ofWord?_encode ⟨by decide, by decide⟩ rfl
  obtain ⟨hhalt, -, hstarted⟩ :=
    reached_load ⟨8, .set, 16, .info⟩ (.cycle [7]) .info [] hload
  have hwaiting : waiting.machine = (coldStart (.initial .set 16) _).awaiting 0x200 3 :=
    reached_load_wait ⟨8, .set, 16, .info⟩ (.cycle [7]) .info [] hload hword
  have hphase : waiting.machine.phase = .waitingForKey := congrArg Machine.phase hwaiting
  have hread : waiting.machine.memory.readWord waiting.machine.pc = .ok 0 := by
    have hbehind := Memory.initial.readWord_place_add hload.2 (k := 2) (by decide)
    rw [hwaiting]
    exact hbehind.trans (congrArg Except.ok (by decide))
  have hline : waiting.snapshot.upcoming = some (Instruction.dataLine 0) := by
    have hdata : Instruction.listWord 0 = Instruction.dataLine 0 :=
      Instruction.listWord_eq_data_iff.mpr ⟨rfl, rfl⟩
    rw [snapshot, Machine.upcoming_of_readWord hread, hdata]
  obtain ⟨-, hrunning, -⟩ := reached_upcoming ⟨8, .set, 16, .info⟩ (.cycle [7]) .info [load]
  obtain ⟨-, -, hresumed⟩ := reached_upcoming ⟨8, .set, 16, .info⟩ (.cycle [7]) .info [load, .step]
  have hframe : ∀ b ∈ waiting.beats [.frame], ¬ b.EndsWait := by
    have hbeats : waiting.beats [.frame] = waiting.frameBeats := List.append_nil _
    exact hbeats ▸ fun b => not_endsWait_of_mem_frameBeats
  obtain ⟨hanswer, hforetells⟩ := hresumed hphase [.frame] hframe (.finite 5) 5 rfl
  obtain ⟨h, herror, hcause⟩ := (hforetells.data_iff 0).mp hline
  exact ⟨(hrunning (congrArg Machine.phase hstarted) hhalt).2, hphase, hline, h,
    hanswer.trans herror, hcause⟩

end Emulator

end ChipEight
