import ChipEight.Proofs.Machine.Keypad
import ChipEight.Proofs.Session.Mirror

/-!
# Proofs/Session/Chord — a key that is part of a chord

A key that goes down with Ctrl, Meta or Alt is left to others, but when it goes up again it is
released like any other.  While the machine runs that is no matter, since the key was not down
(`keyUp_of_running`).  A machine that waits for a key takes the release for one, so a chord ends the
wait (`chord_resumes`).
-/

namespace ChipEight

namespace Keypad

/-- A key that is put where it is. -/
theorem put_holds (p : Keypad) (k : Key) : p.put k (p.holds k) = p :=
  congrArg mk (Vector.set_getElem_self k.isLt)

theorem release_of_not_holds {p : Keypad} {k : Key} (h : p.holds k = false) :
    p.release k.number = p := by
  rw [release, Key.ofNumber?_number]
  exact h ▸ p.put_holds k

end Keypad

namespace Session

variable {s : Session}

/-- **A key that goes down in a chord** is not pressed. -/
theorem keyDown_of_chorded {stroke : KeyStroke} (h : stroke.chorded = true) :
    s.keyDown stroke = s := by
  unfold keyDown consumes
  rw [h]
  split <;> rfl

/-- A key that goes up is released. -/
theorem keyUp_emulator {e : Emulator} (he : s.emulator = some e) {stroke : KeyStroke} {k : Key}
    (hk : Key.ofText? stroke.text = some k) :
    (s.keyUp stroke).emulator = some (e.keyUp k.number) := by
  simp only [keyUp, hk, release, update, he, present]
  split <;> rfl

/-- **What a chord does** to a machine that does not hold its key: nothing while the machine runs,
and when it waits it goes on with the key. -/
theorem chord_resumes {e : Emulator} (he : s.emulator = some e) {down up : KeyStroke} {k : Key}
    (hk : Key.ofText? down.text = some k) (htext : up.text = down.text)
    (hchorded : down.chorded = true) (hheld : e.machine.keypad.holds k = false) :
    s.keyDown down = s
      ∧ ∃ e', ((s.keyDown down).keyUp up).emulator = some e'
        ∧ (e'.machine = e.machine ↔ e.machine.phase = .running)
        ∧ (e.machine.phase = .waitingForKey →
          e'.machine = e.machine.resumed e.machine.registers.wake k) := by
  have hdown : s.keyDown down = s := keyDown_of_chorded hchorded
  refine ⟨hdown, e.keyUp k.number, ?_, ?_⟩
  · rw [hdown]
    exact keyUp_emulator he (htext ▸ hk)
  cases hphase : e.machine.phase with
  | running =>
    have hsame : (e.keyUp k.number).machine = e.machine := by
      rw [Emulator.keyUp_of_running hphase, Keypad.release_of_not_holds hheld]
    exact ⟨iff_of_true hsame rfl, nofun⟩
  | waitingForKey =>
    obtain ⟨log, hresumed⟩ := Emulator.keyUp_of_waiting hphase (Key.ofNumber?_number k)
    rw [hresumed]
    refine ⟨iff_of_false (fun hsame => ?_) nofun, fun _ => rfl⟩
    cases (congrArg Machine.phase hsame).trans hphase

/-! ## A chord while a program waits -/

/-- The digit 5, first as part of a chord and then on its own. -/
def chordFive : KeyStroke := ⟨"5", true, false⟩

def bareFive : KeyStroke := ⟨"5", false, false⟩

theorem ofText?_five : Key.ofText? chordFive.text = some 5 := by decide

/-- A program that waits for a key is loaded, and a tick lets it come to its wait. -/
def waitEvents : List Reading.Event := [.now (.loadImage waitForever none), .now .tick]

theorem reached_waiting : ∃ e, (reached [] (.record []) (.cycle [7]) waitEvents).emulator = some e
    ∧ e.machine.phase = .waitingForKey ∧ e.machine.keypad.holds 5 = false := by
  have hconfig : Environment.configWith [] (.record []) = .ok ⟨8, .set, 16, .info⟩ := rfl
  have hload : (Emulator.Call.load waitForever none).Loads := ⟨by decide, by decide⟩
  obtain ⟨e, he, hmounted, hpaused, -, hhalt, hsettings, hmachine⟩ :=
    reached_loadImage hconfig (.cycle [7]) hload
  obtain ⟨-, -, hframe⟩ := frame_waitForever hhalt hmachine (by rw [hsettings]; decide)
  refine ⟨e.frame.emulator, ?_, ?_, ?_⟩
  · exact congrArg Session.emulator (tick_eq he hmounted hpaused hhalt)
  · rw [hframe]
    rfl
  · rw [hframe, hmachine]
    rfl

/-- A chord hands its key to the program that waits. -/
theorem chord_resumes_waiting :
    let s := reached [] (.record []) (.cycle [7]) waitEvents
    ∃ e e', s.emulator = some e ∧ e.machine.phase = .waitingForKey
      ∧ s.keyDown chordFive = s
      ∧ ((s.keyDown chordFive).keyUp bareFive).emulator = some e'
      ∧ e'.machine = e.machine.resumed e.machine.registers.wake 5 := by
  obtain ⟨e, he, hphase, hheld⟩ := reached_waiting
  have htext : bareFive.text = chordFive.text := rfl
  obtain ⟨hdown, e', he', -, hresumed⟩ := chord_resumes he ofText?_five htext rfl hheld
  exact ⟨e, e', he, hphase, hdown, he', hresumed hphase⟩

/-- **A chord can be seen by the machine.** -/
theorem chord_visible :
    let s := reached [] (.record []) (.cycle [7]) waitEvents
    consumes chordFive = false ∧ bareFive.text = chordFive.text
      ∧ Key.ofText? chordFive.text = some 5
      ∧ ∃ e e', s.emulator = some e ∧ e.machine.keypad.holds 5 = false
        ∧ ((s.keyDown chordFive).keyUp bareFive).emulator = some e'
        ∧ e'.machine.phase ≠ e.machine.phase ∧ e'.machine ≠ e.machine := by
  obtain ⟨e, he, hphase, hheld⟩ := reached_waiting
  obtain ⟨log, hresumed⟩ := Emulator.keyUp_of_waiting hphase (Key.ofNumber?_number 5)
  have hrunning : (e.keyUp (Key.number 5)).machine.phase ≠ e.machine.phase := by
    rw [hresumed, hphase]
    exact nofun
  refine ⟨rfl, rfl, ofText?_five, e, e.keyUp (Key.number 5), he, hheld, ?_, hrunning,
    fun hsame => hrunning (congrArg Machine.phase hsame)⟩
  rw [keyDown_of_chorded rfl]
  exact keyUp_emulator he ofText?_five

end Session

end ChipEight
