import ChipEight.Proofs.Machine.Stepping
import Mathlib.Data.List.Induction

/-!
# Proofs/Machine/Keypad — a keypad as the set of its keys

A host names keys by numbers of any kind, and a move that names no key does nothing.  A key is held
exactly when the last move that names it since the last reset is a press (`holds_moveAll`), so what
a keypad lists is determined by the moves, and moves that name different numbers can be exchanged
(`move_comm`).
-/

namespace ChipEight

namespace Key

theorem ofNumber?_number (k : Key) : ofNumber? k.number = some k := by
  rw [number, ofNumber?_intCast, ofInt?, dif_pos ⟨by omega, by omega⟩]
  rfl

/-- **A number is a key** exactly when it is the number of one. -/
theorem ofNumber?_eq_some_iff {x : Binary64} {k : Key} : ofNumber? x = some k ↔ x = k.number := by
  refine ⟨fun h => ?_, fun h => h ▸ ofNumber?_number k⟩
  obtain ⟨n, hn, hk⟩ := Option.bind_eq_some_iff.mp h
  cases x with
  | infinite | undefined => cases hn
  | finite y =>
    obtain rfl := eq_of_whole? hn
    unfold ofInt? at hk
    split at hk
    case isFalse => cases hk
    case isTrue hrange =>
      obtain rfl := Option.some.inj hk
      rw [number, Int.toNat_of_nonneg hrange.1]

theorem ofNumber?_eq_none_iff {x : Binary64} : ofNumber? x = none ↔ ∀ k : Key, x ≠ k.number := by
  simp only [Option.eq_none_iff_forall_ne_some, ne_eq, ofNumber?_eq_some_iff]

/-- No number above fifteen is a key. -/
theorem number_ne_of_le {n : Nat} (h : 16 ≤ n) (k : Key) : .finite (n : Int) ≠ k.number := by
  intro hk
  have hsame := ofNumber?_eq_some_iff.mpr hk
  rw [ofNumber?_intCast, ofInt?, dif_neg (by omega)] at hsame
  cases hsame

end Key

namespace Keypad

variable {p q : Keypad} {x y : Binary64} {k : Key}

/-- Two keypads that hold the same keys are the same. -/
theorem ext_holds (h : ∀ k, p.holds k = q.holds k) : p = q := by
  obtain ⟨down⟩ := p
  obtain ⟨down'⟩ := q
  exact congrArg mk (Vector.ext fun i hi => h ⟨i, hi⟩)

theorem holds_released (k : Key) : released.holds k = false := Vector.getElem_replicate _

theorem mem_pressed : k ∈ p.pressed ↔ p.holds k = true := by
  simp only [pressed, List.mem_filter, List.mem_finRange, true_and]

/-- The keys that are held are listed from the least to the greatest. -/
theorem pressed_pairwise (p : Keypad) : p.pressed.Pairwise (· < ·) :=
  (List.pairwise_lt_finRange 16).filter _

/-- A number is pressed if it is the number of a key that is listed. -/
theorem isPressed_iff : p.isPressed x = true ↔ ∃ k ∈ p.pressed, x = k.number := by
  simp only [isPressed, Option.any_eq_true, mem_pressed, Key.ofNumber?_eq_some_iff, and_comm]

/-- What is no key is not pressed. -/
theorem isPressed_of_none (h : ∀ k : Key, x ≠ k.number) : p.isPressed x = false :=
  Bool.eq_false_iff.mpr fun hp =>
    let ⟨k, _, hk⟩ := isPressed_iff.mp hp
    h k hk

/-- Putting the key that a number is, if it is one, moves that key alone. -/
theorem holds_place (p : Keypad) (x : Binary64) (held : Bool) (k : Key) :
    ((Key.ofNumber? x).elim p (p.put · held)).holds k
      = if x = k.number then held else p.holds k := by
  cases hx : Key.ofNumber? x with
  | none => rw [if_neg (Key.ofNumber?_eq_none_iff.mp hx k), Option.elim]
  | some j =>
    have hsame : k = j ↔ x = k.number := by
      rw [← Key.ofNumber?_eq_some_iff, hx, Option.some.injEq, eq_comm]
    simp only [Option.elim, holds_put, hsame]

theorem holds_press (p : Keypad) (x : Binary64) (k : Key) :
    (p.press x).holds k = if x = k.number then true else p.holds k := by
  rw [← holds_place, press]
  cases Key.ofNumber? x <;> rfl

theorem holds_release (p : Keypad) (x : Binary64) (k : Key) :
    (p.release x).holds k = if x = k.number then false else p.holds k := by
  rw [← holds_place, release]
  cases Key.ofNumber? x <;> rfl

/-- A number that is no key is neither pressed nor released. -/
theorem move_of_none (h : ∀ k : Key, x ≠ k.number) : p.press x = p ∧ p.release x = p := by
  rw [press, release, Key.ofNumber?_eq_none_iff.mpr h]
  exact ⟨rfl, rfl⟩

/-! ## Moves -/

/-- What a host does with a keypad. -/
inductive Move where
  | press (x : Binary64)
  | release (x : Binary64)
  | reset
  deriving DecidableEq

/-- The number that a move names. -/
def Move.number? : Move → Option Binary64
  | .press x | .release x => some x
  | .reset => none

def move (p : Keypad) : Move → Keypad
  | .press x => p.press x
  | .release x => p.release x
  | .reset => released

def moveAll (p : Keypad) (moves : List Move) : Keypad := moves.foldl move p

/-- **The last move that names a number** since the last reset. -/
def lastMove (x : Binary64) (moves : List Move) : Option Move :=
  (moves.reverse.takeWhile (· ≠ .reset)).find? (·.number? = some x)

/-- A move that names a number puts the key that the number is, and no other. -/
theorem holds_move {m : Move} (hm : m.number? = some x) (p : Keypad) (k : Key) :
    (p.move m).holds k = if x = k.number then decide (m = .press x) else p.holds k := by
  cases m with
  | press x =>
    obtain rfl := Option.some.inj hm
    simp only [move, holds_press, decide_true]
  | release x =>
    obtain rfl := Option.some.inj hm
    simp only [move, holds_release, reduceCtorEq, decide_false]
  | reset => cases hm

/-- **Moves that name different numbers** can be exchanged. -/
theorem move_comm {a b : Move} (ha : a.number? = some x) (hb : b.number? = some y) (hxy : x ≠ y) :
    (p.move a).move b = (p.move b).move a := by
  refine ext_holds fun k => ?_
  simp only [holds_move ha, holds_move hb]
  by_cases hx : x = k.number
  · have hy : y ≠ k.number := fun hy => hxy (hx.trans hy.symm)
    simp only [hx, hy, if_true, if_false]
  · simp only [hx, if_false]

theorem moveAll_concat (p : Keypad) (moves : List Move) (m : Move) :
    p.moveAll (moves ++ [m]) = (p.moveAll moves).move m := by
  rw [moveAll, List.foldl_append]
  rfl

theorem lastMove_reset (x : Binary64) (moves : List Move) :
    lastMove x (moves ++ [.reset]) = none := by
  rw [lastMove, List.reverse_concat, List.takeWhile_cons_of_neg (by decide), List.find?_nil]

theorem lastMove_concat {m : Move} (hm : m.number? = some y) (x : Binary64) (moves : List Move) :
    lastMove x (moves ++ [m]) = if y = x then some m else lastMove x moves := by
  have hreset : m ≠ .reset := fun h => by rw [h] at hm; cases hm
  rw [lastMove, List.reverse_concat, List.takeWhile_cons_of_pos (by simpa using hreset),
    List.find?_cons, hm]
  by_cases h : y = x <;> simp [h, lastMove]

/-- **A key is held** exactly when the last move that names it since the last reset presses it. -/
theorem holds_moveAll (moves : List Move) (k : Key) :
    (released.moveAll moves).holds k = true ↔ lastMove k.number moves = some (.press k.number) := by
  induction moves using List.reverseRecOn with
  | nil => exact iff_of_false (holds_released k ▸ Bool.false_ne_true) nofun
  | append_singleton moves m ih =>
    rw [moveAll_concat]
    cases hm : m.number? with
    | none =>
      obtain rfl : m = .reset := by
        cases m with
        | reset => rfl
        | press | release => cases hm
      exact iff_of_false (holds_released k ▸ Bool.false_ne_true) (lastMove_reset _ _ ▸ nofun)
    | some x =>
      rw [holds_move hm, lastMove_concat hm]
      by_cases hx : x = k.number
      · simp only [hx, if_true, decide_eq_true_eq, Option.some.injEq]
      · simp only [hx, if_false, ih]

end Keypad

/-! ## Skips -/

/-- A register above fifteen names no key, so none is held there. -/
theorem Machine.keyHeld_of_le {m : Machine} {r : Int} (h : 16 ≤ m.registers.get r) :
    m.keyHeld r = false :=
  Keypad.isPressed_of_none (Key.number_ne_of_le h)

namespace Keypad

/-- **A keypad is a set of keys.**  After any moves, by whatever numbers, it lists in ascending
order the keys whose last move since the last reset was a press; a number is pressed if it is the
number of one of them; a number that is no key moves nothing; and moves that name different numbers
can be exchanged.  So to a skip a register above fifteen is a key that is not held. -/
theorem moveAll_refines (moves : List Move) :
    let p := released.moveAll moves
    p.pressed.Pairwise (· < ·)
      ∧ (∀ k : Key, k ∈ p.pressed ↔ lastMove k.number moves = some (.press k.number))
      ∧ (∀ x, p.isPressed x = true ↔ ∃ k ∈ p.pressed, x = k.number)
      ∧ (∀ x, (∀ k : Key, x ≠ k.number) → p.press x = p ∧ p.release x = p)
      ∧ (∀ a b x y, Move.number? a = some x → Move.number? b = some y → x ≠ y →
          (p.move a).move b = (p.move b).move a)
      ∧ ∀ (m : Machine) random r, 16 ≤ m.registers.get r →
          m.execute random (.skipPressed r) = m.done
            ∧ m.execute random (.skipReleased r)
              = Machine.done { m with pc := lowWord (m.pc + 2) } := by
  intro p
  refine ⟨p.pressed_pairwise, fun k => mem_pressed.trans (holds_moveAll moves k),
    fun x => isPressed_iff, fun x => move_of_none, fun a b x y => move_comm, ?_⟩
  intro m random r hr
  have hheld : m.keyHeld r = false := Machine.keyHeld_of_le hr
  rw [Machine.execute, Machine.execute, hheld]
  exact ⟨rfl, rfl⟩

/-- A press before a reset, one of a number that is no key, and one that is taken back. -/
theorem moveAll_refines_three :
    let moves : List Move := [.press (.finite 10), .reset, .press (.finite 3),
      .press (.finite 16), .press (.finite 12), .release (.finite 12)]
    let p := released.moveAll moves
    let m := Machine.holding [0xE0, 0x9E] (Registers.zero.set 0 16)
    (3 : Key) ∈ p.pressed ∧ (10 : Key) ∉ p.pressed ∧ (12 : Key) ∉ p.pressed
      ∧ (∀ k : Key, .finite 16 ≠ k.number) ∧ p.press (.finite 16) = p
      ∧ (p.move (.release (.finite 3))).move (.press (.finite 12))
        = (p.move (.press (.finite 12))).move (.release (.finite 3))
      ∧ 16 ≤ m.registers.get 0 ∧ m.execute 0 (.skipPressed 0) = m.done := by
  intro moves p m
  obtain ⟨-, hlisted, -, hother, hcomm, hskip⟩ := moveAll_refines moves
  have hsixteen : ∀ k : Key, .finite 16 ≠ k.number := by decide
  have hregister : 16 ≤ m.registers.get 0 := by decide
  exact ⟨(hlisted 3).mpr (by decide), fun h => absurd ((hlisted 10).mp h) (by decide),
    fun h => absurd ((hlisted 12).mp h) (by decide), hsixteen, (hother _ hsixteen).1,
    hcomm _ _ _ _ rfl rfl (by decide), hregister, (hskip m 0 0 hregister).1⟩

end Keypad

end ChipEight
