import Mathlib.Data.Nat.ModEq
import Mathlib.Tactic.Ring

/-!
# Positions on a ring

A position on a ring of `size` slots, and the slot a number of ticks ahead of it.
-/

namespace Ring

/-- The slot `ticks` ahead of `pos` on a ring of `size` slots. -/
def ahead (size pos ticks : Nat) : Nat := (pos + ticks) % size

theorem ahead_lt {size : Nat} (positive : 0 < size) (pos ticks : Nat) :
    ahead size pos ticks < size :=
  Nat.mod_lt _ positive

@[simp] theorem ahead_zero {size pos : Nat} (inside : pos < size) : ahead size pos 0 = pos :=
  Nat.mod_eq_of_lt inside

/-- Short of the end of the array the slot is found by adding. -/
theorem ahead_of_lt {size pos ticks : Nat} (short : pos + ticks < size) :
    ahead size pos ticks = pos + ticks :=
  Nat.mod_eq_of_lt short

/-- Up to one turn ahead and past the end of the array, the slot is found by adding and taking
one turn off. -/
theorem ahead_of_le {size pos ticks : Nat} (inside : pos < size) (turn : ticks ≤ size)
    (past : size ≤ pos + ticks) : ahead size pos ticks = pos + ticks - size := by
  have once : (pos + ticks) % size = (pos + ticks - size) % size := by
    rw [Nat.mod_eq_sub_mod past]
  rw [ahead, once, Nat.mod_eq_of_lt (by omega)]

/-- Going on from a slot that is already some ticks ahead. -/
theorem ahead_ahead (size pos first second : Nat) :
    ahead size (ahead size pos first) second = ahead size pos (first + second) := by
  simp only [ahead, Nat.mod_add_mod, Nat.add_assoc]

/-- One tick before a slot that is not the first comes the slot below it. -/
theorem ahead_pred {size pos ticks slot : Nat} (positive : 0 < slot)
    (reaches : ahead size pos (ticks + 1) = slot) : ahead size pos ticks + 1 = slot := by
  have onward : (ahead size pos ticks + 1) % size = slot := by
    rw [ahead, Nat.mod_add_mod, Nat.add_assoc]
    exact reaches
  by_cases short : ahead size pos ticks + 1 < size
  · rwa [Nat.mod_eq_of_lt short] at onward
  · rcases Nat.eq_zero_or_pos size with rfl | some_slot
    · simpa using onward
    · have below := ahead_lt some_slot pos ticks
      have full : ahead size pos ticks + 1 = size := by omega
      rw [full, Nat.mod_self] at onward
      omega

/-- Within one turn different numbers of ticks lead to different slots. -/
theorem ahead_injective {size pos first second : Nat} (inside : pos < size)
    (first_pos : 0 < first) (first_le : first ≤ size) (second_pos : 0 < second)
    (second_le : second ≤ size) (same : ahead size pos first = ahead size pos second) :
    first = second := by
  by_cases short : pos + first < size <;> by_cases short' : pos + second < size
  · rw [ahead_of_lt short, ahead_of_lt short'] at same; omega
  · rw [ahead_of_lt short, ahead_of_le inside second_le (by omega)] at same; omega
  · rw [ahead_of_le inside first_le (by omega), ahead_of_lt short'] at same; omega
  · rw [ahead_of_le inside first_le (by omega), ahead_of_le inside second_le (by omega)] at same
    omega

/-! ### When a slot is reached -/

/-- The number of ticks, from one to a whole turn, after which a position reaches `slot` next. -/
def ticksTo (size pos slot : Nat) : Nat := if pos < slot then slot - pos else slot + size - pos

theorem ticksTo_pos {size pos : Nat} (inside : pos < size) (slot : Nat) :
    0 < ticksTo size pos slot := by
  unfold ticksTo
  split <;> omega

@[simp] theorem ahead_ticksTo {size pos slot : Nat} (inside : pos < size) (slot_lt : slot < size) :
    ahead size pos (ticksTo size pos slot) = slot := by
  unfold ticksTo
  split
  next later => rw [ahead_of_lt (by omega)]; omega
  next behind => rw [ahead_of_le inside (by omega) (by omega)]; omega

theorem ticksTo_ahead {size pos ticks : Nat} (inside : pos < size) (positive : 0 < ticks)
    (turn : ticks ≤ size) : ticksTo size pos (ahead size pos ticks) = ticks := by
  have slot_lt := ahead_lt (by omega : 0 < size) pos ticks
  have le_turn : ticksTo size pos (ahead size pos ticks) ≤ size := by
    unfold ticksTo
    split <;> omega
  -- two numbers of ticks up to one turn that lead to the same slot
  exact ahead_injective inside (ticksTo_pos inside _) le_turn positive turn
    (ahead_ticksTo inside slot_lt)

/-- No smaller number of ticks leads to the slot. -/
theorem ticksTo_ahead_le {size pos ticks : Nat} (inside : pos < size) (positive : 0 < ticks) :
    ticksTo size pos (ahead size pos ticks) ≤ ticks := by
  by_cases turn : ticks ≤ size
  · exact Nat.le_of_eq (ticksTo_ahead inside positive turn)
  · have slot_lt := ahead_lt (by omega : 0 < size) pos ticks
    unfold ticksTo
    split <;> omega

/-- A slot is not reached sooner than on the way over another one. -/
theorem ticksTo_le_add {size pos slot : Nat} (inside : pos < size) (slot_lt : slot < size)
    (elapsed : Nat) :
    ticksTo size pos slot ≤ elapsed + ticksTo size (ahead size pos elapsed) slot := by
  have onward := ahead_lt (by omega : 0 < size) pos elapsed
  have reaches : ahead size pos (elapsed + ticksTo size (ahead size pos elapsed) slot) = slot := by
    rw [← ahead_ahead, ahead_ticksTo onward slot_lt]
  have least := ticksTo_ahead_le inside
    (Nat.lt_add_left elapsed (ticksTo_pos onward slot))
  rwa [reaches] at least

/-- The slots up to the one that the elapsed ticks lead to have been reached. -/
theorem ticksTo_le_of_passed {size pos slot elapsed : Nat} (later : pos < slot)
    (passed : slot ≤ ahead size pos elapsed) :
    ticksTo size pos slot + (ahead size pos elapsed - slot) ≤ elapsed := by
  have most : ahead size pos elapsed ≤ pos + elapsed := Nat.mod_le _ _
  rw [ticksTo, if_pos later]
  omega

end Ring
