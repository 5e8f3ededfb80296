import Mathlib.Algebra.Order.BigOperators.Group.Finset
import Mathlib.Algebra.BigOperators.Group.Finset.Piecewise
import Mathlib.Data.Fintype.BigOperators
import Mathlib.Tactic.Ring

/-!
# What threads owe

Each program point of a thread has a weight, such as what the thread still has to add to a counter.
The tally is the weight of all threads together.
-/

namespace Tally

variable {T P : Type*} [Fintype T]

def tally (weight : P → ℤ) (pc : T → P) : ℤ := ∑ t, weight (pc t)

theorem tally_eq_zero {weight : P → ℤ} {pc : T → P} (none : ∀ t, weight (pc t) = 0) :
    tally weight pc = 0 :=
  Finset.sum_eq_zero fun t _ => none t

theorem tally_mono {light heavy : P → ℤ} (lighter : ∀ p, light p ≤ heavy p) (pc : T → P) :
    tally light pc ≤ tally heavy pc :=
  Finset.sum_le_sum fun t _ => lighter (pc t)

theorem tally_le_card {weight : P → ℤ} (most : ∀ p, weight p ≤ 1) (pc : T → P) :
    tally weight pc ≤ Fintype.card T := by
  have all := Finset.sum_le_card_nsmul Finset.univ (fun t => weight (pc t)) 1 fun t _ => most _
  simpa [tally] using all

variable [DecidableEq T]

/-- One thread moves. -/
theorem tally_update (weight : P → ℤ) (pc : T → P) (t : T) (p : P) :
    tally weight (Function.update pc t p) = tally weight pc + weight p - weight (pc t) := by
  have before := Finset.add_sum_erase Finset.univ (fun u => weight (pc u)) (Finset.mem_univ t)
  have after := Finset.add_sum_erase Finset.univ (fun u => weight (Function.update pc t p u))
    (Finset.mem_univ t)
  have others : ∑ u ∈ Finset.univ.erase t, weight (Function.update pc t p u) =
      ∑ u ∈ Finset.univ.erase t, weight (pc u) :=
    Finset.sum_congr rfl fun u away => by rw [Function.update_of_ne (Finset.ne_of_mem_erase away)]
  rw [Function.update_self, others] at after
  unfold tally
  rw [← before, ← after]
  ring

/-- A thread that owes nothing leaves the weight to the others. -/
theorem tally_lt_card {weight : P → ℤ} (most : ∀ p, weight p ≤ 1) {pc : T → P} {t : T}
    (nothing : weight (pc t) = 0) : tally weight pc < Fintype.card T := by
  have others := Finset.sum_le_card_nsmul (Finset.univ.erase t) (fun u => weight (pc u)) 1
    fun u _ => most _
  have all := Finset.add_sum_erase Finset.univ (fun u => weight (pc u)) (Finset.mem_univ t)
  have card : (Finset.univ.erase t).card < Fintype.card T :=
    Finset.card_lt_card (Finset.erase_ssubset (Finset.mem_univ t))
  rw [nothing, zero_add] at all
  rw [all] at others
  unfold tally
  rw [nsmul_one] at others
  omega

end Tally
