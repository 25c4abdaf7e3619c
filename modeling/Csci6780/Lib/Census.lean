import Mathlib.Algebra.BigOperators.Group.Finset.Basic
import Mathlib.Algebra.Order.BigOperators.Group.Finset
import Mathlib.Tactic.Common

/-!
# Counting Threads

Finitely many threads stand somewhere, and `census p pc` is the number of those that stand at a
place with `p`. When one thread goes on, the number changes by what the place it leaves and the
place it comes to count for.

## Main results

* `census_update`: a thread goes on; `census_stay`, `census_enter` and `census_leave` are its cases.
* `census_pos_iff`: somebody stands at such a place.
-/

namespace Csci6780

variable {τ β : Type} [Fintype τ]

/-- The number of threads that stand at a place with `p`. -/
def census (p : β → Bool) (pc : τ → β) : Nat := ∑ t, (p (pc t)).toNat

/-- Somebody stands at such a place. -/
theorem census_pos_iff {p : β → Bool} {pc : τ → β} :
    0 < census p pc ↔ ∃ t, p (pc t) = true := by
  rw [census, Finset.sum_pos_iff]
  simp only [Finset.mem_univ, true_and, Nat.pos_iff_ne_zero, ne_eq, Bool.toNat_eq_zero,
    Bool.not_eq_false]

/-- Nobody stands at such a place. -/
theorem census_eq_zero_iff {p : β → Bool} {pc : τ → β} :
    census p pc = 0 ↔ ∀ t, p (pc t) = false := by
  rw [← Nat.le_zero, ← Nat.not_lt, census_pos_iff, not_exists]
  simp only [Bool.not_eq_true]

variable [DecidableEq τ]

/-- **A thread goes on.** -/
theorem census_update (p : β → Bool) (pc : τ → β) (t : τ) (b : β) :
    census p (Function.update pc t b) + (p (pc t)).toNat = census p pc + (p b).toNat := by
  have hrest : ∑ u ∈ Finset.univ.erase t, (p (Function.update pc t b u)).toNat =
      ∑ u ∈ Finset.univ.erase t, (p (pc u)).toNat :=
    Finset.sum_congr rfl fun u hu => by rw [Function.update_of_ne (Finset.ne_of_mem_erase hu)]
  have hafter := Finset.add_sum_erase Finset.univ (fun u => (p (Function.update pc t b u)).toNat)
    (Finset.mem_univ t)
  have hbefore := Finset.add_sum_erase Finset.univ (fun u => (p (pc u)).toNat) (Finset.mem_univ t)
  rw [hrest, Function.update_self] at hafter
  rw [census, census, ← hafter, ← hbefore]
  omega

/-- A thread goes on to a place that counts as much. -/
theorem census_stay {p : β → Bool} {pc : τ → β} {t : τ} {b : β} (h : p b = p (pc t)) :
    census p (Function.update pc t b) = census p pc := by
  have hcount := census_update p pc t b
  rw [h] at hcount
  exact Nat.add_right_cancel hcount

/-- A thread comes to such a place. -/
theorem census_enter {p : β → Bool} {pc : τ → β} {t : τ} {b : β} (ht : p (pc t) = false)
    (hb : p b = true) : census p (Function.update pc t b) = census p pc + 1 := by
  have hcount := census_update p pc t b
  rw [ht, hb] at hcount
  exact hcount

/-- A thread leaves such a place. -/
theorem census_leave {p : β → Bool} {pc : τ → β} {t : τ} {b : β} (ht : p (pc t) = true)
    (hb : p b = false) : census p (Function.update pc t b) + 1 = census p pc := by
  have hcount := census_update p pc t b
  rw [ht, hb] at hcount
  exact hcount

end Csci6780
