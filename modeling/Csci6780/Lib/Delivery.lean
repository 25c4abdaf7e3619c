import Mathlib.Algebra.Ring.Nat
import Mathlib.Data.List.Nodup
import Mathlib.Data.List.Perm.Subperm
import Mathlib.Tactic.Common

/-!
# Delivery in One Order

Items are put in an order as they come in, and every receiver is sent them one by one. A receiver
is served in order when what it has got so far is a prefix of the order. The order itself only
grows at its end.

## Main results

* `concat_prefix_iff`: sending an item keeps a receiver in order exactly when it has got
  everything before the item.
-/

namespace Csci6780

open scoped List

variable {β : Type} [DecidableEq β] {order log : List β} {x y : β}

/-- An item stands before another one in the order. -/
def Before (order : List β) (y x : β) : Prop := order.idxOf y < order.idxOf x

instance (order : List β) (y x : β) : Decidable (Before order y x) := Nat.decLt _ _

/-- What comes later does not change who stands before an item. -/
theorem before_append {more : List β} (hx : x ∈ order) :
    Before (order ++ more) y x ↔ Before order y x := by
  have hlen := List.idxOf_lt_length_iff.mpr hx
  rw [Before, Before, List.idxOf_append, List.idxOf_append, if_pos hx]
  split
  · rfl
  · next hy =>
      rw [List.idxOf_eq_length_iff.mpr hy]
      omega

/-- Who stands before an item is in the order. -/
theorem Before.mem (h : Before order y x) : y ∈ order :=
  List.idxOf_lt_length_iff.mp (Nat.lt_of_lt_of_le h List.idxOf_le_length)

/-- **Sending an item keeps a receiver in order** exactly when it has got everything before the
item. -/
theorem concat_prefix_iff (hnodup : order.Nodup) (hlog : log <+: order) (hx : x ∈ order)
    (hnew : x ∉ log) : log ++ [x] <+: order ↔ ∀ y, Before order y x → y ∈ log := by
  obtain ⟨rest, rfl⟩ := hlog
  have hrest : x ∈ rest := (List.mem_append.mp hx).resolve_left hnew
  cases rest with
  | nil => exact absurd hrest List.not_mem_nil
  | cons z rest =>
      rw [List.prefix_append_right_inj]
      constructor
      · intro h y hy
        obtain ⟨rfl, -⟩ := List.cons_prefix_cons.mp h
        rw [Before, List.idxOf_append, List.idxOf_append, if_neg hnew, List.idxOf_cons_self] at hy
        by_contra hnot
        rw [if_neg hnot] at hy
        omega
      · intro h
        by_cases heq : x = z
        · rw [heq]
          exact List.cons_prefix_cons.mpr ⟨rfl, List.nil_prefix⟩
        · -- the next item of the order would be in the log, and later again
          have hdisjoint := (List.nodup_append.mp hnodup).2.2
          have hz : z ∉ log := fun hmem => hdisjoint z hmem z List.mem_cons_self rfl
          refine absurd (h z ?_) hz
          rw [Before, List.idxOf_append, List.idxOf_append, if_neg hz, if_neg hnew,
            List.idxOf_cons_self, List.idxOf_cons_ne _ (Ne.symm heq)]
          omega

omit [DecidableEq β] in
/-- A receiver that is served in order and has got everything has got the order. -/
theorem eq_of_prefix_of_subset (hlog : log <+: order) (hnodup : order.Nodup)
    (hall : order ⊆ log) : log = order :=
  hlog.eq_of_length_le (hnodup.subperm hall).length_le

end Csci6780
