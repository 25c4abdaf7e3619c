import Mathlib.Algebra.Ring.Nat
import Mathlib.Data.List.Basic
import Mathlib.Tactic.Common

/-!
# Ripples

A message that is passed along a row of parties: each of them handles it, which may change the
party and the message, and hands it on to the next. `ripple handle` is the row after all of them
have handled the message, and the message that leaves the last one.

In the ripples that a program uses for look-ups, most parties only leave their mark on the message
and one of them answers it. `mark` is what a list of marks does to a message: `ripple_pass` is the
rule for a row in which nobody answers, and `ripple_answer` for one in which one party does.
-/

namespace Csci6780

variable {σ μ ι : Type}

/-- Pass a message along a row of parties. -/
def ripple (handle : σ → μ → σ × μ) : List σ → μ → List σ × μ
  | [], m => ([], m)
  | s :: row, m =>
      ((handle s m).1 :: (ripple handle row (handle s m).2).1,
        (ripple handle row (handle s m).2).2)

theorem ripple_append (handle : σ → μ → σ × μ) (row row' : List σ) (m : μ) :
    ripple handle (row ++ row') m =
      ((ripple handle row m).1 ++ (ripple handle row' (ripple handle row m).2).1,
        (ripple handle row' (ripple handle row m).2).2) := by
  induction row generalizing m with
  | nil => rfl
  | cons s row ih => rw [List.cons_append, ripple, ih, ripple, List.cons_append]

/-- What every party keeps of the message, the row keeps. -/
theorem ripple_keeps {β : Type} {handle : σ → μ → σ × μ} (f : μ → β)
    (h : ∀ s m, f (handle s m).2 = f m) (row : List σ) (m : μ) :
    f (ripple handle row m).2 = f m := by
  induction row generalizing m with
  | nil => rfl
  | cons s row ih =>
      rw [ripple, ih]
      exact h s m

/-- What every party keeps of itself, the row keeps. -/
theorem ripple_keeps_row {β : Type} {handle : σ → μ → σ × μ} (f : σ → β)
    (h : ∀ s m, f (handle s m).1 = f s) (row : List σ) (m : μ) :
    (ripple handle row m).1.map f = row.map f := by
  induction row generalizing m with
  | nil => rfl
  | cons s row ih => rw [ripple, List.map_cons, List.map_cons, h, ih]

/-- A message of one kind goes along a row whose parties handle several kinds. -/
theorem ripple_kind {ν : Type} {handle : σ → μ → σ × μ} (handle' : σ → ν → σ × ν) (kind : ν → μ)
    (h : ∀ s n, handle s (kind n) = ((handle' s n).1, kind (handle' s n).2)) (row : List σ)
    (n : ν) : ripple handle row (kind n) =
      ((ripple handle' row n).1, kind (ripple handle' row n).2) := by
  induction row generalizing n with
  | nil => rfl
  | cons s row ih => rw [ripple, h, ih, ripple]

section Marks

variable {handle : σ → μ → σ × μ} {tag : σ → ι} {mark : μ → List ι → μ}

/-- A row in which nobody answers leaves its marks on the message and nothing else. -/
theorem ripple_pass {row : List σ} {m : μ}
    (h : ∀ s ∈ row, ∀ ids, handle s (mark m ids) = (s, mark m (ids ++ [tag s]))) (ids : List ι) :
    ripple handle row (mark m ids) = (row, mark m (ids ++ row.map tag)) := by
  induction row generalizing ids with
  | nil => rw [ripple, List.map_nil, List.append_nil]
  | cons s row ih =>
      have hs := h s List.mem_cons_self ids
      have hrow := ih (fun t ht => h t (List.mem_cons_of_mem s ht)) (ids ++ [tag s])
      rw [ripple, hs, hrow, List.append_assoc, List.map_cons, List.singleton_append]

/-- In a row in which one party answers, only that party and its answer change. -/
theorem ripple_answer {pre post : List σ} {s s' : σ} {m m' : μ}
    (hpre : ∀ t ∈ pre, ∀ ids, handle t (mark m ids) = (t, mark m (ids ++ [tag t])))
    (hs : ∀ ids, handle s (mark m ids) = (s', mark m' (ids ++ [tag s])))
    (hpost : ∀ t ∈ post, ∀ ids, handle t (mark m' ids) = (t, mark m' (ids ++ [tag t])))
    (ids : List ι) :
    ripple handle (pre ++ s :: post) (mark m ids) =
      (pre ++ s' :: post, mark m' (ids ++ (pre ++ s :: post).map tag)) := by
  have htags : ids ++ pre.map tag ++ [tag s] ++ post.map tag =
      ids ++ (pre ++ s :: post).map tag := by
    rw [List.map_append, List.map_cons, List.append_assoc, List.append_assoc,
      List.singleton_append]
  rw [ripple_append, ripple_pass hpre, ripple, hs, ripple_pass hpost, htags]

end Marks

end Csci6780
