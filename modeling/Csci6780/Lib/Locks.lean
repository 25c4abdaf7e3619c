import Mathlib.Data.Finset.Erase
import Mathlib.Data.Finset.Insert
import Mathlib.Data.Option.Basic
import Mathlib.Logic.Function.Basic

/-!
# Locks by Key

Threads lock and unlock keys, and a set holds the keys that are locked. Who locked a key is not in
the set; it is in what has happened: the owner of a key is the thread that locked it last, if nobody
has unlocked it since.

A thread that holds at most one key at a time tells which one from where it stands. `Locks` says
that the set and what the threads tell are right about the owners. It is kept when a thread that
holds nothing locks a key that is not in the set, and when a thread unlocks the key it holds.

## Main results

* `Locks.lock`, `Locks.unlock`: the two operations keep `Locks`.
* `Locks.unique`: two threads do not hold one key.
-/

namespace Csci6780

/-- A thread locks or unlocks a key. -/
inductive LockEvent (τ κ : Type)
  | locks (thread : τ) (key : κ)
  | unlocks (thread : τ) (key : κ)
  deriving DecidableEq, Repr

variable {τ κ : Type} [DecidableEq κ]

/-- The owner of a key after one more event. -/
def LockEvent.owner (k : κ) (before : Option τ) : LockEvent τ κ → Option τ
  | .locks t j => if j = k then some t else before
  | .unlocks _ j => if j = k then none else before

/-- The thread that has locked the key last, if nobody has unlocked it since. -/
def owner (events : List (LockEvent τ κ)) (k : κ) : Option τ :=
  events.foldl (LockEvent.owner k) none

theorem owner_concat (events : List (LockEvent τ κ)) (event : LockEvent τ κ) (k : κ) :
    owner (events ++ [event]) k = event.owner k (owner events k) :=
  List.foldl_concat ..

/-- The locked keys are those that have an owner, and the owners hold them. -/
structure Locks (events : List (LockEvent τ κ)) (locked : Finset κ) (holds : τ → Option κ) :
    Prop where
  mem_iff : ∀ k, k ∈ locked ↔ (owner events k).isSome = true
  holds_iff : ∀ t k, holds t = some k ↔ owner events k = some t

namespace Locks

variable {events : List (LockEvent τ κ)} {locked : Finset κ} {holds : τ → Option κ} {t t' : τ}
  {k : κ}

theorem start : Locks ([] : List (LockEvent τ κ)) ∅ fun _ => none where
  mem_iff k := iff_of_false (Finset.notMem_empty k) (fun h => nomatch h)
  holds_iff _ _ := iff_of_false (fun h => nomatch h) (fun h => nomatch h)

/-- Who holds a key has locked it. -/
theorem mem (h : Locks events locked holds) (ht : holds t = some k) : k ∈ locked := by
  rw [h.mem_iff, (h.holds_iff t k).mp ht]
  rfl

/-- **Two threads do not hold one key.** -/
theorem unique (h : Locks events locked holds) (ht : holds t = some k) (ht' : holds t' = some k) :
    t = t' := by
  have howner := (h.holds_iff t k).mp ht
  rw [(h.holds_iff t' k).mp ht'] at howner
  exact (Option.some.inj howner).symm

/-- A locked key is held by somebody. -/
theorem exists_holder (h : Locks events locked holds) (hk : k ∈ locked) :
    ∃ t, holds t = some k := by
  obtain ⟨t, ht⟩ := Option.isSome_iff_exists.mp ((h.mem_iff k).mp hk)
  exact ⟨t, (h.holds_iff t k).mpr ht⟩

variable [DecidableEq τ]

/-- **A thread locks a key.** -/
theorem lock (h : Locks events locked holds) (ht : holds t = none) (hk : k ∉ locked) :
    Locks (events ++ [.locks t k]) (insert k locked) (Function.update holds t (some k)) := by
  have hfree : owner events k = none := by
    rw [← Option.not_isSome_iff_eq_none, ← h.mem_iff]
    exact hk
  refine ⟨fun j => ?_, fun u j => ?_⟩
  · rw [owner_concat, LockEvent.owner, Finset.mem_insert, h.mem_iff]
    by_cases hj : k = j
    · simp [hj]
    · simp [hj, Ne.symm hj]
  · rw [owner_concat, LockEvent.owner]
    by_cases hu : u = t
    · subst hu
      rw [Function.update_self, Option.some_inj]
      by_cases hj : k = j
      · simp [hj]
      · rw [if_neg hj, ← h.holds_iff, ht]
        simp [hj]
    · rw [Function.update_of_ne hu, h.holds_iff]
      by_cases hj : k = j
      · subst hj
        simp [hfree, Ne.symm hu]
      · rw [if_neg hj]

/-- **A thread unlocks its key.** -/
theorem unlock (h : Locks events locked holds) (ht : holds t = some k) :
    Locks (events ++ [.unlocks t k]) (locked.erase k) (Function.update holds t none) := by
  have howner := (h.holds_iff t k).mp ht
  refine ⟨fun j => ?_, fun u j => ?_⟩
  · rw [owner_concat, LockEvent.owner, Finset.mem_erase, h.mem_iff]
    by_cases hj : k = j
    · simp [hj]
    · simp [hj, Ne.symm hj]
  · rw [owner_concat, LockEvent.owner]
    by_cases hu : u = t
    · subst hu
      rw [Function.update_self]
      by_cases hj : k = j
      · simp [hj]
      · -- the thread holds one key only
        rw [if_neg hj, ← h.holds_iff, ht, Option.some_inj]
        simp [hj]
    · rw [Function.update_of_ne hu, h.holds_iff]
      by_cases hj : k = j
      · subst hj
        simp [howner, Ne.symm hu]
      · rw [if_neg hj]

/-- A thread goes on and holds what it held. -/
theorem update (h : Locks events locked holds) {held : Option κ} (ht : holds t = held) :
    Locks events locked (Function.update holds t held) := by
  rw [← ht, Function.update_eq_self]
  exact h

end Locks

end Csci6780
