import Csci6780.Coordinator

/-!
# Where `GenerateID` of the Coordinator Stops

`Coordinator::GenerateID` increments its counter and looks for the new value among the participants
that `GetAllConnected` returns, until there is none of that id. The answers differ from round to
round when participants connect and disconnect meanwhile. `duplicate` is declared before the loop
and written only inside the loop over the participants, so that an empty answer leaves what the
round before has found.

## Main results

* `generateID_returnsIn_iff`: in which round the loop returns, and what.
* `generateID_first_free_iff`: it returns at the first free id exactly if that is found in the very
  first round or among at least one participant.
-/

namespace Csci6780.PubSub

/-- What the inner loop leaves in `duplicate`. It does not write to it when nobody is connected. -/
theorem checkDuplicates_eq_false_iff {id : UInt32} {ps : List Participant} {duplicate : Bool} :
    checkDuplicates id ps duplicate = false ↔
      (∀ p ∈ ps, p.id ≠ id) ∧ (duplicate = false ∨ ps ≠ []) := by
  induction ps generalizing duplicate with
  | nil => simp [checkDuplicates]
  | cons p ps ih =>
      rw [checkDuplicates, List.forall_mem_cons]
      by_cases hid : p.id = id
      · rw [if_pos hid]
        exact iff_of_false Bool.true_eq_false.mp fun h => h.1.1 hid
      · rw [if_neg hid, ih]
        simp [hid]

/-- The value of the counter in round `n` of `GenerateID`, the rounds counted from 0. -/
def counter (id : UInt32) (n : ℕ) : UInt32 := id + 1 + UInt32.ofNat n

/-- Nobody has the counter's value in the answer of round `n`. -/
def Free (snapshots : ℕ → List Participant) (id : UInt32) (n : ℕ) : Prop :=
  ∀ p ∈ snapshots n, p.id ≠ counter id n

instance (snapshots : ℕ → List Participant) (id : UInt32) : DecidablePred (Free snapshots id) :=
  fun n => inferInstanceAs (Decidable (∀ p ∈ snapshots n, p.id ≠ counter id n))

/-- The id is free, and the loop over the participants has written so. -/
def Stops (snapshots : ℕ → List Participant) (id : UInt32) (n : ℕ) : Prop :=
  Free snapshots id n ∧ (n = 0 ∨ snapshots n ≠ [])

variable (snapshots : ℕ → List Participant) (id : UInt32)

/-- After `n` rounds that have not stopped, `duplicate` is set, unless there were none. -/
theorem searches_generateStep :
    Searches (generateStep snapshots) (fun n => (n, id + UInt32.ofNat n, decide (n ≠ 0)))
      (counter id) (Stops snapshots id) := by
  have hcounter : ∀ n, id + UInt32.ofNat n + 1 = counter id n := by
    intro n
    rw [counter]
    ac_rfl
  have hnext : ∀ n, id + UInt32.ofNat (n + 1) = counter id n := by
    intro n
    rw [UInt32.ofNat_add, UInt32.ofNat_one, ← UInt32.add_assoc, hcounter n]
  have hstops : ∀ n, checkDuplicates (counter id n) (snapshots n) (decide (n ≠ 0)) = false ↔
      Stops snapshots id n := by
    intro n
    rw [checkDuplicates_eq_false_iff, decide_eq_false_iff_not, not_not]
    rfl
  constructor
  · intro n hnot
    have hduplicate : checkDuplicates (counter id n) (snapshots n) (decide (n ≠ 0)) = true :=
      eq_true_of_ne_false fun h => hnot ((hstops n).mp h)
    rw [generateStep, hcounter n, hnext n]
    simp only [hduplicate]
    rfl
  · intro n hstop
    rw [generateStep, hcounter n]
    simp only [(hstops n).mpr hstop]
    rfl

theorem searches_zero : ((0 : ℕ), id + UInt32.ofNat 0, decide ((0 : ℕ) ≠ 0)) = (0, id, false) := by
  have hid : id + UInt32.ofNat 0 = id := UInt32.add_zero id
  rw [hid]
  rfl

/-- **Where `GenerateID` returns.** -/
theorem generateID_returnsIn_iff {n : ℕ} {new : UInt32} :
    ReturnsIn (generateStep snapshots) n (0, id, false) new ↔
      IsFirst (Stops snapshots id) n ∧ new = counter id n := by
  rw [← searches_zero id]
  exact (searches_generateStep snapshots id).returnsIn_iff

/-- `GenerateID` goes on for ever if it stops in no round, and only then. -/
theorem generateID_not_returns_iff :
    (∀ fuel, whileLoop (generateStep snapshots) fuel (0, id, false) = none) ↔
      ∀ n, ¬Stops snapshots id n := by
  rw [← searches_zero id]
  exact (searches_generateStep snapshots id).not_returns_iff

/-- The rounds that `generateID` has are enough for a stop among the first `2 ^ 32`. -/
theorem generateID_eq_some_iff {new : UInt32} :
    generateID snapshots id = some new ↔
      ∃ n < 2 ^ 32, IsFirst (Stops snapshots id) n ∧ new = counter id n := by
  rw [generateID, whileLoop_eq_some_iff]
  simp only [generateID_returnsIn_iff]

/-- Up to the first free id there is always somebody who has the counter's value. -/
theorem isFirst_stops_iff {n : ℕ} (hn : IsFirst (Free snapshots id) n) :
    IsFirst (Stops snapshots id) n ↔ n = 0 ∨ snapshots n ≠ [] := by
  constructor
  · exact fun h => h.1.2
  · intro h
    exact ⟨⟨hn.1, h⟩, fun k hk hstops => hn.2 k hk hstops.1⟩

/-- **When `GenerateID` stops at the first free id.** -/
theorem generateID_first_free_iff :
    (∀ n, IsFirst (Free snapshots id) n →
      ReturnsIn (generateStep snapshots) n (0, id, false) (counter id n)) ↔
    ∀ n, IsFirst (Free snapshots id) n → n = 0 ∨ snapshots n ≠ [] := by
  refine forall_congr' fun n => forall_congr' fun hn => ?_
  rw [generateID_returnsIn_iff, isFirst_stops_iff snapshots id hn]
  exact and_iff_left rfl

/-- While nobody comes or goes, `GenerateID` does stop at the first free id. -/
theorem generateID_first_free_of_unchanging {ps : List Participant} {n : ℕ}
    (h : IsFirst (Free (fun _ => ps) id) n) :
    ReturnsIn (generateStep fun _ => ps) n (0, id, false) (counter id n) := by
  rw [generateID_returnsIn_iff, isFirst_stops_iff _ id h]
  refine ⟨?_, rfl⟩
  cases n with
  | zero => exact .inl rfl
  | succ n =>
      -- An earlier id was somebody's.
      refine .inr fun hnobody => h.2 0 (Nat.succ_pos n) fun p hp => ?_
      rw [hnobody] at hp
      exact absurd hp List.not_mem_nil

/-- Participant 1 is connected in the first round, and nobody later on. -/
def departed (n : ℕ) : List Participant :=
  if n = 0 then [{ Participant.zero with id := 1, connected := true }] else []

/-- Everybody has left: id 2 is free in the second round, and `GenerateID` never returns. -/
theorem generateID_passes_free_id :
    IsFirst (Free departed 0) 1 ∧ counter 0 1 = 2 ∧
      ¬ReturnsIn (generateStep departed) 1 (0, 0, false) 2 ∧
      ∀ fuel, whileLoop (generateStep departed) fuel (0, 0, false) = none := by
  have hnever : ∀ fuel, whileLoop (generateStep departed) fuel (0, 0, false) = none := by
    rw [generateID_not_returns_iff]
    intro n hstops
    cases n with
    | zero => exact absurd hstops.1 (by decide)
    | succ n => exact hstops.2.elim (Nat.succ_ne_zero n) fun h => h rfl
  refine ⟨by decide, by decide, fun h => ?_, hnever⟩
  have hreturn := h.2
  rw [hnever] at hreturn
  cases hreturn

end Csci6780.PubSub
