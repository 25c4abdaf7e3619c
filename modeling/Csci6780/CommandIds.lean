import Csci6780.Lib.Loop
import Mathlib.Data.Finset.Card

/-!
# Command Ids

This module embeds `server_tasks::CommandIDs`, the set of the ids of active GET and PUT
commands that all agents of the server share. The set is a list; only membership matters.

An agent is not alone: between two of its own accesses other agents insert and delete ids.
`CommandOp` is one such access, and a list of them what happens to the set meanwhile.

## Main results

* `contains_insert`, `contains_delete`: the set operations, by membership.
* `CommandIDs.generateID_finds_free`: `GenerateID` finds the first free id after the counter, in no
  more rounds than there are active ids and one; it goes on for ever only when all are active.
-/

namespace Csci6780

/-- `CommandIDs`: the active ids and the counter for new ones. -/
structure CommandIDs where
  commandIds : List UInt16 := []
  id : UInt16 := 0
  deriving DecidableEq, Repr

namespace CommandIDs

/-- `CommandIDs::Insert`. -/
def insert (ids : CommandIDs) (id : UInt16) : CommandIDs :=
  { ids with commandIds := ids.commandIds.insert id }

/-- `CommandIDs::Delete`. -/
def delete (ids : CommandIDs) (id : UInt16) : CommandIDs :=
  { ids with commandIds := ids.commandIds.filter fun x => x ≠ id }

/-- `CommandIDs::Contains`. -/
def contains (ids : CommandIDs) (id : UInt16) : Bool := ids.commandIds.contains id

/-- One round of the loop of `GenerateID`. -/
def generateStep (ids : CommandIDs) : Option (CommandIDs ⊕ CommandIDs) :=
  let next := { ids with id := ids.id + 1 }
  if next.contains next.id then some (.inl next) else some (.inr next)

/-- `CommandIDs::GenerateID`: the id and the counter's new state. -/
def generateID (fuel : ℕ) (ids : CommandIDs) : Option (UInt16 × CommandIDs) :=
  (whileLoop generateStep fuel ids).map fun ids => (ids.id, ids)

@[simp] theorem contains_insert (ids : CommandIDs) (id other : UInt16) :
    (ids.insert id).contains other = true ↔ other = id ∨ ids.contains other = true := by
  simp [contains, insert]

@[simp] theorem contains_delete (ids : CommandIDs) (id other : UInt16) :
    (ids.delete id).contains other = true ↔ ids.contains other = true ∧ other ≠ id := by
  simp [contains, delete]

/-! ### What `GenerateID` finds -/

/-- The id that round `n` of `GenerateID` looks at, the rounds counted from 0. -/
def candidate (ids : CommandIDs) (n : ℕ) : UInt16 := ids.id + 1 + UInt16.ofNat n

/-- The state after `n` rounds that have found their ids active. -/
def afterRounds (ids : CommandIDs) (n : ℕ) : CommandIDs :=
  { ids with id := ids.id + UInt16.ofNat n }

theorem afterRounds_zero (ids : CommandIDs) : ids.afterRounds 0 = ids := by
  rw [afterRounds]
  exact congrArg (fun id => { ids with id := id }) (UInt16.add_zero ids.id)

theorem afterRounds_succ (ids : CommandIDs) (n : ℕ) :
    ids.afterRounds (n + 1) = { ids with id := ids.candidate n } := by
  have hid : ids.id + UInt16.ofNat (n + 1) = ids.candidate n := by
    rw [candidate, UInt16.ofNat_add, UInt16.ofNat_one]
    ac_rfl
  rw [afterRounds, hid]

/-- `GenerateID` tries one candidate a round. -/
theorem searches_generateStep (ids : CommandIDs) :
    Searches generateStep ids.afterRounds (fun n => ids.afterRounds (n + 1))
      (fun n => ids.contains (ids.candidate n) = false) := by
  have hround : ∀ n, generateStep (ids.afterRounds n) =
      if ids.contains (ids.candidate n) = true then some (.inl (ids.afterRounds (n + 1)))
      else some (.inr (ids.afterRounds (n + 1))) := by
    intro n
    rw [afterRounds_succ, generateStep, afterRounds]
    have hid : ids.id + UInt16.ofNat n + 1 = ids.candidate n := by
      rw [candidate]
      ac_rfl
    simp only [hid]
    rfl
  constructor
  · intro n hactive
    rw [hround n, if_pos (Bool.not_eq_false _ ▸ hactive)]
  · intro n hfree
    rw [hround n, hfree]
    rfl

/-- Every id is a candidate of some round. -/
theorem exists_candidate_eq (ids : CommandIDs) (id : UInt16) :
    ∃ n < 2 ^ 16, ids.candidate n = id := by
  refine ⟨(id - (ids.id + 1)).toNat, UInt16.toNat_lt _, ?_⟩
  rw [candidate, UInt16.ofNat_toNat, UInt16.add_comm, UInt16.sub_add_cancel]

/-- No id is looked at twice before the counter has come round. -/
theorem candidate_injOn (ids : CommandIDs) : Set.InjOn ids.candidate (Set.Iio (2 ^ 16)) := by
  intro m hm n hn heq
  have hofNat : UInt16.ofNat m = UInt16.ofNat n := (UInt16.add_right_inj _).mp heq
  have hnat := congrArg UInt16.toNat hofNat
  rwa [UInt16.toNat_ofNat_of_lt' hm, UInt16.toNat_ofNat_of_lt' hn] at hnat

/-- While the first candidates are all active, they are no more than the active ids. -/
theorem rounds_le_card {ids : CommandIDs} {n : ℕ} (hn : n ≤ 2 ^ 16)
    (hactive : ∀ k < n, ids.contains (ids.candidate k) = true) :
    n ≤ ids.commandIds.toFinset.card := by
  have hinj : Set.InjOn ids.candidate (Finset.range n) := by
    refine ids.candidate_injOn.mono fun k hk => ?_
    exact (Finset.mem_range.mp hk).trans_le hn
  have hsub : (Finset.range n).image ids.candidate ⊆ ids.commandIds.toFinset := by
    intro id hid
    obtain ⟨k, hk, rfl⟩ := Finset.mem_image.mp hid
    exact List.mem_toFinset.mpr (List.contains_iff_mem.mp (hactive k (Finset.mem_range.mp hk)))
  calc n = (Finset.range n).card := (Finset.card_range n).symm
    _ = ((Finset.range n).image ids.candidate).card := (Finset.card_image_of_injOn hinj).symm
    _ ≤ ids.commandIds.toFinset.card := Finset.card_le_card hsub

theorem generateID_eq_map (ids : CommandIDs) (fuel : ℕ) :
    ids.generateID fuel =
      (whileLoop generateStep fuel (ids.afterRounds 0)).map fun ids => (ids.id, ids) := by
  rw [afterRounds_zero, generateID]

/-- `GenerateID` does not return when all ids are active, and only then. -/
theorem generateID_eq_none_iff (ids : CommandIDs) :
    (∀ fuel, ids.generateID fuel = none) ↔ ∀ id, ids.contains id = true := by
  simp only [generateID_eq_map, Option.map_eq_none_iff]
  rw [ids.searches_generateStep.not_returns_iff]
  constructor
  · intro hactive id
    obtain ⟨n, -, rfl⟩ := ids.exists_candidate_eq id
    exact Bool.eq_true_of_not_eq_false (hactive n)
  · intro hactive n hfree
    rw [hactive (ids.candidate n)] at hfree
    cases hfree

/-- **`GenerateID` finds a free id whenever there is one**: the first one after the counter, in at
most one round more than there are active ids. -/
theorem generateID_finds_free (ids : CommandIDs) :
    ((∃ id, ids.contains id = false) →
      ∃ n ≤ ids.commandIds.toFinset.card,
        IsFirst (fun k => ids.contains (ids.candidate k) = false) n ∧
        ids.generateID n = none ∧
        ids.generateID (n + 1) = some (ids.candidate n, { ids with id := ids.candidate n })) ∧
    ((∀ fuel, ids.generateID fuel = none) ↔ ∀ id, ids.contains id = true) := by
  refine ⟨?_, ids.generateID_eq_none_iff⟩
  rintro ⟨id, hfree⟩
  obtain ⟨m, hm, rfl⟩ := ids.exists_candidate_eq id
  obtain ⟨n, hnm, hfirst⟩ :=
    exists_isFirst (P := fun k => ids.contains (ids.candidate k) = false) hfree
  have hactive : ∀ k < n, ids.contains (ids.candidate k) = true :=
    fun k hk => Bool.eq_true_of_not_eq_false (hfirst.2 k hk)
  obtain ⟨hnot, hreturn⟩ := ids.searches_generateStep.returnsIn hfirst
  refine ⟨n, rounds_le_card (hnm.trans hm.le) hactive, hfirst, ?_, ?_⟩
  · rw [generateID_eq_map, hnot, Option.map_none]
  · rw [generateID_eq_map, hreturn, Option.map_some, afterRounds_succ]

/-- The counter comes round past two active ids. -/
theorem generateID_finds_free_past_wrap :
    ∃ n ≤ 2, (CommandIDs.mk [65535, 0] 65534).generateID (n + 1) = some (1, ⟨[65535, 0], 1⟩) := by
  obtain ⟨n, hn, hfirst, -, hreturn⟩ :=
    (generateID_finds_free ⟨[65535, 0], 65534⟩).1 ⟨1, by decide⟩
  have htwo : IsFirst (fun k => (CommandIDs.mk [65535, 0] 65534).contains
      ((CommandIDs.mk [65535, 0] 65534).candidate k) = false) 2 := by decide
  obtain rfl := hfirst.unique htwo
  exact ⟨2, le_refl 2, hreturn⟩

end CommandIDs

/-- What another agent may do to the shared ids. -/
inductive CommandOp
  | insert (id : UInt16)
  | delete (id : UInt16)
  deriving DecidableEq, Repr

/-- The ids after an access of another agent. -/
def CommandOp.apply (ids : CommandIDs) : CommandOp → CommandIDs
  | .insert id => ids.insert id
  | .delete id => ids.delete id

end Csci6780
