import Csci6780.CommandIds
import Csci6780.Lib.Runs
import Mathlib.Data.Fintype.Basic
import Mathlib.Data.Nat.ModEq

/-!
# Commands at the Same Time

The agents of an FTP server share one `CommandIDs`. A GET or PUT request gets an id by
`GenerateID`, which increments the counter until `Contains` does not find its value, and then
reads the counter once more; `Insert` comes after that, and `Delete` at the end of the command,
unless a PUT could not write its file. A `TerminateRequest` deletes an id of the client's choice,
and the command that has it goes on for a while. Only the set is behind the mutex. Each access is
a step of its own, and the agents take their steps in any order.

The id that is returned is the value of the counter at the last read, and not the value that
`Contains` has looked for. Beside the state of the source, `Commands` counts the increments and
keeps where the count stood when an id was returned; nothing of the source reads either.

## Main results

* `command_ids_unique_iff`: in a run, the ids of the commands are unique exactly when every read
  that returns one meets `Fresh`.
* `command_ids_unique_of_undisturbed`: the check of `GenerateID` is enough when no other agent
  comes between it and the read, and when it finds every id that is in use.
-/

namespace Csci6780

/-- Where an agent stands in a GET or PUT request: in none; before `id_++`, before `Contains`,
before the read of `return id_`, before `Insert`, and before the end of the command. -/
inductive CommandPc
  | idle
  | incrementing
  | checking
  | returning
  | inserting (id : UInt16)
  | active (id : UInt16)
  deriving DecidableEq, Repr

/-- The id of the command, between `GenerateID` and its end. -/
def CommandPc.commandId : CommandPc → Option UInt16
  | .inserting id | .active id => some id
  | _ => none

/-- The ids that the agents share, and the agents. `granted` is the number of increments when the
agent was given its last id. -/
structure Commands (Agent : Type) where
  ids : CommandIDs := {}
  pc : Agent → CommandPc := fun _ => .idle
  increments : ℕ := 0
  granted : Agent → ℕ := fun _ => 0

namespace Commands

variable {Agent : Type} [DecidableEq Agent]

/-- What happens: an agent reads a GET or PUT request, takes its next step up to `Insert`, or ends
the command, with `Delete` or without; or an agent handles a `TerminateRequest`. -/
inductive Action (Agent : Type)
  | request (agent : Agent)
  | run (agent : Agent)
  | finish (agent : Agent) (deletes : Bool)
  | terminate (id : UInt16)
  deriving DecidableEq, Repr

/-- An agent goes on at `pc`. -/
def goTo (s : Commands Agent) (t : Agent) (pc : CommandPc) : Commands Agent :=
  { s with pc := Function.update s.pc t pc }

/-- The next step of an agent in `GenerateID`, or its `Insert`. -/
def run (s : Commands Agent) (t : Agent) : Option (Commands Agent) :=
  match s.pc t with
  | .incrementing =>
      some ({ s with
        ids := { s.ids with id := s.ids.id + 1 }
        increments := s.increments + 1 }.goTo t .checking)
  | .checking => some (s.goTo t (if s.ids.contains s.ids.id then .incrementing else .returning))
  | .returning =>
      some ({ s with granted := Function.update s.granted t s.increments }.goTo t
        (.inserting s.ids.id))
  | .inserting id => some ({ s with ids := s.ids.insert id }.goTo t (.active id))
  | _ => none

/-- One step. -/
def step (s : Commands Agent) : Action Agent → Option (Commands Agent)
  | .request t =>
      match s.pc t with
      | .idle => some (s.goTo t .incrementing)
      | _ => none
  | .run t => s.run t
  | .finish t deletes =>
      match s.pc t with
      | .active id =>
          some ({ s with ids := if deletes then s.ids.delete id else s.ids }.goTo t .idle)
      | _ => none
  | .terminate id => some { s with ids := s.ids.delete id }

/-- No two commands have the same id. -/
def Unique (s : Commands Agent) : Prop :=
  ∀ t u id, (s.pc t).commandId = some id → (s.pc u).commandId = some id → t = u

/-- What a read that returns an id has to meet: since every command that has not ended was given
its id, the counter has been incremented, and not by a multiple of `2 ^ 16`. -/
def Fresh (s : Commands Agent) : Action Agent → Prop
  | .run t => s.pc t = .returning →
      ∀ u, (s.pc u).commandId.isSome = true → ¬2 ^ 16 ∣ s.increments - s.granted u
  | _ => True

/-- Nobody comes between the check of an agent and its read, and the check finds every id in use:
no agent increments the counter or passes the check while another one stands before its read, and
when an agent passes the check, no command has the value of the counter. -/
def Undisturbed (s : Commands Agent) : Action Agent → Prop
  | .run t =>
      (s.pc t = .incrementing → ∀ u, s.pc u ≠ .returning) ∧
      (s.pc t = .checking → s.ids.contains s.ids.id = false →
        ∀ u, s.pc u ≠ .returning ∧ (s.pc u).commandId ≠ some s.ids.id)
  | _ => True

instance [Fintype Agent] (s : Commands Agent) (a : Action Agent) : Decidable (s.Fresh a) := by
  unfold Fresh
  split <;> infer_instance

instance [Fintype Agent] (s : Commands Agent) (a : Action Agent) :
    Decidable (s.Undisturbed a) := by
  unfold Undisturbed
  split <;> infer_instance

/-! ### One step -/

variable {s s' : Commands Agent} {a : Action Agent} {t u : Agent}

/-- The kinds of steps. -/
inductive Stepped (s : Commands Agent) : Action Agent → Commands Agent → Prop
  | request (t : Agent) (hpc : s.pc t = .idle) : Stepped s (.request t) (s.goTo t .incrementing)
  | increments (t : Agent) (hpc : s.pc t = .incrementing) :
      Stepped s (.run t) ({ s with
        ids := { s.ids with id := s.ids.id + 1 }
        increments := s.increments + 1 }.goTo t .checking)
  | finds (t : Agent) (hpc : s.pc t = .checking) (hfound : s.ids.contains s.ids.id = true) :
      Stepped s (.run t) (s.goTo t .incrementing)
  | passes (t : Agent) (hpc : s.pc t = .checking) (hfree : s.ids.contains s.ids.id = false) :
      Stepped s (.run t) (s.goTo t .returning)
  | returns (t : Agent) (hpc : s.pc t = .returning) :
      Stepped s (.run t)
        ({ s with granted := Function.update s.granted t s.increments }.goTo t
          (.inserting s.ids.id))
  | inserts (t : Agent) (id : UInt16) (hpc : s.pc t = .inserting id) :
      Stepped s (.run t) ({ s with ids := s.ids.insert id }.goTo t (.active id))
  | finishes (t : Agent) (deletes : Bool) (id : UInt16) (hpc : s.pc t = .active id) :
      Stepped s (.finish t deletes)
        ({ s with ids := if deletes then s.ids.delete id else s.ids }.goTo t .idle)
  | terminates (id : UInt16) : Stepped s (.terminate id) { s with ids := s.ids.delete id }

/-- **Every step is one of the kinds.** -/
theorem stepped_of_step (hstep : s.step a = some s') : Stepped s a s' := by
  cases a with
  | request t =>
      rw [step] at hstep
      split at hstep
      · next hpc => exact Option.some.inj hstep ▸ .request t hpc
      · cases hstep
  | run t =>
      rw [step, run] at hstep
      split at hstep
      · next hpc => exact Option.some.inj hstep ▸ .increments t hpc
      · next hpc =>
          obtain rfl := Option.some.inj hstep
          cases hfound : s.ids.contains s.ids.id with
          | true => exact .finds t hpc hfound
          | false => exact .passes t hpc hfound
      · next hpc => exact Option.some.inj hstep ▸ .returns t hpc
      · next id hpc => exact Option.some.inj hstep ▸ .inserts t id hpc
      · cases hstep
  | finish t deletes =>
      rw [step] at hstep
      split at hstep
      · next id hpc => exact Option.some.inj hstep ▸ .finishes t deletes id hpc
      · cases hstep
  | terminate id => exact Option.some.inj hstep ▸ .terminates id

/-! ### What is kept -/

/-- The id of a command, when an agent has gone on. -/
theorem commandId_goTo (s : Commands Agent) (t : Agent) (pc : CommandPc) (u : Agent) :
    ((s.goTo t pc).pc u).commandId = if u = t then pc.commandId else (s.pc u).commandId := by
  by_cases hu : u = t
  · subst hu
    simp only [goTo, Function.update_self, if_true]
  · simp only [goTo, Function.update_of_ne hu, if_neg hu]

/-- An agent goes on, and has no command that it did not have. -/
theorem kept_goTo {pc : CommandPc}
    (hpc : ∀ id, pc.commandId = some id → (s.pc t).commandId = some id) (u : Agent) (id : UInt16)
    (hu : ((s.goTo t pc).pc u).commandId = some id) : (s.pc u).commandId = some id := by
  rw [commandId_goTo] at hu
  split at hu
  · next heq => exact heq ▸ hpc id hu
  · exact hu

omit [DecidableEq Agent] in
/-- There is no new command. -/
theorem Unique.of_kept (h : s.Unique)
    (hkept : ∀ u id, (s'.pc u).commandId = some id → (s.pc u).commandId = some id) : s'.Unique :=
  fun t u id ht hu => h t u id (hkept t id ht) (hkept u id hu)

/-- **Only a read that returns an id brings a new command.** -/
theorem kept_of_stepped (hst : Stepped s a s') (hread : ∀ t, a = .run t → s.pc t ≠ .returning)
    (u : Agent) (id : UInt16) (hu : (s'.pc u).commandId = some id) :
    (s.pc u).commandId = some id := by
  cases hst with
  | request t hpc => exact kept_goTo (by simp [CommandPc.commandId]) u id hu
  | increments t hpc =>
      refine kept_goTo (s := { s with
        ids := { s.ids with id := s.ids.id + 1 }
        increments := s.increments + 1 }) (by simp [CommandPc.commandId]) u id hu
  | finds t hpc hfound => exact kept_goTo (by simp [CommandPc.commandId]) u id hu
  | passes t hpc hfree => exact kept_goTo (by simp [CommandPc.commandId]) u id hu
  | returns t hpc => exact absurd hpc (hread t rfl)
  | inserts t inserted hpc =>
      refine kept_goTo (s := { s with ids := s.ids.insert inserted }) ?_ u id hu
      rw [hpc]
      exact fun _ h => h
  | finishes t deletes finished hpc =>
      exact kept_goTo (s := { s with ids := if deletes then s.ids.delete finished else s.ids })
        (by simp [CommandPc.commandId]) u id hu
  | terminates terminated => exact hu

/-- A read returns an id that no command has. -/
theorem unique_returns_iff (hunique : s.Unique) (hpc : s.pc t = .returning) :
    ({ s with granted := Function.update s.granted t s.increments }.goTo t
      (.inserting s.ids.id)).Unique ↔ ∀ u, (s.pc u).commandId ≠ some s.ids.id := by
  constructor
  · intro hs u hu
    have hne : u ≠ t := by
      rintro rfl
      rw [hpc] at hu
      cases hu
    refine hne (hs u t s.ids.id ?_ ?_)
    · rw [commandId_goTo, if_neg hne]
      exact hu
    · rw [commandId_goTo, if_pos rfl]
      rfl
  · intro hfree u v id hu hv
    rw [commandId_goTo] at hu hv
    split at hu
    · next heq =>
        obtain rfl := Option.some.inj hu
        split at hv
        · next heq' => exact heq.trans heq'.symm
        · exact absurd hv (hfree v)
    · split at hv
      · obtain rfl := Option.some.inj hv
        exact absurd hu (hfree u)
      · exact hunique u v id hu hv

/-! ### What the counter says -/

/-- The counter has come to where the increments have brought it, and every id is what it was
when the id was returned. -/
structure Follows (s : Commands Agent) : Prop where
  counter : s.ids.id = UInt16.ofNat s.increments
  granted : ∀ u id, (s.pc u).commandId = some id →
    id = UInt16.ofNat (s.granted u) ∧ s.granted u ≤ s.increments

omit [DecidableEq Agent] in
theorem follows_start : ({} : Commands Agent).Follows :=
  ⟨rfl, fun u id h => by cases h⟩

omit [DecidableEq Agent] in
/-- There is no new command, and the counter stays. -/
theorem Follows.of_kept (h : s.Follows) (hid : s'.ids.id = s.ids.id)
    (hincrements : s'.increments = s.increments) (hgranted : s'.granted = s.granted)
    (hkept : ∀ u id, (s'.pc u).commandId = some id → (s.pc u).commandId = some id) :
    s'.Follows := by
  refine ⟨by rw [hid, hincrements, h.counter], fun u id hu => ?_⟩
  rw [hgranted, hincrements]
  exact h.granted u id (hkept u id hu)

theorem Follows.step (h : s.Follows) (hstep : s.step a = some s') : s'.Follows := by
  have hst := stepped_of_step hstep
  cases hst with
  | request t hpc =>
      exact h.of_kept rfl rfl rfl (kept_goTo (by simp [CommandPc.commandId]))
  | increments t hpc =>
      refine ⟨?_, fun u id hu => ?_⟩
      · show s.ids.id + 1 = UInt16.ofNat (s.increments + 1)
        rw [h.counter, UInt16.ofNat_add]
        rfl
      · have hold : (s.pc u).commandId = some id :=
          kept_of_stepped (.increments t hpc) (by rintro _ ⟨⟩; simp [hpc]) u id hu
        obtain ⟨hid, hle⟩ := h.granted u id hold
        exact ⟨hid, Nat.le_succ_of_le hle⟩
  | finds t hpc hfound =>
      exact h.of_kept rfl rfl rfl (kept_goTo (by simp [CommandPc.commandId]))
  | passes t hpc hfree =>
      exact h.of_kept rfl rfl rfl (kept_goTo (by simp [CommandPc.commandId]))
  | returns t hpc =>
      refine ⟨h.counter, fun u id hu => ?_⟩
      rw [commandId_goTo] at hu
      by_cases heq : u = t
      · subst heq
        rw [if_pos rfl] at hu
        obtain rfl := Option.some.inj hu
        simp only [goTo, Function.update_self]
        exact ⟨h.counter, Nat.le_refl _⟩
      · rw [if_neg heq] at hu
        simp only [goTo, Function.update_of_ne heq]
        exact h.granted u id hu
  | inserts t id hpc =>
      refine h.of_kept rfl rfl rfl (kept_of_stepped (.inserts t id hpc) ?_)
      rintro _ ⟨⟩
      simp [hpc]
  | finishes t deletes id hpc =>
      refine h.of_kept ?_ rfl rfl (kept_of_stepped (.finishes t deletes id hpc) (by simp))
      cases deletes <;> rfl
  | terminates id => exact h.of_kept rfl rfl rfl fun _ _ hu => hu

/-- The counter comes back to an old value with every multiple of `2 ^ 16` increments. -/
theorem counter_eq_iff {m n : ℕ} (h : m ≤ n) :
    UInt16.ofNat m = UInt16.ofNat n ↔ 2 ^ 16 ∣ n - m := by
  rw [← UInt16.toNat_inj, UInt16.toNat_ofNat', UInt16.toNat_ofNat', ← Nat.modEq_iff_dvd' h]
  rfl

/-- **Exactly the reads that meet the condition keep the ids unique.** -/
theorem Follows.unique_iff (h : s.Follows) (hunique : s.Unique) (hstep : s.step a = some s') :
    s'.Unique ↔ s.Fresh a := by
  have hst := stepped_of_step hstep
  by_cases hread : ∀ t, a = .run t → s.pc t ≠ .returning
  · refine iff_of_true (hunique.of_kept (kept_of_stepped hst hread)) ?_
    cases a with
    | run t => exact fun hpc => absurd hpc (hread t rfl)
    | _ => trivial
  · obtain ⟨t, rfl, hpc⟩ : ∃ t, a = .run t ∧ s.pc t = .returning := by
      simpa only [not_forall, not_not, exists_prop] using hread
    have hs' : s' = { s with granted := Function.update s.granted t s.increments }.goTo t
        (.inserting s.ids.id) := by
      rw [Commands.step, run, hpc] at hstep
      exact (Option.some.inj hstep).symm
    rw [hs', unique_returns_iff hunique hpc]
    constructor
    · intro hfree hreturning u hu hdvd
      obtain ⟨id, hid⟩ := Option.isSome_iff_exists.mp hu
      obtain ⟨hgranted, hle⟩ := h.granted u id hid
      refine hfree u ?_
      rw [hid, hgranted, h.counter, (counter_eq_iff hle).mpr hdvd]
    · intro hfresh u hu
      obtain ⟨hgranted, hle⟩ := h.granted u _ hu
      refine hfresh hpc u (by rw [hu]; rfl) ?_
      rw [← counter_eq_iff hle, ← hgranted, h.counter]

/-! ### What the check is good for -/

/-- At most one agent stands between its check and its read, and then no command has the value of
the counter. -/
structure Guarded (s : Commands Agent) : Prop where
  unique : s.Unique
  alone : ∀ t u, s.pc t = .returning → s.pc u = .returning → t = u
  free : ∀ t, s.pc t = .returning → ∀ u, (s.pc u).commandId ≠ some s.ids.id

omit [DecidableEq Agent] in
theorem guarded_start : ({} : Commands Agent).Guarded :=
  ⟨fun t u id h => (by cases h), fun t u h => (by cases h), fun t h => (by cases h)⟩

/-- An agent that does not come to its read goes on, and the counter stays. -/
theorem returning_goTo {pc : CommandPc} (hpc : pc ≠ .returning) (u : Agent)
    (hu : (s.goTo t pc).pc u = .returning) : s.pc u = .returning := by
  by_cases heq : u = t
  · subst heq
    simp only [goTo, Function.update_self] at hu
    exact absurd hu hpc
  · simp only [goTo, Function.update_of_ne heq] at hu
    exact hu

omit [DecidableEq Agent] in
/-- Nobody comes to its read, there is no new command, and the counter stays. -/
theorem Guarded.of_kept (h : s.Guarded) (hid : s'.ids.id = s.ids.id)
    (hreturning : ∀ u, s'.pc u = .returning → s.pc u = .returning)
    (hkept : ∀ u id, (s'.pc u).commandId = some id → (s.pc u).commandId = some id) :
    s'.Guarded := by
  refine ⟨h.unique.of_kept hkept, fun t u ht hu => ?_, fun t ht u hu => ?_⟩
  · exact h.alone t u (hreturning t ht) (hreturning u hu)
  · exact h.free t (hreturning t ht) u (hkept u _ (hid ▸ hu))

/-- **A step that nobody disturbs.** -/
theorem Guarded.step (h : s.Guarded) (ha : s.Undisturbed a) (hstep : s.step a = some s') :
    s'.Guarded := by
  have hst := stepped_of_step hstep
  cases hst with
  | request t hpc =>
      exact h.of_kept rfl (returning_goTo (by simp)) (kept_goTo (by simp [CommandPc.commandId]))
  | increments t hpc =>
      have hnobody : ∀ u, s.pc u ≠ .returning := ha.1 hpc
      have hnone : ∀ u, ({ s with
          ids := { s.ids with id := s.ids.id + 1 }
          increments := s.increments + 1 }.goTo t .checking).pc u ≠ .returning :=
        fun u hu => hnobody u (returning_goTo (s := { s with
          ids := { s.ids with id := s.ids.id + 1 }
          increments := s.increments + 1 }) (by simp) u hu)
      refine ⟨?_, fun t u ht => absurd ht (hnone t), fun t ht => absurd ht (hnone t)⟩
      exact h.unique.of_kept
        (kept_of_stepped (.increments t hpc) (by rintro _ ⟨⟩; simp [hpc]))
  | finds t hpc hfound =>
      exact h.of_kept rfl (returning_goTo (by simp)) (kept_goTo (by simp [CommandPc.commandId]))
  | passes t hpc hfree =>
      -- the agent is the only one, and the value of the counter is free
      have hothers := ha.2 hpc hfree
      have hkept : ∀ u id, ((s.goTo t .returning).pc u).commandId = some id →
          (s.pc u).commandId = some id := kept_goTo (by simp [CommandPc.commandId])
      have halone : ∀ u, (s.goTo t .returning).pc u = .returning → u = t := by
        intro u hu
        by_contra hne
        simp only [goTo, Function.update_of_ne hne] at hu
        exact (hothers u).1 hu
      refine ⟨h.unique.of_kept hkept, fun u v hu hv => ?_, fun _ _ u hu => ?_⟩
      · exact (halone u hu).trans (halone v hv).symm
      · exact (hothers u).2 (hkept u _ hu)
  | returns t hpc =>
      have hnone : ∀ u, ({ s with granted := Function.update s.granted t s.increments }.goTo t
          (.inserting s.ids.id)).pc u ≠ .returning := by
        intro u hu
        have hold : s.pc u = .returning := returning_goTo
          (s := { s with granted := Function.update s.granted t s.increments }) (by simp) u hu
        obtain rfl := h.alone u t hold hpc
        simp only [goTo, Function.update_self] at hu
        cases hu
      exact ⟨(unique_returns_iff h.unique hpc).mpr (h.free t hpc),
        fun u v hu => absurd hu (hnone u),
        fun u hu => absurd hu (hnone u)⟩
  | inserts t id hpc =>
      refine h.of_kept rfl (returning_goTo (s := { s with ids := s.ids.insert id }) (by simp))
        (kept_of_stepped (.inserts t id hpc) ?_)
      rintro _ ⟨⟩
      simp [hpc]
  | finishes t deletes id hpc =>
      refine h.of_kept ?_ (returning_goTo (s := { s with
        ids := if deletes then s.ids.delete id else s.ids }) (by simp))
        (kept_of_stepped (.finishes t deletes id hpc) (by simp))
      cases deletes <;> rfl
  | terminates id => exact h.of_kept rfl (fun _ hu => hu) fun _ _ hu => hu

end Commands

open Commands

/-- **Commands at the same time.** In any order of the steps of any number of agents, the ids of
the commands are unique exactly when every read that returns one meets the condition. -/
theorem command_ids_unique_iff {Agent : Type} [DecidableEq Agent] (acts : List (Action Agent))
    {s : Commands Agent} (hrun : runFrom step {} acts = some s) :
    EachState step Unique ({} : Commands Agent) acts ↔
      EachStep step Fresh ({} : Commands Agent) acts := by
  refine eachState_iff_eachStep Follows (fun m a m' h _ hstep => h.step hstep) ?_ follows_start
    (fun t u id h => by cases h) (fun _ _ _ _ _ => trivial : EachStep _ (fun _ _ => True) _ _)
    hrun
  exact fun m a m' h hunique _ hstep => h.unique_iff hunique hstep

/-- **The check of `GenerateID` is enough** when nobody comes between it and the read, and when it
finds every id that is in use. -/
theorem command_ids_unique_of_undisturbed {Agent : Type} [DecidableEq Agent]
    (acts : List (Action Agent)) (hacts : EachStep step Undisturbed ({} : Commands Agent) acts) :
    EachState step Unique ({} : Commands Agent) acts :=
  (EachState.of_inv Guarded (fun _ _ _ h ha hstep => h.step ha hstep) guarded_start hacts).mono
    fun _ h => h.unique

/-- One command after the other is given an id, and both are active. -/
def twoCommands : List (Action Bool) :=
  [.request false, .run false, .run false, .run false, .run false, .request true, .run true,
    .run true, .run true, .run true]

theorem command_ids_unique_iff_two :
    ∃ s, runFrom step {} twoCommands = some s ∧ EachState step Unique {} twoCommands :=
  ⟨_, rfl, (command_ids_unique_iff twoCommands rfl).mpr (by decide)⟩

/-- Two agents increment the counter, both find its value free, and both return it. -/
def sameId : List (Action Bool) :=
  [.request false, .request true, .run false, .run true, .run false, .run true, .run false,
    .run true]

theorem command_id_given_twice :
    ∃ s, runFrom step {} sameId = some s ∧ (s.pc false).commandId = some 2 ∧
      (s.pc true).commandId = some 2 ∧ ¬s.Unique := by
  refine ⟨_, rfl, rfl, rfl, fun h => ?_⟩
  exact absurd (h false true 2 rfl rfl) (by decide)

end Csci6780
