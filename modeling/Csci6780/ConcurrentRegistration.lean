import Csci6780.CoordinatorInvariants
import Mathlib.Data.Nat.ModEq

/-!
# Registrations at the Same Time

Every `Register` request has a handler of its own, and the handlers share the static counter
`id_` and the participant manager. This module takes the handlers apart into what they do in one
step: an increment of the counter, a copy of the connected participants, a comparison that reads
the counter again, the read that returns the id, and the registration, which comes after a round
trip over the network. The handlers take their steps in any order.

An id that is returned is the value of the counter at the last read, and not the value that was
compared. Two handlers that have both incremented the counter return the same id.

Beside the state of the source, `Registrations` counts the increments and keeps what has been
granted; nothing of the source reads either. Messengers are left out: no handler of `Register`
reads them.

## Main results

* `Registrations.Follows.step`: what the counter, the grants and the checks have to do with each
  other, in every reachable state.
* `registration_ids_unique_iff`: in a run, the ids are unique exactly when every read that returns
  one meets `Checked`.
-/

namespace Csci6780.PubSub

/-- Where a handler of `Register` stands: before `id_++`, before `GetAllConnected`, before the
comparison with `p`, before the read of `return id_`, before `RegisterParticipant`, at its end. -/
inductive RegisterPc
  | incrementing (duplicate : Bool)
  | copying (duplicate : Bool)
  | comparing (p : Participant) (ps : List Participant)
  | returning
  | registering (id : UInt32)
  | done (id : UInt32)
  deriving DecidableEq

/-- A handler of `Register`. `incremented` is the number of increments by all handlers when this
one made its last. -/
structure RegisterHandler where
  pc : RegisterPc := .incrementing false
  incremented : ℕ := 0
  deriving DecidableEq

/-- An id that a handler was given: after how many increments, and whether a participant was
registered under it at that moment. -/
structure Grant where
  id : UInt32
  increments : ℕ
  taken : Bool
  deriving DecidableEq

/-- What the handlers of the `Register` requests share, and the handlers. -/
structure Registrations (ι : Type) where
  id : UInt32
  participants : ParticipantManager
  handlers : ι → RegisterHandler := fun _ => {}
  increments : ℕ := 0
  grants : List Grant := []

/-- The step of a handler, and what it meets: the order of a hash set, and the socket of the
connection to the participant, if there is one. -/
structure RegisterStep (ι : Type) where
  handler : ι
  order : IterationOrder Participant := .ofInsertion Participant
  socket : Option ℤ := none

/-- The loop of `GenerateID` with the participants `ps` to go. -/
def RegisterPc.compare : List Participant → Bool → RegisterPc
  | [], true => .incrementing true
  | [], false => .returning
  | p :: ps, _ => .comparing p ps

namespace Registrations

variable {ι : Type} [DecidableEq ι]

/-- Before any handler has taken a step. -/
def start (id : UInt32) (pm : ParticipantManager) : Registrations ι := { id, participants := pm }

/-- A participant with the id is registered. -/
def registered (s : Registrations ι) (id : UInt32) : Bool :=
  (s.participants.getParticipant id).isSome

/-- What a handler is given by a read of the counter. -/
def grant (s : Registrations ι) : Grant := ⟨s.id, s.increments, s.registered s.id⟩

/-- The handler goes on at `pc`. -/
def goTo (s : Registrations ι) (i : ι) (pc : RegisterPc) : Registrations ι :=
  { s with handlers := Function.update s.handlers i { s.handlers i with pc } }

/-- One step of a handler of `HandleRequest(Register)`. Its request came in as `x i` and names
the port `port i`. -/
def step (x : ι → Exchange) (port : ι → UInt32) (s : Registrations ι) (a : RegisterStep ι) :
    Option (Registrations ι) :=
  let i := a.handler
  match (s.handlers i).pc with
  | .incrementing duplicate =>
      some { s with
        id := s.id + 1
        increments := s.increments + 1
        handlers := Function.update s.handlers i
          { pc := .copying duplicate, incremented := s.increments + 1 } }
  | .copying duplicate =>
      some (s.goTo i (.compare (a.order.enumerate s.participants.getAllConnected) duplicate))
  | .comparing p ps =>
      some (s.goTo i (if p.id = s.id then .incrementing true else .compare ps false))
  | .returning =>
      some ({ s with grants := s.grants ++ [s.grant] }.goTo i
        (.registering s.id))
  | .registering id =>
      match a.socket with
      | some sockFd =>
          let p := { Coordinator.registrant (x i) (port i) id with sockFd }
          some ({ s with participants := s.participants.registerParticipant p }.goTo i (.done id))
      | none => some (s.goTo i (.done id))
  | .done _ => none

/-- The ids that were given differ, and none was that of a participant registered then. -/
def Unique (s : Registrations ι) : Prop :=
  (s.grants.map Grant.id).Nodup ∧ ∀ g ∈ s.grants, g.taken = false

/-- What a read that returns an id has to meet: since every id that was given, the counter has
been incremented, and not by a multiple of 2^32; and if it stands at the id of a registered
participant, that one is connected, and nobody has incremented the counter since this handler
did. -/
def Checked (s : Registrations ι) (a : RegisterStep ι) : Prop :=
  (s.handlers a.handler).pc = .returning →
    (∀ g ∈ s.grants, ¬2 ^ 32 ∣ s.increments - g.increments) ∧
      (s.registered s.id = true → s.participants.isConnectedId s.id = true ∧
        (s.handlers a.handler).incremented = s.increments)

/-! ### What the handlers know -/

/-- What a handler knows of the participants that were connected at the start: the one with the
value of the counter, if nobody else has moved it, is still to be compared. -/
def Knows (pm : ParticipantManager) (s : Registrations ι) (h : RegisterHandler) : Prop :=
  h.incremented ≤ s.increments ∧
    match h.pc with
    | .comparing p ps => h.incremented = s.increments → pm.isConnectedId s.id = true →
        ∃ q ∈ p :: ps, q.id = s.id
    | .returning => h.incremented = s.increments → pm.isConnectedId s.id = false
    | .registering id => ∃ g ∈ s.grants, g.id = id
    | .incrementing _ | .copying _ | .done _ => True

/-- What holds in every state reached from the counter `id` and the participants `pm`. -/
structure Follows (id : UInt32) (pm : ParticipantManager) (s : Registrations ι) : Prop where
  counter : s.id = id + UInt32.ofNat s.increments
  granted : ∀ g ∈ s.grants, g.id = id + UInt32.ofNat g.increments ∧ g.increments ≤ s.increments
  kept : ∀ other, pm.isConnectedId other = true → s.participants.isConnectedId other = true
  known : ∀ other, s.participants.isConnectedId other = true →
    pm.isConnectedId other = true ∨ ∃ g ∈ s.grants, g.id = other
  handlers : ∀ i, s.Knows pm (s.handlers i)

variable {id : UInt32} {pm : ParticipantManager} {s s' : Registrations ι} {a : RegisterStep ι}
  {x : ι → Exchange} {port : ι → UInt32}

omit [DecidableEq ι] in
theorem follows_start (id : UInt32) (pm : ParticipantManager) :
    Follows id pm (start id pm : Registrations ι) where
  counter := (UInt32.add_zero id).symm
  granted _ h := absurd h List.not_mem_nil
  kept _ h := h
  known _ h := .inl h
  handlers _ := ⟨Nat.le_refl 0, trivial⟩

omit [DecidableEq ι] in
/-- A handler goes on with the comparisons that are left. -/
theorem knows_compare {h : RegisterHandler} {ps : List Participant} (duplicate : Bool)
    (hle : h.incremented ≤ s.increments)
    (hleft : h.incremented = s.increments → pm.isConnectedId s.id = true →
      ∃ q ∈ ps, q.id = s.id) :
    s.Knows pm { h with pc := .compare ps duplicate } := by
  refine ⟨hle, ?_⟩
  cases ps with
  | nil =>
      cases duplicate with
      | true => exact trivial
      | false =>
          intro hmine
          refine Bool.eq_false_iff.mpr fun hc => ?_
          obtain ⟨q, hq, -⟩ := hleft hmine hc
          exact absurd hq List.not_mem_nil
  | cons p ps => exact hleft

omit [DecidableEq ι] in
/-- What a handler knows stays true while the counter stands still and grants are only added. -/
theorem Knows.of_same {h : RegisterHandler} (hknows : s.Knows pm h) (hid : s'.id = s.id)
    (hincrements : s'.increments = s.increments) (hgrants : s.grants ⊆ s'.grants) :
    s'.Knows pm h := by
  obtain ⟨hle, hpc⟩ := hknows
  refine ⟨hincrements ▸ hle, ?_⟩
  rw [hid, hincrements]
  revert hpc
  cases h.pc with
  | registering other => exact fun ⟨g, hg, heq⟩ => ⟨g, hgrants hg, heq⟩
  | _ => exact fun hpc => hpc

/-- A handler's step leaves the others as they are. -/
theorem forall_knows {i : ι} {h : RegisterHandler}
    (hhandlers : s'.handlers = Function.update s.handlers i h) (hmine : s'.Knows pm h)
    (hothers : ∀ j, s'.Knows pm (s.handlers j)) : ∀ j, s'.Knows pm (s'.handlers j) := by
  rw [hhandlers]
  exact (Function.forall_update_iff s.handlers fun _ h => s'.Knows pm h).mpr
    ⟨hmine, fun j _ => hothers j⟩

/-- A step that neither moves the counter nor touches the participants. -/
theorem Follows.goTo {pc : RegisterPc} (hf : Follows id pm s) (i : ι)
    (hmine : s.Knows pm { s.handlers i with pc }) : Follows id pm (s.goTo i pc) where
  counter := hf.counter
  granted := hf.granted
  kept := hf.kept
  known := hf.known
  handlers := forall_knows rfl (hmine.of_same rfl rfl fun _ hg => hg)
    fun j => (hf.handlers j).of_same rfl rfl fun _ hg => hg

/-- **Every step keeps the invariant.** -/
theorem Follows.step (hf : Follows id pm s) (h : Registrations.step x port s a = some s') :
    Follows id pm s' := by
  obtain ⟨hle, hpc⟩ := hf.handlers a.handler
  rw [Registrations.step] at h
  dsimp only at h
  split at h
  · next duplicate _ =>
      obtain rfl := Option.some.inj h
      refine ⟨?_, ?_, hf.kept, hf.known, forall_knows rfl ⟨Nat.le_refl _, trivial⟩ fun j => ?_⟩
      · rw [hf.counter, UInt32.ofNat_add, UInt32.add_assoc]
        rfl
      · intro g hg
        exact ⟨(hf.granted g hg).1, Nat.le_succ_of_le (hf.granted g hg).2⟩
      · -- the others have incremented before this step
        obtain ⟨hle, hpc⟩ := hf.handlers j
        refine ⟨Nat.le_succ_of_le hle, ?_⟩
        have hne : (s.handlers j).incremented ≠ s.increments + 1 := by omega
        revert hpc
        cases (s.handlers j).pc with
        | comparing p ps => exact fun _ heq => absurd heq hne
        | returning => exact fun _ heq => absurd heq hne
        | _ => exact fun hpc => hpc
  · next duplicate _ =>
      obtain rfl := Option.some.inj h
      refine hf.goTo _ (knows_compare duplicate hle fun _ hc => ?_)
      obtain ⟨q, hq, hid⟩ := (UnorderedSet.contains_iff _ _).mp (hf.kept _ hc)
      exact ⟨q, (a.order.mem_enumerate _ q).mpr hq, hid⟩
  · next p ps hcomparing =>
      obtain rfl := Option.some.inj h
      refine hf.goTo _ ?_
      rw [hcomparing] at hpc
      split
      · exact ⟨hle, trivial⟩
      · next hne =>
          refine knows_compare false hle fun hmine hc => ?_
          obtain ⟨q, hq, hid⟩ := hpc hmine hc
          rcases List.mem_cons.mp hq with rfl | hq
          · exact absurd hid hne
          · exact ⟨q, hq, hid⟩
  · obtain rfl := Option.some.inj h
    have hgrants : s.grants ⊆ s.grants ++ [s.grant] :=
      List.subset_append_left _ _
    have hgranted : Follows id pm { s with grants := s.grants ++ [s.grant] } := by
      refine ⟨hf.counter, ?_, hf.kept, ?_, fun j => ?_⟩
      · intro g hg
        rcases List.mem_append.mp hg with hg | hg
        · exact hf.granted g hg
        · obtain rfl := List.mem_singleton.mp hg
          exact ⟨hf.counter, Nat.le_refl _⟩
      · intro other hc
        refine (hf.known other hc).imp_right ?_
        rintro ⟨g, hg, heq⟩
        exact ⟨g, hgrants hg, heq⟩
      · exact (hf.handlers j).of_same rfl rfl hgrants
    exact hgranted.goTo _ ⟨hle, _, List.mem_append_right _ (List.mem_singleton_self _), rfl⟩
  · next other hregistering =>
      rw [hregistering] at hpc
      split at h
      · next sockFd _ =>
          obtain rfl := Option.some.inj h
          have hregistered : ∀ p : Participant, p.id = other → Follows id pm
              { s with participants := s.participants.registerParticipant p } := by
            rintro p rfl
            refine ⟨hf.counter, hf.granted, fun id' hc => ?_, fun id' hc => ?_, fun j => ?_⟩
            · rw [ParticipantManager.isConnectedId_registerParticipant, hf.kept id' hc,
                Bool.or_true]
            · rw [ParticipantManager.isConnectedId_registerParticipant, Bool.or_eq_true,
                decide_eq_true_iff] at hc
              rcases hc with rfl | hc
              · exact .inr hpc
              · exact hf.known id' hc
            · exact (hf.handlers j).of_same rfl rfl fun _ hg => hg
          exact (hregistered _ rfl).goTo _ ⟨hle, trivial⟩
      · obtain rfl := Option.some.inj h
        exact hf.goTo _ ⟨hle, trivial⟩
  · cases h

/-! ### Which ids are unique -/

/-- The counter comes back to an old value with every multiple of 2^32 increments. -/
theorem counter_eq_iff (id : UInt32) {m n : ℕ} (h : m ≤ n) :
    id + UInt32.ofNat m = id + UInt32.ofNat n ↔ 2 ^ 32 ∣ n - m := by
  rw [UInt32.add_right_inj, ← UInt32.toNat_inj, UInt32.toNat_ofNat', UInt32.toNat_ofNat',
    ← Nat.modEq_iff_dvd' h]
  rfl

omit [DecidableEq ι] in
/-- The counter stands at none of the ids that were given. -/
theorem Follows.not_granted_iff (hf : Follows id pm s) :
    s.id ∉ s.grants.map Grant.id ↔ ∀ g ∈ s.grants, ¬2 ^ 32 ∣ s.increments - g.increments := by
  rw [List.mem_map, not_exists]
  refine forall_congr' fun g => ?_
  rw [not_and]
  refine forall_congr' fun hg => ?_
  obtain ⟨hid, hle⟩ := hf.granted g hg
  rw [hid, hf.counter, counter_eq_iff id hle]

/-- **Exactly the reads that meet the condition keep the ids unique.** -/
theorem Follows.unique_iff (hf : Follows id pm s) (hu : s.Unique)
    (h : Registrations.step x port s a = some s') : s'.Unique ↔ s.Checked a := by
  have hpc := (hf.handlers a.handler).2
  rw [Registrations.step] at h
  dsimp only at h
  by_cases hreturning : (s.handlers a.handler).pc = .returning
  · rw [hreturning] at h hpc
    obtain rfl := Option.some.inj h
    have hgrants : Unique ({ s with
        grants := s.grants ++ [s.grant] }.goTo a.handler
          (.registering s.id)) ↔
        s.id ∉ s.grants.map Grant.id ∧ s.registered s.id = false := by
      simp only [Unique, Registrations.goTo, List.map_append, List.map_singleton,
        List.nodup_append, List.forall_mem_append, List.forall_mem_singleton]
      constructor
      · rintro ⟨⟨-, -, hnew⟩, -, hfree⟩
        exact ⟨fun hmem => hnew _ hmem rfl, hfree⟩
      · rintro ⟨hnew, hfree⟩
        refine ⟨⟨hu.1, List.nodup_singleton _, fun other hother heq => ?_⟩, hu.2, hfree⟩
        rw [heq] at hother
        exact hnew hother
    rw [hgrants, hf.not_granted_iff, Checked]
    constructor
    · rintro ⟨hnew, hfree⟩ -
      refine ⟨hnew, fun htaken => ?_⟩
      rw [hfree] at htaken
      cases htaken
    · intro hchecked
      obtain ⟨hnew, hregistered⟩ := hchecked hreturning
      refine ⟨hnew, Bool.eq_false_iff.mpr fun htaken => ?_⟩
      obtain ⟨hc, hmine⟩ := hregistered htaken
      rcases hf.known _ hc with hc | ⟨g, hg, heq⟩
      · rw [hpc hmine] at hc
        cases hc
      · exact hf.not_granted_iff.mpr hnew (List.mem_map.mpr ⟨g, hg, heq⟩)
  · have hgrants : s'.grants = s.grants := by
      split at h
      · obtain rfl := Option.some.inj h
        rfl
      · obtain rfl := Option.some.inj h
        rfl
      · obtain rfl := Option.some.inj h
        rfl
      · next heq => exact absurd heq hreturning
      · split at h <;>
          · obtain rfl := Option.some.inj h
            rfl
      · cases h
    rw [Checked, Unique, hgrants]
    exact iff_of_true hu fun heq => absurd heq hreturning

end Registrations

/-- **Registrations at the same time.** From any counter and any participants, and in any order of
the steps of any number of handlers, the ids are unique exactly when every read that returns one
meets the condition. -/
theorem registration_ids_unique_iff {ι : Type} [DecidableEq ι] (id : UInt32)
    (pm : ParticipantManager) (x : ι → Exchange) (port : ι → UInt32) (as : List (RegisterStep ι))
    {s : Registrations ι} (hrun : runFrom (Registrations.step x port) (.start id pm) as = some s) :
    EachState (Registrations.step x port) Registrations.Unique (.start id pm) as ↔
      EachStep (Registrations.step x port) Registrations.Checked (.start id pm) as := by
  refine eachState_iff_eachStep (Registrations.Follows id pm) (fun s a s' hf _ h => hf.step h) ?_
    (Registrations.follows_start id pm) ⟨List.nodup_nil, fun g hg => absurd hg List.not_mem_nil⟩
    (fun _ _ _ _ _ => trivial : EachStep _ (fun _ _ => True) _ _) hrun
  exact fun s a s' hf hu _ h => hf.unique_iff hu h

/-- One registration after the other. -/
theorem registration_ids_unique_iff_two :
    ∃ s, runFrom (Registrations.step (fun _ => .smooth .notSet 4 5 1) fun _ => 5000) (.start 0 {})
        [{ handler := 1 }, { handler := 1 }, { handler := 1 }, { handler := 1, socket := some 5 },
          { handler := 2 }, { handler := 2 }, { handler := 2 }, { handler := 2 }] = some s ∧
      (EachState (Registrations.step (fun _ => .smooth .notSet 4 5 1) fun _ => 5000)
          Registrations.Unique (.start 0 {})
          [{ handler := 1 }, { handler := 1 }, { handler := 1 },
            { handler := 1, socket := some 5 }, { handler := 2 }, { handler := 2 },
            { handler := 2 }, { handler := 2 }] ↔
        EachStep (Registrations.step (fun _ : ℕ => .smooth .notSet 4 5 1) fun _ => 5000)
          Registrations.Checked (.start 0 {})
          [{ handler := 1 }, { handler := 1 }, { handler := 1 },
            { handler := 1, socket := some 5 }, { handler := 2 }, { handler := 2 },
            { handler := 2 }, { handler := 2 }]) :=
  ⟨_, rfl, registration_ids_unique_iff 0 {} _ _ _ rfl⟩

/-- Two handlers increment the counter, and then both return it. -/
theorem registration_id_given_twice :
    ∃ s, runFrom (Registrations.step (fun _ : ℕ => .smooth .notSet 4 5 1) fun _ => 5000)
        (.start 0 {}) [{ handler := 1 }, { handler := 2 }, { handler := 1 }, { handler := 2 },
          { handler := 1 }, { handler := 2 }] = some s ∧ ¬s.Unique := by
  refine ⟨_, rfl, fun h => ?_⟩
  have hnodup := h.1
  revert hnodup
  decide

end Csci6780.PubSub
