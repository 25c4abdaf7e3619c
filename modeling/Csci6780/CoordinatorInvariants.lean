import Csci6780.CoordinatorSteps
import Csci6780.IdSnapshots
import Mathlib.Data.List.Count
import Mathlib.Data.List.Perm.Subperm

/-!
# Invariants of the Coordinator

What holds of the coordinator between any two requests, whatever the requests and their
surroundings are: the tables of the participant manager agree and the message queue is empty
(`Coordinator.Sound`). Beside it, the accounts that the results about runs are stated in: how
many messengers there are for an id, and whom a broadcast reaches.

## Main results

* `generateID_free`, `generateID_next`: an id that `GenerateID` returns is nobody's who is
  connected; it is the next one when that is free.
* `Coordinator.Sound.serve`: every request keeps the invariant.
* `Coordinator.receivers_multicast`: whom a broadcast reaches.
-/

namespace Csci6780.PubSub

/-- The participant that a request names. -/
def CoordinatorMessage.participantId : CoordinatorMessage → Option UInt32
  | .deregister id | .disconnect id | .reconnect _ id | .sendMulticast _ id => some id
  | .register _ | .notSet => none

/-! ### `GenerateID` with an unchanging set of participants -/

/-- The id that `GenerateID` returns is nobody's in the last answer it looked at. -/
theorem generateID_free {snapshots : ℕ → List Participant} {id new : UInt32}
    (h : generateID snapshots id = some new) :
    ∃ round, ∀ p ∈ snapshots round, p.id ≠ new := by
  obtain ⟨round, -, hstops, rfl⟩ := (generateID_eq_some_iff snapshots id).mp h
  exact ⟨round, hstops.1.1⟩

/-- When the next id is free, `GenerateID` returns it. -/
theorem generateID_next {snapshots : ℕ → List Participant} {id : UInt32}
    (h : ∀ p ∈ snapshots 0, p.id ≠ id + 1) : generateID snapshots id = some (id + 1) := by
  have hcounter : id + 1 = counter id 0 := (UInt32.add_zero (id + 1)).symm
  have hfree : Free snapshots id 0 := fun p hp => hcounter ▸ h p hp
  have hfirst : IsFirst (Stops snapshots id) 0 :=
    ⟨⟨hfree, .inl rfl⟩, fun k hk => absurd hk (Nat.not_lt_zero k)⟩
  exact (generateID_eq_some_iff snapshots id).mpr ⟨0, by decide, hfirst, hcounter⟩

theorem ParticipantManager.isConnectedId_eq_false_iff {pm : ParticipantManager} {id : UInt32} :
    pm.isConnectedId id = false ↔ ∀ p ∈ pm.getAllConnected, p.id ≠ id := by
  rw [isConnectedId, UnorderedSet.contains, decide_eq_false_iff_not, List.mem_map]
  constructor
  · exact fun h p hp heq => h ⟨p, hp, heq⟩
  · rintro h ⟨p, hp, heq⟩
    exact h p hp heq

namespace Coordinator

/-! ### Records -/

/-- The participant with this id is registered. -/
def registered (c : Coordinator) (id : UInt32) : Bool := (c.participants.getParticipant id).isSome

/-- The participant with this id is connected. -/
def connected (c : Coordinator) (id : UInt32) : Bool := c.participants.isConnectedId id

variable {c c' : Coordinator} {x : Exchange} {id : UInt32}

theorem registered_iff : c.registered id = true ↔ ∃ p, c.participants.idToParticipant id = some p :=
  Option.isSome_iff_exists

theorem not_registered_iff :
    c.registered id = false ↔ c.participants.idToParticipant id = none := by
  rw [registered, ParticipantManager.getParticipant, Option.isSome_eq_false_iff,
    Option.isNone_iff_eq_none]

theorem determineParticipant_of_registered {p : Participant}
    (h : c.participants.idToParticipant id = some p) : c.determineParticipant id = p := by
  rw [determineParticipant, ParticipantManager.getParticipant, h, Option.getD_some]

theorem determineParticipant_of_unknown (h : c.registered id = false) :
    c.determineParticipant id = Participant.zero := by
  rw [determineParticipant, ParticipantManager.getParticipant, not_registered_iff.mp h,
    Option.getD_none]

/-- **The invariant** of every run: the tables of the participants agree, and no message waits
in the queue. -/
structure Sound (c : Coordinator) : Prop where
  consistent : c.participants.Consistent
  queue : c.msgQueue = []

theorem sound_start (td : ℤ) (ds : Descriptors) : (start td ds).Sound :=
  ⟨ParticipantManager.consistent_empty, rfl⟩

theorem Sound.served (h : c.Sound) (hs : c.Served x c') : c'.Sound := by
  cases hs with
  | register portNumber id connected p ds =>
      refine ⟨?_, h.queue⟩
      cases connected with
      | true => exact h.consistent.registerParticipant
      | false => exact h.consistent
  | deregister participantId p => exact ⟨h.consistent.deregisterParticipant, h.queue⟩
  | disconnect participantId p => exact ⟨h.consistent.disconnectParticipant, h.queue⟩
  | reconnect portNumber participantId connected p p' ds =>
      refine ⟨?_, h.queue⟩
      cases connected with
      | true => exact h.consistent.reconnectParticipant
      | false => exact h.consistent
  | multicast message participantId => exact ⟨h.consistent, h.queue⟩
  | notSet => exact ⟨h.consistent, h.queue⟩

/-- **Every request keeps the invariant.** -/
theorem Sound.serve (h : c.Sound) (hs : c.serve x = some c') : c'.Sound :=
  h.served (served_of_serve h.queue hs).2

theorem Sound.run {xs : List Exchange} (h : c.Sound)
    (hrun : runFrom Coordinator.serve c xs = some c') : c'.Sound :=
  (EachState.of_inv_always Sound (fun _ _ _ hm => hm.serve) h xs).last hrun

/-- Who is not registered is not connected. -/
theorem Sound.not_connected (h : c.Sound) (hid : c.registered id = false) :
    c.connected id = false :=
  h.consistent.not_connected (not_registered_iff.mp hid)

theorem Sound.registered_of_connected (h : c.Sound) (hid : c.connected id = true) :
    c.registered id = true :=
  registered_iff.mpr (h.consistent.known id hid)

/-- The record of a registered participant carries its id. -/
theorem Sound.id_determineParticipant (h : c.Sound) (hid : c.registered id = true) :
    (c.determineParticipant id).id = id := by
  obtain ⟨p, hp⟩ := registered_iff.mp hid
  rw [determineParticipant_of_registered hp]
  exact h.consistent.key id p hp

/-! ### The messengers of an id -/

/-- How many messengers there are for the id. -/
def messengersOf (c : Coordinator) (id : UInt32) : ℕ :=
  (c.messengers.map fun m => m.participant.id).count id

theorem determineMessenger_eq_some {m : Messenger} (h : c.determineMessenger x id = some m) :
    m ∈ c.messengers ∧ m.participant.id = id := by
  rw [determineMessenger] at h
  have hid := List.find?_some h
  exact ⟨(x.messengerOrder.mem_enumerate _ m).mp (List.mem_of_find?_eq_some h),
    of_decide_eq_true hid⟩

theorem determineMessenger_eq_none :
    c.determineMessenger x id = none ↔ c.messengersOf id = 0 := by
  rw [determineMessenger, List.find?_eq_none, messengersOf, List.count_eq_zero, List.mem_map]
  constructor
  · rintro h ⟨m, hm, hid⟩
    exact h m ((x.messengerOrder.mem_enumerate _ m).mpr hm) (decide_eq_true hid)
  · intro h m hm hid
    exact h ⟨m, (x.messengerOrder.mem_enumerate _ m).mp hm, of_decide_eq_true hid⟩

/-- Deleting the messenger of an id takes away one, if there is one. -/
theorem count_delete (c : Coordinator) (x : Exchange) (id other : UInt32) :
    (((c.determineMessenger x id).elim c.messengers c.messengers.erase).map
      fun m => m.participant.id).count other =
        c.messengersOf other - if other = id then 1 else 0 := by
  cases hm : c.determineMessenger x id with
  | none =>
      have hnone := determineMessenger_eq_none.mp hm
      rw [Option.elim_none]
      split
      · next heq =>
          subst heq
          rw [hnone]
          exact hnone
      · rfl
  | some m =>
      obtain ⟨hmem, hid⟩ := determineMessenger_eq_some hm
      have hperm := ((List.perm_cons_erase hmem).map fun m => m.participant.id).count_eq other
      rw [List.map_cons, List.count_cons, hid] at hperm
      rw [Option.elim_some, messengersOf, hperm]
      by_cases heq : other = id
      · simp [heq]
      · simp [heq, Ne.symm heq]

/-- Deleting the messenger of an id changes nothing exactly when there is none. -/
theorem delete_eq_self_iff :
    (c.determineMessenger x id).elim c.messengers c.messengers.erase = c.messengers ↔
      c.messengersOf id = 0 := by
  rw [← determineMessenger_eq_none (x := x)]
  cases hm : c.determineMessenger x id with
  | none => exact iff_of_true rfl rfl
  | some m =>
      refine iff_of_false (fun heq => ?_) (Option.some_ne_none m)
      have hlen := congrArg List.length heq
      rw [Option.elim_some, List.length_erase_of_mem (determineMessenger_eq_some hm).1] at hlen
      have hpos := List.length_pos_of_mem (determineMessenger_eq_some hm).1
      omega

theorem count_append (c : Coordinator) (p : Participant) (other : UInt32) :
    ((c.messengers ++ [(⟨p⟩ : Messenger)]).map fun m => m.participant.id).count other =
      c.messengersOf other + if other = p.id then 1 else 0 := by
  rw [List.map_append, List.count_append, messengersOf, List.map_singleton, List.count_singleton]
  by_cases heq : other = p.id
  · simp [heq]
  · simp [heq, Ne.symm heq]

/-- The ids that a broadcast reaches. -/
def reachedIds (c : Coordinator) (x : Exchange) : List UInt32 :=
  (c.reached x).map fun m => m.participant.id

/-- Handling a `SendMulticast` sends its multicast to the ids that the broadcast reaches. -/
theorem receivers_multicast (c : Coordinator) (x : Exchange) (message : String)
    (participantId : UInt32) :
    receivers c.broadcasts (.multicast c.broadcasts ::
      (broadcastEvents x (c.multicastOf message participantId) (c.reached x) ++
        [.closed x.clientFd])) = c.reachedIds x := by
  rw [receivers_cons, receivers_append, receivers_broadcastEvents]
  simp [Event.receiver, multicastOf, reachedIds]

/-- **Whom a broadcast reaches**: who is connected, once for every messenger. -/
theorem count_reachedIds (c : Coordinator) (x : Exchange) (id : UInt32) :
    (c.reachedIds x).count id = if c.connected id then c.messengersOf id else 0 := by
  have hfilter : c.reachedIds x =
      ((x.messengerOrder.enumerate c.messengers).map fun m => m.participant.id).filter
        c.participants.isConnectedId := by
    rw [reachedIds, reached, List.filter_map]
    rfl
  rw [hfilter, messengersOf, connected]
  split
  · next hc =>
      rw [List.count_filter hc]
      exact ((x.messengerOrder.perm c.messengers).map _).count_eq id
  · next hc =>
      refine List.count_eq_zero.mpr fun hmem => hc ?_
      exact (List.mem_filter.mp hmem).2

end Coordinator

end Csci6780.PubSub
