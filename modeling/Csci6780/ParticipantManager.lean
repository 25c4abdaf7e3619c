import Csci6780.Lib.Unordered
import Mathlib.Logic.Function.Basic

/-!
# The Coordinator's Participants

This module embeds `coordinator::ParticipantManager`: a map from ids to the records of all
registered participants, and the set of those that are connected. The set tells records apart
by their id alone, so that a second insertion of an id leaves the record that is there.

## Main results

* `ParticipantManager.Consistent`: every record is kept under its own id, and who is connected
  is registered; each operation keeps it.
-/

namespace Csci6780.PubSub

/-- `ParticipantManager::Participant`. -/
structure Participant where
  id : UInt32
  sockFd : ℤ
  port : UInt16
  hostname : String
  connected : Bool
  disconnectTime : ℤ
  deriving DecidableEq, Repr

/-- The record `Participant{}`, all of it zero. -/
def Participant.zero : Participant := ⟨0, 0, 0, "", false, 0⟩

/-- `ParticipantManager`. -/
structure ParticipantManager where
  connectedParticipants : UnorderedSet Participant.id := .empty
  idToParticipant : UInt32 → Option Participant := fun _ => none

namespace ParticipantManager

/-- `ParticipantManager::RegisterParticipant`. -/
def registerParticipant (pm : ParticipantManager) (p : Participant) : ParticipantManager :=
  { connectedParticipants := pm.connectedParticipants.insert p
    idToParticipant := Function.update pm.idToParticipant p.id (some p) }

/-- `ParticipantManager::DeregisterParticipant`. -/
def deregisterParticipant (pm : ParticipantManager) (p : Participant) : ParticipantManager :=
  { connectedParticipants := pm.connectedParticipants.erase p.id
    idToParticipant := Function.update pm.idToParticipant p.id none }

/-- Whether the set of the connected has the id. -/
def isConnectedId (pm : ParticipantManager) (id : UInt32) : Bool :=
  pm.connectedParticipants.contains id

/-- `ParticipantManager::IsConnected`. -/
def isConnected (pm : ParticipantManager) (p : Participant) : Bool := pm.isConnectedId p.id

/-- `ParticipantManager::GetAllConnected`. -/
def getAllConnected (pm : ParticipantManager) : List Participant :=
  pm.connectedParticipants.elements

/-- `ParticipantManager::DisconnectParticipant`, at the time `now`: the result and the new
state. `operator[]` of the map makes a zero record when there is none. -/
def disconnectParticipant (pm : ParticipantManager) (p : Participant) (now : ℤ) :
    Bool × ParticipantManager :=
  if pm.isConnected p then
    let record := (pm.idToParticipant p.id).getD Participant.zero
    (true,
      { connectedParticipants := pm.connectedParticipants.erase p.id
        idToParticipant := Function.update pm.idToParticipant p.id
          (some { record with connected := false, disconnectTime := now }) })
  else (false, pm)

/-- `ParticipantManager::ReconnectParticipant`: the result and the new state. -/
def reconnectParticipant (pm : ParticipantManager) (p : Participant) :
    Bool × ParticipantManager :=
  match pm.idToParticipant p.id with
  | none => (false, pm)
  | some record =>
      let record := { record with connected := true }
      (true,
        { connectedParticipants := pm.connectedParticipants.insert record
          idToParticipant := Function.update pm.idToParticipant p.id (some record) })

/-- `ParticipantManager::GetParticipant`. -/
def getParticipant (pm : ParticipantManager) (id : UInt32) : Option Participant :=
  pm.idToParticipant id

/-! ### What an operation leaves -/

variable (pm : ParticipantManager) (p : Participant) (now : ℤ) (id : UInt32)

@[simp] theorem idToParticipant_registerParticipant :
    (pm.registerParticipant p).idToParticipant =
      Function.update pm.idToParticipant p.id (some p) := rfl

@[simp] theorem idToParticipant_deregisterParticipant :
    (pm.deregisterParticipant p).idToParticipant =
      Function.update pm.idToParticipant p.id none := rfl

@[simp] theorem isConnectedId_registerParticipant :
    (pm.registerParticipant p).isConnectedId id = (decide (id = p.id) || pm.isConnectedId id) :=
  UnorderedSet.contains_insert _ _ _

@[simp] theorem isConnectedId_deregisterParticipant :
    (pm.deregisterParticipant p).isConnectedId id = (decide (id ≠ p.id) && pm.isConnectedId id) :=
  UnorderedSet.contains_erase _ _ _

@[simp] theorem isConnectedId_disconnectParticipant :
    (pm.disconnectParticipant p now).2.isConnectedId id =
      (decide (id ≠ p.id) && pm.isConnectedId id) := by
  rw [disconnectParticipant]
  split
  · exact UnorderedSet.contains_erase _ _ _
  · next h =>
      by_cases hid : id = p.id
      · subst hid
        rw [decide_eq_false (by simp), Bool.false_and]
        exact Bool.eq_false_iff.mpr h
      · rw [decide_eq_true hid, Bool.true_and]

/-- A participant that is not connected is not disconnected again. -/
theorem disconnectParticipant_of_not_connected (h : pm.isConnectedId p.id = false) :
    pm.disconnectParticipant p now = (false, pm) := by
  rw [disconnectParticipant, isConnected, h]
  rfl

theorem reconnectParticipant_of_unknown (h : pm.idToParticipant p.id = none) :
    pm.reconnectParticipant p = (false, pm) := by
  rw [reconnectParticipant, h]

/-! ### The two tables agree -/

/-- Every record is kept under its own id, and who is connected is registered. -/
structure Consistent (pm : ParticipantManager) : Prop where
  key : ∀ id p, pm.idToParticipant id = some p → p.id = id
  known : ∀ id, pm.isConnectedId id = true → ∃ p, pm.idToParticipant id = some p

/-- The tables of a coordinator that has just started. -/
theorem consistent_empty : Consistent {} where
  key _ _ h := nomatch h
  known _ h := nomatch h

variable {pm p now id}

theorem Consistent.not_connected (h : pm.Consistent) (hid : pm.idToParticipant id = none) :
    pm.isConnectedId id = false := by
  refine Bool.eq_false_iff.mpr fun hc => ?_
  obtain ⟨p, hp⟩ := h.known _ hc
  rw [hid] at hp
  cases hp

theorem Consistent.registerParticipant (h : pm.Consistent) :
    (pm.registerParticipant p).Consistent where
  key := UnorderedSet.keyed_update h.key fun q hq => Option.some.inj hq ▸ rfl
  known id hc := by
    rw [isConnectedId_registerParticipant] at hc
    by_cases hid : id = p.id
    · exact ⟨p, by rw [hid]; exact Function.update_self _ _ _⟩
    · rw [decide_eq_false hid, Bool.false_or] at hc
      obtain ⟨q, hq⟩ := h.known _ hc
      exact ⟨q, (Function.update_of_ne hid _ _).trans hq⟩

theorem Consistent.deregisterParticipant (h : pm.Consistent) :
    (pm.deregisterParticipant p).Consistent where
  key := UnorderedSet.keyed_update h.key fun q hq => nomatch hq
  known id hc := by
    rw [isConnectedId_deregisterParticipant, Bool.and_eq_true, decide_eq_true_iff] at hc
    obtain ⟨q, hq⟩ := h.known _ hc.2
    exact ⟨q, (Function.update_of_ne hc.1 _ _).trans hq⟩

/-- Deregistering somebody unknown changes nothing. -/
theorem Consistent.deregisterParticipant_of_unknown (h : pm.Consistent)
    (hp : pm.idToParticipant p.id = none) : pm.deregisterParticipant p = pm := by
  have hset := UnorderedSet.erase_of_not_contains (h.not_connected hp)
  have hmap := Function.update_eq_self p.id pm.idToParticipant
  rw [hp] at hmap
  rw [ParticipantManager.deregisterParticipant, hset, hmap]

/-- A record that keeps its id stays under it. -/
theorem Consistent.key_update (h : pm.Consistent) {record new : Participant}
    (hrecord : pm.idToParticipant p.id = some record) (q : Participant)
    (hq : Function.update pm.idToParticipant p.id (some new) id = some q)
    (hnew : new.id = record.id) : q.id = id := by
  refine UnorderedSet.keyed_update h.key (fun r hr => ?_) id q hq
  obtain rfl := Option.some.inj hr
  exact hnew.trans (h.key p.id record hrecord)

/-- The record that `DisconnectParticipant` leaves for a connected participant. -/
theorem disconnectParticipant_of_connected {record : Participant}
    (h : pm.isConnectedId p.id = true) (hrecord : pm.idToParticipant p.id = some record) :
    (pm.disconnectParticipant p now).2.idToParticipant = Function.update pm.idToParticipant p.id
      (some { record with connected := false, disconnectTime := now }) := by
  rw [disconnectParticipant, isConnected, if_pos h, hrecord]
  rfl

theorem Consistent.disconnectParticipant (h : pm.Consistent) :
    (pm.disconnectParticipant p now).2.Consistent := by
  cases hc : pm.isConnectedId p.id with
  | false =>
      rw [disconnectParticipant_of_not_connected _ _ _ hc]
      exact h
  | true =>
      obtain ⟨record, hrecord⟩ := h.known _ hc
      have hmap : (pm.disconnectParticipant p now).2.idToParticipant = _ :=
        disconnectParticipant_of_connected hc hrecord
      constructor
      · intro id q hq
        rw [hmap] at hq
        exact h.key_update hrecord q hq rfl
      · intro id hid
        rw [isConnectedId_disconnectParticipant, Bool.and_eq_true, decide_eq_true_iff] at hid
        obtain ⟨q, hq⟩ := h.known _ hid.2
        exact ⟨q, by rw [hmap, Function.update_of_ne hid.1, hq]⟩

/-- What `ReconnectParticipant` does for a registered participant. -/
theorem reconnectParticipant_of_known {record : Participant}
    (hrecord : pm.idToParticipant p.id = some record) :
    (pm.reconnectParticipant p).2.idToParticipant = Function.update pm.idToParticipant p.id
      (some { record with connected := true }) := by
  rw [reconnectParticipant, hrecord]

theorem Consistent.isConnectedId_reconnectParticipant (h : pm.Consistent) {record : Participant}
    (hrecord : pm.idToParticipant p.id = some record) (id : UInt32) :
    (pm.reconnectParticipant p).2.isConnectedId id =
      (decide (id = p.id) || pm.isConnectedId id) := by
  rw [reconnectParticipant, hrecord, isConnectedId]
  refine (UnorderedSet.contains_insert _ _ _).trans ?_
  rw [h.key p.id record hrecord]
  rfl

theorem Consistent.reconnectParticipant (h : pm.Consistent) :
    (pm.reconnectParticipant p).2.Consistent := by
  cases hrecord : pm.idToParticipant p.id with
  | none =>
      rw [reconnectParticipant_of_unknown _ _ hrecord]
      exact h
  | some record =>
      have hmap := reconnectParticipant_of_known hrecord
      constructor
      · intro id q hq
        rw [hmap] at hq
        exact h.key_update hrecord q hq rfl
      · intro id hid
        rw [h.isConnectedId_reconnectParticipant hrecord] at hid
        by_cases heq : id = p.id
        · exact ⟨{ record with connected := true }, by rw [hmap, heq, Function.update_self]⟩
        · rw [decide_eq_false heq, Bool.false_or] at hid
          obtain ⟨q, hq⟩ := h.known _ hid
          exact ⟨q, by rw [hmap, Function.update_of_ne heq, hq]⟩

end ParticipantManager

end Csci6780.PubSub
