import Csci6780.Lib.Runs
import Csci6780.ParticipantManager

/-!
# The Two Tables of the Participant Manager

`ParticipantManager` keeps the record of a connected participant twice: in `id_to_participant_`,
and as a copy in `connected_participants_`, which tells records apart by their id alone and so
keeps the copy that it has. The callers' records name a participant by their id; what else they
hold is of no account, save for a registration.

## Main results

* `Agree.call`: each call keeps the set to the records of the map that are marked as connected.
* `tables_in_step`: what the tables and the results of the calls say, in every state of every run.
-/

namespace Csci6780.PubSub.ParticipantManager

/-- A call of one of the operations that change the tables. -/
inductive Call
  | register (p : Participant)
  | deregister (p : Participant)
  | disconnect (p : Participant) (now : ℤ)
  | reconnect (p : Participant)
  deriving DecidableEq, Repr

/-- The tables after a call. -/
def call (pm : ParticipantManager) : Call → ParticipantManager
  | .register p => pm.registerParticipant p
  | .deregister p => pm.deregisterParticipant p
  | .disconnect p now => (pm.disconnectParticipant p now).2
  | .reconnect p => (pm.reconnectParticipant p).2

/-- A call is a step of the system. -/
def step (pm : ParticipantManager) (c : Call) : Option ParticipantManager := some (pm.call c)

/-- Who registers is not registered, and is marked as connected. The other calls may have any
arguments. -/
def Proper (pm : ParticipantManager) : Call → Prop
  | .register p => pm.idToParticipant p.id = none ∧ p.connected = true
  | _ => True

instance (pm : ParticipantManager) : DecidablePred pm.Proper
  | .register p =>
      inferInstanceAs (Decidable (pm.idToParticipant p.id = none ∧ p.connected = true))
  | .deregister _ | .disconnect _ _ | .reconnect _ => inferInstanceAs (Decidable True)

/-- The set has just the records of the map that are marked as connected. -/
def Agree (pm : ParticipantManager) : Prop :=
  pm.connectedParticipants.Selects pm.idToParticipant Participant.connected

variable {pm : ParticipantManager} {p : Participant} {now : ℤ}

theorem agree_empty : Agree {} := .empty Participant.connected

theorem Agree.isConnectedId_iff (h : pm.Agree) (id : UInt32) :
    pm.isConnectedId id = true ↔
      ∃ record, pm.idToParticipant id = some record ∧ record.connected = true :=
  h.contains_iff id

/-! ### What each call keeps -/

theorem Agree.registerParticipant (h : pm.Agree) (hnew : pm.idToParticipant p.id = none)
    (hp : p.connected = true) : (pm.registerParticipant p).Agree := by
  refine h.insert rfl hp (Bool.eq_false_iff.mpr fun hc => ?_)
  obtain ⟨record, hrecord, -⟩ := (h.isConnectedId_iff p.id).mp hc
  rw [hnew] at hrecord
  cases hrecord

theorem Agree.deregisterParticipant (h : pm.Agree) : (pm.deregisterParticipant p).Agree :=
  h.erase fun _ hx => nomatch hx

theorem Agree.disconnectParticipant (h : pm.Agree) :
    (pm.disconnectParticipant p now).2.Agree := by
  cases hc : pm.isConnectedId p.id with
  | false =>
      rw [disconnectParticipant_of_not_connected _ _ _ hc]
      exact h
  | true =>
      obtain ⟨record, hrecord, -⟩ := (h.isConnectedId_iff p.id).mp hc
      rw [ParticipantManager.disconnectParticipant, isConnected, if_pos hc, hrecord]
      refine h.erase fun x hx => ?_
      obtain rfl := Option.some.inj hx
      exact ⟨h.keyed p.id record hrecord, rfl⟩

/-- A second reconnection finds the copy that is there, and the record as it is. -/
theorem Agree.reconnectParticipant_of_connected (h : pm.Agree)
    (hc : pm.isConnectedId p.id = true) : pm.reconnectParticipant p = (true, pm) := by
  obtain ⟨record, hrecord, hconnected⟩ := (h.isConnectedId_iff p.id).mp hc
  have hsame : { record with connected := true } = record := by
    rw [← hconnected]
  have hid : record.id = p.id := h.keyed p.id record hrecord
  have hset := UnorderedSet.insert_of_contains (x := record) (hid ▸ hc)
  have hmap := Function.update_eq_self p.id pm.idToParticipant
  rw [hrecord] at hmap
  rw [ParticipantManager.reconnectParticipant, hrecord]
  simp only [hsame]
  rw [hset, hmap]

theorem Agree.reconnectParticipant (h : pm.Agree) : (pm.reconnectParticipant p).2.Agree := by
  cases hrecord : pm.idToParticipant p.id with
  | none =>
      rw [reconnectParticipant_of_unknown _ _ hrecord]
      exact h
  | some record =>
      cases hc : pm.isConnectedId p.id with
      | true =>
          rw [h.reconnectParticipant_of_connected hc]
          exact h
      | false =>
          have hid : record.id = p.id := h.keyed p.id record hrecord
          rw [ParticipantManager.reconnectParticipant, hrecord]
          exact h.insert hid rfl hc

/-- **Each call keeps the tables in agreement.** -/
theorem Agree.call (h : pm.Agree) {c : Call} (hc : pm.Proper c) : (pm.call c).Agree := by
  cases c with
  | register p => exact h.registerParticipant hc.1 hc.2
  | deregister p => exact h.deregisterParticipant
  | disconnect p now => exact h.disconnectParticipant
  | reconnect p => exact h.reconnectParticipant

/-! ### What the tables and the results say -/

/-- The tables are in step, and the results tell what is in them. -/
structure InStep (pm : ParticipantManager) : Prop where
  key : ∀ id record, pm.idToParticipant id = some record → record.id = id
  connected_iff : ∀ id, (∃ q ∈ pm.getAllConnected, q.id = id) ↔
    ∃ record, pm.idToParticipant id = some record ∧ record.connected = true
  copy : ∀ q ∈ pm.getAllConnected, pm.idToParticipant q.id = some q
  disconnects_iff : ∀ p now, (pm.disconnectParticipant p now).1 = true ↔
    ∃ q ∈ pm.getAllConnected, q.id = p.id
  not_disconnects : ∀ p now, (pm.disconnectParticipant p now).1 = false →
    (pm.disconnectParticipant p now).2 = pm
  reconnects_iff : ∀ p, (pm.reconnectParticipant p).1 = true ↔
    ∃ record, pm.idToParticipant p.id = some record
  not_reconnects : ∀ p, (pm.reconnectParticipant p).1 = false →
    (pm.reconnectParticipant p).2 = pm

theorem disconnectParticipant_fst (pm : ParticipantManager) (p : Participant) (now : ℤ) :
    (pm.disconnectParticipant p now).1 = pm.isConnectedId p.id := by
  rw [ParticipantManager.disconnectParticipant, isConnected]
  cases pm.isConnectedId p.id <;> rfl

theorem reconnectParticipant_fst (pm : ParticipantManager) (p : Participant) :
    (pm.reconnectParticipant p).1 = (pm.idToParticipant p.id).isSome := by
  rw [ParticipantManager.reconnectParticipant]
  cases pm.idToParticipant p.id <;> rfl

theorem Agree.inStep (h : pm.Agree) : pm.InStep where
  key := h.keyed
  connected_iff id := (UnorderedSet.contains_iff _ id).symm.trans (h.contains_iff id)
  copy q hq := ((h.mem_iff q).mp hq).1
  disconnects_iff p now := by
    rw [disconnectParticipant_fst]
    exact UnorderedSet.contains_iff _ p.id
  not_disconnects p now hfails := by
    rw [disconnectParticipant_fst] at hfails
    rw [disconnectParticipant_of_not_connected _ _ _ hfails]
  reconnects_iff p := by
    rw [reconnectParticipant_fst, Option.isSome_iff_exists]
  not_reconnects p hfails := by
    rw [reconnectParticipant_fst, Option.isSome_eq_false_iff, Option.isNone_iff_eq_none] at hfails
    rw [reconnectParticipant_of_unknown _ _ hfails]

/-- **The two tables agree** after any calls, whatever records they are called with. -/
theorem tables_in_step {calls : List Call}
    (hcalls : EachStep step (fun pm c => pm.Proper c) {} calls) :
    EachState step InStep {} calls := by
  have hnext : ∀ (pm : ParticipantManager) c, step pm c = some (pm.call c) := fun _ _ => rfl
  have hagree : EachState step Agree {} calls :=
    .of_inv_total hnext Agree (fun pm c h hc => h.call hc) agree_empty hcalls
  exact hagree.mono fun pm h => h.inStep

/-- Participant 1 comes and goes; the callers' records are out of date. -/
def comingAndGoing : List Call :=
  [.register ⟨1, 5, 6000, "a", true, 0⟩, .reconnect ⟨1, 0, 0, "", false, 0⟩,
    .disconnect ⟨1, 9, 1, "b", false, 7⟩ 3, .disconnect ⟨1, 5, 6000, "a", true, 0⟩ 4,
    .reconnect ⟨1, 7, 7000, "c", true, 1⟩, .deregister ⟨2, 5, 6000, "a", true, 0⟩]

theorem tables_in_step_comingAndGoing : EachState step InStep {} comingAndGoing :=
  tables_in_step (by decide)

end Csci6780.PubSub.ParticipantManager
