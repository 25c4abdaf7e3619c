import Csci6780.CoordinatorInvariants

/-!
# Requests That Name Nobody

`DetermineParticipant` answers with a zero record when there is no participant of the id, and
the handlers go on with it: they deregister or disconnect the participant with id 0, close
descriptor 0, give a messenger to nobody, or broadcast. This module says exactly when a request
with an unknown id has no effect all the same.

## Main results

* `unknown_participant_iff`: the requests with an unknown id that leave everything as it is.
-/

namespace Csci6780.PubSub

namespace Coordinator

/-- The request changed neither the participants, nor the messengers, nor the log, nor an open
descriptor other than its own, and sent nothing to a participant. -/
structure Unaffected (c : Coordinator) (x : Exchange) (c' : Coordinator) : Prop where
  participants : c'.participants = c.participants
  messengers : c'.messengers = c.messengers
  msgLog : c'.msgLog = c.msgLog
  descriptors : ∀ fd, fd ≠ x.clientFd → c'.descriptors fd = c.descriptors fd
  sent : ∀ number, receivers number c'.trace = receivers number c.trace

/-- When a request with an unknown id finds nothing to change: there is no participant 0 that it
could remove, no messenger for its id, descriptor 0 is closed, and a broadcast would reach
nobody. A reconnection always leaves a messenger. -/
def NothingToChange (c : Coordinator) (x : Exchange) : Prop :=
  match x.request with
  | .deregister id =>
      c.registered 0 = false ∧ c.messengersOf id = 0 ∧ c.descriptors 0 = none
  | .disconnect id => c.connected 0 = false ∧ c.messengersOf id = 0
  | .reconnect _ _ => False
  | .sendMulticast _ _ => ∀ id, c.connected id = true → c.messengersOf id = 0
  | .register _ | .notSet => False

variable {c c' : Coordinator} {x : Exchange} {id : UInt32}

/-- Deregistering the zero record changes nothing exactly when id 0 is unknown. -/
theorem Sound.deregister_zero_iff (h : c.Sound) :
    c.participants.deregisterParticipant Participant.zero = c.participants ↔
      c.registered 0 = false := by
  rw [not_registered_iff]
  constructor
  · intro heq
    rw [← heq, ParticipantManager.idToParticipant_deregisterParticipant]
    exact Function.update_self _ _ _
  · exact fun hnone => h.consistent.deregisterParticipant_of_unknown hnone

/-- Disconnecting the zero record changes nothing exactly when id 0 is not connected. -/
theorem disconnect_zero_iff (now : ℤ) :
    (c.participants.disconnectParticipant Participant.zero now).2 = c.participants ↔
      c.connected 0 = false := by
  constructor
  · intro heq
    have hc := ParticipantManager.isConnectedId_disconnectParticipant c.participants
      Participant.zero now 0
    rw [heq] at hc
    exact hc.trans (by rfl)
  · intro hc
    rw [ParticipantManager.disconnectParticipant_of_not_connected _ Participant.zero _ hc]

theorem reachedIds_eq_nil_iff (x : Exchange) :
    c.reachedIds x = [] ↔ ∀ id, c.connected id = true → c.messengersOf id = 0 := by
  rw [List.eq_nil_iff_forall_not_mem]
  refine forall_congr' fun id => ?_
  rw [← List.count_eq_zero, count_reachedIds]
  cases c.connected id <;> simp

/-- A close leaves the other descriptors as they are. -/
theorem close_zero_iff {ds : Descriptors} {clientFd : ℤ} (hfree : ds clientFd = none) :
    (∀ fd, fd ≠ clientFd → ds.close 0 fd = ds fd) ↔ ds 0 = none := by
  constructor
  · intro h
    by_cases heq : (0 : ℤ) = clientFd
    · rw [heq, hfree]
    · rw [← h 0 heq]
      exact Function.update_self _ _ _
  · intro h0 fd _
    rw [Descriptors.close, ← h0, Function.update_eq_self]

theorem Sound.unaffected_iff (h : c.Sound) (hid : x.request.participantId = some id)
    (hunknown : c.registered id = false) (hs : c.serve x = some c') :
    c.Unaffected x c' ↔ c.NothingToChange x := by
  obtain ⟨hfree, hserved⟩ := served_of_serve h.queue hs
  have hclient := (Descriptors.free_iff.mp hfree).2
  cases hserved with
  | register portNumber id' connected p ds hrequest => rw [hrequest] at hid; cases hid
  | deregister participantId p hrequest hp =>
      rw [hrequest] at hid
      obtain rfl : participantId = id := Option.some.inj hid
      rw [determineParticipant_of_unknown hunknown] at hp
      obtain rfl := hp
      rw [NothingToChange, hrequest]
      constructor
      · intro hu
        exact ⟨h.deregister_zero_iff.mp hu.participants, delete_eq_self_iff.mp hu.messengers,
          (close_zero_iff hclient).mp hu.descriptors⟩
      · rintro ⟨h0, hm, hfd⟩
        exact ⟨h.deregister_zero_iff.mpr h0, delete_eq_self_iff.mpr hm, rfl,
          (close_zero_iff hclient).mpr hfd, fun n => by simp [Event.receiver]⟩
  | disconnect participantId p hrequest hp =>
      rw [hrequest] at hid
      obtain rfl : participantId = id := Option.some.inj hid
      rw [determineParticipant_of_unknown hunknown] at hp
      obtain rfl := hp
      rw [NothingToChange, hrequest]
      constructor
      · intro hu
        exact ⟨(disconnect_zero_iff x.now).mp hu.participants,
          delete_eq_self_iff.mp hu.messengers⟩
      · rintro ⟨h0, hm⟩
        refine ⟨(disconnect_zero_iff x.now).mpr h0, delete_eq_self_iff.mpr hm, rfl,
          fun _ _ => rfl, fun n => ?_⟩
        cases c.participants.isConnected Participant.zero <;> simp [Event.receiver]
  | reconnect portNumber participantId connected p p' ds hrequest hp hconnect =>
      rw [NothingToChange, hrequest]
      refine iff_of_false (fun hu => ?_) not_false
      have hlen := congrArg List.length hu.messengers
      simp at hlen
  | multicast message participantId hrequest =>
      rw [NothingToChange, hrequest]
      dsimp only
      rw [← reachedIds_eq_nil_iff x]
      constructor
      · intro hu
        have hsent := hu.sent c.broadcasts
        rw [receivers_append, List.append_right_eq_self, receivers_multicast] at hsent
        exact hsent
      · intro hnone
        have hreached : c.reached x = [] := List.map_eq_nil_iff.mp hnone
        refine ⟨rfl, rfl, by rw [hreached]; rfl, fun _ _ => rfl, fun n => ?_⟩
        rw [hreached]
        simp [broadcastEvents, Event.receiver]
  | notSet hrequest => rw [hrequest] at hid; cases hid

end Coordinator

/-- **Requests with an unknown id.** In every state that a run of requests reaches, exactly
those that find nothing to change have no effect. -/
theorem unknown_participant_iff (td : ℤ) (ds : Descriptors) (xs : List Exchange)
    {c c' : Coordinator} {x : Exchange} {id : UInt32}
    (hrun : runFrom Coordinator.serve (.start td ds) xs = some c)
    (hid : x.request.participantId = some id) (hunknown : c.registered id = false)
    (hs : c.serve x = some c') : c.Unaffected x c' ↔ c.NothingToChange x :=
  ((Coordinator.sound_start td ds).run hrun).unaffected_iff hid hunknown hs

/-- With one participant registered, nobody with id 7 disconnects. -/
theorem unknown_participant_iff_disconnect :
    ∃ c c', runFrom Coordinator.serve (.start 10 .ofServer)
        [.smooth (.register 5000) 4 5 1] = some c ∧
      c.serve (.smooth (.disconnect 7) 4 6 2) = some c' ∧
      (c.Unaffected (.smooth (.disconnect 7) 4 6 2) c' ↔
        c.NothingToChange (.smooth (.disconnect 7) 4 6 2)) :=
  ⟨_, _, rfl, rfl, unknown_participant_iff 10 .ofServer [.smooth (.register 5000) 4 5 1] rfl rfl
    (by decide) rfl⟩

/-- A request to deregister somebody unknown closes the standard input. -/
theorem unknown_participant_closes_stdin :
    ∃ c', (Coordinator.start 10 .ofServer).serve (.smooth (.deregister 7) 4 5 1) = some c' ∧
      (Coordinator.start 10 .ofServer).registered 7 = false ∧
      ¬(Coordinator.start 10 .ofServer).Unaffected (.smooth (.deregister 7) 4 5 1) c' := by
  refine ⟨_, rfl, by decide, fun h => ?_⟩
  have h0 := h.descriptors 0 (by decide)
  revert h0
  decide

end Csci6780.PubSub
