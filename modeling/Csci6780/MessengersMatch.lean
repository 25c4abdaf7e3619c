import Csci6780.CoordinatorInvariants

/-!
# Messengers and Connected Participants

The messenger manager and the participant manager are updated one after the other by every
handler, and no handler looks at what the registrar reports. This module says which requests
keep the two in step, so that there is exactly one messenger for every connected participant
and none for anyone else.

A connection that fails, a second reconnection and a request that names nobody break it.

## Main results

* `Coordinator.Matched.serve_iff`: exactly the requests that meet `KeepsMatch` keep the match.
* `messengers_match_iff`: a run keeps it exactly when all its requests meet `KeepsMatch`.
-/

namespace Csci6780.PubSub

namespace Coordinator

/-- There is one messenger for every connected participant, and none for anyone else. -/
def Matched (c : Coordinator) : Prop :=
  ∀ id, c.messengersOf id = if c.connected id then 1 else 0

/-- A broadcast from here writes its multicast once for every connected participant, and to
nobody else. -/
def BroadcastsOnce (c : Coordinator) : Prop :=
  ∀ x c' message participantId, x.request = .sendMulticast message participantId →
    c.serve x = some c' → ∀ id, (receivers c.broadcasts c'.trace).count id =
      (receivers c.broadcasts c.trace).count id + if c.connected id then 1 else 0

/-- What a request has to meet to keep messengers and connected participants in step: who
registers is reached; who reconnects is registered, disconnected and reached; who deregisters or
disconnects is registered, or there is no connected participant with id 0. -/
def KeepsMatch (c : Coordinator) (x : Exchange) : Prop :=
  match x.request with
  | .register portNumber =>
      reaches c.descriptors x.attempts x.hostname portNumber.toUInt16 = true
  | .deregister id | .disconnect id => c.registered id = true ∨ c.connected 0 = false
  | .reconnect _ id =>
      c.registered id = true ∧ c.connected id = false ∧
        reaches (c.accept x).descriptors x.attempts (c.determineParticipant id).hostname
          (c.determineParticipant id).port = true
  | .sendMulticast _ _ | .notSet => True

variable {c c' : Coordinator} {x : Exchange}

/-- A broadcast from a matched state reaches every connected participant once. -/
theorem Matched.count_reachedIds (h : c.Matched) (x : Exchange) (id : UInt32) :
    (c.reachedIds x).count id = if c.connected id then 1 else 0 := by
  rw [Coordinator.count_reachedIds, h id]
  cases c.connected id <;> rfl

theorem Matched.broadcastsOnce (h : c.Matched) (hsound : c.Sound) : c.BroadcastsOnce := by
  intro x c' message participantId hrequest hserve id
  cases (served_of_serve hsound.queue hserve).2 with
  | multicast message' participantId' hrequest' =>
      rw [receivers_append, List.count_append, receivers_multicast, h.count_reachedIds]
  | _ =>
      have hne := hrequest.symm.trans ‹_›
      cases hne

/-! ### One request -/

/-- A new messenger together with a new connected participant, or without. -/
theorem matched_add_iff (connected : Bool) {p : Participant} (h : c.Matched)
    (hmessengers : c'.messengers = c.messengers ++ [⟨p⟩])
    (hconnected : ∀ id, c'.connected id = (connected && decide (id = p.id) || c.connected id)) :
    c'.Matched ↔ connected = true ∧ c.connected p.id = false := by
  have hcount : ∀ id, c'.messengersOf id = c.messengersOf id + if id = p.id then 1 else 0 := by
    intro id
    rw [messengersOf, hmessengers]
    exact count_append c p id
  constructor
  · intro h'
    have hp := h' p.id
    rw [hcount, h p.id, hconnected, if_pos rfl, decide_eq_true rfl, Bool.and_true] at hp
    cases connected <;> cases hc : c.connected p.id <;> simp [hc] at hp ⊢
  · rintro ⟨rfl, hp⟩ id
    rw [hcount, h id, hconnected]
    by_cases hid : id = p.id
    · simp [hid, hp]
    · simp [hid]

/-- The messenger of one id is deleted and the participant of another disconnected. -/
theorem matched_remove_iff {participantId : UInt32} {p : Participant} (h : c.Matched)
    (hsound : c.Sound) (hp : c.determineParticipant participantId = p)
    (hmessengers : c'.messengers =
      (c.determineMessenger x participantId).elim c.messengers c.messengers.erase)
    (hconnected : ∀ id, c'.connected id = (decide (id ≠ p.id) && c.connected id)) :
    c'.Matched ↔ c.registered participantId = true ∨ c.connected 0 = false := by
  have hcount : ∀ id, c'.messengersOf id =
      c.messengersOf id - if id = participantId then 1 else 0 := by
    intro id
    rw [messengersOf, hmessengers]
    exact count_delete c x participantId id
  cases hreg : c.registered participantId with
  | true =>
      have hid : p.id = participantId := hp ▸ hsound.id_determineParticipant hreg
      refine iff_of_true (fun id => ?_) (.inl rfl)
      rw [hcount, h id, hconnected, hid]
      by_cases heq : id = participantId
      · cases hc : c.connected id <;> simp [heq]
      · simp [heq]
  | false =>
      have hzero : p.id = 0 := by rw [← hp, determineParticipant_of_unknown hreg]; rfl
      have hnot : c.connected participantId = false := hsound.not_connected hreg
      have hsame : ∀ id, c'.messengersOf id = if c.connected id then 1 else 0 := by
        intro id
        rw [hcount, h id]
        by_cases heq : id = participantId
        · rw [heq, hnot, if_pos rfl]
          rfl
        · rw [if_neg heq, Nat.sub_zero]
      constructor
      · intro h'
        have h0 := h' 0
        rw [hsame, hconnected, hzero] at h0
        cases hc : c.connected 0 with
        | false => exact .inr rfl
        | true => simp [hc] at h0
      · rintro (hfalse | h0) id
        · cases hfalse
        · rw [hsame, hconnected, hzero]
          by_cases heq : id = 0
          · simp [heq, h0]
          · simp [heq]

/-- **Exactly the requests that meet the condition keep the match.** -/
theorem Matched.serve_iff (h : c.Matched) (hsound : c.Sound) (hs : c.serve x = some c') :
    c'.Matched ↔ c.KeepsMatch x := by
  cases (served_of_serve hsound.queue hs).2 with
  | register portNumber id connected p ds hrequest hid hconnect =>
      obtain ⟨round, hfree⟩ := generateID_free hid
      have hp : p.id = id := id_connectToParticipant hconnect
      have hreach := reaches_of_connect hconnect
      simp only [registrant] at hreach
      have hnew : c.connected p.id = false := by
        rw [hp]
        exact ParticipantManager.isConnectedId_eq_false_iff.mpr hfree
      rw [matched_add_iff connected h rfl, KeepsMatch, hrequest]
      · dsimp only
        rw [hreach]
        exact and_iff_left hnew
      · intro id'
        cases connected with
        | true => exact ParticipantManager.isConnectedId_registerParticipant _ _ _
        | false => rfl
  | deregister participantId p hrequest hp =>
      rw [matched_remove_iff h hsound hp rfl, KeepsMatch, hrequest]
      exact fun id => ParticipantManager.isConnectedId_deregisterParticipant _ _ _
  | disconnect participantId p hrequest hp =>
      rw [matched_remove_iff h hsound hp rfl, KeepsMatch, hrequest]
      exact fun id => ParticipantManager.isConnectedId_disconnectParticipant _ _ _ _
  | reconnect portNumber participantId connected p p' ds hrequest hp hconnect =>
      have hid : p'.id = p.id := id_connectToParticipant hconnect
      have hreach := reaches_of_connect hconnect
      rw [KeepsMatch, hrequest]
      dsimp only
      rw [hp, accept, hreach]
      cases hreg : c.registered participantId with
      | true =>
          obtain ⟨record, hrecord⟩ := registered_iff.mp hreg
          have hpid : p.id = participantId := hp ▸ hsound.id_determineParticipant hreg
          have hknown : c.participants.idToParticipant p'.id = some record := by
            rw [hid, hpid]
            exact hrecord
          rw [matched_add_iff connected h rfl, hid, hpid]
          · constructor
            · rintro ⟨hreached, haway⟩
              exact ⟨rfl, haway, hreached⟩
            · rintro ⟨-, haway, hreached⟩
              exact ⟨hreached, haway⟩
          · intro id'
            cases connected with
            | true => exact hsound.consistent.isConnectedId_reconnectParticipant hknown id'
            | false => rfl
      | false =>
          rw [determineParticipant_of_unknown hreg] at hp
          obtain rfl := hp
          have hfalse : connected = false := by
            rw [← hreach]
            exact not_reaches_of_inetPton (by decide) _ _ _
          subst hfalse
          rw [matched_add_iff false h rfl]
          · exact iff_of_false (fun h' => Bool.false_ne_true h'.1) fun h' => Bool.false_ne_true h'.1
          · exact fun id' => rfl
  | multicast message participantId hrequest =>
      rw [KeepsMatch, hrequest]
      exact iff_of_true h trivial
  | notSet hrequest =>
      rw [KeepsMatch, hrequest]
      exact iff_of_true h trivial

theorem matched_start (td : ℤ) (ds : Descriptors) : (start td ds).Matched := fun _ => rfl

end Coordinator

/-- **A run keeps messengers and connected participants in step, and its broadcasts go out once
to everyone, exactly when all its requests meet the condition.** -/
theorem messengers_match_iff {td : ℤ} {ds : Descriptors} {xs : List Exchange} {c : Coordinator}
    (hrun : runFrom Coordinator.serve (.start td ds) xs = some c) :
    EachState Coordinator.serve (fun m => m.Matched ∧ m.BroadcastsOnce) (.start td ds) xs ↔
      EachStep Coordinator.serve Coordinator.KeepsMatch (.start td ds) xs := by
  have hsound := Coordinator.sound_start td ds
  have hmatched := Coordinator.matched_start td ds
  refine eachState_iff_eachStep Coordinator.Sound (fun m x m' hm _ hs => hm.serve hs) ?_ hsound
    ⟨hmatched, hmatched.broadcastsOnce hsound⟩ (fun _ _ _ _ _ => trivial : EachStep _
      (fun _ _ => True) _ _) hrun
  intro m x m' hm hq _ hs
  rw [← hq.1.serve_iff hm hs]
  exact ⟨fun h => h.1, fun h => ⟨h, h.broadcastsOnce (hm.serve hs)⟩⟩

/-- Two participants register, one disconnects and comes back. -/
theorem messengers_match_iff_reconnect :
    ∃ c, runFrom Coordinator.serve (.start 10 .ofServer)
        [.smooth (.register 5000) 4 5 1, .smooth (.register 5001) 4 6 2,
          .smooth (.disconnect 2) 4 7 3, .smooth (.reconnect 5001 2) 4 7 4] = some c ∧
      (EachState Coordinator.serve (fun m => m.Matched ∧ m.BroadcastsOnce) (.start 10 .ofServer)
          [.smooth (.register 5000) 4 5 1, .smooth (.register 5001) 4 6 2,
            .smooth (.disconnect 2) 4 7 3, .smooth (.reconnect 5001 2) 4 7 4] ↔
        EachStep Coordinator.serve Coordinator.KeepsMatch (.start 10 .ofServer)
          [.smooth (.register 5000) 4 5 1, .smooth (.register 5001) 4 6 2,
            .smooth (.disconnect 2) 4 7 3, .smooth (.reconnect 5001 2) 4 7 4]) :=
  ⟨_, rfl, messengers_match_iff rfl⟩

/-- A participant that registers and is not reached is left with a messenger, and is not
connected. -/
theorem messenger_without_participant :
    ∃ c, runFrom Coordinator.serve (.start 10 .ofServer)
        [{ Exchange.smooth (.register 5000) 4 5 1 with attempts := fun _ => ⟨5, false⟩ }] =
          some c ∧ ¬c.Matched := by
  refine ⟨_, rfl, fun h => ?_⟩
  have h1 := h 1
  revert h1
  decide

end Csci6780.PubSub
