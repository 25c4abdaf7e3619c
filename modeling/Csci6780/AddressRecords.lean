import Csci6780.CoordinatorRuns
import Mathlib.Data.List.Basic

/-!
# The Addresses of Participants

The record of a participant is kept three times: in the map of the participant manager, in its
set of connected participants, and in the messenger that writes to the participant. A
reconnection opens a new socket for the new messenger only, and it does not look at the port of
the request. The record in the map goes on naming the socket of the registration, and that is
the socket a deregistration closes.

## Main results

* `Coordinator.Current.serve_iff`: exactly the requests that meet `KeepsAddress` keep all
  addresses current.
* `addresses_current_iff`: a well-formed run keeps them exactly when all its requests do.
-/

namespace Csci6780.PubSub

/-- The port that an event names for the participant. -/
def Event.portOf (id : UInt32) : Event → Option UInt32
  | .asked other port => if other = id then some port else none
  | _ => none

/-- The port that the participant has named last. -/
def latestPort (id : UInt32) (trace : List Event) : Option UInt32 :=
  (trace.filterMap (Event.portOf id)).getLast?

/-- Events that name no port for the participant leave its latest one. -/
theorem latestPort_append_of_none {id : UInt32} (trace : List Event) {more : List Event}
    (h : ∀ e ∈ more, e.portOf id = none) : latestPort id (trace ++ more) = latestPort id trace := by
  rw [latestPort, List.filterMap_append, List.filterMap_eq_nil_iff.mpr h, List.append_nil]
  rfl

/-- A broadcast names no port. -/
theorem portOf_broadcastEvents {id : UInt32} {x : Exchange} {msg : Message} {ms : List Messenger} :
    ∀ e ∈ broadcastEvents x msg ms, e.portOf id = none := by
  intro e he
  cases e with
  | asked other port =>
      have h := (mem_broadcastEvents (by simp)).mp he
      simp at h
  | _ => rfl

namespace Coordinator

/-- **The address of a connected participant is current**: the map and the set have the record
`q`, the participant's one messenger writes to the socket of `q`, that socket leads to the port
named last, and a deregistration from here closes it. -/
structure AddressCurrent (c : Coordinator) (id : UInt32) (q : Participant) (m : Messenger)
    (port : UInt32) : Prop where
  record : c.participants.idToParticipant id = some q
  copy : q ∈ c.participants.getAllConnected
  messenger : c.messengers.filter (fun m => m.participant.id = id) = [m]
  sameSocket : q.sockFd = m.participant.sockFd
  samePort : q.port = m.participant.port
  latest : latestPort id c.trace = some port
  leads : ∃ hostname port',
    c.descriptors m.participant.sockFd = some (.participant hostname port') ∧
      port'.toNat = port.toNat
  closes : ∀ x c', x.request = .deregister id → c.serve x = some c' →
    c'.descriptors m.participant.sockFd = none

/-- The addresses of all connected participants are current. -/
def Current (c : Coordinator) : Prop :=
  ∀ id, c.connected id = true → ∃ q m port, c.AddressCurrent id q m port

/-- What a well-formed request has to meet to keep the addresses current: it is no reconnection,
and who registers names a port of 16 bits. -/
def KeepsAddress (_ : Coordinator) (x : Exchange) : Prop :=
  match x.request with
  | .register portNumber => portNumber.toNat < 2 ^ 16
  | .reconnect _ _ => False
  | .deregister _ | .disconnect _ | .sendMulticast _ _ | .notSet => True

/-- Every record names a socket of its own, and it is open. -/
structure OwnSockets (c : Coordinator) : Prop where
  isOpen : ∀ id p, c.participants.idToParticipant id = some p → c.descriptors p.sockFd ≠ none
  inj : ∀ id id' p p', c.participants.idToParticipant id = some p →
    c.participants.idToParticipant id' = some p' → p.sockFd = p'.sockFd → id = id'

variable {c c' : Coordinator} {x : Exchange} {id : UInt32}

/-! ### Sockets of the records -/

/-- Records that keep their sockets, and those open, keep sockets of their own. -/
theorem OwnSockets.of_records (h : c.OwnSockets)
    (hrecords : ∀ id p', c'.participants.idToParticipant id = some p' →
      ∃ p, c.participants.idToParticipant id = some p ∧ p'.sockFd = p.sockFd ∧
        c'.descriptors p.sockFd = c.descriptors p.sockFd) : c'.OwnSockets where
  isOpen id p' hp' := by
    obtain ⟨p, hp, hsock, hkept⟩ := hrecords id p' hp'
    rw [hsock, hkept]
    exact h.isOpen id p hp
  inj id₁ id₂ p₁' p₂' hp₁' hp₂' heq := by
    obtain ⟨p₁, hp₁, hsock₁, -⟩ := hrecords id₁ p₁' hp₁'
    obtain ⟨p₂, hp₂, hsock₂, -⟩ := hrecords id₂ p₂' hp₂'
    exact h.inj id₁ id₂ p₁ p₂ hp₁ hp₂ (hsock₁.symm.trans (heq.trans hsock₂))

/-- A new record with a socket that was closed. -/
theorem OwnSockets.register {p : Participant} (h : c.OwnSockets)
    (hmap : c'.participants.idToParticipant =
      Function.update c.participants.idToParticipant p.id (some p))
    (hext : c'.descriptors.Extends c.descriptors) (hclosed : c.descriptors p.sockFd = none)
    (hopen : c'.descriptors p.sockFd ≠ none) : c'.OwnSockets := by
  have hne : ∀ id q, c.participants.idToParticipant id = some q → q.sockFd ≠ p.sockFd := by
    intro id q hq heq
    exact h.isOpen id q hq (heq ▸ hclosed)
  have hcases : ∀ id q, c'.participants.idToParticipant id = some q →
      id = p.id ∧ p = q ∨ id ≠ p.id ∧ c.participants.idToParticipant id = some q := by
    intro id q hq
    rw [hmap, Function.update_apply] at hq
    split at hq
    · next hid => exact .inl ⟨hid, Option.some.inj hq⟩
    · next hid => exact .inr ⟨hid, hq⟩
  constructor
  · intro id q hq
    rcases hcases id q hq with ⟨-, rfl⟩ | ⟨-, hq⟩
    · exact hopen
    · rw [hext _ (h.isOpen id q hq)]
      exact h.isOpen id q hq
  · intro id₁ id₂ q₁ q₂ hq₁ hq₂ heq
    rcases hcases id₁ q₁ hq₁ with ⟨rfl, rfl⟩ | ⟨-, hq₁⟩ <;>
      rcases hcases id₂ q₂ hq₂ with ⟨rfl, rfl⟩ | ⟨-, hq₂⟩
    · rfl
    · exact absurd heq.symm (hne _ _ hq₂)
    · exact absurd heq (hne _ _ hq₁)
    · exact h.inj id₁ id₂ q₁ q₂ hq₁ hq₂ heq

theorem ownSockets_start (td : ℤ) (ds : Descriptors) : (start td ds).OwnSockets where
  isOpen _ _ h := nomatch h
  inj _ _ _ _ h := nomatch h

theorem OwnSockets.serve (h : c.OwnSockets) (hsound : c.Sound) (hw : c.WellFormed x)
    (hs : c.serve x = some c') (hok : c'.AllConnected) : c'.OwnSockets := by
  obtain ⟨hfree, hserved⟩ := served_of_serve hsound.queue hs
  have hclosed := (Descriptors.free_iff.mp hfree).2
  -- the descriptor of the request is nobody's
  have hother : ∀ id p, c.participants.idToParticipant id = some p → p.sockFd ≠ x.clientFd := by
    intro id p hp heq
    exact h.isOpen id p hp (heq ▸ hclosed)
  cases hserved with
  | register portNumber new connected p ds hrequest hid hconnect =>
      obtain rfl := hok.eq_true (by simp : Event.connecting connected ∈ _)
      obtain ⟨hext, ⟨hfalse, -⟩ | ⟨-, -, sock, -, hsock, hpeer, rfl⟩⟩ :=
        connectToParticipant_cases _ _ _ hconnect
      · cases hfalse
      · exact h.register rfl hext hsock (by simp [hpeer])
  | deregister participantId p hrequest hp =>
      rw [WellFormed, hrequest] at hw
      obtain ⟨q, hq⟩ := registered_iff.mp hw
      obtain rfl : q = p := (determineParticipant_of_registered hq).symm.trans hp
      refine h.of_records fun id p' hp' => ?_
      rw [ParticipantManager.idToParticipant_deregisterParticipant,
        hsound.consistent.key _ _ hq, Function.update_apply] at hp'
      split at hp'
      · cases hp'
      · next hne =>
          refine ⟨p', hp', rfl, Function.update_of_ne ?_ _ _⟩
          exact fun heq => hne (h.inj _ _ _ _ hp' hq heq)
  | disconnect participantId p hrequest hp =>
      rw [WellFormed, hrequest] at hw
      obtain ⟨q, hq⟩ := registered_iff.mp hw.1
      obtain rfl : q = p := (determineParticipant_of_registered hq).symm.trans hp
      have hkey := hsound.consistent.key _ _ hq
      have hmap : (c.participants.disconnectParticipant q x.now).2.idToParticipant = _ :=
        ParticipantManager.disconnectParticipant_of_connected (hkey ▸ hw.2) (hkey ▸ hq)
      refine h.of_records fun id p' hp' => ?_
      rw [hmap, hkey, Function.update_apply] at hp'
      split at hp'
      · next heq =>
          obtain rfl := Option.some.inj hp'
          exact ⟨q, heq ▸ hq, rfl, rfl⟩
      · exact ⟨p', hp', rfl, rfl⟩
  | reconnect portNumber participantId connected p p' ds hrequest hp hconnect =>
      obtain rfl := hok.eq_true (by simp : Event.connecting connected ∈ _)
      rw [WellFormed, hrequest] at hw
      obtain ⟨q, hq⟩ := registered_iff.mp hw.1
      obtain rfl : q = p := (determineParticipant_of_registered hq).symm.trans hp
      have hid : p'.id = participantId :=
        (id_connectToParticipant hconnect).trans (hsound.consistent.key _ _ hq)
      have hmap := ParticipantManager.reconnectParticipant_of_known (p := p') (hid ▸ hq)
      have hext := (connectToParticipant_cases _ _ _ hconnect).1
      refine h.of_records fun id r hr => ?_
      rw [if_pos rfl, hmap, hid, Function.update_apply] at hr
      -- the record's socket was open, so that neither the connection nor the end of the
      -- request touched it
      have hkept : ∀ id p, c.participants.idToParticipant id = some p →
          (ds.close x.clientFd) p.sockFd = c.descriptors p.sockFd := by
        intro id p hp
        have hne := hother id p hp
        have haccept : (c.descriptors.openAs x.clientFd .request) p.sockFd =
            c.descriptors p.sockFd := Function.update_of_ne hne _ _
        rw [Descriptors.close, Function.update_of_ne hne, ← haccept]
        refine hext _ ?_
        rw [haccept]
        exact h.isOpen id p hp
      split at hr
      · next heq =>
          obtain rfl := Option.some.inj hr
          exact ⟨q, heq ▸ hq, rfl, hkept _ _ hq⟩
      · exact ⟨r, hr, rfl, hkept _ _ hr⟩
  | multicast message participantId hrequest => exact ⟨h.isOpen, h.inj⟩
  | notSet hrequest =>
      refine h.of_records fun id p hp => ⟨p, hp, rfl, ?_⟩
      exact Function.update_of_ne (hother id p hp) _ _

/-! ### One address -/

/-- A deregistration closes the socket of the record. -/
theorem Sound.closes {q : Participant} (h : c.Sound)
    (hq : c.participants.idToParticipant id = some q) (hrequest : x.request = .deregister id)
    (hs : c.serve x = some c') : c'.descriptors q.sockFd = none := by
  cases (served_of_serve h.queue hs).2 with
  | deregister participantId p hrequest' hp =>
      obtain rfl : id = participantId := by
        rw [hrequest] at hrequest'
        exact CoordinatorMessage.deregister.inj hrequest'
      obtain rfl : q = p := (determineParticipant_of_registered hq).symm.trans hp
      exact Function.update_self _ _ _
  | _ =>
      have hne := hrequest.symm.trans ‹_›
      cases hne

/-- An address stays current while nothing of it is touched. -/
theorem AddressCurrent.frame {q : Participant} {m : Messenger} {port : UInt32}
    (h : c.AddressCurrent id q m port) (hsound : c'.Sound)
    (hmap : c'.participants.idToParticipant id = c.participants.idToParticipant id)
    (hcopy : q ∈ c'.participants.getAllConnected)
    (hmessengers : c'.messengers.filter (fun m => m.participant.id = id) =
      c.messengers.filter fun m => m.participant.id = id)
    (hlatest : latestPort id c'.trace = latestPort id c.trace)
    (hkept : c'.descriptors m.participant.sockFd = c.descriptors m.participant.sockFd) :
    c'.AddressCurrent id q m port where
  record := hmap.trans h.record
  copy := hcopy
  messenger := hmessengers.trans h.messenger
  sameSocket := h.sameSocket
  samePort := h.samePort
  latest := hlatest.trans h.latest
  leads := hkept ▸ h.leads
  closes _ _ hrequest hs := h.sameSocket ▸ hsound.closes (hmap.trans h.record) hrequest hs

/-- The socket of a current address is open. -/
theorem AddressCurrent.isOpen {q : Participant} {m : Messenger} {port : UInt32}
    (h : c.AddressCurrent id q m port) : c.descriptors m.participant.sockFd ≠ none := by
  obtain ⟨hostname, port', hpeer, -⟩ := h.leads
  rw [hpeer]
  exact Option.some_ne_none _

theorem filter_messengers_of_none (h : c.messengersOf id = 0) :
    c.messengers.filter (fun m => m.participant.id = id) = [] := by
  rw [List.filter_eq_nil_iff]
  intro m hm hid
  exact List.count_eq_zero.mp h (List.mem_map.mpr ⟨m, hm, of_decide_eq_true hid⟩)

/-- A new messenger is among those of its participant. -/
theorem filter_messengers_append (messengers : List Messenger) (p : Participant)
    (id : UInt32) : (messengers ++ [(⟨p⟩ : Messenger)]).filter (fun m => m.participant.id = id) =
      messengers.filter (fun m => m.participant.id = id) ++ if p.id = id then [⟨p⟩] else [] := by
  rw [List.filter_append]
  by_cases h : p.id = id <;> simp [h]

/-- Deleting the messenger of one id leaves those of the others. -/
theorem filter_messengers_delete {other : UInt32} (h : id ≠ other) :
    ((c.determineMessenger x other).elim c.messengers c.messengers.erase).filter
      (fun m => m.participant.id = id) =
        c.messengers.filter fun m => m.participant.id = id := by
  cases hm : c.determineMessenger x other with
  | none => rfl
  | some m =>
      have hid := (determineMessenger_eq_some hm).2
      rw [Option.elim_some, ← List.erase_filter]
      refine List.erase_of_not_mem fun hmem => h ?_
      exact (of_decide_eq_true (List.mem_filter.mp hmem).2).symm.trans hid

/-! ### One request -/

/-- After a registration the addresses are current exactly when the port is one. -/
theorem Current.register_iff {portNumber new : UInt32} {p : Participant} {ds : Descriptors}
    {trace : List Event} (h : c.Current) (hsound' : c'.Sound) (hmatched : c.Matched)
    (hnew : c.connected new = false)
    (hconnect : connectToParticipant c.descriptors x.attempts (registrant x portNumber new) =
      (true, p, ds))
    (hparticipants : c'.participants = c.participants.registerParticipant p)
    (hmessengers : c'.messengers = c.messengers ++ [⟨p⟩]) (hds : c'.descriptors = ds)
    (htrace : c'.trace = c.trace ++ trace)
    (hports : ∀ id, trace.filterMap (Event.portOf id) = if new = id then [portNumber] else []) :
    c'.Current ↔ portNumber.toNat < 2 ^ 16 := by
  have hpid : p.id = new := id_connectToParticipant hconnect
  have hmap : c'.participants.idToParticipant =
      Function.update c.participants.idToParticipant new (some p) := by
    rw [hparticipants, ParticipantManager.idToParticipant_registerParticipant, hpid]
  have hconnected : ∀ id, c'.connected id = (decide (id = new) || c.connected id) := by
    intro id
    rw [connected, hparticipants, ParticipantManager.isConnectedId_registerParticipant, hpid]
    rfl
  have hfilter : ∀ id, c'.messengers.filter (fun m => m.participant.id = id) =
      c.messengers.filter (fun m => m.participant.id = id) ++
        if new = id then [⟨p⟩] else [] := by
    intro id
    rw [hmessengers, filter_messengers_append, hpid]
  have hlatest : latestPort new c'.trace = some portNumber := by
    rw [latestPort, htrace, List.filterMap_append, hports, if_pos rfl, List.getLast?_concat]
  obtain ⟨hext, ⟨hfalse, -⟩ | ⟨-, -, sock, -, hclosed, hpeer, hp⟩⟩ :=
    connectToParticipant_cases _ _ _ hconnect
  · cases hfalse
  have hsock : p.sockFd = sock := by rw [hp]
  have hone : c'.messengers.filter (fun m => m.participant.id = new) = [⟨p⟩] := by
    rw [hfilter, if_pos rfl, filter_messengers_of_none, List.nil_append]
    rw [hmatched, hnew]
    rfl
  constructor
  · intro h'
    obtain ⟨q, m, port, hq⟩ := h' new (by rw [hconnected, decide_eq_true rfl, Bool.true_or])
    obtain rfl : (⟨p⟩ : Messenger) = m := List.singleton_inj.mp (hone.symm.trans hq.messenger)
    obtain rfl : portNumber = port := Option.some.inj (hlatest.symm.trans hq.latest)
    obtain ⟨hostname, port', hleads, hport⟩ := hq.leads
    rw [hds, hsock, hpeer] at hleads
    obtain ⟨-, rfl⟩ := Peer.participant.inj (Option.some.inj hleads)
    rw [← hport]
    exact UInt16.toNat_lt _
  · intro hport id hid
    by_cases heq : id = new
    · subst heq
      refine ⟨p, ⟨p⟩, portNumber, ?_, ?_, hone, rfl, rfl, hlatest, ?_, ?_⟩
      · rw [hmap, Function.update_self]
      · rw [hparticipants, ParticipantManager.getAllConnected,
          ParticipantManager.registerParticipant, UnorderedSet.elements_insert]
        · exact List.mem_append_right _ (List.mem_singleton_self p)
        · rw [hpid]
          exact hnew
      · refine ⟨x.hostname, portNumber.toUInt16, ?_, ?_⟩
        · rw [hds, hsock]
          exact hpeer
        · rw [UInt32.toNat_toUInt16]
          exact Nat.mod_eq_of_lt hport
      · intro y c'' hrequest hs
        refine hsound'.closes ?_ hrequest hs
        rw [hmap, Function.update_self]
    · rw [hconnected, decide_eq_false heq, Bool.false_or] at hid
      obtain ⟨q, m, port, hq⟩ := h id hid
      refine ⟨q, m, port, hq.frame hsound' ?_ ?_ ?_ ?_ ?_⟩
      · rw [hmap, Function.update_of_ne heq]
      · rw [hparticipants]
        exact UnorderedSet.mem_insert_of_mem hq.copy
      · rw [hfilter, if_neg (Ne.symm heq), List.append_nil]
      · rw [latestPort, htrace, List.filterMap_append, hports, if_neg (Ne.symm heq),
          List.append_nil]
        rfl
      · rw [hds]
        exact hext _ hq.isOpen

/-- After a reconnection the record names the old socket, and the messenger has a new one. -/
theorem Current.not_reconnect {participantId : UInt32} {p p' : Participant} {ds : Descriptors}
    (hsound : c.Sound) (hmatched : c.Matched) (hown : c.OwnSockets)
    (hnot : c.connected participantId = false)
    (hp : c.participants.idToParticipant participantId = some p)
    (hconnect : connectToParticipant (c.descriptors.openAs x.clientFd .request) x.attempts p =
      (true, p', ds))
    (hparticipants : c'.participants = (c.participants.reconnectParticipant p').2)
    (hmessengers : c'.messengers = c.messengers ++ [⟨p'⟩]) : ¬c'.Current := by
  have hid : p'.id = participantId :=
    (id_connectToParticipant hconnect).trans (hsound.consistent.key _ _ hp)
  have hmap := ParticipantManager.reconnectParticipant_of_known (p := p') (hid ▸ hp)
  obtain ⟨-, ⟨hfalse, -⟩ | ⟨-, -, sock, -, hclosed, -, hp'⟩⟩ :=
    connectToParticipant_cases _ _ _ hconnect
  · cases hfalse
  -- the old socket is open, so that the new one differs from it
  have hne : p.sockFd ≠ sock := by
    rintro rfl
    refine hown.isOpen _ _ hp ?_
    rw [Descriptors.openAs, Function.update_apply] at hclosed
    split at hclosed
    · cases hclosed
    · exact hclosed
  have hconnected : c'.connected participantId = true := by
    rw [connected, hparticipants,
      hsound.consistent.isConnectedId_reconnectParticipant (hid ▸ hp), hid, decide_eq_true rfl,
      Bool.true_or]
  intro h'
  obtain ⟨q, m, port, hq⟩ := h' participantId hconnected
  have hone := hq.messenger
  rw [hmessengers, filter_messengers_append, hid, if_pos rfl, filter_messengers_of_none,
    List.nil_append] at hone
  · obtain rfl : (⟨p'⟩ : Messenger) = m := List.singleton_inj.mp hone
    have hrecord := hq.record
    rw [hparticipants, hmap, hid, Function.update_self] at hrecord
    obtain rfl := Option.some.inj hrecord
    refine hne (hq.sameSocket.trans ?_)
    rw [hp']
  · rw [hmatched, hnot]
    rfl

/-- **Exactly the requests that meet the condition keep the addresses current.** -/
theorem Current.serve_iff (h : c.Current) (hsound : c.Sound) (hmatched : c.Matched)
    (hown : c.OwnSockets) (hw : c.WellFormed x) (hs : c.serve x = some c')
    (hok : c'.AllConnected) : c'.Current ↔ c.KeepsAddress x := by
  have hsound' := hsound.serve hs
  obtain ⟨hfree, hserved⟩ := served_of_serve hsound.queue hs
  have hclosed := (Descriptors.free_iff.mp hfree).2
  rw [KeepsAddress]
  cases hserved with
  | register portNumber new connected p ds hrequest hid hconnect =>
      obtain rfl := hok.eq_true (by simp : Event.connecting connected ∈ _)
      obtain ⟨round, hnew⟩ := generateID_free hid
      rw [hrequest]
      refine h.register_iff hsound' hmatched
        (ParticipantManager.isConnectedId_eq_false_iff.mpr hnew) hconnect rfl rfl rfl rfl ?_
      intro id
      by_cases heq : new = id <;> simp [List.filterMap_cons, Event.portOf, heq]
  | deregister participantId p hrequest hp =>
      rw [WellFormed, hrequest] at hw
      rw [hrequest]
      refine iff_of_true (fun id hid => ?_) trivial
      obtain ⟨record, hrecord⟩ := registered_iff.mp hw
      obtain rfl : record = p := (determineParticipant_of_registered hrecord).symm.trans hp
      have hkey := hsound.consistent.key _ _ hrecord
      rw [Coordinator.connected, ParticipantManager.isConnectedId_deregisterParticipant, hkey,
        Bool.and_eq_true, decide_eq_true_iff] at hid
      obtain ⟨q, m, port, hq⟩ := h id hid.2
      refine ⟨q, m, port, hq.frame hsound' ?_ ?_ (filter_messengers_delete hid.1) ?_ ?_⟩
      · rw [ParticipantManager.idToParticipant_deregisterParticipant, hkey,
          Function.update_of_ne hid.1]
      · refine (UnorderedSet.mem_erase _ _ _).mpr ⟨hq.copy, ?_⟩
        rw [hkey, hsound.consistent.key _ _ hq.record]
        exact hid.1
      · exact latestPort_append_of_none _ (by simp [Event.portOf])
      · refine Function.update_of_ne ?_ _ _
        rw [← hq.sameSocket]
        exact fun heq => hid.1 (hown.inj _ _ _ _ hq.record hrecord heq)
  | disconnect participantId p hrequest hp =>
      rw [WellFormed, hrequest] at hw
      rw [hrequest]
      refine iff_of_true (fun id hid => ?_) trivial
      obtain ⟨record, hrecord⟩ := registered_iff.mp hw.1
      obtain rfl : record = p := (determineParticipant_of_registered hrecord).symm.trans hp
      have hkey := hsound.consistent.key _ _ hrecord
      rw [Coordinator.connected, ParticipantManager.isConnectedId_disconnectParticipant, hkey,
        Bool.and_eq_true, decide_eq_true_iff] at hid
      have hmap : (c.participants.disconnectParticipant record x.now).2.idToParticipant = _ :=
        ParticipantManager.disconnectParticipant_of_connected (hkey ▸ hw.2) (hkey ▸ hrecord)
      obtain ⟨q, m, port, hq⟩ := h id hid.2
      refine ⟨q, m, port, hq.frame hsound' ?_ ?_ (filter_messengers_delete hid.1) ?_ rfl⟩
      · rw [hmap, hkey, Function.update_of_ne hid.1]
      · have hset : (c.participants.disconnectParticipant record x.now).2.connectedParticipants =
            c.participants.connectedParticipants.erase record.id := by
          rw [ParticipantManager.disconnectParticipant, ParticipantManager.isConnected,
            if_pos (hkey ▸ hw.2)]
        rw [ParticipantManager.getAllConnected, hset, UnorderedSet.mem_erase]
        refine ⟨hq.copy, ?_⟩
        rw [hkey, hsound.consistent.key _ _ hq.record]
        exact hid.1
      · refine latestPort_append_of_none _ fun e he => ?_
        split at he <;> simp at he <;> rcases he with rfl | rfl <;> rfl
  | reconnect portNumber participantId connected p p' ds hrequest hp hconnect =>
      obtain rfl := hok.eq_true (by simp : Event.connecting connected ∈ _)
      rw [WellFormed, hrequest] at hw
      rw [hrequest]
      obtain ⟨record, hrecord⟩ := registered_iff.mp hw.1
      obtain rfl : record = p := (determineParticipant_of_registered hrecord).symm.trans hp
      refine iff_of_false ?_ not_false
      exact Current.not_reconnect hsound hmatched hown hw.2 hrecord hconnect rfl rfl
  | multicast message participantId hrequest =>
      rw [hrequest]
      refine iff_of_true (fun id hid => ?_) trivial
      obtain ⟨q, m, port, hq⟩ := h id hid
      refine ⟨q, m, port, hq.frame hsound' rfl hq.copy rfl ?_ rfl⟩
      refine latestPort_append_of_none _ fun e he => ?_
      rcases List.mem_cons.mp he with rfl | he
      · rfl
      · rcases List.mem_append.mp he with he | he
        · exact portOf_broadcastEvents e he
        · obtain rfl := List.mem_singleton.mp he
          rfl
  | notSet hrequest =>
      rw [hrequest]
      refine iff_of_true (fun id hid => ?_) trivial
      obtain ⟨q, m, port, hq⟩ := h id hid
      refine ⟨q, m, port, hq.frame hsound' rfl hq.copy rfl rfl ?_⟩
      exact Descriptors.extends_openAs _ hclosed _ hq.isOpen

end Coordinator

/-- **A well-formed run whose connections succeed keeps the addresses of the participants
current exactly when nobody reconnects, and every port is one.** -/
theorem addresses_current_iff (td : ℤ) (ds : Descriptors) (xs : List Exchange)
    {c : Coordinator} (hrun : runFrom Coordinator.serve (.start td ds) xs = some c)
    (hwell : EachStep Coordinator.serve Coordinator.WellFormed (.start td ds) xs)
    (hok : c.AllConnected) :
    EachState Coordinator.serve Coordinator.Current (.start td ds) xs ↔
      EachStep Coordinator.serve Coordinator.KeepsAddress (.start td ds) xs := by
  have hsound := Coordinator.sound_start td ds
  have hall := hwell.and (Coordinator.eachState_of_history (fun h => h.back) hsound hrun hok).next
  refine eachState_iff_eachStep (fun m => m.Sound ∧ m.Matched ∧ m.OwnSockets) ?_ ?_
    ⟨hsound, Coordinator.matched_start td ds, Coordinator.ownSockets_start td ds⟩
    (fun _ hid => nomatch hid) hall hrun
  · rintro m x m' ⟨hm, hmatched, hown⟩ ⟨hw, hgood⟩ hs
    have hok' := hgood m' hs
    exact ⟨hm.serve hs, (hmatched.serve_iff hm hs).mpr (hw.keepsMatch hm hs hok'),
      hown.serve hm hw hs hok'⟩
  · rintro m x m' ⟨hm, hmatched, hown⟩ hcurrent ⟨hw, hgood⟩ hs
    exact hcurrent.serve_iff hm hmatched hown hw hs (hgood m' hs)

/-- Two participants register, and one leaves. -/
theorem addresses_current_iff_two :
    ∃ c, runFrom Coordinator.serve (.start 10 .ofServer)
        [.smooth (.register 5000) 4 5 1, .smooth (.register 5001) 4 6 2,
          .smooth (.deregister 1) 4 7 3] = some c ∧
      (EachState Coordinator.serve Coordinator.Current (.start 10 .ofServer)
          [.smooth (.register 5000) 4 5 1, .smooth (.register 5001) 4 6 2,
            .smooth (.deregister 1) 4 7 3] ↔
        EachStep Coordinator.serve Coordinator.KeepsAddress (.start 10 .ofServer)
          [.smooth (.register 5000) 4 5 1, .smooth (.register 5001) 4 6 2,
            .smooth (.deregister 1) 4 7 3]) := by
  refine ⟨_, rfl, addresses_current_iff 10 .ofServer _ rfl (by decide) ?_⟩
  unfold Coordinator.AllConnected
  decide

/-- A participant comes back on another port: its messenger writes to the new socket 6, which
leads to the old port 5000, and the record names the old socket 5. -/
theorem reconnected_address_stale :
    ∃ c, runFrom Coordinator.serve (.start 10 .ofServer)
        [.smooth (.register 5000) 4 5 1, .smooth (.disconnect 1) 4 6 2,
          .smooth (.reconnect 6000 1) 4 6 3] = some c ∧
      EachStep Coordinator.serve Coordinator.WellFormed (.start 10 .ofServer)
        [.smooth (.register 5000) 4 5 1, .smooth (.disconnect 1) 4 6 2,
          .smooth (.reconnect 6000 1) 4 6 3] ∧ c.AllConnected ∧ ¬c.Current := by
  refine ⟨_, rfl, by decide, ?_, fun h => ?_⟩
  · unfold Coordinator.AllConnected
    decide
  · obtain ⟨q, m, port, hq⟩ := h 1 rfl
    obtain rfl := Option.some.inj hq.record
    obtain rfl := List.singleton_inj.mp hq.messenger
    exact absurd hq.sameSocket (by decide)

end Csci6780.PubSub
