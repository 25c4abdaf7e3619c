import Csci6780.Coordinator

/-!
# One Request of the Coordinator

What the coordinator does with one request, said once: `Served` has a case for each kind of
request, with the state it leaves written out. Everything about runs is proved from these cases,
without unfolding a handler again.

## Main results

* `Coordinator.broadcastMessage_eq`: a broadcast, as the connected messengers in the order of
  iteration.
* `Coordinator.sendMissedMessages_eq`: a replay, up to the first send that fails.
* `Coordinator.served_of_serve`: every request is one of the cases of `Served`.
-/

namespace Csci6780.PubSub

/-! ### Histories -/

/-- The participant to whom an event sends the multicast. -/
def Event.receiver (number : ℕ) : Event → Option UInt32
  | .sent _ receiver msg _ => if msg.number = number then some receiver else none
  | _ => none

/-- The participants that were sent the multicast, with an entry for each time. -/
def receivers (number : ℕ) (trace : List Event) : List UInt32 :=
  trace.filterMap (Event.receiver number)

/-- The time an event reads. -/
def Event.time : Event → Option ℤ
  | .reading time => some time
  | _ => none

/-- The readings of the clock. -/
def readings (trace : List Event) : List ℤ := trace.filterMap Event.time

@[simp] theorem receivers_nil (number : ℕ) : receivers number [] = [] := rfl

@[simp] theorem receivers_append (number : ℕ) (trace more : List Event) :
    receivers number (trace ++ more) = receivers number trace ++ receivers number more :=
  List.filterMap_append

@[simp] theorem receivers_cons (number : ℕ) (e : Event) (trace : List Event) :
    receivers number (e :: trace) = (e.receiver number).toList ++ receivers number trace := by
  rw [receivers, List.filterMap_cons]
  cases e.receiver number <;> rfl

@[simp] theorem readings_nil : readings [] = [] := rfl

@[simp] theorem readings_append (trace more : List Event) :
    readings (trace ++ more) = readings trace ++ readings more :=
  List.filterMap_append

@[simp] theorem readings_cons (e : Event) (trace : List Event) :
    readings (e :: trace) = e.time.toList ++ readings trace := by
  rw [readings, List.filterMap_cons]
  cases e.time <;> rfl

theorem mem_receivers {number : ℕ} {trace : List Event} {id : UInt32} :
    id ∈ receivers number trace ↔
      ∃ fd msg ok, Event.sent fd id msg ok ∈ trace ∧ msg.number = number := by
  rw [receivers, List.mem_filterMap]
  constructor
  · rintro ⟨e, he, hid⟩
    cases e with
    | sent fd receiver msg ok =>
        rw [Event.receiver, Option.ite_none_right_eq_some] at hid
        obtain rfl : receiver = id := Option.some.inj hid.2
        exact ⟨fd, msg, ok, he, hid.1⟩
    | _ => cases hid
  · rintro ⟨fd, msg, ok, he, hnumber⟩
    exact ⟨.sent fd id msg ok, he, if_pos hnumber⟩

/-- The sends of one message to messengers, from the `k`-th send of the request on. -/
def deliveries (x : Exchange) (msg : Message) : ℕ → List Messenger → List Event
  | _, [] => []
  | k, m :: ms =>
      .sent m.participant.sockFd m.participant.id msg (x.sends k) :: deliveries x msg (k + 1) ms

/-- What a broadcast does when it finds these messengers connected. -/
def broadcastEvents (x : Exchange) (msg : Message) : List Messenger → List Event
  | [] => []
  | m :: ms =>
      .sent m.participant.sockFd m.participant.id msg (x.sends 0) :: .reading x.now ::
        .logged msg.number x.now :: deliveries x { msg with timestamp := x.now } 1 ms

/-- The log after a broadcast that finds these messengers connected. -/
def loggedBy (log : MessageLog) (x : Exchange) (msg : Message) : List Messenger → MessageLog
  | [] => log
  | _ :: _ => log.insert { msg with timestamp := x.now }

/-- What a replay does, from the `k`-th send of the request on. -/
def replays (x : Exchange) (m : Messenger) : ℕ → List Message → List Event
  | _, [] => []
  | k, msg :: msgs =>
      .sent m.participant.sockFd m.participant.id msg (x.sends k) ::
        if x.sends k then replays x m (k + 1) msgs else []

@[simp] theorem receivers_deliveries (x : Exchange) (msg : Message) (k : ℕ)
    (ms : List Messenger) (number : ℕ) :
    receivers number (deliveries x msg k ms) =
      if msg.number = number then ms.map fun m => m.participant.id else [] := by
  induction ms generalizing k with
  | nil => simp [deliveries]
  | cons m ms ih =>
      rw [deliveries, receivers_cons, ih (k + 1), Event.receiver]
      by_cases h : msg.number = number <;> simp [h]

theorem receivers_broadcastEvents (x : Exchange) (msg : Message) (ms : List Messenger)
    (number : ℕ) :
    receivers number (broadcastEvents x msg ms) =
      if msg.number = number then ms.map fun m => m.participant.id else [] := by
  cases ms with
  | nil => simp [broadcastEvents]
  | cons m ms =>
      by_cases h : msg.number = number <;> simp [broadcastEvents, Event.receiver, h]

theorem mem_deliveries {x : Exchange} {msg : Message} {k : ℕ} {ms : List Messenger} {e : Event}
    (h : e ∈ deliveries x msg k ms) : ∃ fd id ok, e = .sent fd id msg ok := by
  induction ms generalizing k with
  | nil => exact absurd h List.not_mem_nil
  | cons m ms ih =>
      rcases List.mem_cons.mp h with rfl | h
      · exact ⟨_, _, _, rfl⟩
      · exact ih h

theorem mem_replays {x : Exchange} {m : Messenger} {k : ℕ} {msgs : List Message} {e : Event}
    (h : e ∈ replays x m k msgs) :
    ∃ msg ∈ msgs, ∃ ok, e = .sent m.participant.sockFd m.participant.id msg ok := by
  induction msgs generalizing k with
  | nil => exact absurd h List.not_mem_nil
  | cons msg msgs ih =>
      rcases List.mem_cons.mp h with rfl | h
      · exact ⟨msg, List.mem_cons_self, _, rfl⟩
      · split at h
        · obtain ⟨msg', hmsg', ok, rfl⟩ := ih h
          exact ⟨msg', List.mem_cons_of_mem msg hmsg', ok, rfl⟩
        · exact absurd h List.not_mem_nil

/-- A replay does nothing but send. -/
theorem not_mem_replays {x : Exchange} {m : Messenger} {k : ℕ} {msgs : List Message} {e : Event}
    (h : ∀ fd id msg ok, e ≠ .sent fd id msg ok) : e ∉ replays x m k msgs := by
  intro hmem
  obtain ⟨msg, -, ok, rfl⟩ := mem_replays hmem
  exact h _ _ _ _ rfl

/-- Beside sending, a broadcast that reaches somebody reads the clock and logs its message. -/
theorem mem_broadcastEvents {x : Exchange} {msg : Message} {ms : List Messenger} {e : Event}
    (h : ∀ fd id msg ok, e ≠ .sent fd id msg ok) :
    e ∈ broadcastEvents x msg ms ↔
      ms ≠ [] ∧ (e = .reading x.now ∨ e = .logged msg.number x.now) := by
  cases ms with
  | nil => simp [broadcastEvents]
  | cons m ms =>
      have hrest : e ∉ deliveries x { msg with timestamp := x.now } 1 ms := by
        intro hmem
        obtain ⟨fd, id, ok, rfl⟩ := mem_deliveries hmem
        exact h _ _ _ _ rfl
      simp [broadcastEvents, h, hrest]

/-- A projection that no send has is empty over deliveries. -/
theorem filterMap_deliveries {β : Type} {g : Event → Option β}
    (h : ∀ fd id msg ok, g (.sent fd id msg ok) = none) (x : Exchange) (msg : Message) (k : ℕ)
    (ms : List Messenger) : (deliveries x msg k ms).filterMap g = [] := by
  rw [List.filterMap_eq_nil_iff]
  intro e he
  obtain ⟨fd, id, ok, rfl⟩ := mem_deliveries he
  exact h fd id msg ok

theorem readings_broadcastEvents (x : Exchange) (msg : Message) (ms : List Messenger) :
    readings (broadcastEvents x msg ms) = if ms = [] then [] else [x.now] := by
  cases ms with
  | nil => rfl
  | cons m ms =>
      have hrest : readings (deliveries x { msg with timestamp := x.now } 1 ms) = [] :=
        filterMap_deliveries (fun _ _ _ _ => rfl) _ _ _ _
      simp [broadcastEvents, Event.time, hrest]

namespace Coordinator

/-! ### The loops over the messengers and the missed messages -/

/-- A broadcast that has logged its message only sends. -/
theorem broadcastMessage_logged (x : Exchange) (ms : List Messenger) (k : ℕ) (msg : Message)
    (c : Coordinator) :
    c.broadcastMessage x ms true k msg = { c with
      trace := c.trace ++
        deliveries x msg k (ms.filter fun m => c.participants.isConnected m.participant) } := by
  induction ms generalizing k c with
  | nil => simp [broadcastMessage, deliveries]
  | cons m ms ih =>
      rw [broadcastMessage]
      cases h : c.participants.isConnected m.participant with
      | true =>
          rw [if_pos rfl]
          simp only [if_true]
          rw [ih]
          simp [sendMessage, emit, deliveries, h]
      | false =>
          rw [if_neg Bool.false_ne_true, ih]
          simp [h]

/-- **A broadcast** sends to the connected messengers in the order of iteration, and logs the
message after the first send. -/
theorem broadcastMessage_eq (x : Exchange) (ms : List Messenger) (msg : Message)
    (c : Coordinator) :
    c.broadcastMessage x ms false 0 msg = { c with
      msgLog := loggedBy c.msgLog x msg
        (ms.filter fun m => c.participants.isConnected m.participant)
      trace := c.trace ++ broadcastEvents x msg
        (ms.filter fun m => c.participants.isConnected m.participant) } := by
  induction ms with
  | nil => simp [broadcastMessage, broadcastEvents, loggedBy]
  | cons m ms ih =>
      rw [broadcastMessage]
      cases h : c.participants.isConnected m.participant with
      | true =>
          rw [if_pos rfl]
          simp only [Bool.false_eq_true, if_false]
          rw [broadcastMessage_logged]
          simp [sendMessage, logMessage, emit, broadcastEvents, loggedBy, h]
      | false =>
          rw [if_neg Bool.false_ne_true, ih]
          simp [h]

/-- **A replay** sends the messages in order, up to the first send that fails. -/
theorem sendMissedMessages_eq (x : Exchange) (m : Messenger) (msgs : List Message) (k : ℕ)
    (c : Coordinator) :
    c.sendMissedMessages x m msgs k = { c with trace := c.trace ++ replays x m k msgs } := by
  induction msgs generalizing k c with
  | nil => simp [sendMissedMessages, replays]
  | cons msg msgs ih =>
      rw [sendMissedMessages, replays]
      cases h : x.sends k with
      | true =>
          rw [if_pos rfl, ih]
          simp [sendMessage, emit]
      | false => simp [sendMessage, emit]

/-- The messengers that a broadcast writes to, in its order. -/
def reached (c : Coordinator) (x : Exchange) : List Messenger :=
  (x.messengerOrder.enumerate c.messengers).filter fun m =>
    c.participants.isConnected m.participant

/-- The message of a `SendMulticast`. -/
def multicastOf (c : Coordinator) (message : String) (participantId : UInt32) : Message :=
  { msg := message, participantId := (c.determineParticipant participantId).id
    number := c.broadcasts }

/-- What the coordinator does with one request when its message queue is empty, by the kind of
the request. -/
inductive Served (c : Coordinator) (x : Exchange) : Coordinator → Prop
  | register (portNumber id : UInt32) (connected : Bool) (p : Participant) (ds : Descriptors)
      (hrequest : x.request = .register portNumber)
      (hid : generateID (fun _ => c.participants.getAllConnected) c.id = some id)
      (hconnect : connectToParticipant c.descriptors x.attempts (registrant x portNumber id) =
        (connected, p, ds)) :
      Served c x { c with
        id
        participants :=
          if connected then c.participants.registerParticipant p else c.participants
        messengers := c.messengers ++ [⟨p⟩]
        descriptors := ds
        trace := c.trace ++ [.reading x.now, .registered id, .asked id portNumber,
          .closed x.clientFd, .connecting connected] }
  | deregister (participantId : UInt32) (p : Participant)
      (hrequest : x.request = .deregister participantId)
      (hp : c.determineParticipant participantId = p) :
      Served c x { c with
        participants := c.participants.deregisterParticipant p
        messengers :=
          (c.determineMessenger x participantId).elim c.messengers c.messengers.erase
        descriptors := c.descriptors.close p.sockFd
        trace := c.trace ++ [.closed p.sockFd, .closed x.clientFd] }
  | disconnect (participantId : UInt32) (p : Participant)
      (hrequest : x.request = .disconnect participantId)
      (hp : c.determineParticipant participantId = p) :
      Served c x { c with
        participants := (c.participants.disconnectParticipant p x.now).2
        messengers :=
          (c.determineMessenger x participantId).elim c.messengers c.messengers.erase
        trace := c.trace ++ ((if c.participants.isConnected p then [.reading x.now] else []) ++
          [.closed x.clientFd]) }
  | reconnect (portNumber participantId : UInt32) (connected : Bool) (p p' : Participant)
      (ds : Descriptors) (hrequest : x.request = .reconnect portNumber participantId)
      (hp : c.determineParticipant participantId = p)
      (hconnect : connectToParticipant (c.descriptors.openAs x.clientFd .request) x.attempts p =
        (connected, p', ds)) :
      Served c x { c with
        participants :=
          if connected then (c.participants.reconnectParticipant p').2 else c.participants
        messengers := c.messengers ++ [⟨p'⟩]
        descriptors := ds.close x.clientFd
        trace := c.trace ++ (.asked participantId portNumber :: .connecting connected ::
          .reading x.now :: (replays x ⟨p'⟩ 0 (x.replayOrder.enumerate
            (c.msgLog.getMissedMessages p'.disconnectTime x.now).elements) ++
              [.closed x.clientFd])) }
  | multicast (message : String) (participantId : UInt32)
      (hrequest : x.request = .sendMulticast message participantId) :
      Served c x { c with
        msgLog := loggedBy c.msgLog x (c.multicastOf message participantId) (c.reached x)
        broadcasts := c.broadcasts + 1
        trace := c.trace ++ (.multicast c.broadcasts ::
          (broadcastEvents x (c.multicastOf message participantId) (c.reached x) ++
            [.closed x.clientFd])) }
  | notSet (hrequest : x.request = .notSet) :
      Served c x { c with descriptors := c.descriptors.openAs x.clientFd .request }

/-- Closing the descriptor of the request leaves the descriptors as they were before it. -/
theorem close_openAs {ds : Descriptors} {fd : ℤ} (h : ds fd = none) (peer : Peer) :
    (ds.openAs fd peer).close fd = ds := by
  rw [Descriptors.close, Descriptors.openAs, Function.update_idem]
  exact h ▸ Function.update_eq_self fd ds

theorem close_close_openAs {ds : Descriptors} {fd : ℤ} (h : ds fd = none) (peer : Peer)
    (other : ℤ) : ((ds.openAs fd peer).close other).close fd = ds.close other := by
  by_cases heq : other = fd
  · subst heq
    rw [close_openAs h]
  · rw [Descriptors.close, Descriptors.close, Function.update_comm heq]
    exact congrArg (Function.update · other none) (close_openAs h peer)

/-! ### The cases of a request -/

/-- The coordinator with the request's connection open. -/
def accept (c : Coordinator) (x : Exchange) : Coordinator :=
  { c with descriptors := c.descriptors.openAs x.clientFd .request }

section Cases

variable {c c' : Coordinator} {x : Exchange}

theorem determineParticipant_accept (id : UInt32) :
    (c.accept x).determineParticipant id = c.determineParticipant id := rfl

theorem determineMessenger_accept (id : UInt32) :
    (c.accept x).determineMessenger x id = c.determineMessenger x id := rfl

theorem served_register (hclosed : c.descriptors x.clientFd = none) {portNumber : UInt32}
    (hrequest : x.request = .register portNumber)
    (h : (c.accept x).handleRegister x portNumber = some c') : Served c x c' := by
  rw [handleRegister] at h
  obtain ⟨id, hid, h⟩ := Option.bind_eq_some_iff.mp h
  rcases hconnect : connectToParticipant c.descriptors x.attempts (registrant x portNumber id)
    with ⟨connected, p, ds⟩
  have hserved := Served.register (c := c) portNumber id connected p ds hrequest hid hconnect
  rw [← close_openAs hclosed .request] at hconnect
  simp only [registerParticipant, connect, close, emit, accept, hconnect] at h
  cases connected <;>
    · obtain rfl := Option.some.inj h
      simpa [addMessenger] using hserved

theorem served_deregister (hclosed : c.descriptors x.clientFd = none) {participantId : UInt32}
    (hrequest : x.request = .deregister participantId) :
    Served c x ((c.accept x).handleDeregister x participantId) := by
  have h := Served.deregister (c := c) participantId _ hrequest rfl
  rw [← close_close_openAs hclosed .request] at h
  rw [handleDeregister, determineParticipant_accept, determineMessenger_accept]
  simpa [deregisterParticipant, deleteMessenger, close, emit, accept] using h

theorem served_disconnect (hclosed : c.descriptors x.clientFd = none) {participantId : UInt32}
    (hrequest : x.request = .disconnect participantId) :
    Served c x ((c.accept x).handleDisconnect x participantId) := by
  have h := Served.disconnect (c := c) participantId _ hrequest rfl
  rw [← close_openAs hclosed .request] at h
  rw [handleDisconnect, determineParticipant_accept, determineMessenger_accept]
  cases hc : c.participants.isConnected (c.determineParticipant participantId) <;>
    simpa [disconnectParticipant, ParticipantManager.disconnectParticipant, deleteMessenger,
      close, emit, accept, hc] using h

theorem served_reconnect {portNumber participantId : UInt32}
    (hrequest : x.request = .reconnect portNumber participantId) :
    Served c x ((c.accept x).handleReconnect x portNumber participantId) := by
  rcases hconnect : connectToParticipant (c.descriptors.openAs x.clientFd .request) x.attempts
    (c.determineParticipant participantId) with ⟨connected, p, ds⟩
  have h := Served.reconnect (c := c) portNumber participantId connected _ p ds hrequest rfl
    hconnect
  rw [handleReconnect, determineParticipant_accept]
  simp only [reconnectParticipant, connect, emit, accept, hconnect]
  cases connected <;>
    simpa [sendMissedMessages_eq, addMessenger, close, emit] using h

theorem served_multicast (hclosed : c.descriptors x.clientFd = none) (hqueue : c.msgQueue = [])
    {message : String} {participantId : UInt32}
    (hrequest : x.request = .sendMulticast message participantId)
    (h : (c.accept x).handleSendMulticast x message participantId = some c') :
    Served c x c' := by
  have hserved := Served.multicast (c := c) message participantId hrequest
  rw [← close_openAs hclosed .request] at hserved
  rw [handleSendMulticast, determineParticipant_accept] at h
  simp only [accept, hqueue, List.nil_append] at h
  rw [broadcastMessage_eq] at h
  obtain rfl := Option.some.inj h
  simpa [close, emit, hqueue, reached, multicastOf] using hserved

end Cases

/-- **Every request is one of the cases.** -/
theorem served_of_serve {c c' : Coordinator} {x : Exchange} (hqueue : c.msgQueue = [])
    (h : c.serve x = some c') : c.descriptors.free x.clientFd = true ∧ Served c x c' := by
  rw [serve, Option.ite_none_right_eq_some] at h
  obtain ⟨hfree, h⟩ := h
  have hclosed := (Descriptors.free_iff.mp hfree).2
  refine ⟨hfree, ?_⟩
  rw [dispatchMessage] at h
  split at h
  · next portNumber hrequest => exact served_register hclosed hrequest h
  · next participantId hrequest =>
      obtain rfl := Option.some.inj h
      exact served_deregister hclosed hrequest
  · next participantId hrequest =>
      obtain rfl := Option.some.inj h
      exact served_disconnect hclosed hrequest
  · next portNumber participantId hrequest =>
      obtain rfl := Option.some.inj h
      exact served_reconnect hrequest
  · next message participantId hrequest => exact served_multicast hclosed hqueue hrequest h
  · next hrequest =>
      obtain rfl := Option.some.inj h
      exact .notSet hrequest

end Coordinator

end Csci6780.PubSub
