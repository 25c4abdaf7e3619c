import Csci6780.SenderTask
import Mathlib.Data.List.Perm.Basic

/-!
# What a Sender Task Puts on the Wire

A sender task calls `send` once for a message and is done with it whatever `send` accepted, so that
the rest of a message after a short count is lost. And a message that timed out goes back behind the
messages that were pushed after it, which are sent before it. Either way the receiver does not find
the frames any more.

With neither, the messages go out whole and in the order in which they were pushed.

## Main results

* `SendQueue.sends_in_order`: when the messages are sent, all of them, and in order.
* `SendQueue.messages_out_of_order`: a short count, and a timeout with another message in the queue.
-/

namespace Csci6780

/-- What happens on the way to the wire: a message is pushed, `send` accepts some bytes of one, or
`send` fails. -/
inductive SendEvent
  | pushed (message : SendQueueMessage)
  | accepted (message : SendQueueMessage) (bytes : List UInt8)
  | failed (message : SendQueueMessage)
  deriving DecidableEq, Repr

namespace SendEvent

/-- The message that is pushed. -/
def pushedMessage : SendEvent → Option SendQueueMessage
  | .pushed message => some message
  | _ => none

/-- The message all of whose bytes are accepted. -/
def sentMessage : SendEvent → Option SendQueueMessage
  | .accepted message bytes => if bytes = message.message then some message else none
  | _ => none

/-- The message for which `send` failed. -/
def failedMessage : SendEvent → Option SendQueueMessage
  | .failed message => some message
  | _ => none

/-- The bytes that the socket accepts. -/
def acceptedBytes : SendEvent → List UInt8
  | .accepted _ bytes => bytes
  | _ => []

end SendEvent

/-- A send queue and its sender task. -/
structure SendQueue where
  queue : Queue SendQueueMessage := {}
  task : SenderPc := .idle
  deriving DecidableEq, Repr

namespace SendQueue

/-- Somebody pushes a message, or the task goes on. -/
inductive Action
  | push (message : SendQueueMessage)
  | task (action : SenderAction)
  deriving DecidableEq, Repr

/-- One step. -/
def step (s : SendQueue) : Action → Option SendQueue
  | .push message => some { s with queue := s.queue.push message }
  | .task action => (SenderPc.step s.queue s.task action).map fun next =>
      { queue := next.1, task := next.2 }

/-- What `send` brings about for a message. -/
def sendEvents (message : SendQueueMessage) : SendResult → List SendEvent
  | .accepted n => [.accepted message (message.message.take n)]
  | .failed => [.failed message]
  | .timedOut => []

/-- What a step brings about. -/
def events (s : SendQueue) : Action → List SendEvent
  | .push message => [.pushed message]
  | .task (.send result) =>
      match s.task with
      | .sending message => sendEvents message result
      | _ => []
  | .task _ => []

/-- What happens in a run. -/
def history (acts : List Action) : List SendEvent := collect step events {} acts

/-- The messages that have been pushed, that have been sent as a whole, and that failed. -/
def pushedOf (events : List SendEvent) : List SendQueueMessage :=
  events.filterMap SendEvent.pushedMessage

@[inherit_doc pushedOf]
def sentOf (events : List SendEvent) : List SendQueueMessage :=
  events.filterMap SendEvent.sentMessage

@[inherit_doc pushedOf]
def failedOf (events : List SendEvent) : List SendQueueMessage :=
  events.filterMap SendEvent.failedMessage

/-- The bytes that the socket has accepted. -/
def acceptedBytes (events : List SendEvent) : List UInt8 :=
  events.flatMap SendEvent.acceptedBytes

/-- The bytes of some messages, one after the other. -/
def bytesOf (messages : List SendQueueMessage) : List UInt8 :=
  messages.flatMap SendQueueMessage.message

@[simp] theorem pushedOf_append (as bs : List SendEvent) :
    pushedOf (as ++ bs) = pushedOf as ++ pushedOf bs :=
  List.filterMap_append

@[simp] theorem sentOf_append (as bs : List SendEvent) :
    sentOf (as ++ bs) = sentOf as ++ sentOf bs :=
  List.filterMap_append

@[simp] theorem failedOf_append (as bs : List SendEvent) :
    failedOf (as ++ bs) = failedOf as ++ failedOf bs :=
  List.filterMap_append

@[simp] theorem acceptedBytes_append (as bs : List SendEvent) :
    acceptedBytes (as ++ bs) = acceptedBytes as ++ acceptedBytes bs :=
  List.flatMap_append

@[simp] theorem bytesOf_append (as bs : List SendQueueMessage) :
    bytesOf (as ++ bs) = bytesOf as ++ bytesOf bs :=
  List.flatMap_append

/-- The messages that are not sent yet: the one that the task has in its hand, and the queue. -/
def waiting (s : SendQueue) : List SendQueueMessage := s.task.held.toList ++ s.queue.queue

/-- A `send` that accepts anything accepts the whole message. -/
def SendsWhole (s : SendQueue) : Action → Prop
  | .task (.send (.accepted n)) => ∀ message ∈ s.task.held, message.message.length ≤ n
  | _ => True

/-- A message that timed out goes back to an empty queue, and `send` does not fail. -/
def KeepsOrder (s : SendQueue) : Action → Prop
  | .task .requeue => s.queue.queue = []
  | .task (.send result) => result ≠ .failed
  | _ => True

instance (s : SendQueue) (a : Action) : Decidable (s.SendsWhole a) := by
  unfold SendsWhole
  split <;> infer_instance

instance (s : SendQueue) (a : Action) : Decidable (s.KeepsOrder a) := by
  unfold KeepsOrder
  split <;> infer_instance

variable {s s' : SendQueue} {a : Action} {history : List SendEvent}

/-- Every message that was pushed has been sent as a whole, has failed, or is not sent yet. -/
def Accounted (events : List SendEvent) (s : SendQueue) : Prop :=
  (pushedOf events).Perm (sentOf events ++ failedOf events ++ s.waiting)

/-- The messages have been sent in order so far, and nothing else has. -/
structure InOrder (events : List SendEvent) (s : SendQueue) : Prop where
  order : pushedOf events = sentOf events ++ s.waiting
  bytes : acceptedBytes events = bytesOf (sentOf events)

/-- What a step does to the messages that are not sent yet. -/
inductive Moved (s : SendQueue) : Action → SendQueue → Prop
  | pushed (message : SendQueueMessage) (s' : SendQueue)
      (hwaiting : s'.waiting = s.waiting ++ [message]) : Moved s (.push message) s'
  | stays (a : Action) (s' : SendQueue) (hevents : s.events a = [])
      (hwaiting : s'.waiting = s.waiting) : Moved s a s'
  | accepted (message : SendQueueMessage) (n : ℕ) (s' : SendQueue)
      (htask : s.task = .sending message) (hwaiting : s.waiting = message :: s'.waiting) :
      Moved s (.task (.send (.accepted n))) s'
  | failed (message : SendQueueMessage) (s' : SendQueue) (htask : s.task = .sending message)
      (hwaiting : s.waiting = message :: s'.waiting) : Moved s (.task (.send .failed)) s'
  | requeued (message : SendQueueMessage) (s' : SendQueue)
      (hwaiting : s.waiting = message :: s.queue.queue)
      (hback : s'.waiting = s.queue.queue ++ [message]) : Moved s (.task .requeue) s'

/-- A message that did not time out is not in the task's hand any more. -/
theorem held_afterSend {message : SendQueueMessage} {result : SendResult}
    (hresult : result ≠ .timedOut) : (SenderPc.afterSend message result).held = none := by
  rw [SenderPc.afterSend, if_neg hresult]
  split <;> rfl

/-- A step of the task. -/
theorem moved_of_stepped {action : SenderAction}
    (hst : SenderPc.Stepped s.queue s.task action s'.queue s'.task) :
    Moved s (.task action) s' := by
  obtain ⟨queue, task⟩ := s
  obtain ⟨queue', task'⟩ := s'
  dsimp only at hst
  cases hst with
  | pop message rest hqueue =>
      refine .stays _ _ rfl ?_
      rw [waiting, waiting, hqueue]
      rfl
  | popFails hqueue => exact .stays _ _ rfl rfl
  | send message result =>
      cases result with
      | accepted n =>
          have hheld : (SenderPc.afterSend message (.accepted n)).held = none :=
            held_afterSend (fun h => nomatch h)
          refine .accepted message n _ rfl ?_
          show [message] ++ queue.queue = message :: (Option.toList _ ++ queue.queue)
          rw [hheld]
          rfl
      | failed =>
          have hheld : (SenderPc.afterSend message .failed).held = none :=
            held_afterSend (fun h => nomatch h)
          refine .failed message _ rfl ?_
          show [message] ++ queue.queue = message :: (Option.toList _ ++ queue.queue)
          rw [hheld]
          rfl
      | timedOut => exact .stays _ _ rfl rfl
  | requeue message => exact .requeued message _ rfl rfl
  | report messageId status => exact .stays _ _ rfl rfl

/-- **What a step does to the messages.** -/
theorem moved_of_step (hstep : s.step a = some s') : Moved s a s' := by
  cases a with
  | push message =>
      obtain rfl := Option.some.inj hstep
      exact .pushed message _ (List.append_assoc ..).symm
  | task action =>
      obtain ⟨next, hnext, rfl⟩ := Option.map_eq_some_iff.mp hstep
      exact moved_of_stepped (SenderPc.stepped_of_step hnext)

/-- What a `send` brings about is about the message that the task has in its hand. -/
theorem events_send {message : SendQueueMessage} (htask : s.task = .sending message)
    (result : SendResult) : s.events (.task (.send result)) = sendEvents message result := by
  rw [events, htask]

/-- A message that is sent as a whole. -/
theorem sendEvents_whole {message : SendQueueMessage} {n : ℕ} (hn : message.message.length ≤ n) :
    sendEvents message (.accepted n) = [.accepted message message.message] := by
  rw [sendEvents, List.take_of_length_le hn]

theorem sentOf_whole (message : SendQueueMessage) :
    sentOf [.accepted message message.message] = [message] := by
  simp [sentOf, SendEvent.sentMessage]

/-- **A step that sends no part of a message accounts for all of them.** -/
theorem Accounted.step (h : Accounted history s) (hwhole : s.SendsWhole a)
    (hstep : s.step a = some s') : Accounted (history ++ s.events a) s' := by
  refine List.perm_iff_count.mpr fun x => ?_
  have hcount := List.perm_iff_count.mp h x
  rw [pushedOf_append, sentOf_append, failedOf_append]
  simp only [List.count_append] at hcount ⊢
  cases moved_of_step hstep with
  | pushed message _ hwaiting =>
      have hpushed : pushedOf (s.events (.push message)) = [message] := rfl
      have hsent : sentOf (s.events (.push message)) = [] := rfl
      have hfailed : failedOf (s.events (.push message)) = [] := rfl
      rw [hpushed, hsent, hfailed, hwaiting, List.count_append, List.count_nil]
      omega
  | stays _ _ hevents hwaiting =>
      rw [hevents, hwaiting]
      exact hcount
  | accepted message n _ htask hwaiting =>
      have hlength : message.message.length ≤ n := hwhole message (by rw [htask]; rfl)
      have hpushed : pushedOf [.accepted message message.message] = [] := rfl
      have hfailed : failedOf [.accepted message message.message] = [] := rfl
      rw [hwaiting, List.count_cons] at hcount
      rw [events_send htask, sendEvents_whole hlength, hpushed, hfailed, sentOf_whole,
        List.count_singleton, List.count_nil]
      omega
  | failed message _ htask hwaiting =>
      have hpushed : pushedOf (sendEvents message .failed) = [] := rfl
      have hsent : sentOf (sendEvents message .failed) = [] := rfl
      have hfailed : failedOf (sendEvents message .failed) = [message] := rfl
      rw [hwaiting, List.count_cons] at hcount
      rw [events_send htask, hpushed, hsent, hfailed, List.count_singleton, List.count_nil]
      omega
  | requeued message _ hwaiting hback =>
      have hevents : s.events (.task .requeue) = [] := rfl
      rw [hwaiting, List.count_cons] at hcount
      have hnone : ∀ as : List SendQueueMessage,
          List.count x as + List.count x [] = List.count x as :=
        fun as => Nat.add_zero _
      rw [hevents, hback, List.count_append, List.count_singleton]
      simp only [pushedOf, sentOf, failedOf, List.filterMap_nil, hnone] at hcount ⊢
      omega

/-- **A step that keeps the order** sends nothing but the next message. -/
theorem InOrder.step (h : InOrder history s) (hwhole : s.SendsWhole a) (horder : s.KeepsOrder a)
    (hstep : s.step a = some s') : InOrder (history ++ s.events a) s' := by
  cases moved_of_step hstep with
  | pushed message _ hwaiting =>
      have hpushed : pushedOf (s.events (.push message)) = [message] := rfl
      have hsent : sentOf (s.events (.push message)) = [] := rfl
      have hbytes : acceptedBytes (s.events (.push message)) = [] := rfl
      refine ⟨?_, ?_⟩
      · rw [pushedOf_append, sentOf_append, hpushed, hsent, List.append_nil, h.order, hwaiting,
          List.append_assoc]
      · rw [acceptedBytes_append, sentOf_append, hbytes, hsent, List.append_nil, List.append_nil,
          h.bytes]
  | stays _ _ hevents hwaiting =>
      rw [hevents, List.append_nil]
      exact ⟨hwaiting.symm ▸ h.order, h.bytes⟩
  | accepted message n _ htask hwaiting =>
      have hlength : message.message.length ≤ n := hwhole message (by rw [htask]; rfl)
      have hpushed : pushedOf [.accepted message message.message] = [] := rfl
      have hbytes : acceptedBytes [.accepted message message.message] = message.message :=
        List.append_nil _
      have hone : bytesOf [message] = message.message := List.append_nil _
      rw [events_send htask, sendEvents_whole hlength]
      refine ⟨?_, ?_⟩
      · rw [pushedOf_append, sentOf_append, hpushed, sentOf_whole, List.append_nil, h.order,
          hwaiting, List.append_assoc]
        rfl
      · rw [acceptedBytes_append, sentOf_append, bytesOf_append, sentOf_whole, hbytes, hone,
          h.bytes]
  | failed message _ htask hwaiting => exact absurd rfl horder
  | requeued message _ hwaiting hback =>
      have hempty : s.queue.queue = [] := horder
      have hevents : s.events (.task .requeue) = [] := rfl
      rw [hempty] at hwaiting hback
      rw [hevents, List.append_nil]
      exact ⟨hback.trans hwaiting.symm ▸ h.order, h.bytes⟩

theorem accounted_start : Accounted [] {} := List.Perm.refl _

theorem inOrder_start : InOrder [] {} := ⟨rfl, rfl⟩

/-- **When the messages are sent, and in order.** In every run of a sender task and of those who
push messages in which no `send` accepts only a part of a message: every message that was pushed has
been sent as a whole, has failed, or is still waiting. If moreover no message that timed out goes
back to a queue that is not empty, and no `send` fails, the bytes that the socket has accepted are a
prefix of the messages in the order in which they were pushed. -/
theorem sends_in_order (acts : List Action) (hwhole : EachStep step SendsWhole {} acts)
    {s : SendQueue} (hrun : runFrom step {} acts = some s) :
    Accounted (SendQueue.history acts) s ∧
      (EachStep step KeepsOrder {} acts →
        acceptedBytes (SendQueue.history acts) <+:
          bytesOf (pushedOf (SendQueue.history acts))) := by
  have haccounted : Accounted (SendQueue.history acts) s := by
    refine history_inv_of (fun acts s => Accounted (SendQueue.history acts) s) accounted_start
      (fun pre m a m' hm ih hsends hstep => ?_) hwhole hrun
    rw [SendQueue.history, collect_concat hm]
    exact ih.step hsends hstep
  refine ⟨haccounted, fun horder => ?_⟩
  have hinOrder : InOrder (SendQueue.history acts) s := by
    refine history_inv_of (fun acts s => InOrder (SendQueue.history acts) s) inOrder_start
      (fun pre m a m' hm ih hsends hstep => ?_) (hwhole.and horder) hrun
    rw [SendQueue.history, collect_concat hm]
    exact ih.step hsends.1 hsends.2 hstep
  rw [hinOrder.bytes, hinOrder.order, bytesOf_append]
  exact List.prefix_append _ _

/-- A message that is pushed first, and one that is pushed after it. -/
def firstMessage : SendQueueMessage where
  messageId := 1
  message := [0, 0, 0, 1, 7]
  sendAsync := true

@[inherit_doc firstMessage]
def secondMessage : SendQueueMessage where
  messageId := 2
  message := [0, 0, 0, 1, 8]
  sendAsync := true

/-- The first message times out and goes back to the empty queue; then both are sent. -/
def ordered : List Action :=
  [.push firstMessage, .task .pop, .task (.send .timedOut), .task .requeue, .push secondMessage,
    .task .pop, .task (.send (.accepted 5)), .task .pop, .task (.send (.accepted 5))]

theorem sends_in_order_two :
    runFrom step {} ordered = some {} ∧
      acceptedBytes (SendQueue.history ordered) <+:
        bytesOf (pushedOf (SendQueue.history ordered)) :=
  ⟨by decide, (sends_in_order ordered (by decide) (s := {}) (by decide)).2 (by decide)⟩

/-- `send` accepts two bytes of the first message, and all of the second one. -/
def cutShort : List Action :=
  [.push firstMessage, .push secondMessage, .task .pop, .task (.send (.accepted 2)), .task .pop,
    .task (.send (.accepted 5))]

/-- The first message times out with the second one in the queue. -/
def overtaken : List Action :=
  [.push firstMessage, .push secondMessage, .task .pop, .task (.send .timedOut), .task .requeue,
    .task .pop, .task (.send (.accepted 5))]

/-- **A short count, and a timeout with another message in the queue.** After the short count the
first message is gone although three of its bytes have not been accepted, and `send` did not fail;
after the timeout the second message has been sent before the first one. -/
theorem messages_out_of_order :
    (runFrom step {} cutShort = some {} ∧
      acceptedBytes (SendQueue.history cutShort) = [0, 0] ++ secondMessage.message ∧
      ¬acceptedBytes (SendQueue.history cutShort) <+:
        bytesOf (pushedOf (SendQueue.history cutShort)) ∧
      firstMessage ∈ pushedOf (SendQueue.history cutShort) ∧
      firstMessage ∉ sentOf (SendQueue.history cutShort) ++ failedOf (SendQueue.history cutShort)) ∧
    (runFrom step {} overtaken = some { queue := ({} : Queue _).push firstMessage } ∧
      acceptedBytes (SendQueue.history overtaken) = secondMessage.message ∧
      ¬acceptedBytes (SendQueue.history overtaken) <+:
        bytesOf (pushedOf (SendQueue.history overtaken))) := by
  decide

end SendQueue

end Csci6780
