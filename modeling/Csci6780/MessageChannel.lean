import Csci6780.NodeSingleSender
import Csci6780.SenderOrder

/-!
# From `Server::SendAsync` to `Client::Receive`

Between a thread of the server that sends a message to a client and the thread of the client that
receives it stand the send queue of the connection and its sender task, the connection, which is a
stream of bytes, the client's receiver task and receive queue, and the buffer of bytes that the last
`Receive` has read beyond its message. All of them go on at the same time: messages are sent while
others are cut into pieces on their way and a `Receive` is waiting with a part of one.

`MessageChannel` has them all. Where the sender task sends whole messages and does not put one back
behind another, the channel is first in, first out. A `recv` that times out changes nothing and is
no step; the connection stays open, and `Receive` waits without a timeout.

## Main results

* `Carries.step`: what a step does to the messages that are on their way.
* `MessageChannel.channel_delivers`: the messages are received in the order in which they were
  sent, and when nothing can go on, all of them have been received.
-/

namespace Csci6780

/-- What is between those who send messages and the one who receives them. -/
structure MessageChannel where
  sending : SendQueue := {}
  connection : List UInt8 := []
  receiveQueue : Queue ReceiveQueueMessage := {}
  unProcessedMessages : List ReceiveQueueMessage := []
  call : Option Receiving := none
  deriving DecidableEq, Repr

/-- `ReceiverTask::kReceiveChunkSize`. -/
def kReceiveChunkSize : ℕ := 1024

namespace MessageChannel

variable {Msg : Type}

/-- A message is sent, the sender task goes on, a `recv` of the receiver task returns some bytes, or
a `Receive` is called, pops an entry, or returns. -/
inductive Action (Msg : Type)
  | send (messageId : MessageId) (message : Msg) (sendAsync : Bool)
  | sender (action : SenderAction)
  | recv (n : ℕ)
  | call
  | pop
  | finish
  deriving DecidableEq, Repr

/-- `DispatchSend`, on a connection that is there. -/
def dispatchSend (pb : Protobuf Msg) (ch : MessageChannel) (messageId : MessageId) (message : Msg)
    (sendAsync : Bool) : MessageChannel :=
  match serialize pb message [] with
  | (true, bytes) =>
      let queue := ch.sending.queue.push ⟨messageId, bytes, sendAsync⟩
      { ch with sending := { ch.sending with queue := queue } }
  | (false, _) => ch

/-- `ReceiverTask::RunAtomic`, with a `recv` that returns `n` bytes. -/
def recv (e : Endpoint) (ch : MessageChannel) (n : ℕ) : Option MessageChannel :=
  if 0 < n ∧ n ≤ kReceiveChunkSize ∧ n ≤ ch.connection.length then
    some { ch with
      connection := ch.connection.drop n
      receiveQueue := ch.receiveQueue.push ⟨ch.connection.take n, e, n⟩ }
  else none

/-- `Node::DoReceive` up to the first time that it pops the queue. -/
def startReceive (ch : MessageChannel) : Option MessageChannel :=
  match ch.call with
  | some _ => none
  | none =>
      match Receiving.fromStash ch.unProcessedMessages {} with
      | (true, r) => some { ch with unProcessedMessages := [], call := some r }
      | (false, r) => some { ch with unProcessedMessages := r.unProcessedMessages }

/-- A round of the loop of `DoReceive` with an entry of the queue. -/
def popEntry (ch : MessageChannel) : Option MessageChannel :=
  match ch.call, ch.receiveQueue.queue with
  | some r, response :: rest =>
      if r.parser.hasCompleteMessage then none
      else
        let ch := { ch with receiveQueue := { ch.receiveQueue with queue := rest } }
        match r.process response with
        | (true, r) => some { ch with call := some r }
        | (false, r) =>
            some { ch with call := none, unProcessedMessages := r.unProcessedMessages }
  | _, _ => none

/-- The end of `DoReceive`. -/
def finishReceive (pb : Protobuf Msg) (ch : MessageChannel) : Option MessageChannel :=
  match ch.call with
  | none => none
  | some r =>
      if r.parser.hasCompleteMessage then
        let (_, node) := r.finish pb []
        some { ch with call := none, unProcessedMessages := node.unProcessedMessages }
      else none

/-- One step. -/
def step (pb : Protobuf Msg) (e : Endpoint) (ch : MessageChannel) :
    Action Msg → Option MessageChannel
  | .send messageId message sendAsync => some (ch.dispatchSend pb messageId message sendAsync)
  | .sender action => (ch.sending.step (.task action)).map fun sending =>
      { ch with
        sending
        connection := ch.connection ++ SendQueue.acceptedBytes (ch.sending.events (.task action)) }
  | .recv n => ch.recv e n
  | .call => ch.startReceive
  | .pop => ch.popEntry
  | .finish => ch.finishReceive pb

/-- The message that a step sends; it is to be received from `e`. -/
def sent (e : Endpoint) (_ : MessageChannel) : Action Msg → List (Option Msg × Endpoint)
  | .send _ message _ => [(some message, e)]
  | _ => []

/-- The message, and its source, with which a step returns from `Receive`. -/
def received (pb : Protobuf Msg) (ch : MessageChannel) :
    Action Msg → List (Option Msg × Endpoint)
  | .finish =>
      match ch.call with
      | some r =>
          match r.finish pb [] with
          | (.returned _ message source, _) => [(message, source)]
          | _ => []
      | none => []
  | _ => []

/-- The messages have a size that `Serialize` can write, and the sender task sends whole messages
and keeps their order. -/
def Keeps (pb : Protobuf Msg) (ch : MessageChannel) : Action Msg → Prop
  | .send _ message _ => pb.byteSizeLong message < 2 ^ 31
  | .sender action => ch.sending.SendsWhole (.task action) ∧ ch.sending.KeepsOrder (.task action)
  | _ => True

instance (pb : Protobuf Msg) (ch : MessageChannel) (a : Action Msg) :
    Decidable (ch.Keeps pb a) := by
  unfold Keeps
  split <;> infer_instance

/-! ### The messages on their way -/

/-- The entries that the client has popped and not returned: those that a call has consumed, or what
the last one has left. -/
inductive Holds (ch : MessageChannel) (l : List ReceiveQueueMessage) : Prop
  | between (hcall : ch.call = none) (hstash : ch.unProcessedMessages = l) (hl : l.length ≤ 1)
  | calling (r : Receiving) (hcall : ch.call = some r) (hconsumed : r.Consumed l)
      (hl : ¬HasFrame (mine l.dropLast))

/-- The bytes on their way are the frames of some messages. -/
structure Carries (pb : Protobuf Msg) (e : Endpoint) (ch : MessageChannel) (messages : List Msg)
    (l : List ReceiveQueueMessage) : Prop where
  small : Small pb messages
  holds : ch.Holds l
  good : AllGood (l ++ ch.receiveQueue.queue)
  sender : OneSender e (l ++ ch.receiveQueue.queue)
  stream : bytesOf e (l ++ ch.receiveQueue.queue) ++ ch.connection ++
    SendQueue.bytesOf ch.sending.waiting = frames (messages.map pb.encoding)

variable {pb : Protobuf Msg} {e : Endpoint} {ch ch' : MessageChannel} {messages : List Msg}
  {l : List ReceiveQueueMessage}

theorem Holds.not_hasFrame_dropLast (h : ch.Holds l) : ¬HasFrame (mine l.dropLast) := by
  cases h with
  | between hcall hstash hl =>
      have hnil : l.dropLast = [] := by
        rw [← List.length_eq_zero_iff, List.length_dropLast]
        omega
      rw [hnil]
      exact not_hasFrame_nil
  | calling r hcall hconsumed hl => exact hl

/-- What the client has popped does not depend on what is on its way to it. -/
theorem Holds.congr (h : ch.Holds l) (hcall : ch'.call = ch.call)
    (hstash : ch'.unProcessedMessages = ch.unProcessedMessages) : ch'.Holds l := by
  cases h with
  | between hnone hl hlength => exact .between (hcall.trans hnone) (hstash.trans hl) hlength
  | calling r hsome hconsumed hl => exact .calling r (hcall.trans hsome) hconsumed hl

theorem carries_start (pb : Protobuf Msg) (e : Endpoint) : Carries pb e {} [] [] where
  small := fun _ hm => absurd hm List.not_mem_nil
  holds := .between rfl rfl (Nat.zero_le _)
  good := fun _ hm => absurd hm List.not_mem_nil
  sender := fun _ hm => absurd hm List.not_mem_nil
  stream := rfl

/-! ### One step -/

/-- A message that is sent comes after all others. -/
theorem Carries.dispatchSend (hpb : pb.Lawful) (h : Carries pb e ch messages l) {message : Msg}
    (hsize : pb.byteSizeLong message < 2 ^ 31) (messageId : MessageId) (sendAsync : Bool) :
    Carries pb e (ch.dispatchSend pb messageId message sendAsync) (messages ++ [message]) l := by
  have hframe := serialize_eq_frame hpb hsize []
  have hwaiting : (ch.dispatchSend pb messageId message sendAsync).sending.waiting =
      ch.sending.waiting ++ [⟨messageId, frame (pb.encoding message), sendAsync⟩] := by
    rw [MessageChannel.dispatchSend, hframe]
    exact (List.append_assoc ..).symm
  have hsame : ∀ {α : Type} (f : MessageChannel → α), (∀ s, f { ch with sending := s } = f ch) →
      f (ch.dispatchSend pb messageId message sendAsync) = f ch := by
    intro α f hf
    rw [MessageChannel.dispatchSend, hframe]
    exact hf _
  have hqueue := hsame receiveQueue fun _ => rfl
  have hconnection := hsame connection fun _ => rfl
  refine ⟨?_, h.holds.congr (hsame call fun _ => rfl) (hsame unProcessedMessages fun _ => rfl),
    ?_, ?_, ?_⟩
  · intro m hm
    rcases List.mem_append.mp hm with hm | hm
    · exact h.small m hm
    · obtain rfl := List.mem_singleton.mp hm
      exact hsize
  · rw [hqueue]
    exact h.good
  · rw [hqueue]
    exact h.sender
  · rw [hqueue, hconnection, hwaiting, SendQueue.bytesOf_append, ← List.append_assoc, h.stream,
      List.map_append, frames_append]
    rfl

/-- The sender task moves bytes from its queue to the connection. -/
theorem Carries.sender_step (h : Carries pb e ch messages l) {action : SenderAction}
    {sending : SendQueue} (hwhole : ch.sending.SendsWhole (.task action))
    (horder : ch.sending.KeepsOrder (.task action))
    (hstep : ch.sending.step (.task action) = some sending) :
    Carries pb e { ch with
      sending
      connection := ch.connection ++ SendQueue.acceptedBytes (ch.sending.events (.task action)) }
      messages l := by
  refine ⟨h.small, h.holds.congr rfl rfl, h.good, h.sender, ?_⟩
  have hmoved : SendQueue.acceptedBytes (ch.sending.events (.task action)) ++
      SendQueue.bytesOf sending.waiting = SendQueue.bytesOf ch.sending.waiting := by
    cases SendQueue.moved_of_step hstep with
    | stays _ _ hevents hwaiting =>
        rw [hevents, hwaiting]
        rfl
    | accepted message n _ htask hwaiting =>
        have hlength : message.message.length ≤ n := hwhole message (by rw [htask]; rfl)
        have hbytes : SendQueue.acceptedBytes [.accepted message message.message] =
            message.message := List.append_nil _
        rw [SendQueue.events_send htask, SendQueue.sendEvents_whole hlength, hbytes, hwaiting]
        rfl
    | failed message _ htask hwaiting => exact absurd rfl horder
    | requeued message _ hwaiting hback =>
        have hempty : ch.sending.queue.queue = [] := horder
        rw [hempty] at hwaiting hback
        rw [hback, hwaiting]
        rfl
  rw [← h.stream, ← hmoved]
  simp only [List.append_assoc]

/-- A `recv` moves bytes from the connection to the receive queue. -/
theorem Carries.recv (h : Carries pb e ch messages l) {n : ℕ} (hstep : ch.recv e n = some ch') :
    Carries pb e ch' messages l := by
  rw [MessageChannel.recv] at hstep
  split at hstep
  · next hn =>
      obtain ⟨hpos, hchunk, hlength⟩ := hn
      obtain rfl := Option.some.inj hstep
      have htake : (ch.connection.take n).length = n := List.length_take_of_le hlength
      have hsome : 0 < (ch.connection.take n).length := by
        rw [htake]
        exact hpos
      have hgood : ReceiveQueueMessage.Good ⟨ch.connection.take n, e, n⟩ := by
        refine ⟨?_, ?_, ?_⟩
        · rw [htake]
        · exact List.length_pos_iff.mp hsome
        · rw [htake]
          exact Nat.lt_of_le_of_lt hchunk (by decide)
      have hpush : l ++ (ch.receiveQueue.push ⟨ch.connection.take n, e, n⟩).queue =
          l ++ ch.receiveQueue.queue ++ [⟨ch.connection.take n, e, n⟩] :=
        (List.append_assoc ..).symm
      refine ⟨h.small, h.holds.congr rfl rfl, ?_, ?_, ?_⟩
      · rw [hpush]
        refine h.good.append fun m hm => ?_
        obtain rfl := List.mem_singleton.mp hm
        exact hgood
      · rw [hpush]
        refine h.sender.append fun m hm => ?_
        rw [List.mem_singleton.mp hm]
      · have hone : bytesOf e [⟨ch.connection.take n, e, n⟩] = ch.connection.take n := by
          rw [bytesOf_cons, if_pos rfl, bytesOf_nil, List.append_nil]
        show bytesOf e (l ++ (ch.receiveQueue.push _).queue) ++ ch.connection.drop n ++ _ = _
        rw [hpush, bytesOf_append, hone, List.append_assoc _ (ch.connection.take n),
          List.take_append_drop]
        exact h.stream
  · cases hstep

/-- A call takes what the last one has left. -/
theorem Carries.startReceive (h : Carries pb e ch messages l)
    (hstep : ch.startReceive = some ch') : Carries pb e ch' messages l := by
  rw [MessageChannel.startReceive] at hstep
  cases h.holds with
  | calling r hcall hconsumed hl =>
      rw [hcall] at hstep
      cases hstep
  | between hcall hstash hl =>
      obtain ⟨r, hr, hrun⟩ := Receiving.consumed_nil.fromStash_append h.good.left
        h.holds.not_hasFrame_dropLast
      have hfrom : Receiving.fromStash ch.unProcessedMessages {} = (true, r) := by
        rw [hstash, ← List.append_nil l, hrun, Receiving.fromStash]
      rw [hcall, hfrom] at hstep
      obtain rfl := Option.some.inj hstep
      exact ⟨h.small, .calling r rfl hr h.holds.not_hasFrame_dropLast, h.good, h.sender, h.stream⟩

/-- A call consumes an entry of the queue. -/
theorem Carries.popEntry (h : Carries pb e ch messages l) (hstep : ch.popEntry = some ch') :
    ∃ l', Carries pb e ch' messages l' := by
  rw [MessageChannel.popEntry] at hstep
  cases h.holds with
  | between hcall hstash hl =>
      rw [hcall] at hstep
      cases hstep
  | calling r hcall hconsumed hl =>
      cases hqueue : ch.receiveQueue.queue with
      | nil =>
          rw [hcall, hqueue] at hstep
          cases hstep
      | cons response rest =>
          rw [hcall, hqueue] at hstep
          simp only [] at hstep
          split at hstep
          · cases hstep
          · next hnot =>
              have hgood := h.good
              have hsender := h.sender
              have hstream := h.stream
              have hmove : l ++ response :: rest = l ++ [response] ++ rest :=
                (List.append_assoc l [response] rest).symm
              rw [hqueue, hmove] at hgood hsender hstream
              have hno : ¬HasFrame (mine l) := fun hf =>
                hnot (hconsumed.hasCompleteMessage_iff.mpr hf)
              obtain ⟨r', hprocess, hr'⟩ := hconsumed.process_spec hno
                (hgood response (by simp))
              rw [hprocess] at hstep
              obtain rfl := Option.some.inj hstep
              refine ⟨l ++ [response], h.small, .calling r' rfl hr' ?_, hgood, hsender, hstream⟩
              rw [List.dropLast_concat]
              exact hno

/-- **A call that returns** returns the first message. -/
theorem Carries.finishReceive (hpb : pb.Lawful) (h : Carries pb e ch messages l)
    (hstep : ch.finishReceive pb = some ch') :
    ∃ message rest l', messages = message :: rest ∧
      ch.received pb (.finish : Action Msg) = [(some message, e)] ∧ Carries pb e ch' rest l' := by
  rw [MessageChannel.finishReceive] at hstep
  cases h.holds with
  | between hcall hstash hl =>
      rw [hcall] at hstep
      cases hstep
  | calling r hcall hconsumed hl =>
      rw [hcall] at hstep
      simp only [] at hstep
      split at hstep
      · next hcomplete =>
          have hf := hconsumed.hasCompleteMessage_iff.mp hcomplete
          have hstops : Stops l := ⟨hf, hl⟩
          have hone := h.sender.left
          have hmine := hone.mine_eq
          have hsource := hone.sourceOf_eq hstops.ne_nil
          have hfinish := hconsumed.finish_spec pb hf []
          rw [hfinish] at hstep
          obtain rfl := Option.some.inj hstep
          have hstream := h.stream
          rw [hmine] at hf
          rw [bytesOf_append, List.append_assoc, List.append_assoc] at hstream
          obtain ⟨bodies, hcons, hrest⟩ := hf.eq_cons_of_append_eq (h.small.framable hpb) hstream
          cases messages with
          | nil => cases hcons
          | cons message rest =>
              rw [List.map_cons, List.cons.injEq] at hcons
              obtain ⟨hbody, rfl⟩ := hcons
              obtain ⟨hlength, hone'⟩ := hone.leftover_spec hstops.ne_nil
              refine ⟨message, rest, leftover l, rfl, ?_, h.small.tail,
                .between rfl rfl hlength, ?_, hone'.append h.sender.right, ?_⟩
              · rw [received, hcall]
                simp only [hfinish, returnedFrom, hmine, hsource, ← hbody,
                  hpb.parseBody_encoding h.small.head]
              · exact (hstops.allGood_leftover h.good.left).append h.good.right
              · show bytesOf e (leftover l ++ ch.receiveQueue.queue) ++ ch.connection ++
                  SendQueue.bytesOf ch.sending.waiting = _
                rw [bytesOf_append, bytesOf_leftover hstops.ne_nil, hsource, if_pos rfl,
                  List.append_assoc, List.append_assoc]
                exact hrest
      · cases hstep

/-- A message as it is received. -/
def receipt (e : Endpoint) (message : Msg) : Option Msg × Endpoint := (some message, e)

/-- **What a step does to the messages that are on their way**: one that is sent comes after them,
and one that is received was the first of them. -/
theorem Carries.step (hpb : pb.Lawful) (h : Carries pb e ch messages l) {a : Action Msg}
    (hkeeps : ch.Keeps pb a) (hstep : ch.step pb e a = some ch') :
    ∃ messages' l', Carries pb e ch' messages' l' ∧
      messages.map (receipt e) ++ ch.sent e a = ch.received pb a ++ messages'.map (receipt e) := by
  have hsame : messages.map (receipt e) ++ [] = [] ++ messages.map (receipt e) :=
    List.append_nil _
  cases a with
  | send messageId message sendAsync =>
      obtain rfl := Option.some.inj hstep
      refine ⟨messages ++ [message], l, h.dispatchSend hpb hkeeps messageId sendAsync, ?_⟩
      rw [List.map_append]
      rfl
  | sender action =>
      obtain ⟨sending, hsending, rfl⟩ := Option.map_eq_some_iff.mp hstep
      exact ⟨messages, l, h.sender_step hkeeps.1 hkeeps.2 hsending, hsame⟩
  | recv n => exact ⟨messages, l, h.recv hstep, hsame⟩
  | call => exact ⟨messages, l, h.startReceive hstep, hsame⟩
  | pop =>
      obtain ⟨l', h'⟩ := h.popEntry hstep
      exact ⟨messages, l', h', hsame⟩
  | finish =>
      obtain ⟨message, rest, l', rfl, hreceived, h'⟩ := h.finishReceive hpb hstep
      refine ⟨rest, l', h', ?_⟩
      rw [hreceived]
      exact List.append_nil _

/-! ### Nothing is left behind -/

/-- The step is not one that sends a message, and not a `PopTimed` of the sender task that fails. -/
def Action.GoesOn : Action Msg → Prop
  | .send _ _ _ => False
  | .sender action => action ≠ .popFails
  | _ => True

/-- Neither the tasks nor the thread that receives can go on. -/
def Stuck (pb : Protobuf Msg) (e : Endpoint) (ch : MessageChannel) : Prop :=
  ∀ a : Action Msg, a.GoesOn → ch.step pb e a = none

/-- A sender task that cannot go on has nothing to send. -/
theorem waiting_of_stuck (hstuck : ch.Stuck pb e) : ch.sending.waiting = [] := by
  have hsender : ∀ action, action ≠ .popFails → ch.sending.step (.task action) = none :=
    fun action haction => Option.map_eq_none_iff.mp (hstuck (.sender action) haction)
  have hpc : ∀ action, action ≠ .popFails →
      SenderPc.step ch.sending.queue ch.sending.task action = none :=
    fun action haction => Option.map_eq_none_iff.mp (hsender action haction)
  cases htask : ch.sending.task with
  | idle =>
      have hpop := hpc .pop (by simp)
      cases hqueue : ch.sending.queue.queue with
      | nil =>
          rw [SendQueue.waiting, htask, hqueue]
          rfl
      | cons message rest =>
          simp only [SenderPc.step, htask, hqueue] at hpop
          cases hpop
  | sending message =>
      have hsend := hpc (.send .timedOut) (by simp)
      rw [htask] at hsend
      cases hsend
  | requeueing message =>
      have hrequeue := hpc .requeue (by simp)
      rw [htask] at hrequeue
      cases hrequeue
  | reporting messageId status =>
      have hreport := hpc .report (by simp)
      rw [htask] at hreport
      cases hreport

/-- A call that cannot go on waits for bytes that are nowhere. -/
theorem calling_of_stuck (hstuck : ch.Stuck pb e) :
    ∃ r, ch.call = some r ∧ r.parser.hasCompleteMessage = false ∧
      ch.receiveQueue.queue = [] ∧ ch.connection = [] := by
  obtain ⟨r, hcall⟩ : ∃ r, ch.call = some r := by
    cases hcall : ch.call with
    | some r => exact ⟨r, rfl⟩
    | none =>
        have hstart : ch.startReceive = none := hstuck .call trivial
        rw [startReceive, hcall] at hstart
        simp only [] at hstart
        split at hstart
        · cases hstart
        · cases hstart
  have hnot : r.parser.hasCompleteMessage = false := by
    have hfinish : ch.finishReceive pb = none := hstuck .finish trivial
    rw [finishReceive, hcall] at hfinish
    simp only [] at hfinish
    split at hfinish
    · cases hfinish
    · next hnot => exact Bool.eq_false_iff.mpr hnot
  refine ⟨r, hcall, hnot, ?_, ?_⟩
  · have hpop : ch.popEntry = none := hstuck .pop trivial
    cases hqueue : ch.receiveQueue.queue with
    | nil => rfl
    | cons response rest =>
        rw [popEntry, hcall, hqueue] at hpop
        simp only [] at hpop
        split at hpop
        · next hcomplete =>
            rw [hnot] at hcomplete
            cases hcomplete
        · split at hpop
          · cases hpop
          · cases hpop
  · by_contra hne
    have hlength := List.length_pos_iff.mpr hne
    have hrecv : ch.recv e 1 = none := hstuck (.recv 1) trivial
    rw [MessageChannel.recv, if_pos ⟨Nat.one_pos, by decide, hlength⟩] at hrecv
    cases hrecv

/-- **When nothing can go on, no message is on its way.** -/
theorem Carries.eq_nil_of_stuck (hpb : pb.Lawful) (h : Carries pb e ch messages l)
    (hstuck : ch.Stuck pb e) : messages = [] := by
  obtain ⟨r, hcall, hnot, hqueue, hconnection⟩ := calling_of_stuck hstuck
  have hstream := h.stream
  rw [hqueue, hconnection, waiting_of_stuck hstuck, List.append_nil, List.append_nil] at hstream
  have hbytes : bytesOf e l = frames (messages.map pb.encoding) := by
    rw [← hstream]
    exact (List.append_nil _).symm
  cases h.holds with
  | between hnone hstash hl =>
      rw [hcall] at hnone
      cases hnone
  | calling r' hcall' hconsumed hl =>
      obtain rfl : r = r' := Option.some.inj (hcall.symm.trans hcall')
      have hno : ¬HasFrame (mine l) := by
        rw [← hconsumed.hasCompleteMessage_iff, hnot]
        exact Bool.false_ne_true
      rw [h.sender.left.mine_eq, hbytes] at hno
      cases messages with
      | nil => rfl
      | cons message rest =>
          rw [List.map_cons] at hno
          exact absurd (hasFrame_frames_cons (h.small.framable hpb)) hno

/-! ### Every run -/

/-- **The channel delivers.** In every run in which the sender task sends whole messages and keeps
their order: what `Receive` has returned are the first of the messages that were sent, each with the
source `e`; and in a state in which neither the tasks nor the thread that receives can go on, it has
returned all of them. -/
theorem channel_delivers (hpb : pb.Lawful) (e : Endpoint) {acts : List (Action Msg)}
    (hkeeps : EachStep (step pb e) (Keeps pb) {} acts)
    (hrun : runFrom (step pb e) {} acts = some ch) :
    collect (step pb e) (received pb) {} acts <+: collect (step pb e) (sent e) {} acts ∧
      (ch.Stuck pb e →
        collect (step pb e) (received pb) {} acts = collect (step pb e) (sent e) {} acts) := by
  let Stored : MessageChannel → List (Option Msg × Endpoint) → Prop := fun ch xs =>
    ∃ messages l, Carries pb e ch messages l ∧ xs = messages.map (receipt e)
  have hkeep : ∀ m xs a m', Stored m xs → m.Keeps pb a → step pb e m a = some m' →
      ∃ ys, Stored m' ys ∧ xs ++ m.sent e a = m.received pb a ++ ys := by
    rintro m xs a m' ⟨messages, l, h, rfl⟩ hkeeps hstep
    obtain ⟨messages', l', h', heq⟩ := h.step hpb hkeeps hstep
    exact ⟨messages'.map (receipt e), ⟨messages', l', h', rfl⟩, heq⟩
  obtain ⟨ys, ⟨messages, l, h, rfl⟩, heq⟩ :=
    collect_fifo Stored hkeep ⟨[], [], carries_start pb e, rfl⟩ hkeeps hrun
  rw [List.map_nil, List.nil_append] at heq
  refine ⟨⟨_, heq.symm⟩, fun hstuck => ?_⟩
  rw [heq, h.eq_nil_of_stuck hpb hstuck, List.map_nil, List.append_nil]

/-- Two messages, the second one sent while a call waits for the rest of the first. The first `recv`
ends in the first prefix, and the second one in the second frame. -/
def twoMessages : List (Action FileContents) :=
  [.send 1 ⟨[7], false⟩ true, .call, .sender .pop, .sender (.send .timedOut), .sender .requeue,
    .sender .pop, .sender (.send (.accepted 7)), .recv 3, .pop, .send 2 ⟨[], false⟩ false,
    .sender .pop, .sender (.send (.accepted 4)), .sender .report, .recv 6, .pop, .finish, .call,
    .recv 2, .pop, .finish, .call]

theorem channel_delivers_two_messages :
    collect (step fileContentsProto Node.clientA) (received fileContentsProto) {} twoMessages =
      [(some ⟨[7], false⟩, Node.clientA), (some ⟨[], false⟩, Node.clientA)] := by
  have hrun : runFrom (step fileContentsProto Node.clientA) {} twoMessages =
      some { call := some {} } := by decide
  have hall := (channel_delivers fileContentsProto_lawful Node.clientA (by decide) hrun).2
  rw [hall fun a ha => ?_]
  · rfl
  · cases a with
    | send messageId message sendAsync => exact ha.elim
    | sender action =>
        cases action with
        | popFails => exact absurd rfl ha
        | _ => rfl
    | recv n => exact if_neg fun h => absurd h.2.2 (Nat.not_le.mpr h.1)
    | _ => rfl

end MessageChannel

end Csci6780
