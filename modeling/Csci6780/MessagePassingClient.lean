import Csci6780.MessageSender
import Csci6780.Node

/-!
# The Message Passing Client

This module embeds `message_passing::Client` with those who call it and the tasks that it has added
to its pool. `EnsureConnected` comes first in every call: when there is no connection it makes an
attempt, and starts a sender task and a receiver task on the descriptor that it got, which is -1
when the attempt failed. `Send` and `SendAsync` go on as in `MessageSender`, on the one send queue;
`Receive` goes on with the loop of `DoReceive`, one entry of the receive queue at a time.

Callers and tasks take their steps in any order. Each access to `client_fd_` is a step of its own,
except that the tasks of one caller are added right after it has been read. A task that has been
added runs when a thread of the pool is free for it, which the order of the steps says.

## Main definitions

* `Client`: the members, and where the callers and the tasks stand.
* `Client.step`, `Client.events`: one step, and what it brings about.

## Main results

* `Client.run_sender`: a run of the client is a run of its `MessageSender`.
-/

namespace Csci6780

namespace MessagePassing

/-- What is called on a client: `Send` or `SendAsync` of a message, or `Receive`, which may have a
timeout. -/
inductive ClientCall (Msg : Type)
  | send (message : Msg) (async : Bool)
  | receive (timed : Bool)
  deriving DecidableEq, Repr

/-- An entry of the receive queue, with the descriptor that it was read from. The source does not
keep the descriptor, and no step depends on it. -/
structure Received where
  fd : ℤ
  message : ReceiveQueueMessage
  deriving DecidableEq, Repr

/-- Where a caller stands that is not in `MessageSender`: in `EnsureConnected`, before
`SetUpSocket`, before each of the tasks is added, and at its end; and in the loop of `DoReceive`,
with the entries that are left in its copy of `un_processed_messages_`, what it has read, and the
descriptor of the last entry. -/
inductive ClientPc (Msg : Type)
  | idle
  | connecting (call : ClientCall Msg)
  | startingSender (call : ClientCall Msg)
  | startingReceiver (call : ClientCall Msg)
  | ensured (call : ClientCall Msg)
  | receiving (timed : Bool) (left : List Received) (reading : Receiving) (fd : ℤ)
  deriving DecidableEq, Repr

/-- What happens: a sender task calls `send`, `Receive` fails on an entry, `Receive` ends in another
way. -/
inductive ClientEvent (Msg Caller : Type)
  | sent (fd : ℤ) (message : SendQueueMessage) (result : SendResult)
  | receiveFailed (caller : Caller) (fd : ℤ)
  | received (caller : Caller) (outcome : ReceiveOutcome Msg)
  deriving DecidableEq, Repr

/-- `Client`, with its callers and its tasks. `sendFd` is the descriptor of a sender task, and
`receiveFd` that of a receiver task that has not failed. -/
structure Client (Msg Caller Task : Type) where
  endpoint : Endpoint := {}
  clientFd : ℤ := -1
  sender : MessageSender Unit Unit Caller Task := {}
  sendFd : Task → Option ℤ := fun _ => none
  receiveFd : Task → Option ℤ := fun _ => none
  receiveQueue : Queue Received := {}
  unProcessedMessages : List Received := []
  pc : Caller → ClientPc Msg := fun _ => .idle

/-- What `SetUpSocket` returns. -/
def setUpSocket : Option ℕ → ℤ
  | some fd => fd
  | none => -1

/-- `Serialize` into an empty vector. -/
def serialized {Msg : Type} (pb : Protobuf Msg) (message : Msg) : Option (List UInt8) :=
  match serialize pb message [] with
  | (true, bytes) => some bytes
  | (false, _) => none

/-- What a receiver task pushes after `recv`: nothing if it timed out. -/
def recvEntry (endpoint : Endpoint) : RecvResult → Option ReceiveQueueMessage
  | .data bytes => some ⟨bytes, endpoint, bytes.length⟩
  | .closed => some ⟨[], endpoint, 0⟩
  | .failed => some ⟨[], endpoint, -1⟩
  | .timedOut => none

namespace Client

variable {Msg Caller Task : Type} [DecidableEq Caller] [DecidableEq Task]

/-- Who goes on: a caller that calls, or takes the next step of its call; and a task. -/
inductive Action (Msg Caller Task : Type)
  | call (caller : Caller) (call : ClientCall Msg)
  | connect (caller : Caller) (socket : Option ℕ)
  | startSender (caller : Caller) (task : Task)
  | startReceiver (caller : Caller) (task : Task)
  | proceed (caller : Caller)
  | push (caller : Caller)
  | look (caller : Caller)
  | spuriousWakeup (caller : Caller)
  | read (caller : Caller)
  | timeOut (caller : Caller)
  | finish (caller : Caller)
  | sender (task : Task) (action : SenderAction)
  | receiver (task : Task) (result : RecvResult)
  deriving DecidableEq, Repr

/-- A caller goes on at `pc`. -/
def goTo (s : Client Msg Caller Task) (c : Caller) (pc : ClientPc Msg) : Client Msg Caller Task :=
  { s with pc := Function.update s.pc c pc }

/-- A step of the part that sends. -/
def sends (s : Client Msg Caller Task) (a : MessageSender.Action Unit Unit Caller Task) :
    Option (Client Msg Caller Task) :=
  (s.sender.step a).map fun sender => { s with sender := sender }

/-- What a caller does when `EnsureConnected` has returned. -/
def proceed (pb : Protobuf Msg) (s : Client Msg Caller Task) (c : Caller) :
    ClientCall Msg → Option (Client Msg Caller Task)
  | .send message async =>
      if s.clientFd < 0 then (s.goTo c .idle).sends (.fail c)
      else (s.goTo c .idle).sends (.prepare c () (serialized pb message) async)
  | .receive timed =>
      if s.clientFd < 0 then some (s.goTo c .idle)
      else some ({ s with unProcessedMessages := [] }.goTo c
        (.receiving timed s.unProcessedMessages {} s.clientFd))

/-- The loop body of `DoReceive` on one entry. What it puts aside goes to `un_processed_messages_`.
-/
def process (s : Client Msg Caller Task) (c : Caller) (timed : Bool) (left : List Received)
    (reading : Receiving) (response : Received) : Client Msg Caller Task :=
  match reading.process response.message with
  | (false, _) => s.goTo c .idle
  | (true, next) =>
      { s with
        unProcessedMessages :=
          s.unProcessedMessages ++ next.unProcessedMessages.map (Received.mk response.fd) }.goTo c
        (.receiving timed left { next with unProcessedMessages := [] } response.fd)

/-- What the loop reads next: its copy of `un_processed_messages_` first, then the queue. -/
def next (s : Client Msg Caller Task) :
    List Received → Option (Received × List Received × Client Msg Caller Task)
  | response :: left => some (response, left, s)
  | [] =>
      match s.receiveQueue.queue with
      | response :: rest =>
          some (response, [], { s with receiveQueue := { s.receiveQueue with queue := rest } })
      | [] => none

/-- One `RunAtomic` of a receiver task. A task that failed is not run again. -/
def receive (s : Client Msg Caller Task) (t : Task) (fd : ℤ) (result : RecvResult) :
    Client Msg Caller Task :=
  match recvEntry s.endpoint result with
  | none => s
  | some message =>
      { s with
        receiveQueue := s.receiveQueue.push ⟨fd, message⟩
        receiveFd := Function.update s.receiveFd t (if 0 < message.status then some fd else none) }

/-- One step. -/
def step (pb : Protobuf Msg) (s : Client Msg Caller Task) :
    Action Msg Caller Task → Option (Client Msg Caller Task)
  | .call c call =>
      match s.pc c, s.sender.caller c with
      | .idle, .idle => some (s.goTo c (if s.clientFd < 0 then .connecting call else .ensured call))
      | _, _ => none
  | .connect c socket =>
      match s.pc c with
      | .connecting call =>
          some ({ s with clientFd := setUpSocket socket }.goTo c (.startingSender call))
      | _ => none
  | .startSender c t =>
      match s.pc c with
      | .startingSender call =>
          ({ s with sendFd := Function.update s.sendFd t (some s.clientFd) }.goTo c
            (.startingReceiver call)).sends (.start t ())
      | _ => none
  | .startReceiver c t =>
      match s.pc c, s.receiveFd t with
      | .startingReceiver call, none =>
          some ({ s with receiveFd := Function.update s.receiveFd t (some s.clientFd) }.goTo c
            (.ensured call))
      | _, _ => none
  | .proceed c =>
      match s.pc c with
      | .ensured call => s.proceed pb c call
      | _ => none
  | .push c => s.sends (.push c (some ()))
  | .look c => s.sends (.look c)
  | .spuriousWakeup c => s.sends (.spuriousWakeup c)
  | .read c =>
      match s.pc c with
      | .receiving timed left reading _ =>
          if reading.parser.hasCompleteMessage then none
          else (s.next left).map fun n => n.2.2.process c timed n.2.1 reading n.1
      | _ => none
  | .timeOut c =>
      match s.pc c with
      | .receiving true [] reading _ =>
          if reading.parser.hasCompleteMessage ∨ s.receiveQueue.queue ≠ [] then none
          else some (s.goTo c .idle)
      | _ => none
  | .finish c =>
      match s.pc c with
      | .receiving _ _ reading fd =>
          if reading.parser.hasCompleteMessage then
            let overflow := (reading.finish pb []).2.unProcessedMessages
            some ({ s with
              unProcessedMessages :=
                s.unProcessedMessages ++ overflow.map (Received.mk fd) }.goTo c .idle)
          else none
      | _ => none
  | .sender t action => s.sends (.task t action)
  | .receiver t result => (s.receiveFd t).map fun fd => s.receive t fd result

/-- What a `send` brings about. -/
def sendEvents (s : Client Msg Caller Task) (t : Task) (result : SendResult) :
    List (ClientEvent Msg Caller) :=
  match s.sender.task t, s.sendFd t with
  | some (_, .sending message), some fd => [.sent fd message result]
  | _, _ => []

/-- What a round of the loop brings about. -/
def readEvents (c : Caller) (reading : Receiving) (response : Received) :
    List (ClientEvent Msg Caller) :=
  match reading.process response.message with
  | (false, _) => [.receiveFailed c response.fd]
  | (true, _) => []

/-- What a step brings about. -/
def events (pb : Protobuf Msg) (s : Client Msg Caller Task) :
    Action Msg Caller Task → List (ClientEvent Msg Caller)
  | .sender t (.send result) => s.sendEvents t result
  | .proceed c =>
      match s.pc c with
      | .ensured (.receive _) => if s.clientFd < 0 then [.received c .failed] else []
      | _ => []
  | .read c =>
      match s.pc c with
      | .receiving _ left reading _ =>
          match s.next left with
          | some n => readEvents c reading n.1
          | none => []
      | _ => []
  | .timeOut c => [.received c .timedOut]
  | .finish c =>
      match s.pc c with
      | .receiving _ _ reading _ => [.received c (reading.finish pb []).1]
      | _ => []
  | _ => []

/-- The step of the part that sends in a step of the client, if it is one. -/
def senderActions (pb : Protobuf Msg) (s : Client Msg Caller Task) :
    Action Msg Caller Task → List (MessageSender.Action Unit Unit Caller Task)
  | .startSender _ t => [.start t ()]
  | .proceed c =>
      match s.pc c with
      | .ensured (.send message async) =>
          if s.clientFd < 0 then [.fail c]
          else [.prepare c () (serialized pb message) async]
      | _ => []
  | .push c => [.push c (some ())]
  | .look c => [.look c]
  | .spuriousWakeup c => [.spuriousWakeup c]
  | .sender t action => [.task t action]
  | _ => []

/-! ### One step -/

variable {pb : Protobuf Msg} {s s' : Client Msg Caller Task} {a : Action Msg Caller Task}

/-- The kinds of steps. `sender` is what the step makes of the part that sends. -/
inductive Stepped (pb : Protobuf Msg) (s : Client Msg Caller Task) :
    Action Msg Caller Task → Client Msg Caller Task → Prop
  | calls (c : Caller) (call : ClientCall Msg) (hpc : s.pc c = .idle)
      (hcaller : s.sender.caller c = .idle) :
      Stepped pb s (.call c call)
        (s.goTo c (if s.clientFd < 0 then .connecting call else .ensured call))
  | connects (c : Caller) (socket : Option ℕ) (call : ClientCall Msg)
      (hpc : s.pc c = .connecting call) :
      Stepped pb s (.connect c socket)
        ({ s with clientFd := setUpSocket socket }.goTo c (.startingSender call))
  | startsSender (c : Caller) (t : Task) (call : ClientCall Msg)
      (sender : MessageSender Unit Unit Caller Task) (hpc : s.pc c = .startingSender call)
      (hsender : s.sender.step (.start t ()) = some sender) :
      Stepped pb s (.startSender c t)
        ({ s with
          sendFd := Function.update s.sendFd t (some s.clientFd)
          sender := sender }.goTo c (.startingReceiver call))
  | startsReceiver (c : Caller) (t : Task) (call : ClientCall Msg)
      (hpc : s.pc c = .startingReceiver call) (hnew : s.receiveFd t = none) :
      Stepped pb s (.startReceiver c t)
        ({ s with receiveFd := Function.update s.receiveFd t (some s.clientFd) }.goTo c
          (.ensured call))
  | proceeds (c : Caller) (sender : MessageSender Unit Unit Caller Task)
      (hsender : runFrom MessageSender.step s.sender (s.senderActions pb (.proceed c)) =
        some sender) :
      Stepped pb s (.proceed c) ({ s with sender := sender }.goTo c .idle)
  | receives (c : Caller) (timed : Bool) (hpc : s.pc c = .ensured (.receive timed))
      (hfd : ¬s.clientFd < 0) :
      Stepped pb s (.proceed c) ({ s with unProcessedMessages := [] }.goTo c
        (.receiving timed s.unProcessedMessages {} s.clientFd))
  | sends (a : Action Msg Caller Task) (sender : MessageSender Unit Unit Caller Task)
      (hsender : runFrom MessageSender.step s.sender (s.senderActions pb a) = some sender) :
      Stepped pb s a { s with sender := sender }
  | reads (c : Caller) (timed : Bool) (left : List Received) (reading : Receiving) (fd : ℤ)
      (n : Received × List Received × Client Msg Caller Task)
      (hpc : s.pc c = .receiving timed left reading fd)
      (hincomplete : ¬reading.parser.hasCompleteMessage = true) (hn : s.next left = some n) :
      Stepped pb s (.read c) (n.2.2.process c timed n.2.1 reading n.1)
  | timesOut (c : Caller) (reading : Receiving) (fd : ℤ)
      (hpc : s.pc c = .receiving true [] reading fd) (hempty : s.receiveQueue.queue = []) :
      Stepped pb s (.timeOut c) (s.goTo c .idle)
  | finishes (c : Caller) (timed : Bool) (left : List Received) (reading : Receiving) (fd : ℤ)
      (hpc : s.pc c = .receiving timed left reading fd)
      (hcomplete : reading.parser.hasCompleteMessage = true) :
      Stepped pb s (.finish c) ({ s with
        unProcessedMessages := s.unProcessedMessages ++
          (reading.finish pb []).2.unProcessedMessages.map (Received.mk fd) }.goTo c .idle)
  | receiverRuns (t : Task) (fd : ℤ) (result : RecvResult) (hfd : s.receiveFd t = some fd) :
      Stepped pb s (.receiver t result) (s.receive t fd result)

/-- A step of the part that sends leaves the rest alone. -/
theorem sends_eq_some {b : MessageSender.Action Unit Unit Caller Task}
    (h : s.sends b = some s') :
    runFrom MessageSender.step s.sender [b] = some s'.sender ∧
      s' = { s with sender := s'.sender } := by
  obtain ⟨sender, hsender, rfl⟩ := Option.map_eq_some_iff.mp h
  exact ⟨(runFrom_singleton s.sender b).trans hsender, rfl⟩

/-- A call goes on after `EnsureConnected`. -/
theorem stepped_proceed {c : Caller} {call : ClientCall Msg} (hpc : s.pc c = .ensured call)
    (hproceed : s.proceed pb c call = some s') : Stepped pb s (.proceed c) s' := by
  cases call with
  | send message async =>
      rw [proceed] at hproceed
      split at hproceed
      · next hfd =>
          obtain ⟨hsender, heq⟩ := sends_eq_some hproceed
          rw [heq]
          refine .proceeds c _ ?_
          simp only [senderActions, hpc, if_pos hfd]
          exact hsender
      · next hfd =>
          obtain ⟨hsender, heq⟩ := sends_eq_some hproceed
          rw [heq]
          refine .proceeds c _ ?_
          simp only [senderActions, hpc, if_neg hfd]
          exact hsender
  | receive timed =>
      rw [proceed] at hproceed
      split at hproceed
      · obtain rfl := Option.some.inj hproceed
        refine .proceeds c s.sender ?_
        simp only [senderActions, hpc]
        rfl
      · next hfd =>
          obtain rfl := Option.some.inj hproceed
          exact .receives c timed hpc hfd

/-- **Every step is one of the kinds.** -/
theorem stepped_of_step (hstep : s.step pb a = some s') : Stepped pb s a s' := by
  have hsends : ∀ {b}, s.sends b = some s' → s.senderActions pb a = [b] → Stepped pb s a s' := by
    intro b h hb
    obtain ⟨hsender, heq⟩ := sends_eq_some h
    rw [heq]
    exact .sends a _ (hb ▸ hsender)
  cases a with
  | call c call =>
      rw [step] at hstep
      split at hstep
      · next hpc hcaller =>
          obtain rfl := Option.some.inj hstep
          exact .calls c call hpc hcaller
      · cases hstep
  | connect c socket =>
      rw [step] at hstep
      split at hstep
      · next call hpc =>
          obtain rfl := Option.some.inj hstep
          exact .connects c socket call hpc
      · cases hstep
  | startSender c t =>
      rw [step] at hstep
      split at hstep
      · next call hpc =>
          obtain ⟨sender, hsender, rfl⟩ := Option.map_eq_some_iff.mp hstep
          exact .startsSender c t call sender hpc hsender
      · cases hstep
  | startReceiver c t =>
      rw [step] at hstep
      split at hstep
      · next call hpc hnew =>
          obtain rfl := Option.some.inj hstep
          exact .startsReceiver c t call hpc hnew
      · cases hstep
  | proceed c =>
      rw [step] at hstep
      split at hstep
      · next call hpc => exact stepped_proceed hpc hstep
      · cases hstep
  | push c => exact hsends hstep rfl
  | look c => exact hsends hstep rfl
  | spuriousWakeup c => exact hsends hstep rfl
  | read c =>
      rw [step] at hstep
      split at hstep
      · next timed left reading fd hpc =>
          split at hstep
          · cases hstep
          · next hincomplete =>
              obtain ⟨n, hn, rfl⟩ := Option.map_eq_some_iff.mp hstep
              exact .reads c timed left reading fd n hpc hincomplete hn
      · cases hstep
  | timeOut c =>
      rw [step] at hstep
      split at hstep
      · next reading fd hpc =>
          split at hstep
          · cases hstep
          · next hwaits =>
              obtain rfl := Option.some.inj hstep
              exact .timesOut c reading fd hpc (not_not.mp (not_or.mp hwaits).2)
      · cases hstep
  | finish c =>
      rw [step] at hstep
      split at hstep
      · next timed left reading fd hpc =>
          split at hstep
          · next hcomplete =>
              obtain rfl := Option.some.inj hstep
              exact .finishes c timed left reading fd hpc hcomplete
          · cases hstep
      · cases hstep
  | sender t action => exact hsends hstep rfl
  | receiver t result =>
      obtain ⟨fd, hfd, rfl⟩ := Option.map_eq_some_iff.mp hstep
      exact .receiverRuns t fd result hfd

/-! ### The part that sends -/

omit [DecidableEq Task] in
/-- The loop of `DoReceive` sends nothing. -/
theorem sender_process (s : Client Msg Caller Task) (c : Caller) (timed : Bool)
    (left : List Received) (reading : Receiving) (response : Received) :
    (s.process c timed left reading response).sender = s.sender := by
  rw [process.eq_def]
  split <;> rfl

omit [DecidableEq Caller] [DecidableEq Task] in
theorem sender_next {left : List Received} {n : Received × List Received × Client Msg Caller Task}
    (h : s.next left = some n) : n.2.2.sender = s.sender := by
  cases left with
  | cons response left => exact Option.some.inj h ▸ rfl
  | nil =>
      rw [next] at h
      split at h
      · exact Option.some.inj h ▸ rfl
      · cases h

omit [DecidableEq Caller] in
theorem sender_receive (s : Client Msg Caller Task) (t : Task) (fd : ℤ) (result : RecvResult) :
    (s.receive t fd result).sender = s.sender := by
  rw [receive]
  split <;> rfl

/-- **A step of the client is a step of the part that sends, or leaves it alone.** -/
theorem step_sender (hstep : s.step pb a = some s') :
    runFrom MessageSender.step s.sender (s.senderActions pb a) = some s'.sender := by
  cases stepped_of_step hstep with
  | calls c call hpc hcaller => rfl
  | connects c socket call hpc => rfl
  | startsSender c t call sender hpc hsender =>
      exact (runFrom_singleton s.sender _).trans hsender
  | startsReceiver c t call hpc hnew => rfl
  | proceeds c sender hsender => exact hsender
  | receives c timed hpc hfd =>
      simp only [senderActions, hpc]
      rfl
  | sends a sender hsender => exact hsender
  | reads c timed left reading fd n hpc hincomplete hn =>
      exact congrArg some ((sender_process ..).trans (sender_next hn)).symm
  | timesOut c reading fd hpc hempty => rfl
  | finishes c timed left reading fd hpc hcomplete => rfl
  | receiverRuns t fd result hfd => exact congrArg some (sender_receive s t fd result).symm

/-- What the part that sends does in a run. -/
def senderRun (pb : Protobuf Msg) (s : Client Msg Caller Task)
    (acts : List (Action Msg Caller Task)) : List (MessageSender.Action Unit Unit Caller Task) :=
  collect (step pb) (senderActions pb) s acts

/-- **A run of the client is a run of the part that sends.** -/
theorem run_sender {acts : List (Action Msg Caller Task)}
    (hrun : runFrom (step pb) s acts = some s') :
    runFrom MessageSender.step s.sender (s.senderRun pb acts) = some s'.sender :=
  runFrom_collect (fun _ _ _ hstep => step_sender hstep) hrun

end Client

end MessagePassing

end Csci6780
