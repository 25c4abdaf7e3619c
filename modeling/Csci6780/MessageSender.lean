import Csci6780.SenderTask
import Csci6780.Lib.Runs
import Mathlib.Logic.Function.Basic

/-!
# Sending a Message

`Client` and `Server` send a message in the same way once they are connected. This module embeds
what they share: `DispatchSend` takes the next message id, serializes the message and pushes it on a
send queue; a sender task calls `send` and, for a synchronous message, stores the result under the
id in `send_results_`; `Send` waits for the result, reads it and erases it.

Any number of callers and of sender tasks do this at once. The increment of `message_id_`, an
operation on a queue and a section under the mutex of the results are one step each. `notify_all`
belongs to the step that stores a result: whoever is woken by it runs later, and may also wake up
for no reason.

How a caller is connected, and which queue it finds, is for `Client` and `Server` to say.

## Main definitions

* `MessageSender`: the message id, the queues, the results, the callers and the sender tasks.
* `MessageSender.step`, `MessageSender.events`: one step, and what it brings about.

## Main results

* `MessageSender.stepped_of_step`: every step is one of the cases of `MessageSender.Stepped`.
* `MessageSender.messageId_of_run`: `message_id_` counts the ids that are taken.
-/

namespace Csci6780

/-- Where a caller stands in `Send` or `SendAsync`: in no call; before the `Push` of its message, to
its destination; before it looks for its result, and asleep. -/
inductive SendPc (Dest : Type)
  | idle
  | dispatching (destination : Dest) (message : SendQueueMessage)
  | waiting (messageId : MessageId)
  | asleep (messageId : MessageId)
  deriving DecidableEq, Repr

namespace SendPc

variable {Dest : Type}

/-- A sleeper is woken. -/
def wake : SendPc Dest → SendPc Dest
  | .asleep messageId => .waiting messageId
  | pc => pc

/-- The id of the message whose result the caller waits for. -/
def awaited : SendPc Dest → Option MessageId
  | .waiting messageId | .asleep messageId => some messageId
  | _ => none

@[simp] theorem awaited_wake (pc : SendPc Dest) : pc.wake.awaited = pc.awaited := by
  cases pc <;> rfl

end SendPc

/-- What happens: a call ends before its message is on a queue, a message is put on a queue, `send`
is called for one, a result is stored, `Send` returns a result. -/
inductive SendingEvent (Caller Task : Type)
  | failed (caller : Caller)
  | dispatched (caller : Caller) (message : SendQueueMessage)
  | attempted (task : Task) (message : SendQueueMessage) (result : SendResult)
  | stored (messageId : MessageId) (status : Int32)
  | returned (caller : Caller) (messageId : MessageId) (result : Int32)
  deriving DecidableEq, Repr

/-- What `Client` and `Server` send with. A sender task that has been started has a queue. -/
structure MessageSender (Dest QueueId Caller Task : Type) where
  messageId : MessageId := 0
  sendResults : MessageId → Option Int32 := fun _ => none
  queues : QueueId → Queue SendQueueMessage := fun _ => {}
  caller : Caller → SendPc Dest := fun _ => .idle
  task : Task → Option (QueueId × SenderPc) := fun _ => none

namespace MessageSender

variable {Dest QueueId Caller Task : Type}

/-- Who goes on: a caller whose call ends early, one that takes an id for a message that has been
serialized or could not be, one that finds its queue or does not, one that looks for its result or
wakes up; and a sender task that is started, or takes a step. -/
inductive Action (Dest QueueId Caller Task : Type)
  | fail (caller : Caller)
  | prepare (caller : Caller) (destination : Dest) (serialized : Option (List UInt8)) (async : Bool)
  | push (caller : Caller) (queue : Option QueueId)
  | look (caller : Caller)
  | spuriousWakeup (caller : Caller)
  | start (task : Task) (queue : QueueId)
  | task (task : Task) (action : SenderAction)
  deriving DecidableEq, Repr

/-- The send callback: store the result and wake everyone. -/
def store (s : MessageSender Dest QueueId Caller Task) (messageId : MessageId) (status : Int32) :
    MessageSender Dest QueueId Caller Task :=
  { s with
    sendResults := Function.update s.sendResults messageId (some status)
    caller := fun c => (s.caller c).wake }

/-- What a step of a sender task does to the results. -/
def callback (s : MessageSender Dest QueueId Caller Task) :
    SenderPc → SenderAction → MessageSender Dest QueueId Caller Task
  | .reporting messageId status, .report => s.store messageId status
  | _, _ => s

variable [DecidableEq QueueId] [DecidableEq Caller] [DecidableEq Task]

/-- A caller goes on at `pc`. -/
def goTo (s : MessageSender Dest QueueId Caller Task) (c : Caller) (pc : SendPc Dest) :
    MessageSender Dest QueueId Caller Task :=
  { s with caller := Function.update s.caller c pc }

/-- A queue changes. -/
def setQueue (s : MessageSender Dest QueueId Caller Task) (q : QueueId)
    (queue : Queue SendQueueMessage) : MessageSender Dest QueueId Caller Task :=
  { s with queues := Function.update s.queues q queue }

/-- A sender task goes on at `pc`. -/
def setTask (s : MessageSender Dest QueueId Caller Task) (t : Task) (q : QueueId) (pc : SenderPc) :
    MessageSender Dest QueueId Caller Task :=
  { s with task := Function.update s.task t (some (q, pc)) }

/-- Where `DispatchSend` goes from `Serialize`. -/
def afterSerialize (messageId : MessageId) (destination : Dest) (async : Bool) :
    Option (List UInt8) → SendPc Dest
  | some bytes => .dispatching destination ⟨messageId, bytes, async⟩
  | none => .idle

/-- Where a caller goes from `Push`. -/
def afterPush (message : SendQueueMessage) : SendPc Dest :=
  if message.sendAsync then .idle else .waiting message.messageId

/-- One step. -/
def step (s : MessageSender Dest QueueId Caller Task) :
    Action Dest QueueId Caller Task → Option (MessageSender Dest QueueId Caller Task)
  | .fail c =>
      match s.caller c with
      | .idle => some s
      | _ => none
  | .prepare c destination serialized async =>
      match s.caller c with
      | .idle =>
          let messageId := s.messageId + 1
          some ({ s with messageId := messageId }.goTo c
            (afterSerialize messageId destination async serialized))
      | _ => none
  | .push c queue =>
      match s.caller c with
      | .dispatching _ message =>
          match queue with
          | some q => some ((s.setQueue q ((s.queues q).push message)).goTo c (afterPush message))
          | none => some (s.goTo c .idle)
      | _ => none
  | .look c =>
      match s.caller c with
      | .waiting messageId =>
          match s.sendResults messageId with
          | some _ =>
              some ({ s with sendResults := Function.update s.sendResults messageId none }.goTo c
                .idle)
          | none => some (s.goTo c (.asleep messageId))
      | _ => none
  | .spuriousWakeup c =>
      match s.caller c with
      | .asleep messageId => some (s.goTo c (.waiting messageId))
      | _ => none
  | .start t q =>
      match s.task t with
      | none => some (s.setTask t q .idle)
      | some _ => none
  | .task t action =>
      match s.task t with
      | some (q, pc) => (SenderPc.step (s.queues q) pc action).map fun next =>
          ((s.callback pc action).setQueue q next.1).setTask t q next.2
      | none => none

/-- What a step of a sender task brings about. -/
def taskEvents (t : Task) : SenderPc → SenderAction → List (SendingEvent Caller Task)
  | .sending message, .send result => [.attempted t message result]
  | .reporting messageId status, .report => [.stored messageId status]
  | _, _ => []

/-- What a step brings about. -/
def events (s : MessageSender Dest QueueId Caller Task) :
    Action Dest QueueId Caller Task → List (SendingEvent Caller Task)
  | .fail c => [.failed c]
  | .prepare c _ serialized _ => if serialized.isSome then [] else [.failed c]
  | .push c queue =>
      match s.caller c with
      | .dispatching _ message => if queue.isSome then [.dispatched c message] else [.failed c]
      | _ => []
  | .look c =>
      match s.caller c with
      | .waiting messageId =>
          match s.sendResults messageId with
          | some result => [.returned c messageId result]
          | none => []
      | _ => []
  | .task t action =>
      match s.task t with
      | some (_, pc) => taskEvents t pc action
      | none => []
  | _ => []

/-- What happens in a run. -/
def history (acts : List (Action Dest QueueId Caller Task)) : List (SendingEvent Caller Task) :=
  collect step events {} acts

/-! ### One step -/

variable {s s' : MessageSender Dest QueueId Caller Task} {a : Action Dest QueueId Caller Task}

/-- The kinds of steps, with what they bring about. -/
inductive Stepped (s : MessageSender Dest QueueId Caller Task) :
    List (SendingEvent Caller Task) → MessageSender Dest QueueId Caller Task → Prop
  | fails (c : Caller) (hpc : s.caller c = .idle) : Stepped s [.failed c] s
  | prepares (c : Caller) (destination : Dest) (bytes : List UInt8) (async : Bool)
      (hpc : s.caller c = .idle) :
      Stepped s [] ({ s with messageId := s.messageId + 1 }.goTo c
        (.dispatching destination ⟨s.messageId + 1, bytes, async⟩))
  | unserialized (c : Caller) (hpc : s.caller c = .idle) :
      Stepped s [.failed c] ({ s with messageId := s.messageId + 1 }.goTo c .idle)
  | pushes (c : Caller) (destination : Dest) (message : SendQueueMessage) (q : QueueId)
      (hpc : s.caller c = .dispatching destination message) :
      Stepped s [.dispatched c message]
        ((s.setQueue q ((s.queues q).push message)).goTo c (afterPush message))
  | unconnected (c : Caller) (destination : Dest) (message : SendQueueMessage)
      (hpc : s.caller c = .dispatching destination message) :
      Stepped s [.failed c] (s.goTo c .idle)
  | returns (c : Caller) (messageId : MessageId) (result : Int32)
      (hpc : s.caller c = .waiting messageId) (hresult : s.sendResults messageId = some result) :
      Stepped s [.returned c messageId result]
        ({ s with sendResults := Function.update s.sendResults messageId none }.goTo c .idle)
  | sleeps (c : Caller) (messageId : MessageId) (hpc : s.caller c = .waiting messageId) :
      Stepped s [] (s.goTo c (.asleep messageId))
  | wakes (c : Caller) (messageId : MessageId) (hpc : s.caller c = .asleep messageId) :
      Stepped s [] (s.goTo c (.waiting messageId))
  | starts (t : Task) (q : QueueId) (htask : s.task t = none) : Stepped s [] (s.setTask t q .idle)
  | pops (t : Task) (q : QueueId) (message : SendQueueMessage) (rest : List SendQueueMessage)
      (htask : s.task t = some (q, .idle)) (hqueue : (s.queues q).queue = message :: rest) :
      Stepped s [] ((s.setQueue q { s.queues q with queue := rest }).setTask t q (.sending message))
  | findsNothing (t : Task) (q : QueueId) (htask : s.task t = some (q, .idle)) :
      Stepped s [] (s.setTask t q .idle)
  | sends (t : Task) (q : QueueId) (message : SendQueueMessage) (result : SendResult)
      (htask : s.task t = some (q, .sending message)) :
      Stepped s [.attempted t message result] (s.setTask t q (SenderPc.afterSend message result))
  | requeues (t : Task) (q : QueueId) (message : SendQueueMessage)
      (htask : s.task t = some (q, .requeueing message)) :
      Stepped s [] ((s.setQueue q ((s.queues q).push message)).setTask t q .idle)
  | reports (t : Task) (q : QueueId) (messageId : MessageId) (status : Int32)
      (htask : s.task t = some (q, .reporting messageId status)) :
      Stepped s [.stored messageId status] ((s.store messageId status).setTask t q .idle)

omit [DecidableEq Caller] [DecidableEq Task] in
/-- A queue that stays as it is. -/
theorem setQueue_self (s : MessageSender Dest QueueId Caller Task) (q : QueueId) :
    s.setQueue q (s.queues q) = s := by
  rw [setQueue, Function.update_eq_self]

/-- A step of a sender task. -/
theorem stepped_task {t : Task} {q : QueueId} {pc pc' : SenderPc} {action : SenderAction}
    {queue : Queue SendQueueMessage} (htask : s.task t = some (q, pc))
    (hst : SenderPc.Stepped (s.queues q) pc action queue pc') :
    Stepped s (taskEvents t pc action)
      (((s.callback pc action).setQueue q queue).setTask t q pc') := by
  cases hst with
  | pop message rest hqueue => exact .pops t q message rest htask hqueue
  | popFails hqueue =>
      show Stepped s [] ((s.setQueue q (s.queues q)).setTask t q .idle)
      rw [setQueue_self]
      exact .findsNothing t q htask
  | send message result =>
      show Stepped s _ ((s.setQueue q (s.queues q)).setTask t q _)
      rw [setQueue_self]
      exact .sends t q message result htask
  | requeue message => exact .requeues t q message htask
  | report messageId status =>
      show Stepped s _
        (((s.store messageId status).setQueue q ((s.store messageId status).queues q)).setTask t
          q _)
      rw [setQueue_self]
      exact .reports t q messageId status htask

/-- **Every step is one of the kinds.** -/
theorem stepped_of_step (hstep : s.step a = some s') : Stepped s (s.events a) s' := by
  cases a with
  | fail c =>
      rw [step] at hstep
      split at hstep
      · next hpc =>
          obtain rfl := Option.some.inj hstep
          exact .fails c hpc
      · cases hstep
  | prepare c destination serialized async =>
      rw [step] at hstep
      split at hstep
      · next hpc =>
          obtain rfl := Option.some.inj hstep
          cases serialized with
          | none => exact .unserialized c hpc
          | some bytes => exact .prepares c destination bytes async hpc
      · cases hstep
  | push c queue =>
      rw [step] at hstep
      rw [events]
      split at hstep
      · next destination message hpc =>
          cases queue with
          | none =>
              obtain rfl := Option.some.inj hstep
              exact .unconnected c destination message hpc
          | some q =>
              obtain rfl := Option.some.inj hstep
              exact .pushes c destination message q hpc
      · cases hstep
  | look c =>
      rw [step] at hstep
      rw [events]
      split at hstep
      · next messageId hpc =>
          cases hresult : s.sendResults messageId with
          | none =>
              rw [hresult] at hstep
              obtain rfl := Option.some.inj hstep
              exact .sleeps c messageId hpc
          | some result =>
              rw [hresult] at hstep
              obtain rfl := Option.some.inj hstep
              exact .returns c messageId result hpc hresult
      · cases hstep
  | spuriousWakeup c =>
      rw [step] at hstep
      split at hstep
      · next messageId hpc =>
          obtain rfl := Option.some.inj hstep
          exact .wakes c messageId hpc
      · cases hstep
  | start t q =>
      rw [step] at hstep
      split at hstep
      · next htask =>
          obtain rfl := Option.some.inj hstep
          exact .starts t q htask
      · cases hstep
  | task t action =>
      rw [step] at hstep
      rw [events]
      split at hstep
      · next q pc htask =>
          obtain ⟨next, hnext, rfl⟩ := Option.map_eq_some_iff.mp hstep
          exact stepped_task htask (SenderPc.stepped_of_step hnext)
      · cases hstep

/-! ### The message id -/

/-- `message_id_` is incremented. -/
def Action.takesId : Action Dest QueueId Caller Task → Bool
  | .prepare .. => true
  | _ => false

/-- The number of ids that are taken. -/
def idsTaken (acts : List (Action Dest QueueId Caller Task)) : ℕ := acts.countP Action.takesId

variable {acts : List (Action Dest QueueId Caller Task)}

/-- What a step does to `message_id_`. -/
theorem messageId_of_step (hstep : s.step a = some s') :
    s'.messageId = s.messageId + UInt64.ofNat a.takesId.toNat := by
  have hzero : s.messageId = s.messageId + UInt64.ofNat 0 := (UInt64.add_zero _).symm
  cases a with
  | prepare c destination serialized async =>
      rw [step] at hstep
      split at hstep
      · obtain rfl := Option.some.inj hstep
        rfl
      · cases hstep
  | task t action =>
      rw [step] at hstep
      split at hstep
      · next q pc htask =>
          obtain ⟨next, hnext, rfl⟩ := Option.map_eq_some_iff.mp hstep
          have hsame : (s.callback pc action).messageId = s.messageId := by
            rw [callback.eq_def]
            split <;> rfl
          exact hsame.trans hzero
      · cases hstep
  | fail c =>
      rw [step] at hstep
      split at hstep
      · exact Option.some.inj hstep ▸ hzero
      · cases hstep
  | push c queue =>
      rw [step] at hstep
      split at hstep
      · cases queue with
        | none => exact Option.some.inj hstep ▸ hzero
        | some q => exact Option.some.inj hstep ▸ hzero
      · cases hstep
  | look c =>
      rw [step] at hstep
      split at hstep
      · split at hstep
        · exact Option.some.inj hstep ▸ hzero
        · exact Option.some.inj hstep ▸ hzero
      · cases hstep
  | spuriousWakeup c =>
      rw [step] at hstep
      split at hstep
      · exact Option.some.inj hstep ▸ hzero
      · cases hstep
  | start t q =>
      rw [step] at hstep
      split at hstep
      · exact Option.some.inj hstep ▸ hzero
      · cases hstep

/-- In a run, `message_id_` counts the ids that are taken. -/
theorem messageId_of_run (hrun : runFrom step {} acts = some s) :
    s.messageId = UInt64.ofNat (idsTaken acts) := by
  refine history_inv (fun acts s => s.messageId = UInt64.ofNat (idsTaken acts)) rfl
    (fun pre m a m' hm ih hstep => ?_) hrun
  rw [messageId_of_step hstep, ih, ← UInt64.ofNat_add, idsTaken, idsTaken, List.countP_append,
    List.countP_singleton]
  cases a.takesId <;> rfl

end MessageSender

end Csci6780
