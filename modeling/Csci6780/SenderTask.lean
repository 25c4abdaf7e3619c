import Csci6780.Queue
import Csci6780.Socket

/-!
# The Sender Task

This module embeds `message_passing::SenderTask`: `RunAtomic` takes a message off the send queue and
calls `send` once. A message that timed out goes back to the queue, at its end; with every other
result the task is done with the message, and tells a synchronous sender the result.

The task shares the queue with those who push messages, so that `RunAtomic` is several steps: the
`PopTimed`, the `send`, the `Push` of a message that goes back, and the callback. What the callback
does is for its owner. The send queues have no limit, and `Push` does not wait.

## Main definitions

* `SenderPc`: where a sender task stands.
* `SenderPc.step`: one step of a sender task, with its queue.
-/

namespace Csci6780

/-- `MessageId`. -/
abbrev MessageId := UInt64

/-- `SenderTask::SendQueueMessage`. -/
structure SendQueueMessage where
  messageId : MessageId
  message : List UInt8
  sendAsync : Bool
  deriving DecidableEq, Repr

/-- Where a sender task stands in `RunAtomic`: before `PopTimed`, before `send`, before the `Push`
of a message that timed out, and before the callback. -/
inductive SenderPc
  | idle
  | sending (message : SendQueueMessage)
  | requeueing (message : SendQueueMessage)
  | reporting (messageId : MessageId) (status : Int32)
  deriving DecidableEq, Repr

/-- What a sender task does next. A `PopTimed` that fails is one of its steps. -/
inductive SenderAction
  | pop
  | popFails
  | send (result : SendResult)
  | requeue
  | report
  deriving DecidableEq, Repr

namespace SenderPc

/-- The message that the task has taken off the queue and is not done with. -/
def held : SenderPc → Option SendQueueMessage
  | .sending message | .requeueing message => some message
  | _ => none

/-- What a `send` of a message returns, other than that it times out. -/
def sendResult (message : SendQueueMessage) : SendResult → ℤ
  | .accepted n => (message.message.take n).length
  | _ => -1

/-- Where `RunAtomic` goes from `send`. -/
def afterSend (message : SendQueueMessage) (result : SendResult) : SenderPc :=
  if result = .timedOut then .requeueing message
  else if message.sendAsync then .idle
  else .reporting message.messageId (Int32.ofInt (sendResult message result))

/-- One step of a sender task, with its queue. -/
def step (queue : Queue SendQueueMessage) (pc : SenderPc) :
    SenderAction → Option (Queue SendQueueMessage × SenderPc)
  | .pop =>
      match pc, queue.queue with
      | .idle, message :: rest => some ({ queue with queue := rest }, .sending message)
      | _, _ => none
  | .popFails => if pc = .idle ∧ queue.queue = [] then some (queue, .idle) else none
  | .send result =>
      match pc with
      | .sending message => some (queue, afterSend message result)
      | _ => none
  | .requeue =>
      match pc with
      | .requeueing message => some (queue.push message, .idle)
      | _ => none
  | .report =>
      match pc with
      | .reporting _ _ => some (queue, .idle)
      | _ => none

/-- The kinds of steps. -/
inductive Stepped (queue : Queue SendQueueMessage) :
    SenderPc → SenderAction → Queue SendQueueMessage → SenderPc → Prop
  | pop (message : SendQueueMessage) (rest : List SendQueueMessage)
      (hqueue : queue.queue = message :: rest) :
      Stepped queue .idle .pop { queue with queue := rest } (.sending message)
  | popFails (hqueue : queue.queue = []) : Stepped queue .idle .popFails queue .idle
  | send (message : SendQueueMessage) (result : SendResult) :
      Stepped queue (.sending message) (.send result) queue (afterSend message result)
  | requeue (message : SendQueueMessage) :
      Stepped queue (.requeueing message) .requeue (queue.push message) .idle
  | report (messageId : MessageId) (status : Int32) :
      Stepped queue (.reporting messageId status) .report queue .idle

variable {queue queue' : Queue SendQueueMessage} {pc pc' : SenderPc} {a : SenderAction}

/-- **Every step is one of the kinds.** -/
theorem stepped_of_step (hstep : step queue pc a = some (queue', pc')) :
    Stepped queue pc a queue' pc' := by
  cases a with
  | pop =>
      cases pc with
      | idle =>
          cases hqueue : queue.queue with
          | nil =>
              simp only [step, hqueue] at hstep
              cases hstep
          | cons message rest =>
              simp only [step, hqueue] at hstep
              obtain ⟨rfl, rfl⟩ := Prod.mk.inj (Option.some.inj hstep)
              exact .pop message rest hqueue
      | _ => cases hstep
  | popFails =>
      rw [step] at hstep
      split at hstep
      · next h =>
          obtain ⟨rfl, rfl⟩ := Prod.mk.inj (Option.some.inj hstep)
          rw [h.1]
          exact .popFails h.2
      · cases hstep
  | send result =>
      cases pc with
      | sending message =>
          obtain ⟨rfl, rfl⟩ := Prod.mk.inj (Option.some.inj hstep)
          exact .send message result
      | _ => cases hstep
  | requeue =>
      cases pc with
      | requeueing message =>
          obtain ⟨rfl, rfl⟩ := Prod.mk.inj (Option.some.inj hstep)
          exact .requeue message
      | _ => cases hstep
  | report =>
      cases pc with
      | reporting messageId status =>
          obtain ⟨rfl, rfl⟩ := Prod.mk.inj (Option.some.inj hstep)
          exact .report messageId status
      | _ => cases hstep

end SenderPc

end Csci6780
