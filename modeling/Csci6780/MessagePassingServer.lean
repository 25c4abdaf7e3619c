import Csci6780.MessagePassingClient

/-!
# The Message Passing Server

This module embeds how `message_passing::Server` sends. `EnsureConnected` asks the pool whether the
server task is still running, and the answer is part of the step in which `DispatchSend` goes on.
The server has a send queue for every endpoint that has connected; `DispatchSend` looks it up and
pushes the message in one section.

The server task accepts clients, one after the other. For each it makes a send queue, starts a
sender task that nobody else uses, and puts the queue in the table under the endpoint of the client,
where it replaces that of an earlier connection.

## Main definitions

* `Server`: the members, and where the callers and the tasks stand.
* `Server.step`: one step.

## Main results

* `Server.run_sender`: a run of the server is a run of its `MessageSender`.
-/

namespace Csci6780

namespace MessagePassing

/-- `Server`, with its callers and its tasks. The send queue of a client goes by the name of its
sender task; `accepted` is the client whose queue is not in the table yet. -/
structure Server (Caller Task : Type) where
  sender : MessageSender Endpoint Task Caller Task := {}
  sendQueues : Endpoint → Option Task := fun _ => none
  accepted : Option (Task × Endpoint) := none

namespace Server

variable {Msg Caller Task : Type} [DecidableEq Caller] [DecidableEq Task]

/-- Who goes on: a caller of `Send` or `SendAsync`; the server task, which accepts a client and
calls the new client callback; and a sender task. -/
inductive Action (Msg Caller Task : Type)
  | send (caller : Caller) (message : Msg) (destination : Endpoint) (async running : Bool)
  | push (caller : Caller)
  | look (caller : Caller)
  | spuriousWakeup (caller : Caller)
  | accept (task : Task) (endpoint : Endpoint)
  | newClient
  | sender (task : Task) (action : SenderAction)
  deriving DecidableEq, Repr

/-- A step of the part that sends. -/
def sends (s : Server Caller Task) (a : MessageSender.Action Endpoint Task Caller Task) :
    Option (Server Caller Task) :=
  (s.sender.step a).map fun sender => { s with sender := sender }

/-- One step. -/
def step (pb : Protobuf Msg) (s : Server Caller Task) :
    Action Msg Caller Task → Option (Server Caller Task)
  | .send c message destination async running =>
      if running then s.sends (.prepare c destination (serialized pb message) async)
      else s.sends (.fail c)
  | .push c =>
      match s.sender.caller c with
      | .dispatching destination _ => s.sends (.push c (s.sendQueues destination))
      | _ => none
  | .look c => s.sends (.look c)
  | .spuriousWakeup c => s.sends (.spuriousWakeup c)
  | .accept t endpoint =>
      match s.accepted with
      | none => { s with accepted := some (t, endpoint) }.sends (.start t t)
      | some _ => none
  | .newClient =>
      match s.accepted with
      | some (t, endpoint) =>
          some { s with
            sendQueues := Function.update s.sendQueues endpoint (some t)
            accepted := none }
      | none => none
  | .sender t action => s.sends (.task t action)

/-- The step of the part that sends in a step of the server, if it is one. -/
def senderActions (pb : Protobuf Msg) (s : Server Caller Task) :
    Action Msg Caller Task → List (MessageSender.Action Endpoint Task Caller Task)
  | .send c message destination async running =>
      if running then [.prepare c destination (serialized pb message) async] else [.fail c]
  | .push c =>
      match s.sender.caller c with
      | .dispatching destination _ => [.push c (s.sendQueues destination)]
      | _ => []
  | .look c => [.look c]
  | .spuriousWakeup c => [.spuriousWakeup c]
  | .accept t _ => [.start t t]
  | .newClient => []
  | .sender t action => [.task t action]

variable {pb : Protobuf Msg} {s s' : Server Caller Task} {a : Action Msg Caller Task}

/-- **A step of the server is a step of the part that sends, or leaves it alone.** -/
theorem step_sender (hstep : s.step pb a = some s') :
    runFrom MessageSender.step s.sender (s.senderActions pb a) = some s'.sender := by
  have hone : ∀ {b} {m : Server Caller Task}, m.sends b = some s' → m.sender = s.sender →
      runFrom MessageSender.step s.sender [b] = some s'.sender := by
    intro b m h hm
    obtain ⟨sender, hsender, rfl⟩ := Option.map_eq_some_iff.mp h
    rw [runFrom_singleton, ← hm]
    exact hsender
  cases a with
  | send c message destination async running =>
      rw [step] at hstep
      rw [senderActions]
      split at hstep
      · next hrunning =>
          rw [if_pos hrunning]
          exact hone hstep rfl
      · next hrunning =>
          rw [if_neg hrunning]
          exact hone hstep rfl
  | push c =>
      rw [step] at hstep
      rw [senderActions]
      split at hstep
      · exact hone hstep rfl
      · cases hstep
  | look c => exact hone hstep rfl
  | spuriousWakeup c => exact hone hstep rfl
  | accept t endpoint =>
      rw [step] at hstep
      split at hstep
      · exact hone hstep rfl
      · cases hstep
  | newClient =>
      rw [step] at hstep
      split at hstep
      · exact Option.some.inj hstep ▸ rfl
      · cases hstep
  | sender t action => exact hone hstep rfl

/-- What the part that sends does in a run. -/
def senderRun (pb : Protobuf Msg) (s : Server Caller Task)
    (acts : List (Action Msg Caller Task)) :
    List (MessageSender.Action Endpoint Task Caller Task) :=
  collect (step pb) (senderActions pb) s acts

/-- **A run of the server is a run of the part that sends.** -/
theorem run_sender {acts : List (Action Msg Caller Task)}
    (hrun : runFrom (step pb) s acts = some s') :
    runFrom MessageSender.step s.sender (s.senderRun pb acts) = some s'.sender :=
  runFrom_collect (fun _ _ _ hstep => step_sender hstep) hrun

end Server

end MessagePassing

end Csci6780
