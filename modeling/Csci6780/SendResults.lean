import Csci6780.OwnSendResults
import Csci6780.MessagePassingServer
import Csci6780.FtpMessages

/-!
# The Results of Synchronous Sends

Clients and servers send with the same code, and what holds in every run of it holds in every run of
theirs: a synchronous `Send` returns the result of its own message, the table of the results has
nothing in it but results that somebody waits for, and asynchronous sends leave nothing there.

The one assumption is that `message_id_` does not wrap around, so that fewer than `2 ^ 64` ids are
taken. A call takes one id at most.

## Main results

* `results_are_own`: in every run of a client, and in every run of a server.
-/

namespace Csci6780

namespace MessageSender

variable {Dest QueueId Caller Task : Type} [DecidableEq Caller]

/-- After the history `hist`, every result that was returned is the caller's own; no two messages
have the same id; a result in the table is waited for by a caller whose message is synchronous; a
result has been stored once for an id, and none is there for an asynchronous message. -/
structure ResultsOwn (hist : List (SendingEvent Caller Task))
    (s : MessageSender Dest QueueId Caller Task) : Prop where
  own : ∀ pre c id result, pre ++ [.returned c id result] <+: hist → OwnResult pre c id result
  ids : (dispatchedIds hist).Nodup
  waited : ∀ id status, s.sendResults id = some status → ∃ c message,
    (s.caller c).awaited = some id ∧ lastDispatched hist c = some message ∧
      message.messageId = id ∧ message.sendAsync = false
  once : (storedIds hist).Nodup
  async : ∀ message ∈ dispatchedMessages hist, message.sendAsync = true →
    s.sendResults message.messageId = none

variable {hist : List (SendingEvent Caller Task)} {s : MessageSender Dest QueueId Caller Task}

/-- What holds in every state of a run says so. -/
theorem Answers.resultsOwn (h : Answers hist s) : ResultsOwn hist s := by
  have hwaited : ∀ id status, s.sendResults id = some status → ∃ c message,
      (s.caller c).awaited = some id ∧ lastDispatched hist c = some message ∧
        message.messageId = id ∧ message.sendAsync = false := by
    intro id status hresult
    obtain ⟨-, c, hawaited⟩ : Reported hist s id status := h.fine _ _ (holds_results hresult)
    obtain ⟨message, hlast, hid, hsync⟩ := h.awaits c id hawaited
    exact ⟨c, message, hawaited, hlast, hid, hsync⟩
  refine ⟨h.records.own, h.records.dispatched, hwaited, h.records.stored, ?_⟩
  intro message hmessage hasync
  cases hresult : s.sendResults message.messageId with
  | none => rfl
  | some status =>
      -- The message that is waited for has the same id, and is the same message.
      obtain ⟨c, other, -, hlast, hid, hsync⟩ := hwaited _ status hresult
      have hother := mem_dispatchedMessages (mem_of_lastDispatched hlast)
      obtain rfl := List.inj_on_of_nodup_map h.records.dispatched hother hmessage hid
      rw [hasync] at hsync
      cases hsync

end MessageSender

namespace MessagePassing

variable {Msg Caller Task : Type} [DecidableEq Caller] [DecidableEq Task]

/-- **Every caller gets its own result**, in every run of a client and in every run of a server in
which fewer than `2 ^ 64` ids are taken, for any number of callers and sender tasks. -/
theorem results_are_own (pb : Protobuf Msg) :
    (∀ (endpoint : Endpoint) (acts : List (Client.Action Msg Caller Task))
        (client : Client Msg Caller Task),
      MessageSender.idsTaken (Client.senderRun pb { endpoint := endpoint } acts) < 2 ^ 64 →
      runFrom (Client.step pb) { endpoint := endpoint } acts = some client →
      MessageSender.ResultsOwn
        (MessageSender.history (Client.senderRun pb { endpoint := endpoint } acts)) client.sender) ∧
    (∀ (acts : List (Server.Action Msg Caller Task)) (server : Server Caller Task),
      MessageSender.idsTaken (Server.senderRun pb {} acts) < 2 ^ 64 →
      runFrom (Server.step pb) {} acts = some server →
      MessageSender.ResultsOwn (MessageSender.history (Server.senderRun pb {} acts))
        server.sender) := by
  constructor
  · intro endpoint acts client hcalls hrun
    exact (MessageSender.answers_of_run hcalls (Client.run_sender hrun)).resultsOwn
  · intro acts server hcalls hrun
    exact (MessageSender.answers_of_run hcalls (Server.run_sender hrun)).resultsOwn

/-- Two callers send at once; the first message times out once. -/
def twoSends : List (Client.Action FileContents Bool Unit) :=
  let message : FileContents := { contents := [7] }
  [.call false (.send message false), .connect false (some 3), .startSender false (),
    .startReceiver false (), .proceed false, .call true (.send message false), .proceed true,
    .push true, .push false, .look false, .look true, .sender () .pop, .sender () (.send .timedOut),
    .sender () .requeue, .sender () .pop, .sender () (.send .failed), .sender () .report,
    .look true, .sender () .pop, .sender () (.send (.accepted 2)), .sender () .report, .look true,
    .look false]

/-- A client connects to a server, which sends it a message. -/
def serverSend : List (Server.Action FileContents Bool Unit) :=
  [.accept () {}, .newClient, .send true { contents := [7] } {} false true, .push true,
    .sender () .pop, .sender () (.send (.accepted 7)), .sender () .report, .look true]

theorem results_are_own_two :
    (∃ client, runFrom (Client.step fileContentsProto) {} twoSends = some client ∧
      MessageSender.ResultsOwn
        (MessageSender.history (Client.senderRun fileContentsProto {} twoSends))
        client.sender) ∧
    (∃ server, runFrom (Server.step fileContentsProto) {} serverSend = some server ∧
      MessageSender.ResultsOwn
        (MessageSender.history (Server.senderRun fileContentsProto {} serverSend))
        server.sender) ∧
    .returned false 1 (-1) ∈
      MessageSender.history (Client.senderRun fileContentsProto {} twoSends) ∧
    .returned true 2 2 ∈ MessageSender.history (Client.senderRun fileContentsProto {} twoSends) ∧
    .returned true 1 7 ∈
      MessageSender.history (Server.senderRun fileContentsProto {} serverSend) := by
  obtain ⟨client, hclient⟩ := Option.isSome_iff_exists.mp
    (show (runFrom (Client.step fileContentsProto) {} twoSends).isSome = true by decide)
  obtain ⟨server, hserver⟩ := Option.isSome_iff_exists.mp
    (show (runFrom (Server.step fileContentsProto) {} serverSend).isSome = true by decide)
  exact ⟨⟨client, hclient,
      (results_are_own fileContentsProto).1 {} twoSends client (by decide) hclient⟩,
    ⟨server, hserver,
      (results_are_own fileContentsProto).2 serverSend server (by decide) hserver⟩,
    by decide, by decide, by decide⟩

end MessagePassing

end Csci6780
