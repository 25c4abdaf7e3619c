import Csci6780.CoordinatorMessages
import Csci6780.ForeverCalls
import Csci6780.ParticipantShell

/-!
# A Group and its Connections

A `Group` hands the requests of its shells to the coordinator as they are. This module has the
connections in between: `Participant::ConnectAndSend` serialises the request and sends it,
`Coordinator::Coordinate` reads one message and dispatches it, `SendRegistrationResponse` answers a
registration with one call of `send`, and `Participant::WaitForMessage` reads the answer. Each
request has a connection of its own, with a new parser on the coordinator's side; the participant
resets its own.

A command is handled to completion before the next one: a coordinator that handles several requests
at a time is the subject of other modules.

The coordinator does not look at whether the answer was sent, and closes the connection behind it. A
participant that gets a part of the answer, or nothing, goes on with the id 0.

A `send` of the request that fails on a connection that has been set up is no step here: the
coordinator waits for the rest of the request then, and nobody closes the connection.

## Main results

* `Coordinator.coordinate_of_frame`: the coordinator serves the first message of a connection.
* `Coordinator.coordinate_of_no_message`: without one, nothing happens.
* `group_of_run`, `run_of_group`: a group with its connections does what a `Group` does, and what a
  `Group` does, one with its connections can do.
-/

namespace Csci6780.PubSub

/-- The two message classes. -/
structure PubSubProtobuf where
  request : Protobuf CoordinatorMessage
  response : Protobuf RegistrationResponse

/-- What the programs rely on. -/
structure PubSubProtobuf.Lawful (pb : PubSubProtobuf) : Prop where
  request : pb.request.Lawful
  response : pb.response.Lawful
  small : ∀ response, pb.response.byteSizeLong response < 2 ^ 31

/-- The proto3 classes. -/
def pubSubProto : PubSubProtobuf := ⟨coordinatorMessageProto, registrationResponseProto⟩

theorem pubSubProto_lawful : pubSubProto.Lawful where
  request := coordinatorMessageProto_lawful
  response := registrationResponseProto_lawful
  small := byteSizeLong_registrationResponse

/-! ### The coordinator's side -/

/-- `Coordinator::ClientState`. -/
inductive ClientState
  | active
  | disconnected
  | error
  deriving DecidableEq, Repr

namespace Coordinator

variable (pb : PubSubProtobuf)

/-- `Coordinator::ReadNextMessage` on a new connection, `none` if it blocks. -/
def readNextMessage (incoming : List RecvResult) :
    Option (ClientState × Option CoordinatorMessage) :=
  match recvLoop false incoming {} with
  | (.complete, parser, _) =>
      match (parser.getMessage pb.request).1 with
      | none => some (.error, none)
      | some message => some (.active, some message)
  | (.closed, _, _) => some (.disconnected, none)
  | (.timedOut, _, _) => some (.error, none)
  | (.failed, _, _) => some (.error, none)
  | (.blocked, _, _) => none

/-- What `DispatchMessage` returns. -/
def dispatchState : CoordinatorMessage → ClientState
  | .notSet => .error
  | _ => .active

/-- Accept a connection, and `Coordinator::Coordinate`: what it returns, and the coordinator. The
request of the exchange does not matter. -/
def coordinate (c : Coordinator) (x : Exchange) (incoming : List RecvResult) :
    Option (Bool × Coordinator) :=
  if c.descriptors.free x.clientFd then
    let c := { c with descriptors := c.descriptors.openAs x.clientFd .request }
    match readNextMessage pb incoming with
    | none => none
    | some (.active, some message) =>
        (c.dispatchMessage { x with request := message }).map fun c =>
          (dispatchState message ≠ .error, c)
    | some (state, _) => some (state ≠ .error, c)
  else none

/-- `Coordinator::SendRegistrationResponse`: the bytes that are sent. -/
def sendRegistrationResponse (id : UInt32) (result : SendResult) : List UInt8 :=
  let (serialized, buffer) := serialize pb.response ⟨id⟩ []
  if serialized then
    match result with
    | .accepted n => buffer.take n
    | _ => []
  else []

end Coordinator

/-! ### The participant's side -/

namespace ParticipantShell

variable (pb : PubSubProtobuf) (fuel : ℕ)

/-- `Participant::ConnectAndSend` on a connection: whether the request is sent, and the bytes that
are. -/
def connectAndSend (sends : List SendResult) (request : CoordinatorMessage) :
    Option (Bool × List UInt8) :=
  (sendForever fuel (serialize pb.request request []).2 { sends }).map fun (result, socket) =>
    (¬result < 0, socket.sent)

/-- `Participant::WaitForMessage` and `GetMessage`: the response, and the parser; `none` if it
blocks. -/
def waitForMessage (parser : MessageParser) (incoming : List RecvResult) :
    Option (Option RegistrationResponse × MessageParser) :=
  match recvLoop true incoming parser.resetParser with
  | (.blocked, _, _) => none
  | (_, parser, _) => some (parser.getMessage pb.response)

end ParticipantShell

/-! ### The group -/

/-- The shells and the coordinator, and the parsers of the shells. -/
structure WireGroup (ι : Type) where
  group : Group ι
  parsers : ι → MessageParser := fun _ => {}

/-- A command line typed into a shell, and what it meets: whether the connection can be set up, what
the calls of `send` accept, how the request and the answer arrive. -/
structure WireCommand (ι : Type) where
  shell : ι
  line : String
  connected : Bool
  exchange : Exchange
  sends : List SendResult := []
  request : List (List UInt8) := []
  answer : SendResult := .failed
  response : List RecvResult := []

namespace WireGroup

variable {ι : Type} [DecidableEq ι] (pb : PubSubProtobuf) (fuel : ℕ)

/-- The bytes of the answer that the coordinator has sent, if any. -/
def answerBytes (before after : Coordinator) (result : SendResult) : List UInt8 :=
  match Group.response before after with
  | none => []
  | some id => Coordinator.sendRegistrationResponse pb id result

/-- What the shell makes of the answer: only a registration waits for one. -/
def receive (w : WireGroup ι) (a : WireCommand ι) (s : ParticipantShell) (bytes : List UInt8) :
    Option (Option RegistrationResponse × MessageParser) :=
  if s.inputParser.req = .reg then
    if Unhurried a.response ∧ arrived a.response = bytes then
      ParticipantShell.waitForMessage pb (w.parsers a.shell) (a.response ++ [.closed])
    else none
  else some (none, w.parsers a.shell)

/-- A request on its connection. -/
def exchange (w : WireGroup ι) (a : WireCommand ι) (s : ParticipantShell)
    (request : CoordinatorMessage) : Option (WireGroup ι) :=
  match ParticipantShell.connectAndSend pb fuel a.sends request with
  | some (true, sent) =>
      if Segments a.request ∧ a.request.flatten = sent then
        match w.group.coordinator.coordinate pb a.exchange (arriving a.request) with
        | none => none
        | some (_, coordinator) =>
            (receive pb w a s (answerBytes pb w.group.coordinator coordinator a.answer)).map
              fun (response, parser) =>
                { group :=
                    { coordinator
                      shells := Function.update w.group.shells a.shell
                        (s.afterRequest (response.map (·.participantId))) }
                  parsers := Function.update w.parsers a.shell parser }
      else none
  | _ => none

/-- The shell goes on, and nothing else happens. -/
def setShell (w : WireGroup ι) (i : ι) (s : ParticipantShell) : WireGroup ι :=
  { w with group := { w.group with shells := Function.update w.group.shells i s } }

/-- One round of the loop of `Participant::Start`. -/
def step (w : WireGroup ι) (a : WireCommand ι) : Option (WireGroup ι) :=
  let s := w.group.shells a.shell
  if s.running then
    let s := s.parse a.line
    if s.inputParser.isValid then
      match s.inputParser.createReq with
      | none => some (w.setShell a.shell { s.sendConsole "Bye!" with running := false })
      | some request =>
          if a.connected then exchange pb fuel w a s request
          else
            let s := s.sendConsole "Couldn't instantiate a connection with coordinator."
            some (w.setShell a.shell { s with running := false })
    else some (w.setShell a.shell (s.sendConsole "Invalid command!"))
  else none

end WireGroup

/-! ### The coordinator reads one message -/

namespace Coordinator

variable {pb : PubSubProtobuf} (c : Coordinator) (x : Exchange) {segments : List (List UInt8)}
  {tail : List RecvResult}

variable (pb) in
/-- The first frame of a connection is read, whatever comes behind it. -/
theorem readNextMessage_of_hasFrame (hseg : Segments segments) (hf : HasFrame segments.flatten)
    (tail : List RecvResult) :
    readNextMessage pb (arriving segments ++ tail) =
      match pb.request.parseBody (frameBody segments.flatten) with
      | none => some (.error, none)
      | some message => some (.active, some message) := by
  have hfresh : HasFrame (MessageParser.pending {} ++ segments.flatten) := hf
  obtain ⟨taken, left, parser, rfl, hready, hpending, hframe, -, hrun⟩ :=
    recvLoop_of_hasFrame false MessageParser.ready_fresh hseg hfresh
  replace hpending : parser.pending = taken.flatten := hpending
  have hbody : frameBody (taken ++ left).flatten = frameBody parser.pending := by
    rw [List.flatten_append, ← hpending, (hframe.append _).2.1]
  rw [readNextMessage, hrun, hbody]
  dsimp only
  rw [(hready.wellFormed.getMessage_of_hasFrame pb.request hframe).2]

/-- **The coordinator serves the first message of a connection**, however it is cut, and looks at
nothing that comes behind it. -/
theorem coordinate_of_frame (hpb : pb.request.Lawful) {message : CoordinatorMessage}
    (hsize : pb.request.byteSizeLong message < 2 ^ 31) (hseg : Segments segments)
    {rest : List UInt8} (hstream : segments.flatten = frame (pb.request.encoding message) ++ rest)
    (tail : List RecvResult) :
    coordinate pb c x (arriving segments ++ tail) =
      (c.serve { x with request := message }).map fun c =>
        (decide (dispatchState message ≠ .error), c) := by
  have hlength := hpb.length_encoding hsize
  have hbody : (pb.request.encoding message).length < 2 ^ 32 := by omega
  have hf : HasFrame segments.flatten := hstream ▸ hasFrame_frame_append hbody rest
  have hread := readNextMessage_of_hasFrame pb hseg hf tail
  rw [hstream, frameBody_frame_append hbody, hpb.parseBody_encoding hsize] at hread
  rw [coordinate, serve]
  split
  · rw [hread]
  · rfl

/-- **Without a message nothing happens**: a connection that ends before a complete frame, or whose
first frame does not parse, leaves everything as it is, but for its descriptor. -/
theorem coordinate_of_no_message {c' : Coordinator} {ok : Bool} (hseg : Segments segments)
    (htail : ∀ bytes rest, tail ≠ .data bytes :: rest)
    (hnone : HasFrame segments.flatten →
      pb.request.parseBody (frameBody segments.flatten) = none)
    (h : coordinate pb c x (arriving segments ++ tail) = some (ok, c')) :
    c' = { c with descriptors := c.descriptors.openAs x.clientFd .request } := by
  have hread : ∃ state, readNextMessage pb (arriving segments ++ tail) = none ∨
      readNextMessage pb (arriving segments ++ tail) = some (state, none) := by
    by_cases hf : HasFrame segments.flatten
    · rw [readNextMessage_of_hasFrame pb hseg hf tail, hnone hf]
      exact ⟨.error, .inr rfl⟩
    · obtain ⟨parser, -, -, hopen, hrun⟩ :=
        recvLoop_of_not_hasFrame false MessageParser.ready_fresh hseg hf
      have hnot : ¬parser.hasCompleteMessage = true := Bool.eq_false_iff.mp hopen
      rw [readNextMessage, hrun]
      cases tail with
      | nil =>
          rw [recvLoop, if_neg hnot]
          exact ⟨.error, .inl rfl⟩
      | cons result tail =>
          cases result with
          | data bytes => exact absurd rfl (htail bytes tail)
          | closed =>
              rw [recvLoop, if_neg hnot]
              exact ⟨.disconnected, .inr rfl⟩
          | timedOut | failed =>
              rw [recvLoop, if_neg hnot]
              exact ⟨.error, .inr rfl⟩
  rw [coordinate] at h
  split at h
  · obtain ⟨state, hread | hread⟩ := hread
    · rw [hread] at h
      cases h
    · rw [hread] at h
      cases state <;> exact (Prod.mk.inj (Option.some.inj h)).2.symm
  · cases h

end Coordinator

/-! ### The answer to a registration -/

section Answer

variable {pb : PubSubProtobuf} {parser : MessageParser} {incoming : List RecvResult}

/-- An answer that has come whole is read. -/
theorem waitForMessage_of_frame (hpb : pb.response.Lawful) (hwf : parser.WellFormed)
    (hun : Unhurried incoming) {response : RegistrationResponse}
    (hsize : pb.response.byteSizeLong response < 2 ^ 31)
    (hbytes : arrived incoming = frame (pb.response.encoding response)) :
    ∃ next : MessageParser, next.WellFormed ∧
      ParticipantShell.waitForMessage pb parser (incoming ++ [.closed]) =
        some (some response, next) := by
  have hlength := hpb.length_encoding hsize
  have hbody : (pb.response.encoding response).length < 2 ^ 32 := by omega
  have hall : parser.resetParser.pending ++ arrived incoming =
      frame (pb.response.encoding response) := by
    rw [MessageParser.pending_resetParser, hbytes, List.nil_append]
  obtain ⟨last, left, hready, hpending, -, -, hrun⟩ :=
    recvLoop_of_frame hwf.ready_resetParser hun hbody hall [.closed]
  have hframe : last.pending = frame (pb.response.encoding response) ++ [] := by
    rw [hpending, List.append_nil]
  have hf : HasFrame last.pending := hframe ▸ hasFrame_frame_append hbody []
  have hget := (hready.wellFormed.getMessage_of_hasFrame pb.response hf).2
  rw [hframe, frameBody_frame_append hbody, hpb.parseBody_encoding hsize] at hget
  refine ⟨last.nextMessage, (hready.nextMessage hf).1.wellFormed, ?_⟩
  rw [ParticipantShell.waitForMessage, hrun]
  exact congrArg some hget

variable (pb) in
/-- Of a part of it nothing is read. -/
theorem waitForMessage_of_not_hasFrame (hwf : parser.WellFormed) (hun : Unhurried incoming)
    (hnot : ¬HasFrame (arrived incoming)) :
    ∃ next : MessageParser, next.WellFormed ∧
      ParticipantShell.waitForMessage pb parser (incoming ++ [.closed]) = some (none, next) := by
  have hno : ¬HasFrame (parser.resetParser.pending ++ arrived incoming) := by
    rw [MessageParser.pending_resetParser, List.nil_append]
    exact hnot
  obtain ⟨last, hready, hpending, hrun⟩ := recvLoop_of_closed hwf.ready_resetParser hun hno
  have hget := (hready.wellFormed.getMessage_of_not_hasFrame pb.response (hpending ▸ hno)).2
  refine ⟨last, hready.wellFormed, ?_⟩
  rw [ParticipantShell.waitForMessage, hrun]
  exact congrArg some hget

/-- The answer is sent whole, or there is no complete frame in what is sent. -/
theorem sendRegistrationResponse_cases (hpb : pb.Lawful) (id : UInt32) (result : SendResult) :
    Coordinator.sendRegistrationResponse pb id result = frame (pb.response.encoding ⟨id⟩) ∨
      ¬HasFrame (Coordinator.sendRegistrationResponse pb id result) := by
  have hlength := hpb.response.length_encoding (hpb.small ⟨id⟩)
  have hbody : (pb.response.encoding ⟨id⟩).length < 2 ^ 32 := by
    have hsmall := hpb.small ⟨id⟩
    omega
  rw [Coordinator.sendRegistrationResponse, serialize_eq_frame hpb.response (hpb.small ⟨id⟩)]
  cases result with
  | accepted n =>
      by_cases hall : (frame (pb.response.encoding ⟨id⟩)).take n = frame (pb.response.encoding ⟨id⟩)
      · exact .inl hall
      · exact .inr (not_hasFrame_of_prefix_frame hbody (List.take_prefix n _) hall)
  | timedOut | failed => exact .inr fun hf => absurd hf.1 (by simp)

end Answer

/-! ### One command -/

/-- The command as a group takes it, which says whether the answer comes back. -/
def WireCommand.command {ι : Type} (a : WireCommand ι) (answered : Bool) : Command ι :=
  { shell := a.shell, line := a.line, sent := a.connected, exchange := a.exchange, answered }

namespace WireGroup

variable {ι : Type} [DecidableEq ι] {pb : PubSubProtobuf} {fuel : ℕ} {w w' : WireGroup ι}
  {a : WireCommand ι} {s : ParticipantShell} {request : CoordinatorMessage}

/-- The parsers of the shells can be reset. -/
def ParsersOk (w : WireGroup ι) : Prop := ∀ i, (w.parsers i).WellFormed

/-- If there is a request, it fits the wire format, and the calls of `send` accept something. -/
def ReliableStep (pb : PubSubProtobuf) (w : WireGroup ι) (a : WireCommand ι) : Prop :=
  ∀ request, (w.group.reader (a.command false)).inputParser.createReq = some request →
    a.connected = true → Accepting a.sends ∧ 4 + pb.request.byteSizeLong request < 2 ^ 31

/-- What a shell does with an answer that it does not wait for. -/
theorem afterRequest_of_not_reg (hreq : s.inputParser.req ≠ .reg) (response : Option UInt32) :
    s.afterRequest response = s.afterRequest none := by
  rw [ParticipantShell.afterRequest, ParticipantShell.afterRequest]
  split
  · next h => exact absurd h hreq
  all_goals rfl

theorem ParsersOk.update (h : w.ParsersOk) {parser : MessageParser} (hparser : parser.WellFormed)
    (group : Group ι) (i : ι) :
    ParsersOk { group, parsers := Function.update w.parsers i parser } := by
  intro j
  show (Function.update w.parsers i parser j).WellFormed
  by_cases hj : j = i
  · rw [hj, Function.update_self]
    exact hparser
  · rw [Function.update_of_ne hj]
    exact h j

omit [DecidableEq ι] in
/-- **The answer comes back, or it does not.** -/
theorem answered_of_receive (hpb : pb.Lawful) (hw : w.ParsersOk) {before after : Coordinator}
    {response : Option RegistrationResponse} {parser : MessageParser}
    (h : receive pb w a s (answerBytes pb before after a.answer) = some (response, parser)) :
    parser.WellFormed ∧ ∃ answered : Bool, s.afterRequest (response.map (·.participantId)) =
      s.afterRequest (if answered then Group.response before after else none) := by
  rw [receive] at h
  split at h
  · split at h
    · next hresponse =>
        obtain ⟨hun, harrived⟩ := hresponse
        have hnothing : ¬HasFrame (arrived a.response) → parser.WellFormed ∧ response = none := by
          intro hnot
          obtain ⟨next, hnext, hwait⟩ := waitForMessage_of_not_hasFrame pb (hw a.shell) hun hnot
          cases h.symm.trans hwait
          exact ⟨hnext, rfl⟩
        rw [answerBytes] at harrived
        cases hanswer : Group.response before after with
        | none =>
            rw [hanswer] at harrived
            obtain ⟨hparser, rfl⟩ := hnothing fun hf => absurd (harrived ▸ hf).1 (by simp)
            exact ⟨hparser, false, rfl⟩
        | some id =>
            rw [hanswer] at harrived
            dsimp only at harrived
            rcases sendRegistrationResponse_cases hpb id a.answer with hall | hpart
            · obtain ⟨next, hnext, hwait⟩ := waitForMessage_of_frame hpb.response (hw a.shell) hun
                (hpb.small ⟨id⟩) (harrived.trans hall)
              cases h.symm.trans hwait
              exact ⟨hnext, true, rfl⟩
            · obtain ⟨hparser, rfl⟩ := hnothing (harrived ▸ hpart)
              exact ⟨hparser, false, rfl⟩
    · cases h
  · next hreq =>
      cases h
      exact ⟨hw a.shell, false, rfl⟩

/-- What an exchange consists of. -/
theorem exchange_cases (h : exchange pb fuel w a s request = some w') :
    ∃ sent ok coordinator response parser,
      ParticipantShell.connectAndSend pb fuel a.sends request = some (true, sent) ∧
      Segments a.request ∧ a.request.flatten = sent ∧
      w.group.coordinator.coordinate pb a.exchange (arriving a.request) = some (ok, coordinator) ∧
      receive pb w a s (answerBytes pb w.group.coordinator coordinator a.answer) =
        some (response, parser) ∧
      w' =
        { group :=
            { coordinator
              shells := Function.update w.group.shells a.shell
                (s.afterRequest (response.map (·.participantId))) }
          parsers := Function.update w.parsers a.shell parser } := by
  rw [exchange] at h
  split at h
  · next sent hsend =>
      split at h
      · next hrequest =>
          split at h
          · cases h
          · next ok coordinator hserve =>
              obtain ⟨⟨response, parser⟩, hreceive, rfl⟩ := Option.map_eq_some_iff.mp h
              exact ⟨sent, ok, coordinator, response, parser, hsend, hrequest.1, hrequest.2, hserve,
                hreceive, rfl⟩
      · cases h
  · cases h

theorem exchange_of_steps {sent : List UInt8} {ok : Bool} {coordinator : Coordinator}
    {response : Option RegistrationResponse} {parser : MessageParser}
    (hsend : ParticipantShell.connectAndSend pb fuel a.sends request = some (true, sent))
    (hseg : Segments a.request) (hstream : a.request.flatten = sent)
    (hserve : w.group.coordinator.coordinate pb a.exchange (arriving a.request) =
      some (ok, coordinator))
    (hreceive : receive pb w a s (answerBytes pb w.group.coordinator coordinator a.answer) =
      some (response, parser)) :
    exchange pb fuel w a s request = some
      { group :=
          { coordinator
            shells := Function.update w.group.shells a.shell
              (s.afterRequest (response.map (·.participantId))) }
        parsers := Function.update w.parsers a.shell parser } := by
  rw [exchange, hsend]
  dsimp only
  rw [if_pos ⟨hseg, hstream⟩, hserve]
  dsimp only
  rw [hreceive]
  rfl

/-- **A request on its connection** is served as it is. -/
theorem serve_of_exchange (hpb : pb.Lawful) (hw : w.ParsersOk) (hacc : Accepting a.sends)
    (hfits : 4 + pb.request.byteSizeLong request < 2 ^ 31)
    (h : exchange pb fuel w a s request = some w') :
    w'.ParsersOk ∧ ∃ (answered : Bool) (coordinator : Coordinator),
      w.group.coordinator.serve { a.exchange with request } = some coordinator ∧
      w'.group =
        { coordinator
          shells := Function.update w.group.shells a.shell
            (s.afterRequest
              (if answered then Group.response w.group.coordinator coordinator else none)) } := by
  have hsize : pb.request.byteSizeLong request < 2 ^ 31 := by omega
  obtain ⟨sent, ok, coordinator, response, parser, hsend, hseg, hstream, hserve, hreceive, rfl⟩ :=
    exchange_cases h
  have hlen : (frame (pb.request.encoding request)).length < 2 ^ 31 := by
    rw [length_frame, hpb.request.length_encoding hsize]
    exact hfits
  obtain ⟨⟨result, socket⟩, hcalls, hsent⟩ := Option.map_eq_some_iff.mp hsend
  rw [serialize_eq_frame hpb.request hsize] at hcalls
  obtain ⟨-, hall⟩ := sendForever_of_accepting hlen hacc hcalls
  have hframe : a.request.flatten = frame (pb.request.encoding request) ++ [] := by
    rw [hstream, ← (Prod.mk.inj hsent).2, hall, List.append_nil]
    rfl
  have hcoordinate :=
    Coordinator.coordinate_of_frame w.group.coordinator a.exchange hpb.request hsize hseg hframe []
  rw [List.append_nil, hserve] at hcoordinate
  obtain ⟨c', hc', heq⟩ := Option.map_eq_some_iff.mp hcoordinate.symm
  obtain ⟨-, rfl⟩ := Prod.mk.inj heq
  obtain ⟨hparser, answered, hafter⟩ := answered_of_receive hpb hw hreceive
  exact ⟨hw.update hparser _ _, answered, c', hc', by rw [hafter]⟩

/-- **One command.** -/
theorem group_of_step (hpb : pb.Lawful) (hw : w.ParsersOk) (hreliable : ReliableStep pb w a)
    (h : step pb fuel w a = some w') :
    w'.ParsersOk ∧ ∃ answered, w.group.step (a.command answered) = some w'.group := by
  rw [step] at h
  dsimp only at h
  split at h
  · next hrunning =>
      split at h
      · next hvalid =>
          cases hreq : ((w.group.shells a.shell).parse a.line).inputParser.createReq with
          | none =>
              rw [hreq] at h
              cases h
              refine ⟨hw, false, ?_⟩
              rw [Group.step]
              simp only [WireCommand.command, hrunning, hvalid, hreq, if_true]
              rfl
          | some request =>
              rw [hreq] at h
              dsimp only at h
              split at h
              · next hconnected =>
                  obtain ⟨hacc, hfits⟩ := hreliable request hreq hconnected
                  obtain ⟨hw', answered, coordinator, hserve, hgroup⟩ :=
                    serve_of_exchange hpb hw hacc hfits h
                  refine ⟨hw', answered, ?_⟩
                  rw [Group.step, hgroup]
                  simp only [WireCommand.command, hrunning, hvalid, hreq, hconnected, if_true,
                    hserve, Option.bind_eq_bind, Option.bind_some]
                  rfl
              · next hconnected =>
                  cases h
                  refine ⟨hw, false, ?_⟩
                  rw [Group.step]
                  simp only [WireCommand.command, hrunning, hvalid, hreq, if_true]
                  exact if_neg hconnected
      · next hinvalid =>
          cases h
          refine ⟨hw, false, ?_⟩
          rw [Group.step]
          simp only [WireCommand.command, hrunning, if_true]
          exact if_neg hinvalid
  · cases h

/-- What the commands say apart from the connections. -/
def Matches (as : List (WireCommand ι)) (commands : List (Command ι)) : Prop :=
  List.Forall₂ (fun a command => a.command command.answered = command) as commands

/-- **A group with its connections does what a group does.** -/
theorem group_of_run (hpb : pb.Lawful) (hw : w.ParsersOk) {as : List (WireCommand ι)}
    (hreliable : EachStep (step pb fuel) (ReliableStep pb) w as)
    (hrun : runFrom (step pb fuel) w as = some w') :
    w'.ParsersOk ∧ ∃ commands, Matches as commands ∧
      runFrom Group.step w.group commands = some w'.group := by
  induction as generalizing w with
  | nil =>
      cases hrun
      exact ⟨hw, [], .nil, rfl⟩
  | cons a as ih =>
      obtain ⟨m, hstep, hrest⟩ := runFrom_cons_eq_some hrun
      obtain ⟨hm, answered, hgroup⟩ := group_of_step hpb hw hreliable.first hstep
      obtain ⟨hlast, commands, hmatches, hcommands⟩ := ih hm (hreliable.tail hstep) hrest
      exact ⟨hlast, a.command answered :: commands, .cons rfl hmatches,
        (runFrom_cons hgroup commands).trans hcommands⟩

/-! ### The connections of a group -/

/-- A connection on which every call does all there is to do. -/
def atOnce (pb : PubSubProtobuf) (command : Command ι) (request : CoordinatorMessage)
    (answer : List UInt8) : WireCommand ι where
  shell := command.shell
  line := command.line
  connected := command.sent
  exchange := command.exchange
  sends := [.accepted (frame (pb.request.encoding request)).length]
  request := [frame (pb.request.encoding request)]
  answer := .accepted answer.length
  response := if answer = [] then [] else [.data answer]

/-- The answer that a command gets. -/
def answerOf (pb : PubSubProtobuf) (before after : Coordinator) (answered : Bool) : List UInt8 :=
  match Group.response before after with
  | none => []
  | some id => if answered then frame (pb.response.encoding ⟨id⟩) else []

/-- The messages of a command fit the wire format. -/
def Fits (pb : PubSubProtobuf) (g : Group ι) (command : Command ι) : Prop :=
  ∀ request, (g.reader command).inputParser.createReq = some request →
    4 + pb.request.byteSizeLong request < 2 ^ 31

omit [DecidableEq ι] in
theorem arrived_atOnce (pb : PubSubProtobuf) (command : Command ι) (request : CoordinatorMessage)
    {answer : List UInt8} (hlen : answer.length < 2 ^ 32) :
    Unhurried (atOnce pb command request answer).response ∧
      arrived (atOnce pb command request answer).response = answer := by
  rw [atOnce]
  dsimp only
  split
  · next hnil => exact ⟨fun _ hresult => absurd hresult List.not_mem_nil, hnil.symm⟩
  · next hne =>
      refine ⟨?_, List.append_nil _⟩
      intro result hresult
      obtain rfl := List.mem_singleton.mp hresult
      exact decide_eq_true ⟨hne, hlen⟩

/-- What is sent of the answer is the answer. -/
theorem answerBytes_answerOf (hpb : pb.Lawful) (before after : Coordinator) (answered : Bool) :
    answerBytes pb before after (.accepted (answerOf pb before after answered).length) =
      answerOf pb before after answered := by
  rw [answerBytes, answerOf]
  cases Group.response before after with
  | none => rfl
  | some id =>
      dsimp only
      rw [Coordinator.sendRegistrationResponse, serialize_eq_frame hpb.response (hpb.small ⟨id⟩)]
      cases answered with
      | false => rfl
      | true => exact List.take_of_length_le (Nat.le_refl _)

/-- A whole answer, or none. -/
theorem answerOf_cases (pb : PubSubProtobuf) (before after : Coordinator) (answered : Bool) :
    (answerOf pb before after answered = [] ∧
      (if answered then Group.response before after else none) = none) ∨
    ∃ id, answerOf pb before after answered = frame (pb.response.encoding ⟨id⟩) ∧
      (if answered then Group.response before after else none) = some id := by
  rw [answerOf]
  cases Group.response before after with
  | none => exact .inl ⟨rfl, ite_self _⟩
  | some id =>
      cases answered with
      | false => exact .inl ⟨rfl, rfl⟩
      | true => exact .inr ⟨id, rfl, rfl⟩

omit [DecidableEq ι] in
/-- **The answer can come back, or not.** -/
theorem receive_atOnce (hpb : pb.Lawful) (hw : w.ParsersOk) (command : Command ι)
    (request : CoordinatorMessage) (s : ParticipantShell) (before after : Coordinator) :
    ∃ response parser,
      receive pb w (atOnce pb command request (answerOf pb before after command.answered)) s
        (answerBytes pb before after
          (.accepted (answerOf pb before after command.answered).length)) =
            some (response, parser) ∧
      s.afterRequest (response.map (·.participantId)) =
        s.afterRequest (if command.answered then Group.response before after else none) := by
  have hparser := hw command.shell
  rw [answerBytes_answerOf hpb, receive]
  by_cases hreg : s.inputParser.req = .reg
  · rw [if_pos hreg]
    rcases answerOf_cases pb before after command.answered with
      ⟨hnil, hnone⟩ | ⟨id, hframe, hid⟩
    · have hshort : ([] : List UInt8).length < 2 ^ 32 := Nat.two_pow_pos 32
      obtain ⟨hun, harrived⟩ := arrived_atOnce pb command request hshort
      have hnot : ¬HasFrame (arrived (atOnce pb command request []).response) := by
        rw [harrived]
        exact fun hf => absurd hf.1 (by simp)
      obtain ⟨next, -, hwait⟩ := waitForMessage_of_not_hasFrame pb hparser hun hnot
      rw [hnil, hnone, if_pos ⟨hun, harrived⟩]
      exact ⟨none, next, hwait, rfl⟩
    · have hsmall := hpb.small ⟨id⟩
      have hlen : (frame (pb.response.encoding ⟨id⟩)).length < 2 ^ 32 := by
        rw [length_frame, hpb.response.length_encoding hsmall]
        omega
      obtain ⟨hun, harrived⟩ := arrived_atOnce pb command request hlen
      obtain ⟨next, -, hwait⟩ :=
        waitForMessage_of_frame hpb.response hparser hun hsmall harrived
      rw [hframe, hid, if_pos ⟨hun, harrived⟩]
      exact ⟨some ⟨id⟩, next, hwait, rfl⟩
  · rw [if_neg hreg]
    exact ⟨none, _, rfl, (afterRequest_of_not_reg hreg _).symm⟩

/-- One call of `send` takes the request. -/
theorem connectAndSend_atOnce (hpb : pb.request.Lawful)
    (hfits : 4 + pb.request.byteSizeLong request < 2 ^ 31) :
    ParticipantShell.connectAndSend pb 2
      [.accepted (frame (pb.request.encoding request)).length] request =
        some (true, frame (pb.request.encoding request)) := by
  have hsize : pb.request.byteSizeLong request < 2 ^ 31 := by omega
  have hlength : (frame (pb.request.encoding request)).length =
      4 + pb.request.byteSizeLong request := by
    rw [length_frame, hpb.length_encoding hsize]
  have hpos : 0 < (frame (pb.request.encoding request)).length := by omega
  have hlen : (frame (pb.request.encoding request)).length < 2 ^ 31 := by omega
  have hsends : ({ sends := [.accepted (frame (pb.request.encoding request)).length] } :
    Socket).sends = [.accepted (frame (pb.request.encoding request)).length] := rfl
  obtain ⟨result, socket, hcalls⟩ := sendForever_atOnce hpos hlen hsends
  obtain ⟨hnot, hsent⟩ := sendForever_of_accepting hlen (accepting_singleton hpos) hcalls
  rw [ParticipantShell.connectAndSend, serialize_eq_frame hpb hsize, hcalls, Option.map_some]
  dsimp only
  rw [decide_eq_true hnot, hsent]
  rfl

theorem segments_atOnce (hpb : pb.request.Lawful)
    (hfits : 4 + pb.request.byteSizeLong request < 2 ^ 31) :
    Segments [frame (pb.request.encoding request)] := by
  have hsize : pb.request.byteSizeLong request < 2 ^ 31 := by omega
  have hlength := hpb.length_encoding hsize
  intro segment hsegment
  obtain rfl := List.mem_singleton.mp hsegment
  refine ⟨?_, by rw [length_frame]; omega⟩
  intro hnil
  have hzero := congrArg List.length hnil
  rw [length_frame, List.length_nil] at hzero
  omega

/-- **What is served can be served on a connection.** -/
theorem exchange_atOnce (s : ParticipantShell) (hpb : pb.Lawful) (hw : w.ParsersOk)
    (command : Command ι) (hfits : 4 + pb.request.byteSizeLong request < 2 ^ 31)
    {coordinator : Coordinator}
    (h : w.group.coordinator.serve { command.exchange with request } = some coordinator) :
    ∃ w', exchange pb 2 w (atOnce pb command request
        (answerOf pb w.group.coordinator coordinator command.answered)) s request = some w' ∧
      w'.group =
        { coordinator
          shells := Function.update w.group.shells command.shell
            (s.afterRequest (if command.answered then
              Group.response w.group.coordinator coordinator else none)) } := by
  have hsize : pb.request.byteSizeLong request < 2 ^ 31 := by omega
  have hseg := segments_atOnce hpb.request hfits
  have hflat : [frame (pb.request.encoding request)].flatten =
      frame (pb.request.encoding request) ++ [] := rfl
  have hserve := Coordinator.coordinate_of_frame w.group.coordinator command.exchange hpb.request
    hsize hseg hflat []
  rw [List.append_nil, h, Option.map_some] at hserve
  obtain ⟨response, parser, hreceive, hafter⟩ :=
    receive_atOnce hpb hw command request s w.group.coordinator coordinator
  refine ⟨_, exchange_of_steps (connectAndSend_atOnce hpb.request hfits) hseg
    (List.append_nil _) hserve hreceive, ?_⟩
  rw [hafter]
  rfl

omit [DecidableEq ι] in
/-- An exchange in which every call does all there is to do is reliable. -/
theorem reliable_atOnce {command : Command ι} (hfits : Fits pb w.group command)
    (request : CoordinatorMessage) (answer : List UInt8) :
    ReliableStep pb w (atOnce pb command request answer) := by
  intro request' hreq _
  refine ⟨accepting_singleton ?_, hfits request' hreq⟩
  rw [length_frame]
  omega

variable (pb fuel) in
/-- The shell types a line that is no command. -/
theorem step_of_invalid (hrunning : (w.group.shells a.shell).running = true)
    (hinvalid : ¬((w.group.shells a.shell).parse a.line).inputParser.isValid = true) :
    step pb fuel w a = some (w.setShell a.shell
      (((w.group.shells a.shell).parse a.line).sendConsole "Invalid command!")) := by
  rw [step]
  simp only [hrunning, if_true]
  exact if_neg hinvalid

variable (pb fuel) in
/-- The shell leaves. -/
theorem step_of_quit (hrunning : (w.group.shells a.shell).running = true)
    (hvalid : ((w.group.shells a.shell).parse a.line).inputParser.isValid = true)
    (hreq : ((w.group.shells a.shell).parse a.line).inputParser.createReq = none) :
    step pb fuel w a = some (w.setShell a.shell
      { ((w.group.shells a.shell).parse a.line).sendConsole "Bye!" with running := false }) := by
  rw [step]
  simp only [hrunning, hvalid, hreq, if_true]

variable (pb fuel) in
/-- The shell has a request. -/
theorem step_of_request (hrunning : (w.group.shells a.shell).running = true)
    (hvalid : ((w.group.shells a.shell).parse a.line).inputParser.isValid = true)
    (hreq : ((w.group.shells a.shell).parse a.line).inputParser.createReq = some request) :
    step pb fuel w a =
      if a.connected then exchange pb fuel w a ((w.group.shells a.shell).parse a.line) request
      else some (w.setShell a.shell
        { ((w.group.shells a.shell).parse a.line).sendConsole
          "Couldn't instantiate a connection with coordinator." with running := false }) := by
  rw [step]
  simp only [hrunning, hvalid, hreq, if_true]

/-- **What a group does with a command, one with its connections can do.** -/
theorem step_of_group (hpb : pb.Lawful) (hw : w.ParsersOk) {command : Command ι}
    (hfits : Fits pb w.group command) {g : Group ι} (h : w.group.step command = some g) :
    ∃ a w', a.command command.answered = command ∧ ReliableStep pb w a ∧
      step pb 2 w a = some w' ∧ w'.group = g := by
  rw [Group.step] at h
  dsimp only at h
  split at h
  · next hrunning =>
      -- without an exchange, the request and the answer do not matter
      have hquiet := reliable_atOnce hfits .notSet []
      split at h
      · next hvalid =>
          cases hreq :
              ((w.group.shells command.shell).parse command.line).inputParser.createReq with
          | none =>
              rw [hreq] at h
              cases h
              exact ⟨_, _, rfl, hquiet, step_of_quit pb 2 hrunning hvalid hreq, rfl⟩
          | some request =>
              rw [hreq] at h
              dsimp only at h
              have hrequest (answer : List UInt8) := step_of_request pb 2
                (a := atOnce pb command request answer) hrunning hvalid hreq
              split at h
              · next hsent =>
                  obtain ⟨coordinator, hserve, heq⟩ := Option.bind_eq_some_iff.mp h
                  obtain ⟨w', hexchange, hgroup⟩ := exchange_atOnce
                    ((w.group.shells command.shell).parse command.line) hpb hw command
                    (hfits request hreq) hserve
                  exact ⟨_, w', rfl, reliable_atOnce hfits request _,
                    (hrequest _).trans ((if_pos hsent).trans hexchange),
                    hgroup.trans (Option.some.inj heq)⟩
              · next hsent =>
                  cases h
                  exact ⟨_, _, rfl, reliable_atOnce hfits request [],
                    (hrequest []).trans (if_neg hsent), rfl⟩
      · next hinvalid =>
          cases h
          exact ⟨_, _, rfl, hquiet, step_of_invalid pb 2 hrunning hinvalid, rfl⟩
  · cases h

/-- **What a group does, one with its connections can do.** -/
theorem run_of_group (hpb : pb.Lawful) (hw : w.ParsersOk) {commands : List (Command ι)}
    {g : Group ι} (hfits : EachStep Group.step (Fits pb) w.group commands)
    (hrun : runFrom Group.step w.group commands = some g) :
    ∃ as w', Matches as commands ∧ EachStep (step pb 2) (ReliableStep pb) w as ∧
      runFrom (step pb 2) w as = some w' ∧ w'.group = g := by
  induction commands generalizing w with
  | nil => exact ⟨[], w, .nil, .nil w, rfl, Option.some.inj hrun⟩
  | cons command commands ih =>
      obtain ⟨m, hstep, hrest⟩ := runFrom_cons_eq_some hrun
      obtain ⟨a, w₁, hcommand, hreliable, hwire, rfl⟩ := step_of_group hpb hw hfits.first hstep
      obtain ⟨hw₁, -⟩ := group_of_step hpb hw hreliable hwire
      obtain ⟨as, w', hmatches, hreliables, hwires, hlast⟩ := ih hw₁ (hfits.tail hstep) hrest
      have hall : EachStep (step pb 2) (ReliableStep pb) w (a :: as) := by
        refine .cons hreliable fun m hm => ?_
        cases hm.symm.trans hwire
        exact hreliables
      exact ⟨a :: as, w', .cons hcommand hmatches, hall, (runFrom_cons hwire as).trans hwires,
        hlast⟩

/-- **A group with its connections is a group**: what it does, a `Group` does for the same lines,
with the same answers of the coordinator, or without those that did not come back; and what a
`Group` does, it can do. -/
theorem wire_group_is_group (hpb : pb.Lawful) (hw : w.ParsersOk) :
    (∀ as w', EachStep (step pb fuel) (ReliableStep pb) w as →
      runFrom (step pb fuel) w as = some w' →
      ∃ commands, Matches as commands ∧
        runFrom Group.step w.group commands = some w'.group) ∧
    ∀ commands g, EachStep Group.step (Fits pb) w.group commands →
      runFrom Group.step w.group commands = some g →
      ∃ as w', Matches as commands ∧ EachStep (step pb 2) (ReliableStep pb) w as ∧
        runFrom (step pb 2) w as = some w' ∧ w'.group = g :=
  ⟨fun _ _ hreliable hrun => (group_of_run hpb hw hreliable hrun).2,
    fun _ _ hfits hrun => run_of_group hpb hw hfits hrun⟩

/-- A registration: the request arrives in two pieces, and the participant's `recv` times out in
the middle of the answer. -/
def registration : WireCommand Unit where
  shell := ()
  line := "register 5000"
  connected := true
  exchange := .smooth .notSet 4 5 1
  sends := [.accepted 3, .accepted 100]
  request := [[0, 0, 0, 5, 10], [3, 8, 136, 39]]
  answer := .accepted 100
  response := [.data [0, 0], .timedOut, .data [0, 2, 8, 1]]

/-- The participant gets the id 1. -/
theorem wire_group_is_group_registration :
    ∃ commands g, Matches [registration] commands ∧
      runFrom Group.step (.start 10 .ofServer fun _ : Unit => (0, 0)) commands = some g ∧
      (g.shells ()).inputParser.participantId = 1 := by
  let w : WireGroup Unit := { group := .start 10 .ofServer fun _ => (0, 0) }
  have hw : w.ParsersOk := fun _ => MessageParser.wellFormed_fresh
  have hfirst : ReliableStep pubSubProto w registration := by
    intro request hreq _
    obtain rfl : CoordinatorMessage.register 5000 = request := Option.some.inj hreq
    exact ⟨(accepting_singleton (Nat.succ_pos 99)).cons (Nat.succ_pos 2), by decide⟩
  have hreliable : EachStep (step pubSubProto 3) (ReliableStep pubSubProto) w [registration] :=
    .cons hfirst fun m _ => .nil m
  have hmap : (step pubSubProto 3 w registration).map
      (fun w : WireGroup Unit => (w.group.shells ()).inputParser.participantId) = some 1 := by
    decide +kernel
  obtain ⟨w', hstep, hid⟩ := Option.map_eq_some_iff.mp hmap
  obtain ⟨commands, hmatches, hrun⟩ := (wire_group_is_group pubSubProto_lawful hw).1
    [registration] w' hreliable ((runFrom_singleton w registration).trans hstep)
  exact ⟨commands, w'.group, hmatches, hrun, hid⟩

end WireGroup

end Csci6780.PubSub
