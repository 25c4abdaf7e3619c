import Csci6780.AgentConnection
import Csci6780.ForeverCalls
import Csci6780.FtpClient
import Csci6780.InputParser
import Csci6780.Lib.Runs

/-!
# An FTP Session

The shell of a client and the agent that serves it, on the two ends of a connection: `FtpShell`
reads a line, sends the request, waits for the response and shows it, and the agent reads the
request, works on the server's files and responds. In between, the connection cuts the bytes
anywhere, and the client's `recv` may time out any number of times.

What the user sees is what `LocalShell` shows, which works on the files itself. When a command fails
at the server, the agent leaves and closes the connection, and the client shows an empty response.

This is about the commands that move no file: `get` and `put` are the subject of other modules, and
`terminate` opens a connection of its own. After the agent has left, a line that is a request is no
step: what a `send` on such a connection does is not told here. Nor is an operation that throws: it
ends the server.

## Main results

* `dispatchMessage_of_perform`: an agent does what the local shell does, and responds.
* `local_of_run`, `run_of_local`: a session shows what the local shell shows, with the same files,
  and what the local shell shows, a session can show.
-/

namespace Csci6780

/-! ### The local shell -/

/-- What a request does to the files, and the response; without one, it failed. -/
def FileHandler.perform (handler : FileHandler) : Request → Option (Option Response × FileHandler)
  | .delete filename => (handler.delete filename).map fun (removed, handler) =>
      (if removed then some .notSet else none, handler)
  | .list => handler.list.map fun names => (some (.list (names.map String.ofList)), handler)
  | .changeDir goUp dirName =>
      let (changed, handler) := if goUp then handler.upDir else handler.changeDir dirName
      some (if changed then some .notSet else none, handler)
  | .makeDir dirName => (handler.makeDir dirName).map fun (created, handler) =>
      (if created then some .notSet else none, handler)
  | .pwd => some (some (.pwd (String.ofList handler.getCurrentDir)), handler)
  | _ => none

/-- A shell that works on the files itself. -/
structure LocalShell where
  handler : FileHandler := {}
  shown : String := ""
  serving : Bool := true
  connected : Bool := true

namespace LocalShell

/-- The prompt, and what is shown behind it. -/
def prompt (sh : LocalShell) (text : String) : LocalShell :=
  { sh with shown := sh.shown ++ "\nmyftp> " ++ text }

/-- A command of the shell. -/
def command (sh : LocalShell) : Request → Option LocalShell
  | .quit => some { sh.prompt "" with connected := false }
  | r =>
      if sh.serving then
        (sh.handler.perform r).map fun (response, handler) =>
          { sh.prompt (showResponse (response.getD .notSet) ++ "\n") with
            handler
            serving := response.isSome }
      else none

/-- A line of the shell. -/
def step (sh : LocalShell) (line : String) : Option LocalShell :=
  if sh.connected then
    let ip := InputParser.create (fun _ => []) none line
    if ip.isValid then ip.createReq.bind sh.command
    else some (sh.prompt "Invalid command, try again.\n")
  else none

end LocalShell

/-! ### The session -/

/-- A client and its agent. -/
structure FtpSession where
  client : Client := {}
  agent : Agent := {}
  serving : Bool := true

/-- What happens to a line of the shell: what `req_` held, what the calls of `send` accept on both
sides, and how the request and the response arrive. -/
structure Exchange where
  line : String
  uninitialized : Option ReqType := none
  clientSends : List SendResult := []
  request : List (List UInt8) := []
  agentSends : List SendResult := []
  response : List RecvResult := []
  deriving DecidableEq, Repr

/-- What the client's parser makes of the line. -/
def Exchange.parsed (x : Exchange) : InputParser :=
  InputParser.create (fun _ => []) x.uninitialized x.line

namespace FtpSession

variable (pb : FtpProtobuf) (fuel : ℕ)

/-- The rounds of `Agent::Handle` with one request. -/
def serve (agent : Agent) : Option (ClientState × Agent) :=
  match agent.readNextMessage pb with
  | none => none
  | some (.active, some message, agent) => agent.dispatchMessage pb fuel message
  | some (state, _, agent) => some (state, agent)

/-- `Client::SendReq`. The buffer is kept when it fails. -/
def sendReq (client : Client) : Option (Bool × Client) :=
  match sendForever fuel client.outgoingMsgBuf client.socket with
  | none => none
  | some (result, socket) =>
      if result < 0 then some (false, { client with socket })
      else some (true, { client with socket, outgoingMsgBuf := [] })

/-- The client with a serialised request. -/
def requesting (client : Client) (x : Exchange) (r : Request) : Client :=
  { client with
    outgoingMsgBuf := (serialize pb.request r client.outgoingMsgBuf).2
    socket := { client.socket with sends := x.clientSends } }

/-- The agent when the request arrives. -/
def requested (agent : Agent) (x : Exchange) : Agent :=
  { agent with
    socket :=
      { agent.socket with
        incoming := agent.socket.incoming ++ arriving x.request
        sends := x.agentSends } }

/-- The client when the response arrives. An agent that leaves closes the connection. -/
def responded (client : Client) (x : Exchange) (state : ClientState) : Client :=
  let ending := if state = .active then [] else [.closed]
  { client with
    socket := client.socket.withIncoming (client.socket.incoming ++ (x.response ++ ending)) }

/-- A request and its response, on a connection that delivers what is sent. -/
def exchange (s : FtpSession) (x : Exchange) (r : Request) : Option FtpSession :=
  match sendReq fuel (requesting pb s.client x r) with
  | none => none
  | some (_, client) =>
      if Segments x.request ∧
          x.request.flatten = client.socket.sent.drop s.client.socket.sent.length then
        match serve pb fuel (requested s.agent x) with
        | none => none
        | some (state, agent) =>
            if Unhurried x.response ∧
                arrived x.response = agent.socket.sent.drop s.agent.socket.sent.length then
              match (responded client x state).waitForMessage with
              | none => none
              | some (_, client) =>
                  some
                    { client := client.handleResponse pb.response
                      agent
                      serving := state = .active }
            else none
      else none

/-- The prompt, and what is shown behind it. -/
def prompt (s : FtpSession) (text : String) : FtpSession :=
  { s with client := { s.client with shown := s.client.shown ++ "\nmyftp> " ++ text } }

/-- A command. -/
def command (s : FtpSession) (x : Exchange) : Request → Option FtpSession
  | .terminate _ | .get _ | .put _ => none
  | .quit => some { s with client := { s.client with connected := false } }
  | r => if s.serving then exchange pb fuel s x r else none

/-- A round of the loop of `Client::FtpShell`. -/
def step (s : FtpSession) (x : Exchange) : Option FtpSession :=
  if s.client.connected then
    match x.parsed.createReq with
    | none => none
    | some r =>
        if x.parsed.isValid then (s.prompt "").command pb fuel x r
        else some (s.prompt "Invalid command, try again.\n")
  else none

/-- What is seen of a session. -/
def toLocal (s : FtpSession) : LocalShell where
  handler := s.agent.fileHandler
  shown := s.client.shown
  serving := s.serving
  connected := s.client.connected

end FtpSession

/-! ### The client's side -/

namespace Client

/-- A response has been shown, and nothing is left of it on the connection. -/
structure Shows (client client' : Client) (text : String) : Prop where
  shown_eq : client'.shown = client.shown ++ (text ++ "\n")
  connected_eq : client'.connected = client.connected
  wellFormed : client'.parser.WellFormed
  unhurried : Unhurried client'.socket.incoming
  arrived_eq : arrived client'.socket.incoming = []

variable {pb : Protobuf Response} {client : Client}

variable (client)

/-- **A response that arrives is shown.** -/
theorem shows_of_frame (hpb : pb.Lawful) (hwf : client.parser.WellFormed) {response : Response}
    (hsize : pb.byteSizeLong response < 2 ^ 31) (hun : Unhurried client.socket.incoming)
    (harrived : arrived client.socket.incoming = frame (pb.encoding response)) :
    ∃ client', client.waitForMessage = some (client.connected, client') ∧
      Shows client (client'.handleResponse pb) (showResponse response) := by
  have hlength := hpb.length_encoding hsize
  have hbody : (pb.encoding response).length < 2 ^ 32 := by omega
  have hbytes : client.parser.resetParser.pending ++ arrived client.socket.incoming =
      frame (pb.encoding response) := by
    rw [MessageParser.pending_resetParser, harrived, List.nil_append]
  obtain ⟨parser, left, hready, hpending, hleft, hnil, hrun⟩ :=
    recvLoop_of_frame hwf.ready_resetParser hun hbody hbytes []
  rw [List.append_nil, List.append_nil] at hrun
  have hf : HasFrame parser.pending := by
    rw [hpending, ← List.append_nil (frame _)]
    exact hasFrame_frame_append hbody []
  have hparse : pb.parseBody (frameBody parser.pending) = some response := by
    rw [hpending, ← List.append_nil (frame _), frameBody_frame_append hbody,
      hpb.parseBody_encoding hsize]
  have hget := (hready.wellFormed.getMessage_of_hasFrame pb hf).2
  rw [hparse] at hget
  refine ⟨{ client with
    parser
    socket := { client.socket with incoming := left } }, ?_, ?_, rfl, ?_, hleft, hnil⟩
  · rw [waitForMessage, Socket.recvLoop, hrun]
    rfl
  · rw [handleResponse]
    simp only [hget, Option.getD_some, String.append_assoc]
  · rw [handleResponse]
    simp only [hget]
    exact (hready.nextMessage hf).1.wellFormed

variable (pb) in
/-- When the connection is closed, an empty response is shown. -/
theorem shows_of_closed (hwf : client.parser.WellFormed) {incoming : List RecvResult}
    (hun : Unhurried incoming) (hnil : arrived incoming = [])
    (hincoming : client.socket.incoming = incoming ++ [.closed]) :
    ∃ client', client.waitForMessage = some (client.connected, client') ∧
      Shows client (client'.handleResponse pb) (showResponse .notSet) := by
  have hno : ¬HasFrame (client.parser.resetParser.pending ++ arrived incoming) := by
    rw [MessageParser.pending_resetParser, hnil]
    exact fun hf => absurd hf.1 (by simp)
  obtain ⟨parser, hready, hpending, hrun⟩ := recvLoop_of_closed hwf.ready_resetParser hun hno
  have hget := (hready.wellFormed.getMessage_of_not_hasFrame pb (hpending ▸ hno)).2
  refine ⟨{ client with
    parser
    socket := { client.socket with incoming := [] } }, ?_, ?_, rfl, ?_, ?_, rfl⟩
  · rw [waitForMessage, Socket.recvLoop, hincoming, hrun]
    rfl
  · rw [handleResponse]
    simp only [hget, Option.getD_none, String.append_assoc]
  · rw [handleResponse]
    simp only [hget]
    exact hready.wellFormed
  · exact fun result hresult => absurd hresult List.not_mem_nil

end Client

/-! ### The agent's side -/

/-- The requests that move no file and leave the connection open. -/
def Request.onFiles : Request → Bool
  | .delete _ | .list | .changeDir _ _ | .makeDir _ | .pwd => true
  | _ => false

/-- The bytes of a response. -/
def responseBytes (pb : Protobuf Response) : Option Response → List UInt8
  | none => []
  | some response => frame (pb.encoding response)

/-- One call of `send` takes the response. -/
def CanRespond (pb : Protobuf Response) (sends : List SendResult) (response : Option Response) :
    Prop :=
  ∀ r, response = some r → pb.byteSizeLong r < 2 ^ 31 ∧
    ∃ n rest, sends = .accepted n :: rest ∧ 4 + pb.byteSizeLong r ≤ n

namespace Agent

/-- An agent has worked on its files and sent some bytes, and done nothing to its input side. -/
structure Responds (agent agent' : Agent) (handler : FileHandler) (bytes : List UInt8) : Prop where
  fileHandler_eq : agent'.fileHandler = handler
  parser_eq : agent'.parser = agent.parser
  incoming_eq : agent'.socket.incoming = agent.socket.incoming
  sent_eq : agent'.socket.sent = agent.socket.sent ++ bytes

variable {pb : FtpProtobuf} {fuel : ℕ} {agent : Agent}

/-- A response that one call of `send` takes is sent. -/
theorem sendResponse_of_canRespond (agent : Agent) (hpb : pb.response.Lawful) {response : Response}
    (hcan : CanRespond pb.response agent.socket.sends (some response)) :
    ∃ agent', agent.sendResponse pb response = some (true, agent') ∧
      Responds agent agent' agent.fileHandler (responseBytes pb.response (some response)) := by
  obtain ⟨hsize, n, rest, hsends, hn⟩ := hcan response rfl
  have hlength : (frame (pb.response.encoding response)).length ≤ n := by
    rw [length_frame, hpb.length_encoding hsize]
    exact hn
  have hsend : agent.socket.send (frame (pb.response.encoding response)) =
      some (((frame (pb.response.encoding response)).length : ℤ),
        { agent.socket with
          sends := rest
          sent := agent.socket.sent ++ frame (pb.response.encoding response) }) := by
    rw [Socket.send, hsends]
    simp only [List.take_of_length_le hlength]
  have hnot : ¬((frame (pb.response.encoding response)).length : ℤ) < 0 := by omega
  refine ⟨{ agent with
    outgoingMessageBuffer := frame (pb.response.encoding response)
    socket :=
      { agent.socket with
        sends := rest
        sent := agent.socket.sent ++ frame (pb.response.encoding response) } }, ?_,
    rfl, rfl, rfl, rfl⟩
  rw [sendResponse]
  simp only [serialize_eq_frame hpb hsize, if_true, hsend, decide_eq_true hnot]

/-- An agent that fails has sent nothing. -/
theorem Responds.failed (handler : FileHandler) :
    Responds agent { agent with fileHandler := handler } handler (responseBytes pb.response none) :=
  ⟨rfl, rfl, rfl, (List.append_nil _).symm⟩

/-- The end of the handlers that change the file system or the directory. -/
theorem acknowledgeIf_of_canRespond (hpb : pb.response.Lawful) (changed : Bool)
    (handler : FileHandler)
    (hcan : CanRespond pb.response agent.socket.sends (if changed then some .notSet else none)) :
    ∃ agent', (if changed then ({ agent with fileHandler := handler } : Agent).acknowledge pb
        else some (.error, { agent with fileHandler := handler })) =
        some (if (if changed then some Response.notSet else none).isSome then .active else .error,
          agent') ∧
      Responds agent agent' handler
        (responseBytes pb.response (if changed then some .notSet else none)) := by
  cases changed with
  | false => exact ⟨_, rfl, .failed handler⟩
  | true =>
      obtain ⟨agent', hsend, hresponds⟩ :=
        sendResponse_of_canRespond { agent with fileHandler := handler } hpb hcan
      refine ⟨agent', ?_, hresponds.fileHandler_eq, hresponds.parser_eq, hresponds.incoming_eq,
        hresponds.sent_eq⟩
      rw [if_pos rfl, acknowledge, hsend]
      rfl

variable (fuel agent)

/-- **An agent does what the local shell does**, and responds when it succeeds. -/
theorem dispatchMessage_of_perform (hpb : pb.response.Lawful) {request : Request}
    (hrequest : request.onFiles = true) {response : Option Response} {handler : FileHandler}
    (hperform : agent.fileHandler.perform request = some (response, handler))
    (hcan : CanRespond pb.response agent.socket.sends response) :
    ∃ agent', agent.dispatchMessage pb fuel request =
        some (if response.isSome then .active else .error, agent') ∧
      Responds agent agent' handler (responseBytes pb.response response) := by
  cases request with
  | delete filename =>
      obtain ⟨⟨removed, handler'⟩, hdelete, heq⟩ := Option.map_eq_some_iff.mp hperform
      cases heq
      obtain ⟨agent', hack, hresponds⟩ := acknowledgeIf_of_canRespond hpb _ handler hcan
      refine ⟨agent', ?_, hresponds⟩
      rw [dispatchMessage, handleDelete, hdelete]
      exact hack
  | list =>
      obtain ⟨names, hlist, heq⟩ := Option.map_eq_some_iff.mp hperform
      cases heq
      obtain ⟨agent', hsend, hresponds⟩ := sendResponse_of_canRespond agent hpb hcan
      refine ⟨agent', ?_, hresponds⟩
      rw [dispatchMessage, handleList, hlist]
      simp only [Option.bind_eq_bind, Option.bind_some, hsend]
      rfl
  | changeDir goUp dirName =>
      obtain ⟨agent', hack, hresponds⟩ : ∃ agent',
          agent.handleChangeDir pb goUp dirName =
            some (if response.isSome then .active else .error, agent') ∧
          Responds agent agent' handler (responseBytes pb.response response) := by
        cases goUp with
        | false =>
            cases hperform
            exact acknowledgeIf_of_canRespond hpb true _ hcan
        | true =>
            cases hperform
            exact acknowledgeIf_of_canRespond hpb true _ hcan
      exact ⟨agent', hack, hresponds⟩
  | makeDir dirName =>
      obtain ⟨⟨created, handler'⟩, hmake, heq⟩ := Option.map_eq_some_iff.mp hperform
      cases heq
      obtain ⟨agent', hack, hresponds⟩ := acknowledgeIf_of_canRespond hpb _ handler hcan
      refine ⟨agent', ?_, hresponds⟩
      rw [dispatchMessage, handleMakeDir, hmake]
      exact hack
  | pwd =>
      cases hperform
      obtain ⟨agent', hsend, hresponds⟩ := sendResponse_of_canRespond agent hpb hcan
      refine ⟨agent', ?_, hresponds⟩
      rw [dispatchMessage, handlePwd]
      simp only [Option.bind_eq_bind, hsend]
      rfl
  | _ => cases hrequest

/-- A request at which the file system throws. -/
theorem dispatchMessage_of_perform_none {request : Request} (hrequest : request.onFiles = true)
    (hperform : agent.fileHandler.perform request = none) :
    agent.dispatchMessage pb fuel request = none := by
  cases request with
  | delete filename =>
      rw [dispatchMessage, handleDelete, Option.map_eq_none_iff.mp hperform]
      rfl
  | list =>
      rw [dispatchMessage, handleList, Option.map_eq_none_iff.mp hperform]
      rfl
  | makeDir dirName =>
      rw [dispatchMessage, handleMakeDir, Option.map_eq_none_iff.mp hperform]
      rfl
  | changeDir goUp dirName => cases hperform
  | pwd => cases hperform
  | _ => cases hrequest

end Agent

/-! ### An exchange -/

namespace FtpSession

variable {pb : FtpProtobuf} {fuel : ℕ} {s s' : FtpSession} {x : Exchange} {request : Request}

/-- An agent between two requests has nothing left to read. -/
structure AgentIdle (agent : Agent) : Prop where
  ready : agent.parser.Ready
  pending_eq : agent.parser.pending = []
  incoming_eq : agent.socket.incoming = []

/-- A session between two lines: nothing is left on the connection. -/
structure Idle (s : FtpSession) : Prop where
  wellFormed : s.client.parser.WellFormed
  unhurried : Unhurried s.client.socket.incoming
  arrived_eq : arrived s.client.socket.incoming = []
  agent : s.serving = true → AgentIdle s.agent

/-- The request and the response fit the wire format, and the calls of `send` take the request in
some pieces and the response in one. -/
structure Reliable (pb : FtpProtobuf) (handler : FileHandler) (x : Exchange) (request : Request) :
    Prop where
  accepting : Accepting x.clientSends
  fits : 4 + pb.request.byteSizeLong request < 2 ^ 31
  responds : ∀ response handler', handler.perform request = some (response, handler') →
    CanRespond pb.response x.agentSends response

/-- Segments without bytes. -/
theorem eq_nil_of_flatten {segments : List (List UInt8)} (hseg : Segments segments)
    (hnil : segments.flatten = []) : segments = [] := by
  cases segments with
  | nil => rfl
  | cons segment segments =>
      rw [List.flatten_cons, List.append_eq_nil_iff] at hnil
      exact absurd hnil.1 (hseg segment List.mem_cons_self).1

section Serve

variable {agent : Agent} (hidle : AgentIdle agent) (hpb : pb.Lawful)
  (hsize : pb.request.byteSizeLong request < 2 ^ 31) (hseg : Segments x.request)
  (hstream : x.request.flatten = frame (pb.request.encoding request))

include hidle hpb hsize hseg hstream

/-- An agent reads the frame of a request, and nothing is left. -/
theorem readNextMessage_of_frame :
    ∃ next : MessageParser, next.Ready ∧ next.pending = [] ∧
      (requested agent x).readNextMessage pb =
        some (.active, some request, (requested agent x).withInput next []) := by
  have hlength := hpb.request.length_encoding hsize
  have hbody : (pb.request.encoding request).length < 2 ^ 32 := by omega
  have hunread : (requested agent x).unread x.request =
      frame (pb.request.encoding request) ++ [] := by
    rw [Agent.unread, hstream, List.append_nil]
    exact (congrArg (· ++ _) hidle.pending_eq).trans (List.nil_append _)
  have hf := hasFrame_frame_append hbody []
  rw [← hunread] at hf
  have hin : (requested agent x).socket.incoming = arriving x.request ++ [] := by
    rw [requested, hidle.incoming_eq, List.nil_append, List.append_nil]
  have hready : (requested agent x).parser.Ready := hidle.ready
  obtain ⟨next, left, hnext, hleft, hrest, hrun⟩ :=
    Agent.readNextMessage_of_frame_unread pb hready hseg hin hf
  rw [hunread, afterFrame_frame_append hbody, List.append_eq_nil_iff] at hrest
  obtain ⟨hnil, hflat⟩ := hrest
  obtain rfl := eq_nil_of_flatten hleft hflat
  rw [hunread, frameBody_frame_append hbody, hpb.request.parseBody_encoding hsize] at hrun
  exact ⟨next, hnext, hnil, hrun⟩

variable (fuel) (hrequest : request.onFiles = true)

include hrequest

/-- The agent's rounds for a request: it works on the files, and responds or leaves. -/
theorem serve_of_perform {response : Option Response} {handler : FileHandler}
    (hperform : agent.fileHandler.perform request = some (response, handler))
    (hcan : CanRespond pb.response x.agentSends response) :
    ∃ agent', serve pb fuel (requested agent x) =
        some (if response.isSome then .active else .error, agent') ∧
      agent'.fileHandler = handler ∧ AgentIdle agent' ∧
      agent'.socket.sent = agent.socket.sent ++ responseBytes pb.response response := by
  obtain ⟨next, hnext, hnil, hread⟩ := readNextMessage_of_frame hidle hpb hsize hseg hstream
  obtain ⟨agent', hdispatch, hresponds⟩ :=
    Agent.dispatchMessage_of_perform fuel ((requested agent x).withInput next []) hpb.response
      hrequest hperform hcan
  have hafter : AgentIdle agent' :=
    ⟨hresponds.parser_eq ▸ hnext, hresponds.parser_eq ▸ hnil, hresponds.incoming_eq⟩
  refine ⟨agent', ?_, hresponds.fileHandler_eq, hafter, hresponds.sent_eq⟩
  rw [serve, hread]
  exact hdispatch

/-- An agent gets nowhere with a request at which the file system throws. -/
theorem serve_of_perform_none (hperform : agent.fileHandler.perform request = none) :
    serve pb fuel (requested agent x) = none := by
  obtain ⟨next, -, -, hread⟩ := readNextMessage_of_frame hidle hpb hsize hseg hstream
  rw [serve, hread]
  exact Agent.dispatchMessage_of_perform_none fuel ((requested agent x).withInput next [])
    hrequest hperform

end Serve

/-- A client that waits for a response shows it, or an empty one when the agent has left. -/
theorem shows_of_responded (hpb : pb.response.Lawful) {client : Client}
    (hwf : client.parser.WellFormed) (hun : Unhurried client.socket.incoming)
    (hnil : arrived client.socket.incoming = []) (hunhurried : Unhurried x.response)
    {response : Option Response}
    (harrived : arrived x.response = responseBytes pb.response response)
    (hfits : ∀ r, response = some r → pb.response.byteSizeLong r < 2 ^ 31) :
    ∃ client', (responded client x (if response.isSome then .active else .error)).waitForMessage =
        some (client.connected, client') ∧
      client.Shows (client'.handleResponse pb.response) (showResponse (response.getD .notSet)) := by
  have hall : Unhurried (client.socket.incoming ++ x.response) := hun.append hunhurried
  have hbytes : arrived (client.socket.incoming ++ x.response) =
      responseBytes pb.response response := by
    rw [arrived_append, hnil, harrived, List.nil_append]
  cases response with
  | none =>
      have hin : (responded client x .error).socket.incoming =
          client.socket.incoming ++ x.response ++ [.closed] := (List.append_assoc _ _ _).symm
      obtain ⟨client', hwait, hshows⟩ :=
        Client.shows_of_closed pb.response (responded client x .error) hwf hall hbytes hin
      exact ⟨client', hwait, hshows.shown_eq, hshows.connected_eq, hshows.wellFormed,
        hshows.unhurried, hshows.arrived_eq⟩
  | some r =>
      have hin : (responded client x .active).socket.incoming =
          client.socket.incoming ++ x.response := congrArg _ (List.append_nil _)
      obtain ⟨client', hwait, hshows⟩ := Client.shows_of_frame (responded client x .active) hpb hwf
        (hfits r rfl) (hin ▸ hall) (hin ▸ hbytes)
      exact ⟨client', hwait, hshows.shown_eq, hshows.connected_eq, hshows.wellFormed,
        hshows.unhurried, hshows.arrived_eq⟩

/-- What an exchange consists of. -/
theorem exchange_cases (h : exchange pb fuel s x request = some s') :
    ∃ sent client state agent waited client',
      sendReq fuel (requesting pb s.client x request) = some (sent, client) ∧
      Segments x.request ∧
      x.request.flatten = client.socket.sent.drop s.client.socket.sent.length ∧
      serve pb fuel (requested s.agent x) = some (state, agent) ∧ Unhurried x.response ∧
      arrived x.response = agent.socket.sent.drop s.agent.socket.sent.length ∧
      (responded client x state).waitForMessage = some (waited, client') ∧
      s' = { client := client'.handleResponse pb.response, agent, serving := state = .active } := by
  rw [exchange] at h
  split at h
  · cases h
  · next sent client hsend =>
      split at h
      · next hrequest =>
          split at h
          · cases h
          · next state agent hserve =>
              split at h
              · next hresponse =>
                  split at h
                  · cases h
                  · next waited client' hwait =>
                      exact ⟨sent, client, state, agent, waited, client', hsend, hrequest.1,
                        hrequest.2, hserve, hresponse.1, hresponse.2, hwait,
                        (Option.some.inj h).symm⟩
              · cases h
      · cases h

theorem exchange_of_steps {sent waited : Bool} {client client' : Client} {state : ClientState}
    {agent : Agent} (hsend : sendReq fuel (requesting pb s.client x request) = some (sent, client))
    (hseg : Segments x.request)
    (hstream : x.request.flatten = client.socket.sent.drop s.client.socket.sent.length)
    (hserve : serve pb fuel (requested s.agent x) = some (state, agent))
    (hun : Unhurried x.response)
    (harrived : arrived x.response = agent.socket.sent.drop s.agent.socket.sent.length)
    (hwait : (responded client x state).waitForMessage = some (waited, client')) :
    exchange pb fuel s x request = some
      { client := client'.handleResponse pb.response, agent, serving := state = .active } := by
  rw [exchange, hsend]
  dsimp only
  rw [if_pos ⟨hseg, hstream⟩, hserve]
  dsimp only
  rw [if_pos ⟨hun, harrived⟩, hwait]

/-- A request that is sent by calls that accept something. -/
theorem sendReq_of_accepting {client client' : Client}
    (hlen : client.outgoingMsgBuf.length < 2 ^ 31) (hacc : Accepting client.socket.sends)
    {sent : Bool} (h : sendReq fuel client = some (sent, client')) :
    client'.socket.sent = client.socket.sent ++ client.outgoingMsgBuf ∧
      client'.socket.incoming = client.socket.incoming ∧ client'.parser = client.parser ∧
      client'.shown = client.shown ∧ client'.connected = client.connected := by
  rw [sendReq] at h
  split at h
  · cases h
  · next result socket hsend =>
      obtain ⟨hnot, hsent⟩ := sendForever_of_accepting hlen hacc hsend
      rw [if_neg hnot] at h
      cases h
      exact ⟨hsent, sendForever_incoming hsend, rfl, rfl, rfl⟩

/-- **An exchange does what the local shell does.** -/
theorem perform_of_exchange (hpb : pb.Lawful) (hidle : s.Idle) (hserving : s.serving = true)
    (hrequest : request.onFiles = true) (hreliable : Reliable pb s.agent.fileHandler x request)
    (h : exchange pb fuel s x request = some s') :
    ∃ response handler, s.agent.fileHandler.perform request = some (response, handler) ∧
      s'.agent.fileHandler = handler ∧ s'.serving = response.isSome ∧
      s'.client.connected = s.client.connected ∧
      s'.client.shown = s.client.shown ++ (showResponse (response.getD .notSet) ++ "\n") ∧
      s'.Idle := by
  have hagent := hidle.agent hserving
  have hsize : pb.request.byteSizeLong request < 2 ^ 31 := by
    have hfits := hreliable.fits
    omega
  obtain ⟨sent, client, state, agent, waited, client', hsend, hseg, hstream, hserve, hun,
    harrived, hwait, rfl⟩ := exchange_cases h
  have hbuffer : (requesting pb s.client x request).outgoingMsgBuf =
      frame (pb.request.encoding request) :=
    congrArg Prod.snd (serialize_eq_frame hpb.request hsize s.client.outgoingMsgBuf)
  have hlen : (requesting pb s.client x request).outgoingMsgBuf.length < 2 ^ 31 := by
    rw [hbuffer, length_frame, hpb.request.length_encoding hsize]
    exact hreliable.fits
  obtain ⟨hsent, hincoming, hparser, hshown, hconnected⟩ :=
    sendReq_of_accepting hlen hreliable.accepting hsend
  replace hsent : client.socket.sent =
      s.client.socket.sent ++ frame (pb.request.encoding request) := hbuffer ▸ hsent
  rw [hsent, List.drop_left] at hstream
  cases hperform : s.agent.fileHandler.perform request with
  | none =>
      rw [serve_of_perform_none fuel hagent hpb hsize hseg hstream hrequest hperform] at hserve
      cases hserve
  | some result =>
      obtain ⟨response, handler⟩ := result
      have hcan := hreliable.responds response handler hperform
      obtain ⟨agent', hserve', hhandler, hidle', hresponse⟩ :=
        serve_of_perform fuel hagent hpb hsize hseg hstream hrequest hperform hcan
      obtain ⟨rfl, rfl⟩ := Prod.mk.inj (Option.some.inj (hserve.symm.trans hserve'))
      rw [hresponse, List.drop_left] at harrived
      obtain ⟨shown, hwait', hshows⟩ := shows_of_responded hpb.response
        (hparser ▸ hidle.wellFormed) (hincoming ▸ hidle.unhurried)
        (hincoming ▸ hidle.arrived_eq) hun harrived (fun r hr => (hcan r hr).1)
      obtain ⟨-, rfl⟩ := Prod.mk.inj (Option.some.inj (hwait.symm.trans hwait'))
      refine ⟨response, handler, rfl, hhandler, ?_, hshows.connected_eq.trans hconnected,
        hshows.shown_eq.trans (hshown ▸ rfl), hshows.wellFormed, hshows.unhurried,
        hshows.arrived_eq, fun _ => hidle'⟩
      cases response <;> rfl

/-! ### Runs -/

/-- The exchange is reliable, if there is one. -/
def ReliableStep (pb : FtpProtobuf) (s : FtpSession) (x : Exchange) : Prop :=
  ∀ request, x.parsed.isValid = true → x.parsed.createReq = some request →
    request.onFiles = true → Reliable pb s.agent.fileHandler x request

/-- A request that works on the files. -/
theorem localCommand_of_onFiles {sh : LocalShell}
    (hrequest : request.onFiles = true) :
    sh.command request =
      if sh.serving then
        (sh.handler.perform request).map fun (response, handler) =>
          { sh.prompt (showResponse (response.getD .notSet) ++ "\n") with
            handler
            serving := response.isSome }
      else none := by
  cases request with
  | delete | list | changeDir | makeDir | pwd => rfl
  | _ => cases hrequest

/-- Of the others, the local shell only does `quit`. -/
theorem eq_quit_of_command {sh sh' : LocalShell} (hrequest : ¬request.onFiles = true)
    (h : sh.command request = some sh') : request = .quit := by
  have hthrows : request ≠ .quit → sh.command request =
      if sh.serving then none else none := by
    intro hquit
    cases request with
    | quit => exact absurd rfl hquit
    | get | put | terminate | fileContents | notSet => rfl
    | delete | list | changeDir | makeDir | pwd => exact absurd rfl hrequest
  by_contra hquit
  rw [hthrows hquit, ite_self] at h
  cases h

/-- A request that works on the files is an exchange. -/
theorem command_of_onFiles (hrequest : request.onFiles = true) :
    s.command pb fuel x request = if s.serving then exchange pb fuel s x request else none := by
  cases request with
  | delete | list | changeDir | makeDir | pwd => rfl
  | _ => cases hrequest

/-- What the prompt shows does not matter to the rest. -/
theorem Idle.prompt (hidle : s.Idle) (text : String) : (s.prompt text).Idle :=
  ⟨hidle.wellFormed, hidle.unhurried, hidle.arrived_eq, hidle.agent⟩

/-- **One command.** A session that was idle shows what the local shell shows, and is idle again. -/
theorem local_of_command (hpb : pb.Lawful) (hidle : s.Idle)
    (hrequest : request ≠ .notSet ∧ ∀ m, request ≠ .fileContents m)
    (hreliable : request.onFiles = true → Reliable pb s.agent.fileHandler x request)
    (h : (s.prompt "").command pb fuel x request = some s') :
    s.toLocal.command request = some s'.toLocal ∧ s'.Idle := by
  have honfiles : request.onFiles = true →
      s.toLocal.command request = some s'.toLocal ∧ s'.Idle := by
    intro hon
    rw [command_of_onFiles hon] at h
    split at h
    · next hserving =>
        obtain ⟨response, handler, hperform, rfl, hserving', hconnected, hshown, hidle'⟩ :=
          perform_of_exchange hpb (hidle.prompt "") hserving hon (hreliable hon) h
        have hlocal : s.toLocal.serving = true := hserving
        replace hperform : s.toLocal.handler.perform request =
          some (response, s'.agent.fileHandler) := hperform
        replace hshown : s'.client.shown =
            s.client.shown ++ "\nmyftp> " ++ (showResponse (response.getD .notSet) ++ "\n") := by
          rw [hshown, FtpSession.prompt, String.append_empty]
        refine ⟨?_, hidle'⟩
        rw [localCommand_of_onFiles hon, if_pos hlocal, hperform, Option.map_some]
        simp only [toLocal, LocalShell.prompt, hserving', hconnected, hshown]
        rfl
    · cases h
  cases request with
  | quit =>
      cases h
      exact ⟨rfl, hidle.wellFormed, hidle.unhurried, hidle.arrived_eq, hidle.agent⟩
  | notSet => exact absurd rfl hrequest.1
  | fileContents m => exact absurd rfl (hrequest.2 m)
  | get | put | terminate => cases h
  | delete | list | changeDir | makeDir | pwd => exact honfiles rfl

/-- **One line.** -/
theorem local_of_step (hpb : pb.Lawful) (hidle : s.Idle) (hreliable : ReliableStep pb s x)
    (h : step pb fuel s x = some s') :
    s.toLocal.step x.line = some s'.toLocal ∧ s'.Idle := by
  rw [step] at h
  split at h
  · next hconnected =>
      have hlocal : s.toLocal.connected = true := hconnected
      split at h
      · cases h
      · next request hreq =>
          rw [LocalShell.step, if_pos hlocal]
          split at h
          · next hvalid =>
              have hsame : InputParser.create (fun _ => []) none x.line = x.parsed :=
                InputParser.create_of_valid hvalid none
              simp only [hsame, if_pos hvalid, hreq, Option.bind_some]
              exact local_of_command hpb hidle (InputParser.createReq_of_valid hvalid hreq)
                (hreliable request hvalid hreq) h
          · next hinvalid =>
              cases h
              have hsame : (InputParser.create (fun _ => []) none x.line).isValid =
                x.parsed.isValid := InputParser.isValid_create none _
              refine ⟨?_, hidle.prompt _⟩
              simp only [hsame, if_neg hinvalid]
              rfl
  · cases h

/-- The messages of a line fit the wire format. -/
def Fits (pb : FtpProtobuf) (sh : LocalShell) (line : String) : Prop :=
  ∀ request, (InputParser.create (fun _ => []) none line).createReq = some request →
    4 + pb.request.byteSizeLong request < 2 ^ 31 ∧
      ∀ response handler, sh.handler.perform request = some (response, handler) →
        ∀ r, response = some r → pb.response.byteSizeLong r < 2 ^ 31

/-- An exchange in which every call does all there is to do. -/
def atOnce (pb : FtpProtobuf) (line : String) (request : Request) (response : Option Response) :
    Exchange where
  line
  clientSends := [.accepted (frame (pb.request.encoding request)).length]
  request := [frame (pb.request.encoding request)]
  agentSends := [.accepted (responseBytes pb.response response).length]
  response := response.toList.map fun r => .data (frame (pb.response.encoding r))

/-- One call of `send` takes the whole request. -/
theorem sendReq_atOnce {client : Client} (hpos : 0 < client.outgoingMsgBuf.length)
    (hlen : client.outgoingMsgBuf.length < 2 ^ 31)
    (hsends : client.socket.sends = [.accepted client.outgoingMsgBuf.length]) :
    ∃ sent client', sendReq 2 client = some (sent, client') := by
  obtain ⟨result, socket, hsend⟩ := sendForever_atOnce hpos hlen hsends
  rw [sendReq, hsend]
  dsimp only
  split
  · exact ⟨_, _, rfl⟩
  · exact ⟨_, _, rfl⟩

theorem segments_atOnce {line : String} {response : Option Response}
    (hlen : (frame (pb.request.encoding request)).length < 2 ^ 31) :
    Segments (atOnce pb line request response).request := by
  intro segment hsegment
  obtain rfl := List.mem_singleton.mp hsegment
  rw [length_frame] at hlen
  refine ⟨?_, by rw [length_frame]; omega⟩
  intro hnil
  have hzero := congrArg List.length hnil
  rw [length_frame, List.length_nil] at hzero
  omega

theorem unhurried_atOnce {line : String} {response : Option Response}
    (hlen : (responseBytes pb.response response).length < 2 ^ 32) :
    Unhurried (atOnce pb line request response).response ∧
      arrived (atOnce pb line request response).response = responseBytes pb.response response := by
  cases response with
  | none => exact ⟨fun result hresult => absurd hresult List.not_mem_nil, rfl⟩
  | some r =>
      refine ⟨?_, List.append_nil _⟩
      intro result hresult
      obtain rfl := List.mem_singleton.mp hresult
      refine decide_eq_true ⟨?_, hlen⟩
      intro hnil
      have hzero := congrArg List.length hnil
      rw [length_frame, List.length_nil] at hzero
      omega

/-- **What the local shell does, an exchange can do.** -/
theorem exchange_of_perform (hpb : pb.Lawful) (hidle : s.Idle) (hserving : s.serving = true)
    (hrequest : request.onFiles = true) (hfits : 4 + pb.request.byteSizeLong request < 2 ^ 31)
    {response : Option Response} {handler : FileHandler}
    (hperform : s.agent.fileHandler.perform request = some (response, handler))
    (hresponse : ∀ r, response = some r → pb.response.byteSizeLong r < 2 ^ 31) (line : String) :
    Reliable pb s.agent.fileHandler (atOnce pb line request response) request ∧
      ∃ s', exchange pb 2 s (atOnce pb line request response) request = some s' := by
  have hsize : pb.request.byteSizeLong request < 2 ^ 31 := by omega
  have hlength : (frame (pb.request.encoding request)).length =
      4 + pb.request.byteSizeLong request := by
    rw [length_frame, hpb.request.length_encoding hsize]
  have hpos : 0 < (frame (pb.request.encoding request)).length := by omega
  have hlen : (frame (pb.request.encoding request)).length < 2 ^ 31 := by omega
  have hacc : Accepting (atOnce pb line request response).clientSends := accepting_singleton hpos
  have hcan : CanRespond pb.response (atOnce pb line request response).agentSends response := by
    rintro r rfl
    refine ⟨hresponse r rfl, _, [], rfl, ?_⟩
    rw [responseBytes, length_frame, hpb.response.length_encoding (hresponse r rfl)]
  refine ⟨⟨hacc, hfits, ?_⟩, ?_⟩
  · intro response' handler' hperform'
    cases hperform.symm.trans hperform'
    exact hcan
  · have hbuffer :
        (requesting pb s.client (atOnce pb line request response) request).outgoingMsgBuf =
          frame (pb.request.encoding request) :=
      congrArg Prod.snd (serialize_eq_frame hpb.request hsize s.client.outgoingMsgBuf)
    obtain ⟨sent, client, hsend⟩ := sendReq_atOnce (hbuffer ▸ hpos) (hbuffer ▸ hlen)
      (congrArg (fun buffer => [SendResult.accepted (List.length buffer)]) hbuffer.symm)
    obtain ⟨hsent, hincoming, hparser, -, -⟩ := sendReq_of_accepting (hbuffer ▸ hlen) hacc hsend
    replace hsent : client.socket.sent =
        s.client.socket.sent ++ frame (pb.request.encoding request) := hbuffer ▸ hsent
    have hstream : (atOnce pb line request response).request.flatten =
        client.socket.sent.drop s.client.socket.sent.length := by
      rw [hsent, List.drop_left]
      exact List.append_nil _
    obtain ⟨agent', hserve, -, -, hresponded⟩ := serve_of_perform 2 (hidle.agent hserving) hpb hsize
      (segments_atOnce hlen) (List.append_nil _) hrequest hperform hcan
    have hshort : (responseBytes pb.response response).length < 2 ^ 32 := by
      cases response with
      | none => exact Nat.two_pow_pos 32
      | some r =>
          have hlt := hresponse r rfl
          rw [responseBytes, length_frame, hpb.response.length_encoding hlt]
          omega
    obtain ⟨hun, harrived⟩ := unhurried_atOnce hshort
    obtain ⟨client', hwait, -⟩ := shows_of_responded hpb.response (hparser ▸ hidle.wellFormed)
      (hincoming ▸ hidle.unhurried) (hincoming ▸ hidle.arrived_eq) hun harrived hresponse
    refine ⟨_, exchange_of_steps hsend (segments_atOnce hlen) hstream hserve hun ?_ hwait⟩
    rw [hresponded, List.drop_left, harrived]

theorem step_of_createReq (hconnected : s.client.connected = true)
    (hreq : x.parsed.createReq = some request) :
    step pb fuel s x =
      if x.parsed.isValid then (s.prompt "").command pb fuel x request
      else some (s.prompt "Invalid command, try again.\n") := by
  rw [step, if_pos hconnected, hreq]

/-- **What the local shell does with a line, a session can do.** -/
theorem step_of_local (hpb : pb.Lawful) (hidle : s.Idle) {line : String} {sh : LocalShell}
    (hfits : Fits pb s.toLocal line) (h : s.toLocal.step line = some sh) :
    ∃ x s', x.line = line ∧ ReliableStep pb s x ∧ step pb 2 s x = some s' := by
  rw [LocalShell.step] at h
  split at h
  · next hconnected =>
      replace hconnected : s.client.connected = true := hconnected
      dsimp only at h
      by_cases hvalid : (InputParser.create (fun _ => []) none line).isValid = true
      · rw [if_pos hvalid] at h
        obtain ⟨request, hreq, hcommand⟩ := Option.bind_eq_some_iff.mp h
        have hstep : ∀ x : Exchange, x.parsed = InputParser.create (fun _ => []) none line →
            step pb 2 s x = (s.prompt "").command pb 2 x request := by
          intro x hparsed
          rw [step_of_createReq hconnected (hparsed ▸ hreq), hparsed, if_pos hvalid]
        by_cases hon : request.onFiles = true
        · obtain ⟨hsize, hresponses⟩ := hfits request hreq
          rw [localCommand_of_onFiles hon] at hcommand
          split at hcommand
          · next hserving =>
              obtain ⟨⟨response, handler⟩, hperform, -⟩ := Option.map_eq_some_iff.mp hcommand
              obtain ⟨hreliable, s', hexchange⟩ := exchange_of_perform hpb (hidle.prompt "")
                hserving hon hsize hperform (hresponses response handler hperform) line
              refine ⟨atOnce pb line request response, s', rfl, ?_, ?_⟩
              · intro request' _ hreq' _
                cases hreq.symm.trans hreq'
                exact hreliable
              · rw [hstep (atOnce pb line request response) rfl, command_of_onFiles hon]
                exact (if_pos hserving).trans hexchange
          · cases hcommand
        · refine ⟨{ line }, ?_⟩
          have hreliable : ReliableStep pb s { line } := by
            intro request' _ hreq' hon'
            cases hreq.symm.trans hreq'
            exact absurd hon' hon
          obtain rfl := eq_quit_of_command hon hcommand
          exact ⟨_, rfl, hreliable, hstep { line } rfl⟩
      · have hparsed : ({ line } : Exchange).parsed = InputParser.create (fun _ => []) none line :=
          rfl
        have hreq : ({ line } : Exchange).parsed.createReq = some .notSet := by
          rw [hparsed, InputParser.createReq_of_not_valid hvalid]
        rw [← hparsed] at hvalid
        refine ⟨{ line }, s.prompt "Invalid command, try again.\n", rfl,
          fun _ hvalid' => absurd hvalid' hvalid, ?_⟩
        rw [step_of_createReq hconnected hreq, if_neg hvalid]
  · cases h

/-- A new session, with the server's files. -/
theorem idle_start (handler : FileHandler) : Idle { agent := { fileHandler := handler } } where
  wellFormed := MessageParser.wellFormed_fresh
  unhurried := fun _ hresult => absurd hresult List.not_mem_nil
  arrived_eq := rfl
  agent := fun _ => ⟨MessageParser.ready_fresh, by simp, rfl⟩

end FtpSession

end Csci6780
