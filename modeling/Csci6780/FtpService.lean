import Csci6780.FtpSession

/-!
# The Clients of an FTP Server

`Server::FtpService` has an agent for every client that connects, and all of them work on the same
files. A client sends its request, the agent serves it, and the client waits for the response; in
between, other clients send, are served and wait.

To the users it is as if they all sat at shells on the server: there is one order of their lines, in
which every line is one step on the shared files, and everybody sees what the shells show. The order
is that in which the agents serve the requests, so that a line comes after those whose responses had
been shown when it was typed.

The sessions are those of `FtpSession`, with the commands that work on the files in one step: `get`
and `put` move files, and `ls` reads a directory entry by entry, so that it may show what was never
there at one time. An operation that throws is no step, since it ends the server.

## Main results

* `shared_of_step`, `run_of_exchange`: the service does what one of the shells does, and an exchange
  of a session is one of the service's.
* `clients_share_files`: the clients of a server are shells that share their files.
-/

namespace Csci6780

/-! ### Shells on the server -/

/-- The handler, with the files as somebody else has left them. -/
def FileHandler.sharing (handler : FileHandler) (fs : FileSystem) : FileHandler :=
  { handler with fs := fs }

/-- A shell on the same files. -/
def LocalShell.sharing (sh : LocalShell) (fs : FileSystem) : LocalShell :=
  { sh with handler := sh.handler.sharing fs }

/-- An agent that works on the same files. -/
def FtpSession.sharing (s : FtpSession) (fs : FileSystem) : FtpSession :=
  { s with agent := { s.agent with fileHandler := s.agent.fileHandler.sharing fs } }

/-- Shells that share their files: a line that is typed into one of them is one step. -/
def sharedStep {ι : Type} [DecidableEq ι] (shells : ι → LocalShell) (a : ι × String) :
    Option (ι → LocalShell) :=
  ((shells a.1).step a.2).map fun sh j => (Function.update shells a.1 sh j).sharing sh.handler.fs

/-! ### The service -/

/-- Where a client is: at its prompt, or its request has been sent, or it has been served and so
many bytes have been sent back. -/
inductive FtpTurn
  | prompt
  | requested (x : Exchange)
  | responded (x : Exchange) (state : ClientState) (bytes : List UInt8)
  deriving DecidableEq, Repr

/-- The sessions of a server. -/
structure FtpService (ι : Type) where
  session : ι → FtpSession
  turn : ι → FtpTurn := fun _ => .prompt

namespace FtpService

variable {ι : Type} [DecidableEq ι] (pb : FtpProtobuf) (fuel : ℕ)

/-- One session goes on. -/
def goTo (s : FtpService ι) (i : ι) (session : FtpSession) (turn : FtpTurn) : FtpService ι where
  session := Function.update s.session i session
  turn := Function.update s.turn i turn

/-- Everybody's files. -/
def sharing (s : FtpService ι) (fs : FileSystem) : FtpService ι :=
  { s with session := fun i => (s.session i).sharing fs }

/-- A client is given a line, an agent serves the request that has been sent to it, or a client
shows the response. -/
inductive Action (ι : Type)
  | line (i : ι) (x : Exchange)
  | serve (i : ι)
  | respond (i : ι)
  deriving DecidableEq, Repr

/-- `Client::FtpShell` with a request, up to the end of `SendReq`. -/
def request (s : FtpService ι) (i : ι) (x : Exchange) (r : Request) : Option (FtpService ι) :=
  let session := (s.session i).prompt ""
  match FtpSession.sendReq fuel (FtpSession.requesting pb session.client x r) with
  | none => none
  | some (_, client) =>
      if Segments x.request ∧
          x.request.flatten = client.socket.sent.drop session.client.socket.sent.length then
        some (s.goTo i { session with client } (.requested x))
      else none

/-- A command, up to the end of `SendReq`. `ls` is left out: it reads its directory entry by entry,
while the others may change it. -/
def command (s : FtpService ι) (i : ι) (x : Exchange) : Request → Option (FtpService ι)
  | .terminate _ | .get _ | .put _ | .list => none
  | .quit =>
      let session := (s.session i).prompt ""
      some (s.goTo i { session with client := { session.client with connected := false } } .prompt)
  | r => if (s.session i).serving then s.request pb fuel i x r else none

/-- `Client::FtpShell` with a line, up to the end of `SendReq`. -/
def line (s : FtpService ι) (i : ι) (x : Exchange) : Option (FtpService ι) :=
  if s.turn i = .prompt ∧ (s.session i).client.connected then
    match x.parsed.createReq with
    | none => none
    | some r =>
        if x.parsed.isValid then s.command pb fuel i x r
        else some (s.goTo i ((s.session i).prompt "Invalid command, try again.\n") .prompt)
  else none

/-- The rounds of `Agent::Handle` with a request. -/
def serve (s : FtpService ι) (i : ι) : Option (FtpService ι) :=
  match s.turn i with
  | .requested x =>
      (FtpSession.serve pb fuel (FtpSession.requested (s.session i).agent x)).map
        fun (state, agent) =>
          let bytes := agent.socket.sent.drop (s.session i).agent.socket.sent.length
          (s.goTo i { s.session i with agent } (.responded x state bytes)).sharing
            agent.fileHandler.fs
  | _ => none

/-- `WaitForMessage` and `HandleResponse`. -/
def respond (s : FtpService ι) (i : ι) : Option (FtpService ι) :=
  match s.turn i with
  | .responded x state bytes =>
      if Unhurried x.response ∧ arrived x.response = bytes then
        (FtpSession.responded (s.session i).client x state).waitForMessage.map fun (_, client) =>
          s.goTo i
            { s.session i with
              client := client.handleResponse pb.response
              serving := state = .active } .prompt
      else none
  | _ => none

/-- One step. -/
def step (s : FtpService ι) : Action ι → Option (FtpService ι)
  | .line i x => s.line pb fuel i x
  | .serve i => s.serve pb fuel i
  | .respond i => s.respond pb i

/-- The line is a request that is sent to the agent. -/
def sendsRequest (x : Exchange) : Bool :=
  x.parsed.isValid && (x.parsed.createReq.elim false Request.onFiles)

/-- The lines that take effect in a step: a request does when its agent serves it. -/
def effects (s : FtpService ι) : Action ι → List (ι × String)
  | .line i x => if sendsRequest x then [] else [(i, x.line)]
  | .serve i =>
      match s.turn i with
      | .requested x => [(i, x.line)]
      | _ => []
  | .respond _ => []

/-- What is seen of the sessions. -/
def toLocal (s : FtpService ι) (i : ι) : LocalShell := (s.session i).toLocal

end FtpService

/-! ### The shells -/

/-- A line that is a request on the files, typed into a local shell. -/
theorem LocalShell.step_of_perform {sh : LocalShell} {x : Exchange} {request : Request}
    {response : Option Response} {handler : FileHandler} (hconnected : sh.connected = true)
    (hserving : sh.serving = true) (hvalid : x.parsed.isValid = true)
    (hreq : x.parsed.createReq = some request) (hrequest : request.onFiles = true)
    (hperform : sh.handler.perform request = some (response, handler)) :
    sh.step x.line = some
      { sh.prompt (showResponse (response.getD .notSet) ++ "\n") with
        handler
        serving := response.isSome } := by
  have hsame : InputParser.create (fun _ => []) none x.line = x.parsed :=
    InputParser.create_of_valid hvalid none
  rw [step, if_pos hconnected]
  simp only [hsame, if_pos hvalid, hreq, Option.bind_some]
  rw [FtpSession.localCommand_of_onFiles hrequest, if_pos hserving, hperform, Option.map_some]

/-- Shells on the same files do not notice that they are given them. -/
theorem sharing_update {ι : Type} [DecidableEq ι] {shells : ι → LocalShell} {i : ι}
    {sh : LocalShell} (hshared : ∀ j, (shells j).handler.fs = sh.handler.fs) :
    (fun j => (Function.update shells i sh j).sharing sh.handler.fs) =
      Function.update shells i sh := by
  have hself : ∀ sh' : LocalShell, sh'.handler.fs = sh.handler.fs →
      sh'.sharing sh.handler.fs = sh' := by
    intro sh' h
    rw [← h]
    rfl
  funext j
  refine hself _ ?_
  by_cases hj : j = i
  · rw [hj, Function.update_self]
  · rw [Function.update_of_ne hj]
    exact hshared j

/-! ### A session and its shell -/

/-- A request has been sent and is not served: the shell has not got the line. -/
structure Requested (pb : FtpProtobuf) (x : Exchange) (s : FtpSession) (sh : LocalShell)
    (request : Request) : Prop where
  idle : s.Idle
  serving : s.serving = true
  connected : sh.connected = true
  valid : x.parsed.isValid = true
  createReq_eq : x.parsed.createReq = some request
  onFiles : request.onFiles = true
  segments : Segments x.request
  stream : x.request.flatten = frame (pb.request.encoding request)
  fits : pb.request.byteSizeLong request < 2 ^ 31
  toLocal_eq : s.toLocal = sh.prompt ""

/-- A request has been served and its response is on its way: the shell shows it already. -/
structure Responded (pb : FtpProtobuf) (state : ClientState) (bytes : List UInt8) (s : FtpSession)
    (sh : LocalShell) (response : Option Response) : Prop where
  idle : s.Idle
  serving : s.serving = true
  state_eq : state = if response.isSome then .active else .error
  bytes_eq : bytes = responseBytes pb.response response
  fits : ∀ r, response = some r → pb.response.byteSizeLong r < 2 ^ 31
  shell_eq : sh =
    { s.toLocal with
      shown := s.client.shown ++ (showResponse (response.getD .notSet) ++ "\n")
      serving := response.isSome }

/-- A session and the shell that it stands for. -/
def Tracks (pb : FtpProtobuf) : FtpTurn → FtpSession → LocalShell → Prop
  | .prompt, s, sh => s.Idle ∧ sh = s.toLocal
  | .requested x, s, sh => ∃ request, Requested pb x s sh request
  | .responded _ state bytes, s, sh => ∃ response, Responded pb state bytes s sh response

theorem FtpSession.Idle.sharing {s : FtpSession} (h : s.Idle) (fs : FileSystem) :
    (s.sharing fs).Idle :=
  ⟨h.wellFormed, h.unhurried, h.arrived_eq, fun hserving =>
    ⟨(h.agent hserving).ready, (h.agent hserving).pending_eq, (h.agent hserving).incoming_eq⟩⟩

section Tracks

variable {pb : FtpProtobuf} {turn : FtpTurn} {s : FtpSession} {sh : LocalShell}

/-- Somebody else works on the files of both. -/
theorem Tracks.sharing (h : Tracks pb turn s sh) (fs : FileSystem) :
    Tracks pb turn (s.sharing fs) (sh.sharing fs) := by
  cases turn with
  | prompt =>
      obtain ⟨hidle, rfl⟩ := h
      exact ⟨hidle.sharing fs, rfl⟩
  | requested x =>
      obtain ⟨request, hreq⟩ := h
      refine ⟨request, { hreq with idle := hreq.idle.sharing fs, toLocal_eq := ?_ }⟩
      exact congrArg (LocalShell.sharing · fs) hreq.toLocal_eq
  | responded x state bytes =>
      obtain ⟨response, hres⟩ := h
      refine ⟨response, { hres with idle := hres.idle.sharing fs, shell_eq := ?_ }⟩
      exact congrArg (LocalShell.sharing · fs) hres.shell_eq

/-- Both are in the same directory. -/
theorem Tracks.handler_eq (h : Tracks pb turn s sh) : sh.handler = s.agent.fileHandler := by
  cases turn with
  | prompt =>
      obtain ⟨-, rfl⟩ := h
      rfl
  | requested x =>
      obtain ⟨request, hreq⟩ := h
      exact (congrArg LocalShell.handler hreq.toLocal_eq).symm
  | responded x state bytes =>
      obtain ⟨response, hres⟩ := h
      rw [hres.shell_eq]
      rfl

end Tracks

namespace FtpService

variable {ι : Type} [DecidableEq ι] {pb : FtpProtobuf} {fuel : ℕ} {s s' : FtpService ι}
  {shells : ι → LocalShell} {i : ι} {x : Exchange} {request : Request}

/-- The sessions and the shells that they stand for, all on the same files. -/
structure Follows (pb : FtpProtobuf) (s : FtpService ι) (shells : ι → LocalShell) : Prop where
  tracks : ∀ i, Tracks pb (s.turn i) (s.session i) (shells i)
  shared : ∀ i j, (shells i).handler.fs = (shells j).handler.fs

/-- One session and its shell go on. -/
theorem Follows.tracks_goTo (h : Follows pb s shells) {session : FtpSession} {turn : FtpTurn}
    {sh : LocalShell} (htracks : Tracks pb turn session sh) (j : ι) :
    Tracks pb ((s.goTo i session turn).turn j) ((s.goTo i session turn).session j)
      (Function.update shells i sh j) := by
  rw [FtpService.goTo]
  dsimp only
  by_cases hj : j = i
  · subst hj
    rw [Function.update_self, Function.update_self, Function.update_self]
    exact htracks
  · rw [Function.update_of_ne hj, Function.update_of_ne hj, Function.update_of_ne hj]
    exact h.tracks j

/-- They have not worked on the files. -/
theorem Follows.goTo (h : Follows pb s shells) {session : FtpSession} {turn : FtpTurn}
    {sh : LocalShell} (htracks : Tracks pb turn session sh)
    (hfs : sh.handler.fs = (shells i).handler.fs) :
    Follows pb (s.goTo i session turn) (Function.update shells i sh) := by
  have hall : ∀ j, (Function.update shells i sh j).handler.fs = (shells i).handler.fs := by
    intro j
    by_cases hj : j = i
    · rw [hj, Function.update_self]
      exact hfs
    · rw [Function.update_of_ne hj]
      exact h.shared j i
  exact ⟨h.tracks_goTo htracks, fun j k => (hall j).trans (hall k).symm⟩

/-- They have worked on the files. -/
theorem Follows.goTo_sharing (h : Follows pb s shells) {session : FtpSession} {turn : FtpTurn}
    {sh : LocalShell} (htracks : Tracks pb turn session sh) (fs : FileSystem) :
    Follows pb ((s.goTo i session turn).sharing fs)
      (fun j => (Function.update shells i sh j).sharing fs) :=
  ⟨fun j => (h.tracks_goTo htracks j).sharing fs, fun _ _ => rfl⟩

/-- The messages fit the wire format, and the calls of `send` take a request in some pieces and a
response in one. -/
def ReliableStep (pb : FtpProtobuf) (s : FtpService ι) : Action ι → Prop
  | .line _ x => ∀ request, x.parsed.createReq = some request → sendsRequest x = true →
      Accepting x.clientSends ∧ 4 + pb.request.byteSizeLong request < 2 ^ 31
  | .serve i => ∀ x request, s.turn i = .requested x → x.parsed.createReq = some request →
      ∀ response handler,
        (s.session i).agent.fileHandler.perform request = some (response, handler) →
          CanRespond pb.response x.agentSends response
  | .respond _ => True

/-! ### One step -/

theorem sendsRequest_of_onFiles (hvalid : x.parsed.isValid = true)
    (hreq : x.parsed.createReq = some request) : sendsRequest x = request.onFiles := by
  rw [sendsRequest, hvalid, hreq]
  rfl

/-- A line that is served at once is one of a session. -/
theorem shared_of_local (hpb : pb.Lawful) (h : Follows pb s shells) (hturn : s.turn i = .prompt)
    {session : FtpSession} (hreliable : FtpSession.ReliableStep pb (s.session i) x)
    (hstep : FtpSession.step pb fuel (s.session i) x = some session)
    (hfs : session.agent.fileHandler.fs = (s.session i).agent.fileHandler.fs) :
    ∃ shells', runFrom sharedStep shells [(i, x.line)] = some shells' ∧
      Follows pb (s.goTo i session .prompt) shells' := by
  have htracks := h.tracks i
  rw [hturn] at htracks
  obtain ⟨hidle, hshell⟩ := htracks
  obtain ⟨hlocal, hidle'⟩ := FtpSession.local_of_step hpb hidle hreliable hstep
  have hfiles : session.toLocal.handler.fs = (shells i).handler.fs := by
    rw [hshell]
    exact hfs
  refine ⟨Function.update shells i session.toLocal, ?_,
    h.goTo ⟨hidle', rfl⟩ hfiles⟩
  rw [runFrom_singleton, sharedStep]
  dsimp only
  rw [hshell, hlocal, Option.map_some,
    sharing_update fun j => (h.shared j i).trans hfiles.symm]

/-- What a request up to the end of `SendReq` consists of. -/
theorem request_cases (h : s.request pb fuel i x request = some s') :
    ∃ sent client,
      FtpSession.sendReq fuel (FtpSession.requesting pb ((s.session i).prompt "").client x request)
        = some (sent, client) ∧
      Segments x.request ∧
      x.request.flatten = client.socket.sent.drop (s.session i).client.socket.sent.length ∧
      s' = s.goTo i { (s.session i).prompt "" with client } (.requested x) := by
  rw [FtpService.request] at h
  split at h
  · cases h
  · next sent client hsend =>
      split at h
      · next hrequest =>
          exact ⟨sent, client, hsend, hrequest.1, hrequest.2, (Option.some.inj h).symm⟩
      · cases h

/-- **A request that is sent** has not reached the shells. -/
theorem follows_of_request (hpb : pb.Lawful) (h : Follows pb s shells) (hturn : s.turn i = .prompt)
    (hconnected : (s.session i).client.connected = true)
    (hserving : (s.session i).serving = true) (hvalid : x.parsed.isValid = true)
    (hreq : x.parsed.createReq = some request) (hrequest : request.onFiles = true)
    (hacc : Accepting x.clientSends) (hfits : 4 + pb.request.byteSizeLong request < 2 ^ 31)
    (hstep : s.request pb fuel i x request = some s') : Follows pb s' shells := by
  have hsize : pb.request.byteSizeLong request < 2 ^ 31 := by omega
  have htracks := h.tracks i
  rw [hturn] at htracks
  obtain ⟨hidle, hshell⟩ := htracks
  obtain ⟨sent, client, hsend, hseg, hstream, rfl⟩ := request_cases hstep
  have hbuffer : (FtpSession.requesting pb ((s.session i).prompt "").client x
      request).outgoingMsgBuf = frame (pb.request.encoding request) :=
    congrArg Prod.snd (serialize_eq_frame hpb.request hsize (s.session i).client.outgoingMsgBuf)
  have hlen : (FtpSession.requesting pb ((s.session i).prompt "").client x
      request).outgoingMsgBuf.length < 2 ^ 31 := by
    rw [hbuffer, length_frame, hpb.request.length_encoding hsize]
    exact hfits
  obtain ⟨hsent, hincoming, hparser, hshown, hconnected'⟩ :=
    FtpSession.sendReq_of_accepting hlen hacc hsend
  replace hsent : client.socket.sent =
      (s.session i).client.socket.sent ++ frame (pb.request.encoding request) := hbuffer ▸ hsent
  rw [hsent, List.drop_left] at hstream
  have hrequested : Requested pb x { (s.session i).prompt "" with client } (shells i) request := by
    refine ⟨⟨?_, ?_, ?_, hidle.agent⟩, hserving, ?_, hvalid, hreq, hrequest, hseg, hstream,
      hsize, ?_⟩
    · rw [hparser]
      exact hidle.wellFormed
    · rw [hincoming]
      exact hidle.unhurried
    · rw [hincoming]
      exact hidle.arrived_eq
    · rw [hshell]
      exact hconnected
    · rw [hshell, FtpSession.toLocal, hshown, hconnected']
      rfl
  have htracks : Tracks pb (.requested x) { (s.session i).prompt "" with client } (shells i) :=
    ⟨request, hrequested⟩
  have hgo := h.goTo htracks rfl
  rwa [Function.update_eq_self] at hgo

/-- **A line** takes effect at once, or it is a request that is sent. -/
theorem shared_of_line (hpb : pb.Lawful) (h : Follows pb s shells)
    (hreliable : ReliableStep pb s (.line i x)) (hstep : s.line pb fuel i x = some s') :
    ∃ shells', runFrom sharedStep shells (s.effects (.line i x)) = some shells' ∧
      Follows pb s' shells' := by
  rw [FtpService.line] at hstep
  split at hstep
  · next hready =>
      obtain ⟨hturn, hconnected⟩ := hready
      cases hreq : x.parsed.createReq with
      | none =>
          rw [hreq] at hstep
          cases hstep
      | some request =>
          rw [hreq] at hstep
          dsimp only at hstep
          have hsession : FtpSession.step pb fuel (s.session i) x = _ :=
            FtpSession.step_of_createReq hconnected hreq
          rw [effects]
          by_cases hvalid : x.parsed.isValid = true
          · rw [if_pos hvalid] at hstep hsession
            have hsends := sendsRequest_of_onFiles hvalid hreq
            by_cases hon : request.onFiles = true
            · rw [hon] at hsends
              obtain ⟨hacc, hfits⟩ := hreliable request hreq hsends
              have hcommand : (s.session i).serving = true ∧
                  s.request pb fuel i x request = some s' := by
                cases request with
                | delete | changeDir | makeDir | pwd =>
                    exact (Option.ite_none_right_eq_some ..).mp hstep
                | list => cases hstep
                | _ => cases hon
              rw [hsends, if_pos rfl]
              exact ⟨shells, rfl, follows_of_request hpb h hturn hconnected hcommand.1 hvalid
                hreq hon hacc hfits hcommand.2⟩
            · have hnot : sendsRequest x = false := hsends.trans (Bool.eq_false_iff.mpr hon)
              have hquiet : FtpSession.ReliableStep pb (s.session i) x := by
                intro request' _ hreq' hon'
                cases hreq.symm.trans hreq'
                exact absurd hon' hon
              rw [hnot, if_neg Bool.false_ne_true]
              cases request with
              | quit =>
                  cases hstep
                  exact shared_of_local hpb h hturn hquiet hsession rfl
              | get | put | terminate => cases hstep
              | notSet =>
                  exact absurd rfl (InputParser.createReq_of_valid hvalid hreq).1
              | fileContents m =>
                  exact absurd rfl ((InputParser.createReq_of_valid hvalid hreq).2 m)
              | delete | list | changeDir | makeDir | pwd => exact absurd rfl hon
          · have hnot : sendsRequest x = false := by
              rw [sendsRequest, Bool.eq_false_iff.mpr hvalid]
              rfl
            rw [if_neg hvalid] at hstep hsession
            cases hstep
            rw [hnot, if_neg Bool.false_ne_true]
            exact shared_of_local hpb h hturn (fun _ hvalid' => absurd hvalid' hvalid) hsession rfl
  · cases hstep

/-- **A request that is served** is a step of its shell. -/
theorem shared_of_serve (hpb : pb.Lawful) (h : Follows pb s shells)
    (hreliable : ReliableStep pb s (.serve i)) (hstep : s.serve pb fuel i = some s') :
    ∃ shells', runFrom sharedStep shells (s.effects (.serve i)) = some shells' ∧
      Follows pb s' shells' := by
  rw [FtpService.serve] at hstep
  rw [effects]
  cases hturn : s.turn i with
  | prompt | responded =>
      rw [hturn] at hstep
      cases hstep
  | requested x =>
      rw [hturn] at hstep
      dsimp only at hstep ⊢
      obtain ⟨⟨state, agent⟩, hserve, rfl⟩ := Option.map_eq_some_iff.mp hstep
      have htracks := h.tracks i
      rw [hturn] at htracks
      obtain ⟨request, hreq⟩ := htracks
      have hhandler : (shells i).handler = (s.session i).agent.fileHandler :=
        (congrArg LocalShell.handler hreq.toLocal_eq).symm
      have hagent := hreq.idle.agent hreq.serving
      cases hperform : (s.session i).agent.fileHandler.perform request with
      | none =>
          rw [FtpSession.serve_of_perform_none fuel hagent hpb hreq.fits hreq.segments hreq.stream
            hreq.onFiles hperform] at hserve
          cases hserve
      | some result =>
          obtain ⟨response, handler⟩ := result
          have hcan := hreliable x request hturn hreq.createReq_eq response handler hperform
          obtain ⟨agent', hserve', hfiles, hidle', hsent⟩ := FtpSession.serve_of_perform fuel hagent
            hpb hreq.fits hreq.segments hreq.stream hreq.onFiles hperform hcan
          obtain ⟨rfl, rfl⟩ := Prod.mk.inj (Option.some.inj (hserve.symm.trans hserve'))
          have hserving : (shells i).serving = true :=
            (congrArg LocalShell.serving hreq.toLocal_eq).symm.trans hreq.serving
          have hshell := LocalShell.step_of_perform hreq.connected hserving hreq.valid
            hreq.createReq_eq hreq.onFiles (hhandler ▸ hperform)
          have htracks : Tracks pb
              (.responded x (if response.isSome then .active else .error)
                (agent.socket.sent.drop (s.session i).agent.socket.sent.length))
              { s.session i with agent }
              { (shells i).prompt (showResponse (response.getD .notSet) ++ "\n") with
                handler
                serving := response.isSome } := by
            refine ⟨response, ⟨hreq.idle.wellFormed, hreq.idle.unhurried, hreq.idle.arrived_eq,
              fun _ => hidle'⟩, hreq.serving, rfl, ?_, fun r hr => (hcan r hr).1, ?_⟩
            · rw [hsent, List.drop_left]
            · have hshown : (s.session i).client.shown = (shells i).shown ++ "\nmyftp> " ++ "" :=
                congrArg LocalShell.shown hreq.toLocal_eq
              have hconnected : (s.session i).client.connected = (shells i).connected :=
                congrArg LocalShell.connected hreq.toLocal_eq
              rw [FtpSession.toLocal, LocalShell.prompt]
              simp only [hshown, hconnected, hfiles, String.append_empty]
          refine ⟨_, ?_, h.goTo_sharing htracks agent.fileHandler.fs⟩
          rw [runFrom_singleton, sharedStep]
          dsimp only
          rw [hshell, Option.map_some, hfiles]

/-- **A response that is shown** has been shown by the shell. -/
theorem follows_of_respond (hpb : pb.Lawful) (h : Follows pb s shells)
    (hstep : s.respond pb i = some s') : Follows pb s' shells := by
  rw [FtpService.respond] at hstep
  cases hturn : s.turn i with
  | prompt | requested =>
      rw [hturn] at hstep
      cases hstep
  | responded x state bytes =>
      rw [hturn] at hstep
      dsimp only at hstep
      split at hstep
      · next hresponse =>
          obtain ⟨hun, harrived⟩ := hresponse
          obtain ⟨⟨waited, client⟩, hwait, rfl⟩ := Option.map_eq_some_iff.mp hstep
          have htracks := h.tracks i
          rw [hturn] at htracks
          obtain ⟨response, hres⟩ := htracks
          rw [hres.bytes_eq] at harrived
          obtain ⟨shown, hwait', hshows⟩ := FtpSession.shows_of_responded hpb.response
            hres.idle.wellFormed hres.idle.unhurried hres.idle.arrived_eq hun harrived hres.fits
          rw [hres.state_eq] at hwait
          obtain ⟨-, rfl⟩ := Prod.mk.inj (Option.some.inj (hwait.symm.trans hwait'))
          have hidle : FtpSession.Idle
              { s.session i with
                client := client.handleResponse pb.response
                serving := state = .active } := by
            exact ⟨hshows.wellFormed, hshows.unhurried, hshows.arrived_eq,
              fun _ => hres.idle.agent hres.serving⟩
          have hshell : shells i = FtpSession.toLocal
              { s.session i with
                client := client.handleResponse pb.response
                serving := state = .active } := by
            rw [hres.shell_eq, FtpSession.toLocal, FtpSession.toLocal, hshows.shown_eq,
              hshows.connected_eq, hres.state_eq]
            cases response <;> rfl
          have htracks : Tracks pb .prompt
              { s.session i with
                client := client.handleResponse pb.response
                serving := state = .active } (shells i) := ⟨hidle, hshell⟩
          have hgo := h.goTo htracks rfl
          rwa [Function.update_eq_self] at hgo
      · cases hstep

/-- **Every step of the service** is a step of one of the shells, or none. -/
theorem shared_of_step (hpb : pb.Lawful) (h : Follows pb s shells) {a : Action ι}
    (hreliable : ReliableStep pb s a) (hstep : step pb fuel s a = some s') :
    ∃ shells', runFrom sharedStep shells (s.effects a) = some shells' ∧ Follows pb s' shells' := by
  cases a with
  | line i x => exact shared_of_line hpb h hreliable hstep
  | serve i => exact shared_of_serve hpb h hreliable hstep
  | respond i => exact ⟨shells, rfl, follows_of_respond hpb h hstep⟩

/-! ### The sessions one after the other -/

/-- All clients are at their prompts, on the same files. -/
structure Quiet (s : FtpService ι) : Prop where
  prompt : ∀ i, s.turn i = .prompt
  idle : ∀ i, (s.session i).Idle
  files : ∀ i j, (s.session i).agent.fileHandler.fs = (s.session j).agent.fileHandler.fs

omit [DecidableEq ι] in
theorem Quiet.follows (h : s.Quiet) (pb : FtpProtobuf) : Follows pb s s.toLocal where
  tracks i := by
    rw [h.prompt i]
    exact ⟨h.idle i, rfl⟩
  shared := h.files

omit [DecidableEq ι] in
/-- Shells whose clients are at their prompts show what the clients have been shown. -/
theorem Follows.quiet (h : Follows pb s shells) (hprompt : ∀ i, s.turn i = .prompt) :
    s.Quiet ∧ s.toLocal = shells := by
  have htracks : ∀ i, (s.session i).Idle ∧ shells i = (s.session i).toLocal := by
    intro i
    have hi := h.tracks i
    rw [hprompt i] at hi
    exact hi
  refine ⟨⟨hprompt, fun i => (htracks i).1, fun i j => ?_⟩, funext fun i => (htracks i).2.symm⟩
  have hshared := h.shared i j
  rw [(htracks i).2, (htracks j).2] at hshared
  exact hshared

/-- A line of a session that sends no request is one of the service. -/
theorem line_of_session {session : FtpSession} (hturn : s.turn i = .prompt)
    (hsends : sendsRequest x = false)
    (h : FtpSession.step pb fuel (s.session i) x = some session) :
    s.line pb fuel i x = some (s.goTo i session .prompt) := by
  rw [FtpSession.step] at h
  split at h
  · next hconnected =>
      rw [FtpService.line, if_pos ⟨hturn, hconnected⟩]
      cases hreq : x.parsed.createReq with
      | none =>
          rw [hreq] at h
          cases h
      | some request =>
          rw [hreq] at h
          dsimp only at h ⊢
          split at h
          · next hvalid =>
              rw [sendsRequest_of_onFiles hvalid hreq] at hsends
              rw [if_pos hvalid]
              cases request with
              | quit =>
                  cases h
                  rfl
              | get | put | terminate => cases h
              | notSet => exact absurd rfl (InputParser.createReq_of_valid hvalid hreq).1
              | fileContents m =>
                  exact absurd rfl ((InputParser.createReq_of_valid hvalid hreq).2 m)
              | delete | list | changeDir | makeDir | pwd => cases hsends
          · next hinvalid =>
              cases h
              exact if_neg hinvalid
  · cases h

/-- The request of an exchange is sent. -/
theorem line_of_sendReq {sent : Bool} {client : Client} (hturn : s.turn i = .prompt)
    (hconnected : (s.session i).client.connected = true)
    (hserving : (s.session i).serving = true) (hvalid : x.parsed.isValid = true)
    (hreq : x.parsed.createReq = some request) (hrequest : request.onFiles = true)
    (hlist : request ≠ .list)
    (hsend : FtpSession.sendReq fuel
      (FtpSession.requesting pb ((s.session i).prompt "").client x request) = some (sent, client))
    (hseg : Segments x.request)
    (hstream : x.request.flatten =
      client.socket.sent.drop ((s.session i).prompt "").client.socket.sent.length) :
    ∃ s', s.line pb fuel i x = some s' ∧ s'.turn = Function.update s.turn i (.requested x) ∧
      s'.session i = { (s.session i).prompt "" with client } := by
  have hcommand : s.command pb fuel i x request = s.request pb fuel i x request := by
    cases request with
    | delete | changeDir | makeDir | pwd => exact if_pos hserving
    | list => exact absurd rfl hlist
    | _ => cases hrequest
  refine ⟨s.goTo i { (s.session i).prompt "" with client } (.requested x), ?_, rfl,
    Function.update_self ..⟩
  rw [FtpService.line, if_pos ⟨hturn, hconnected⟩, hreq]
  dsimp only
  rw [if_pos hvalid, hcommand, FtpService.request, hsend]
  exact if_pos ⟨hseg, hstream⟩

/-- The agent serves it. -/
theorem serve_of_requested {session : FtpSession} {state : ClientState} {agent : Agent}
    (hturn : s.turn i = .requested x) (hsession : s.session i = session)
    (hserve : FtpSession.serve pb fuel (FtpSession.requested session.agent x) =
      some (state, agent)) :
    ∃ s', s.serve pb fuel i = some s' ∧
      s'.turn = Function.update s.turn i (.responded x state
        (agent.socket.sent.drop session.agent.socket.sent.length)) ∧
      (s'.session i).client = session.client := by
  rw [FtpService.serve, hturn]
  dsimp only
  rw [hsession, hserve]
  refine ⟨_, rfl, rfl, ?_⟩
  show (Function.update s.session i { session with agent } i).client = session.client
  rw [Function.update_self]

/-- The client shows the response. -/
theorem respond_of_responded {client client' : Client} {state : ClientState} {bytes : List UInt8}
    {waited : Bool} (hturn : s.turn i = .responded x state bytes)
    (hclient : (s.session i).client = client) (hun : Unhurried x.response)
    (harrived : arrived x.response = bytes)
    (hwait : (FtpSession.responded client x state).waitForMessage = some (waited, client')) :
    ∃ s', s.respond pb i = some s' ∧ s'.turn = Function.update s.turn i .prompt := by
  rw [FtpService.respond, hturn]
  dsimp only
  rw [if_pos ⟨hun, harrived⟩, hclient, hwait]
  exact ⟨_, rfl, rfl⟩

/-- **An exchange of a session is one of the service's**, in three steps. -/
theorem run_of_exchange {session : FtpSession} (hturn : s.turn i = .prompt)
    (hsends : sendsRequest x = true) (hlist : x.parsed.createReq ≠ some .list)
    (h : FtpSession.step pb fuel (s.session i) x = some session) :
    ∃ s₁ s₂ s₃, s.line pb fuel i x = some s₁ ∧ s₁.serve pb fuel i = some s₂ ∧
      s₂.respond pb i = some s₃ ∧ s₁.turn i = .requested x ∧
      (s₁.session i).agent = (s.session i).agent ∧ s₃.turn = Function.update s.turn i .prompt := by
  rw [FtpSession.step] at h
  split at h
  · next hconnected =>
      rw [sendsRequest, Bool.and_eq_true] at hsends
      obtain ⟨hvalid, hsome⟩ := hsends
      cases hreq : x.parsed.createReq with
      | none =>
          rw [hreq] at hsome
          cases hsome
      | some request =>
          rw [hreq] at h hsome hlist
          have hon : request.onFiles = true := hsome
          dsimp only at h
          rw [if_pos hvalid, FtpSession.command_of_onFiles hon] at h
          split at h
          · next hserving =>
              obtain ⟨sent, client, state, agent, waited, client', hsend, hseg, hstream, hserve,
                hun, harrived, hwait, rfl⟩ := FtpSession.exchange_cases h
              obtain ⟨s₁, hline, hturn₁, hsession₁⟩ := line_of_sendReq hturn hconnected hserving
                hvalid hreq hon (fun heq => hlist (congrArg some heq)) hsend hseg hstream
              have hrequested : s₁.turn i = .requested x := by
                rw [hturn₁, Function.update_self]
              obtain ⟨s₂, hserves, hturn₂, hclient₂⟩ :=
                serve_of_requested hrequested hsession₁ hserve
              have hresponded := (congrFun hturn₂ i).trans (Function.update_self ..)
              obtain ⟨s₃, hresponds, hturn₃⟩ : ∃ s₃, s₂.respond pb i = some s₃ ∧ _ :=
                respond_of_responded hresponded hclient₂ hun harrived hwait
              refine ⟨s₁, s₂, s₃, hline, hserves, hresponds, hrequested, ?_, ?_⟩
              · rw [hsession₁]
                rfl
              · rw [hturn₃, hturn₂, hturn₁, Function.update_idem, Function.update_idem]
          · cases h
  · cases h

/-- The messages of a line fit the wire format, and the line is not `ls`. -/
def Fits (pb : FtpProtobuf) (shells : ι → LocalShell) (a : ι × String) : Prop :=
  FtpSession.Fits pb (shells a.1) a.2 ∧
    (InputParser.create (fun _ => []) none a.2).createReq ≠ some .list

/-- **What a line does in the shells, it can do in the service.** -/
theorem run_of_shared (hpb : pb.Lawful) (hquiet : s.Quiet) {a : ι × String}
    (hfits : Fits pb s.toLocal a) (h : sharedStep s.toLocal a = some shells) :
    ∃ as s', EachStep (step pb 2) (ReliableStep pb) s as ∧ runFrom (step pb 2) s as = some s' ∧
      collect (step pb 2) effects s as = [a] ∧ ∀ i, s'.turn i = .prompt := by
  obtain ⟨i, line⟩ := a
  obtain ⟨sh, hlocal, -⟩ := Option.map_eq_some_iff.mp h
  obtain ⟨x, session, rfl, hreliable, hstep⟩ :=
    FtpSession.step_of_local hpb (hquiet.idle i) hfits.1 hlocal
  have hprompt : ∀ j, Function.update s.turn i .prompt j = .prompt := by
    intro j
    by_cases hj : j = i
    · rw [hj, Function.update_self]
    · rw [Function.update_of_ne hj]
      exact hquiet.prompt j
  cases hsends : sendsRequest x with
  | false =>
      have hline : step pb 2 s (.line i x) = some (s.goTo i session .prompt) :=
        line_of_session (hquiet.prompt i) hsends hstep
      refine ⟨[.line i x], s.goTo i session .prompt, .cons ?_ fun m _ => .nil m, ?_, ?_, hprompt⟩
      · intro request _ hsends'
        rw [hsends] at hsends'
        cases hsends'
      · rw [runFrom_singleton, hline]
      · rw [collect, effects, hsends, if_neg Bool.false_ne_true, hline, Option.elim_some, collect]
        rfl
  | true =>
      have hlist : x.parsed.createReq ≠ some .list := by
        rw [sendsRequest, Bool.and_eq_true] at hsends
        have hsame : InputParser.create (fun _ => []) none x.line = x.parsed :=
          InputParser.create_of_valid hsends.1 none
        exact hsame ▸ hfits.2
      obtain ⟨s₁, s₂, s₃, hline, hserve, hrespond, hturn₁, hagent₁, hturn₃⟩ :=
        run_of_exchange (hquiet.prompt i) hsends hlist hstep
      replace hline : step pb 2 s (.line i x) = some s₁ := hline
      replace hserve : step pb 2 s₁ (.serve i) = some s₂ := hserve
      replace hrespond : step pb 2 s₂ (.respond i) = some s₃ := hrespond
      have hsession : ∀ request, x.parsed.createReq = some request →
          FtpSession.Reliable pb (s.session i).agent.fileHandler x request := by
        intro request hreq
        rw [sendsRequest, hreq, Bool.and_eq_true] at hsends
        exact hreliable request hsends.1 hreq hsends.2
      refine ⟨[.line i x, .serve i, .respond i], s₃, ?_, ?_, ?_, ?_⟩
      · refine .cons ?_ fun m₁ hm₁ => .cons ?_ fun m₂ _ => .cons trivial fun m₃ _ => .nil m₃
        · intro request hreq _
          exact ⟨(hsession request hreq).accepting, (hsession request hreq).fits⟩
        · cases hm₁.symm.trans hline
          intro x' request hturn hreq response handler hperform
          cases hturn₁.symm.trans hturn
          rw [hagent₁] at hperform
          exact (hsession request hreq).responds response handler hperform
      · rw [runFrom_cons hline, runFrom_cons hserve, runFrom_singleton, hrespond]
      · rw [collect, hline, Option.elim_some, collect, hserve, Option.elim_some, collect, hrespond,
          Option.elim_some, collect, effects, effects, effects, hsends, hturn₁, if_pos rfl]
        rfl
      · rw [hturn₃]
        exact hprompt

/-! ### Every run -/

/-- The service and the shells go on together. -/
theorem shared_of_run (hpb : pb.Lawful) (hquiet : s.Quiet) {as : List (Action ι)}
    (hreliable : EachStep (step pb fuel) (ReliableStep pb) s as)
    (hrun : runFrom (step pb fuel) s as = some s') :
    ∃ shells, runFrom sharedStep s.toLocal (collect (step pb fuel) effects s as) = some shells ∧
      Follows pb s' shells :=
  runFrom_refines (Follows pb) (fun _ _ _ _ h hok hstep => shared_of_step hpb h hok hstep)
    (hquiet.follows pb) hreliable hrun

/-- **What the shells do, the service can do.** -/
theorem run_of_shells (hpb : pb.Lawful) (hquiet : s.Quiet) {lines : List (ι × String)}
    (hfits : EachStep sharedStep (Fits pb) s.toLocal lines)
    (hrun : runFrom sharedStep s.toLocal lines = some shells) :
    ∃ as s', EachStep (step pb 2) (ReliableStep pb) s as ∧ runFrom (step pb 2) s as = some s' ∧
      collect (step pb 2) effects s as = lines ∧ s'.Quiet ∧ s'.toLocal = shells := by
  induction lines generalizing s with
  | nil => exact ⟨[], s, .nil s, rfl, rfl, hquiet, Option.some.inj hrun⟩
  | cons a lines ih =>
      obtain ⟨m, hstep, hrest⟩ := runFrom_cons_eq_some hrun
      obtain ⟨as, s₁, hreliable, hservice, hlines, hprompt⟩ :=
        run_of_shared hpb hquiet hfits.first hstep
      obtain ⟨shells₁, hshells, hfollows⟩ := shared_of_run hpb hquiet hreliable hservice
      rw [hlines, runFrom_singleton] at hshells
      cases hstep.symm.trans hshells
      obtain ⟨hquiet₁, rfl⟩ := hfollows.quiet hprompt
      obtain ⟨bs, s', hreliables, hservices, hrests, hlast⟩ :=
        ih hquiet₁ (hfits.tail hstep) hrest
      refine ⟨as ++ bs, s', ?_, ?_, ?_, hlast⟩
      · refine hreliable.append fun m hm => ?_
        cases hm.symm.trans hservice
        exact hreliables
      · rw [runFrom_append, hservice, Option.bind_some, hservices]
      · rw [collect_append hservice, hlines, hrests]
        rfl

/-- **The clients of a server are shells that share their files.** In every run, the lines in the
order in which they take effect are a run of the shells, on the same files, and a client at its
prompt has been shown what its shell shows; and every run of the shells is one of the service. -/
theorem clients_share_files (hpb : pb.Lawful) (hquiet : s.Quiet) :
    (∀ as s', EachStep (step pb fuel) (ReliableStep pb) s as →
      runFrom (step pb fuel) s as = some s' →
      ∃ shells,
        runFrom sharedStep s.toLocal (collect (step pb fuel) effects s as) = some shells ∧
        ∀ i, (shells i).handler = (s'.session i).agent.fileHandler ∧
          (s'.turn i = .prompt → shells i = s'.toLocal i)) ∧
    ∀ lines shells, EachStep sharedStep (Fits pb) s.toLocal lines →
      runFrom sharedStep s.toLocal lines = some shells →
      ∃ as s', EachStep (step pb 2) (ReliableStep pb) s as ∧ runFrom (step pb 2) s as = some s' ∧
        collect (step pb 2) effects s as = lines ∧ s'.Quiet ∧ s'.toLocal = shells := by
  refine ⟨fun as s' hreliable hrun => ?_, fun lines shells hfits hrun =>
    run_of_shells hpb hquiet hfits hrun⟩
  obtain ⟨shells, hshells, hfollows⟩ := shared_of_run hpb hquiet hreliable hrun
  refine ⟨shells, hshells, fun i => ⟨(hfollows.tracks i).handler_eq, fun hprompt => ?_⟩⟩
  have htracks := hfollows.tracks i
  rw [hprompt] at htracks
  exact htracks.2

/-- Two clients in the root directory of a server. -/
def twoClients : FtpService Bool where
  session _ :=
    { agent :=
        { fileHandler := { currentDir := ['/'] } } }

/-- A client makes a directory. -/
def makesDir : Exchange where
  line := "mkdir d"
  clientSends := [.accepted 5, .accepted 100]
  request := [[0, 0, 0, 5, 50, 3, 10, 1], [100]]
  agentSends := [.accepted 100]
  response := [.timedOut, .data [0, 0], .data [0, 0]]

/-- Another client makes it, too, and is served later. -/
def makesDirLater : List (Action Bool) :=
  [.line true { makesDir with response := [] }, .line false makesDir, .serve false, .serve true,
    .respond true, .respond false]

/-- A response to `mkdir` is empty. -/
theorem canRespond_makesDir {handler handler' : FileHandler} {response : Option Response}
    (hperform : handler.perform (.makeDir "d") = some (response, handler')) :
    CanRespond ftpProto.response [.accepted 100] response := by
  obtain ⟨⟨created, _⟩, -, heq⟩ := Option.map_eq_some_iff.mp hperform
  intro r hr
  obtain rfl : Response.notSet = r := by
    cases created with
    | true => exact Option.some.inj ((Prod.mk.inj heq).1.trans hr)
    | false => cases (Prod.mk.inj heq).1.trans hr
  exact ⟨by decide, 100, [], rfl, by decide⟩

/-- The agent of the client that is served later leaves. -/
theorem clients_share_files_two :
    ∃ shells, runFrom sharedStep twoClients.toLocal [(false, "mkdir d"), (true, "mkdir d")] =
        some shells ∧ (shells true).serving = false := by
  have hquiet : twoClients.Quiet :=
    ⟨fun _ => rfl, fun _ => FtpSession.idle_start _, fun _ _ => rfl⟩
  have hsends : Accepting makesDir.clientSends :=
    (accepting_singleton (Nat.succ_pos 99)).cons (Nat.succ_pos 4)
  have hparsed : ∀ response : List RecvResult,
      ({ makesDir with response } : Exchange).parsed.createReq = some (.makeDir "d") := by
    intro response
    show makesDir.parsed.createReq = some (.makeDir "d")
    rfl
  have hlines : ∀ (m : FtpService Bool) (i : Bool) (response : List RecvResult),
      ReliableStep ftpProto m (.line i { makesDir with response }) := by
    intro m i response request hreq _
    cases (hparsed response).symm.trans hreq
    exact ⟨hsends, by decide⟩
  have hserves : ∀ (m : FtpService Bool) (pre : List (Action Bool)) (i : Bool)
      (response : List RecvResult), runFrom (step ftpProto 3) twoClients pre = some m →
      (runFrom (step ftpProto 3) twoClients pre).map (fun m => m.turn i) =
        some (.requested { makesDir with response }) → ReliableStep ftpProto m (.serve i) := by
    intro m pre i response hm hturn x request hturn' hreq response' handler hperform
    rw [hm] at hturn
    cases (Option.some.inj hturn).symm.trans hturn'
    cases (hparsed response).symm.trans hreq
    exact canRespond_makesDir hperform
  have hreliable : EachStep (step ftpProto 3) (ReliableStep ftpProto) twoClients
      makesDirLater := by
    refine .cons (hlines _ true []) fun m₁ hm₁ =>
      .cons (hlines _ false makesDir.response) fun m₂ hm₂ => ?_
    have hrun₂ := (runFrom_cons hm₁ _).trans ((runFrom_singleton _ _).trans hm₂)
    refine .cons (hserves m₂ _ false makesDir.response hrun₂ (by decide +kernel)) fun m₃ hm₃ => ?_
    have hrun₃ := (runFrom_cons hm₁ _).trans ((runFrom_cons hm₂ _).trans
      ((runFrom_singleton _ _).trans hm₃))
    refine .cons (hserves m₃ _ true [] hrun₃ (by decide +kernel)) fun m₄ _ => ?_
    exact .cons trivial fun m₅ _ => .cons trivial fun m₆ _ => .nil m₆
  have hmap : (runFrom (step ftpProto 3) twoClients makesDirLater).map
      (fun s => ((s.toLocal true).serving, s.turn true)) = some (false, .prompt) := by
    decide +kernel
  have heffects : collect (step ftpProto 3) effects twoClients makesDirLater =
      [(false, "mkdir d"), (true, "mkdir d")] := by
    decide +kernel
  obtain ⟨s', hrun, hlast⟩ := Option.map_eq_some_iff.mp hmap
  obtain ⟨hserving, hprompt⟩ := Prod.mk.inj hlast
  obtain ⟨shells, hshells, hsame⟩ :=
    (clients_share_files ftpProto_lawful hquiet).1 makesDirLater s' hreliable hrun
  rw [heffects] at hshells
  refine ⟨shells, hshells, ?_⟩
  rw [(hsame true).2 hprompt]
  exact hserving

end FtpService

end Csci6780
