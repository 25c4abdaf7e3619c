import Csci6780.AgentConnection

/-!
# Pipelined Requests

A client need not wait for a response before it sends the next request, so that one `recv`
may return several requests, or the end of one and the start of another. `Agent::Handle` takes
them one at a time off its parser, which keeps what follows a message.

`Arrives` says which bytes are at hand or arrive, however they are cut, and what comes behind
them. The requests are told by the bodies of their frames, so that a frame need not be one that
this protobuf would write, and a frame that does not parse is one of the bodies.

## Main results

* `handle_of_serves`: requests whose handlers succeed are dispatched in order, up to a QUIT.
* `pipelined_requests`: how `Handle` ends when the connection is closed, and when a frame does
  not parse.
-/

namespace Csci6780

namespace Agent

variable {pb : FtpProtobuf} {fuel : ℕ}

/-- The requests up to and including the first QUIT. -/
def upToQuit : List Request → List Request
  | [] => []
  | request :: requests =>
      if request = .quit then [request] else request :: upToQuit requests

theorem upToQuit_of_not_mem {requests : List Request} (h : .quit ∉ requests) :
    upToQuit requests = requests := by
  induction requests with
  | nil => rfl
  | cons request requests ih =>
      rw [List.mem_cons, not_or] at h
      rw [upToQuit, if_neg (Ne.symm h.1), ih h.2]

/-- The handlers of the requests up to the first QUIT succeed, one after another. -/
def serves (pb : FtpProtobuf) (fuel : ℕ) : Agent → List Request → Bool
  | _, [] => true
  | agent, request :: requests =>
      if request = .quit then true
      else
        match agent.dispatchMessage pb fuel request with
        | some (.active, agent) => agent.serves pb fuel requests
        | _ => false

/-- A request other than QUIT that is served leaves the client active. -/
theorem serves_cons {agent : Agent} {request : Request} {requests : List Request}
    (hquit : request ≠ .quit) (h : agent.serves pb fuel (request :: requests) = true) :
    ∃ agent', agent.dispatchMessage pb fuel request = some (.active, agent') ∧
      agent'.serves pb fuel requests = true := by
  rw [serves, if_neg hquit] at h
  split at h
  · next agent' hdispatch => exact ⟨agent', hdispatch, h⟩
  · cases h

/-- Whether requests are served does not depend on what there is to read. -/
theorem serves_withInput (agent : Agent) (parser : MessageParser) (incoming : List RecvResult)
    {requests : List Request} (hput : ∀ filename, .put filename ∉ requests) :
    (agent.withInput parser incoming).serves pb fuel requests =
      agent.serves pb fuel requests := by
  induction requests generalizing agent with
  | nil => rfl
  | cons request requests ih =>
      have hnot : ∀ filename, request ≠ .put filename :=
        fun filename heq => hput filename (heq ▸ List.mem_cons_self)
      have htail : ∀ filename, .put filename ∉ requests :=
        fun filename hmem => hput filename (List.mem_cons_of_mem _ hmem)
      rw [serves, serves, dispatchMessage_withInput _ _ _ hnot]
      cases agent.dispatchMessage pb fuel request with
      | none => rfl
      | some out =>
          obtain ⟨state, agent'⟩ := out
          cases state with
          | active =>
              simp only [Option.map_some, Prod.map, id]
              rw [ih agent' htail]
          | disconnected | error => rfl

/-! ### Reading -/

/-- The bytes `stream` are at hand or arrive, and then `tail` is to come. -/
structure Arrives (agent : Agent) (stream : List UInt8) (tail : List RecvResult) : Prop where
  ready : agent.parser.Ready
  arriving : ∃ segments, Segments segments ∧
    agent.socket.incoming = arriving segments ++ tail ∧ agent.unread segments = stream

section Reading

variable {agent : Agent} {stream : List UInt8} {tail : List RecvResult}

variable (pb) in
/-- `ReadNextMessage` takes the frame that comes next. -/
theorem Arrives.readNextMessage_of_frame {body : List UInt8} (hbody : body.length < 2 ^ 32)
    (h : agent.Arrives (frame body ++ stream) tail) :
    ∃ next incoming, (agent.withInput next incoming).Arrives stream tail ∧
      agent.readNextMessage pb =
        match pb.request.parseBody body with
        | none => some (.error, none, agent.withInput next incoming)
        | some request => some (.active, some request, agent.withInput next incoming) := by
  obtain ⟨segments, hseg, hin, hunread⟩ := h.arriving
  have hf : HasFrame (agent.unread segments) := by
    rw [hunread]
    exact hasFrame_frame_append hbody stream
  obtain ⟨next, left, hnext, hleft, hrest, hread⟩ :=
    readNextMessage_of_frame_unread pb h.ready hseg hin hf
  rw [hunread, afterFrame_frame_append hbody] at hrest
  rw [hunread, frameBody_frame_append hbody] at hread
  exact ⟨next, _, ⟨hnext, left, hleft, rfl, hrest⟩, hread⟩

variable (pb) in
/-- `ReadNextMessage` notices a close once no complete frame is left. -/
theorem Arrives.readNextMessage_of_closed {rest : List RecvResult} (hno : ¬ HasFrame stream)
    (h : agent.Arrives stream (.closed :: rest)) :
    ∃ agent', agent.readNextMessage pb = some (.disconnected, none, agent') := by
  obtain ⟨segments, hseg, hin, hunread⟩ := h.arriving
  rw [← hunread] at hno
  obtain ⟨p, -, -, hrun⟩ := agent.socket.recvLoop_of_not_hasFrame h.ready hseg hin
    (fun _ _ heq => RecvResult.noConfusion (List.cons.inj heq).1) hno
  refine ⟨{ agent with parser := p, socket := { agent.socket with incoming := rest } }, ?_⟩
  rw [readNextMessage, hrun]
  rfl

/-! ### Handling -/

/-- **The run lemma of `Handle`.** Requests whose handlers succeed are dispatched in order, up
to the first QUIT; without one, `Handle` ends as it does on what comes behind them. -/
theorem handle_of_serves {last : List UInt8} {result : Bool}
    (hlast : ∀ agent : Agent, agent.Arrives last tail → ∀ rounds,
      agent.handle pb fuel (rounds + 1) = ([], some result))
    {bodies : List (List UInt8)} (hbodies : Framable bodies) {requests : List Request}
    (hparse : bodies.map pb.request.parseBody = requests.map some)
    (hput : ∀ filename, .put filename ∉ requests)
    (h : agent.Arrives (frames bodies ++ last) tail)
    (hserves : agent.serves pb fuel requests = true) {rounds : ℕ}
    (hrounds : requests.length < rounds) :
    agent.handle pb fuel rounds =
      (upToQuit requests, some (decide (.quit ∈ requests) || result)) := by
  induction requests generalizing agent bodies rounds with
  | nil =>
      obtain ⟨rounds, rfl⟩ := Nat.exists_eq_add_of_lt hrounds
      obtain rfl : bodies = [] := List.map_eq_nil_iff.mp hparse
      rw [List.length_nil, Nat.zero_add, hlast agent h]
      rfl
  | cons request requests ih =>
      obtain ⟨rounds, rfl⟩ : ∃ k, rounds = k + 1 := ⟨rounds - 1, by omega⟩
      obtain ⟨body, bodies, rfl, hhead, htail⟩ := List.map_eq_cons_iff.mp hparse
      rw [frames_cons, List.append_assoc] at h
      obtain ⟨next, incoming, hnext, hread⟩ := h.readNextMessage_of_frame pb hbodies.head
      rw [hhead] at hread
      have hnot : ∀ filename, request ≠ .put filename :=
        fun filename heq => hput filename (heq ▸ List.mem_cons_self)
      have hputs : ∀ filename, .put filename ∉ requests :=
        fun filename hmem => hput filename (List.mem_cons_of_mem _ hmem)
      rw [handle, hread]
      simp only [dispatchMessage_withInput _ _ _ hnot]
      by_cases hquit : request = .quit
      · subst hquit
        rw [upToQuit, if_pos rfl, decide_eq_true List.mem_cons_self]
        rfl
      · obtain ⟨agent', hdispatch, hrest⟩ := serves_cons hquit hserves
        rw [← serves_withInput agent' next incoming hputs] at hrest
        rw [List.length_cons] at hrounds
        have harrives : (agent'.withInput next incoming).Arrives (frames bodies ++ last) tail :=
          ⟨hnext.ready, hnext.arriving⟩
        have hrec := ih hbodies.tail htail hputs harrives hrest (Nat.lt_of_succ_lt_succ hrounds)
        simp only [hdispatch, Option.map_some, Prod.map, id, hrec, upToQuit, if_neg hquit,
          List.mem_cons, Ne.symm hquit, false_or]

/-- **Pipelined requests are served exactly once each.** When the frames of requests, none a
PUT, arrive in segments of any size, and their handlers succeed, `Handle` dispatches them in
order: up to the first QUIT or all of them, and returns `true`, if a proper part of a frame
and a close come behind them; and all of them, and returns `false`, if there is no QUIT and
a frame that is no request comes behind them. -/
theorem pipelined_requests {bodies : List (List UInt8)} (hbodies : Framable bodies)
    {requests : List Request} (hparse : bodies.map pb.request.parseBody = requests.map some)
    (hput : ∀ filename, .put filename ∉ requests) (hfresh : agent.parser = {})
    (hserves : agent.serves pb fuel requests = true) {segments : List (List UInt8)}
    (hseg : Segments segments) (hin : agent.socket.incoming = arriving segments ++ tail) :
    (∀ body cut rest, body.length < 2 ^ 32 → cut <+: frame body → cut ≠ frame body →
      segments.flatten = frames bodies ++ cut → tail = .closed :: rest →
      ∀ rounds > requests.length,
        agent.handle pb fuel rounds = (upToQuit requests, some true)) ∧
    (∀ bad later, bad.length < 2 ^ 32 → pb.request.parseBody bad = none →
      segments.flatten = frames bodies ++ (frame bad ++ later) → .quit ∉ requests →
      ∀ rounds > requests.length,
        agent.handle pb fuel rounds = (requests, some false)) := by
  have harrives : agent.Arrives segments.flatten tail := by
    refine ⟨hfresh ▸ MessageParser.ready_fresh, segments, hseg, hin, ?_⟩
    rw [unread, hfresh, MessageParser.pending_fresh, List.nil_append]
  constructor
  · rintro body cut rest hbody hcut hproper hstream rfl rounds hrounds
    have hno := not_hasFrame_of_prefix_frame hbody hcut hproper
    have hlast : ∀ agent : Agent, agent.Arrives cut (.closed :: rest) → ∀ rounds,
        agent.handle pb fuel (rounds + 1) = ([], some true) := by
      intro agent h rounds
      obtain ⟨agent', hread⟩ := h.readNextMessage_of_closed pb hno
      rw [handle, hread]
      rfl
    rw [hstream] at harrives
    rw [handle_of_serves hlast hbodies hparse hput harrives hserves hrounds, Bool.or_true]
  · rintro bad later hbad hnone hstream hquit rounds hrounds
    have hlast : ∀ agent : Agent, agent.Arrives (frame bad ++ later) tail → ∀ rounds,
        agent.handle pb fuel (rounds + 1) = ([], some false) := by
      intro agent h rounds
      obtain ⟨next, incoming, -, hread⟩ := h.readNextMessage_of_frame pb hbad
      rw [hnone] at hread
      rw [handle, hread]
      rfl
    rw [hstream] at harrives
    rw [handle_of_serves hlast hbodies hparse hput harrives hserves hrounds,
      upToQuit_of_not_mem hquit, decide_eq_false hquit, Bool.false_or]

end Reading

/-- An agent of a new client, to which the given results arrive. -/
def agentAwaiting (incoming : List RecvResult) : Agent where
  socket := { incoming := incoming, sends := [.accepted 100] }

/-- The requests PWD, QUIT and LIST with a part of a frame, cut inside PWD; and PWD with a frame
that is no request. -/
theorem pipelined_requests_pwd :
    (∀ rounds > 3, (agentAwaiting [.data [0, 0, 0, 2, 58],
        .data [0, 0, 0, 0, 2, 66, 0, 0, 0, 0, 2, 34, 0, 0], .closed]).handle ftpProto 0 rounds =
      ([.pwd, .quit], some true)) ∧
    (∀ rounds > 1, (agentAwaiting [.data [0, 0, 0, 2, 58, 0, 0, 0, 0, 1, 0]]).handle ftpProto 0
        rounds = ([.pwd], some false)) := by
  constructor
  · have hbodies : Framable [[58, 0], [66, 0], [34, 0]] := by decide
    have hseg : Segments [[0, 0, 0, 2, 58], [0, 0, 0, 0, 2, 66, 0, 0, 0, 0, 2, 34, 0, 0]] := by
      decide
    have hparse : [[58, 0], [66, 0], [34, 0]].map ftpProto.request.parseBody =
        [Request.pwd, .quit, .list].map some := rfl
    have hput : ∀ filename, .put filename ∉ [Request.pwd, .quit, .list] := by simp
    have hserves : (agentAwaiting [.data [0, 0, 0, 2, 58],
        .data [0, 0, 0, 0, 2, 66, 0, 0, 0, 0, 2, 34, 0, 0], .closed]).serves ftpProto 0
          [.pwd, .quit, .list] = true := rfl
    have hcut : ([0] : List UInt8) <+: frame [] := ⟨[0, 0, 0], rfl⟩
    exact (pipelined_requests hbodies hparse hput rfl hserves hseg rfl).1 [] [0] [] (by decide)
      hcut (by decide) rfl rfl
  · have hbodies : Framable [[58, 0]] := by decide
    have hseg : Segments [[0, 0, 0, 2, 58, 0, 0, 0, 0, 1, 0]] := by decide
    have hparse : [[58, 0]].map ftpProto.request.parseBody = [Request.pwd].map some := rfl
    have hput : ∀ filename, .put filename ∉ [Request.pwd] := by simp
    have hserves : (agentAwaiting [.data [0, 0, 0, 2, 58, 0, 0, 0, 0, 1, 0]]).serves ftpProto 0
        [.pwd] = true := rfl
    exact (pipelined_requests hbodies hparse hput rfl hserves hseg rfl).2 [0] [] (by decide) rfl
      rfl (by decide)

end Agent

end Csci6780
