import Csci6780.AgentConnection

/-!
# Requests After an Upload

A client that uploads a file may send further requests right behind it. The receiver of
`ReadFileContents` reads the end of the file with whatever else the same `recv` call
returns, and is thrown away with it; what it has read beyond the file does not reach the
agent's own parser. So the requests survive the upload exactly when the recv results are cut
at the end of the file.

Requests can also end `Handle`'s loop by what they are: QUIT does, and so does one that
fails; and a PUT reads on. `keepsReading` says of a list of requests that none but the last
of them does.

## Main results

* `handle_of_keepsReading`, `keepsReading_of_handle`: which requests `Handle` dispatches all
  of when their frames arrive undamaged.
* `requests_after_upload_iff`: when no request is lost to an upload.
-/

namespace Csci6780

namespace Agent

variable {pb : FtpProtobuf} {fuel : ℕ}

/-- Every request but the last one leaves the client active, and none of these is a PUT,
which would read from the connection. -/
def keepsReading (pb : FtpProtobuf) (fuel : ℕ) : Agent → List Request → Bool
  | _, [] => true
  | _, [_] => true
  | _, .put _ :: _ => false
  | agent, request :: next :: requests =>
      match agent.dispatchMessage pb fuel request with
      | some (.active, agent) => agent.keepsReading pb fuel (next :: requests)
      | _ => false

theorem keepsReading_cons_cons {agent : Agent} {request next : Request}
    {requests : List Request} :
    agent.keepsReading pb fuel (request :: next :: requests) = true ↔
      (∀ filename, request ≠ .put filename) ∧ ∃ agent',
        agent.dispatchMessage pb fuel request = some (.active, agent') ∧
        agent'.keepsReading pb fuel (next :: requests) = true := by
  by_cases hput : ∃ filename, request = .put filename
  · obtain ⟨filename, rfl⟩ := hput
    constructor
    · intro h
      cases h
    · rintro ⟨hnot, -⟩
      exact absurd rfl (hnot filename)
  · have hnot : ∀ filename, request ≠ .put filename := not_exists.mp hput
    have hstep : agent.keepsReading pb fuel (request :: next :: requests) =
        match agent.dispatchMessage pb fuel request with
        | some (.active, agent) => agent.keepsReading pb fuel (next :: requests)
        | _ => false := by
      cases request with
      | put filename => exact absurd rfl (hnot filename)
      | _ => rfl
    rw [hstep]
    constructor
    · intro h
      split at h
      · next agent' hdispatch => exact ⟨hnot, agent', hdispatch, h⟩
      · cases h
    · rintro ⟨-, agent', hdispatch, hkeeps⟩
      rw [hdispatch]
      exact hkeeps

/-- Whether requests keep an agent reading does not depend on what there is to read. -/
theorem keepsReading_withInput (agent : Agent) (parser : MessageParser)
    (incoming : List RecvResult) (requests : List Request) :
    (agent.withInput parser incoming).keepsReading pb fuel requests =
      agent.keepsReading pb fuel requests := by
  induction requests generalizing agent with
  | nil => rfl
  | cons request requests ih =>
      cases requests with
      | nil => cases request <;> rfl
      | cons next requests =>
          rw [Bool.eq_iff_iff, keepsReading_cons_cons, keepsReading_cons_cons]
          refine and_congr_right fun hnot => ?_
          rw [dispatchMessage_withInput _ _ _ hnot]
          simp only [Option.map_eq_some_iff, Prod.exists, Prod.map, id, Prod.mk.injEq]
          constructor
          · rintro ⟨_, ⟨_, agent', hdispatch, rfl, rfl⟩, hkeeps⟩
            exact ⟨agent', hdispatch, ih agent' ▸ hkeeps⟩
          · rintro ⟨agent', hdispatch, hkeeps⟩
            exact ⟨_, ⟨_, agent', hdispatch, rfl, rfl⟩, (ih agent').trans hkeeps⟩

section Requests

variable {agent : Agent} {segments : List (List UInt8)} {requests : List Request}

/-- The frames of requests are as long as `wireSize` says. -/
theorem length_frames_requests (hpb : pb.request.Lawful) (hsmall : Small pb.request requests) :
    (frames (requests.map pb.request.encoding)).length = wireSize pb requests := by
  induction requests with
  | nil => rfl
  | cons request requests ih =>
      rw [List.map_cons, frames_cons, List.length_append, length_frame,
        hpb.length_encoding hsmall.head, wireSize_cons, ih hsmall.tail]

/-- `ReadNextMessage` returns the request whose frame comes next. -/
theorem readNextMessage_of_frames (hpb : pb.request.Lawful) {request : Request}
    (hsize : pb.request.byteSizeLong request < 2 ^ 31) (h : agent.Fed segments)
    {rest : List UInt8}
    (hunread : agent.unread segments = frame (pb.request.encoding request) ++ rest) :
    ∃ next left, (agent.withInput next (arriving left)).Fed left ∧
      (agent.withInput next (arriving left)).unread left = rest ∧
      agent.readNextMessage pb =
        some (.active, some request, agent.withInput next (arriving left)) := by
  have hbody : (pb.request.encoding request).length < 2 ^ 32 := by
    rw [hpb.length_encoding hsize]
    omega
  have hf : HasFrame (agent.unread segments) := by
    rw [hunread]
    exact hasFrame_frame_append hbody rest
  obtain ⟨next, left, hfed, hrest, hread⟩ := readNextMessage_of_hasFrame pb h hf
  rw [hunread, afterFrame_frame_append hbody] at hrest
  rw [hunread, frameBody_frame_append hbody, hpb.parseBody_encoding hsize] at hread
  exact ⟨next, left, hfed, hrest, hread⟩

/-- Requests that keep the agent reading are all dispatched. -/
theorem handle_of_keepsReading (hpb : pb.request.Lawful) (hcompact : pb.request.Compact)
    (hsmall : Small pb.request requests) (h : agent.Fed segments)
    (hunread : agent.unread segments = frames (requests.map pb.request.encoding))
    (hkeeps : agent.keepsReading pb fuel requests = true) {rounds : ℕ}
    (hrounds : requests.length ≤ rounds) :
    (agent.handle pb fuel rounds).1 = requests := by
  induction requests generalizing agent segments rounds with
  | nil =>
      have hbytes := handle_bytes hcompact fuel h rounds
      rw [hunread] at hbytes
      exact eq_nil_of_wireSize_eq_zero (Nat.le_zero.mp hbytes)
  | cons request requests ih =>
      obtain ⟨rounds, rfl⟩ : ∃ k, rounds = k + 1 := ⟨rounds - 1, by simp at hrounds; omega⟩
      rw [List.map_cons, frames_cons] at hunread
      obtain ⟨next, left, hfed, hrest, hread⟩ :=
        readNextMessage_of_frames hpb hsmall.head h hunread
      rw [handle, hread]
      cases requests with
      | nil =>
          simp only []
          split
          · rfl
          · next agent' hdispatch =>
              -- no bytes are left for another request
              obtain ⟨left', hfed', hle, -⟩ := dispatchMessage_fed hfed hdispatch
              have hbytes := handle_bytes hcompact fuel hfed' rounds
              rw [hrest, List.map_nil, frames_nil] at hle
              rw [eq_nil_of_wireSize_eq_zero (Nat.le_zero.mp (Nat.le_trans hbytes hle))]
          · rfl
      | cons second requests =>
          obtain ⟨hnot, agent', hdispatch, hkeeps'⟩ := keepsReading_cons_cons.mp hkeeps
          have hfed' : (agent'.withInput next (arriving left)).Fed left :=
            ⟨hfed.ready, hfed.segmented, rfl⟩
          have hrec := ih hsmall.tail hfed' hrest
            ((keepsReading_withInput agent' next (arriving left) _).trans hkeeps')
            (by simpa using hrounds)
          simp only [dispatchMessage_withInput _ _ _ hnot, hdispatch, Option.map_some, Prod.map,
            id, hrec]

/-- Requests that are all dispatched keep the agent reading. -/
theorem keepsReading_of_handle (hpb : pb.request.Lawful) (hcompact : pb.request.Compact)
    (hsmall : Small pb.request requests) (h : agent.Fed segments)
    (hunread : agent.unread segments = frames (requests.map pb.request.encoding))
    {rounds : ℕ} (hhandle : (agent.handle pb fuel rounds).1 = requests) :
    agent.keepsReading pb fuel requests = true := by
  induction requests generalizing agent segments rounds with
  | nil => rfl
  | cons request requests ih =>
      cases requests with
      | nil => cases request <;> rfl
      | cons second requests =>
          cases rounds with
          | zero => cases hhandle
          | succ rounds =>
              rw [List.map_cons, frames_cons] at hunread
              obtain ⟨next, left, hfed, hrest, hread⟩ :=
                readNextMessage_of_frames hpb hsmall.head h hunread
              rw [handle, hread] at hhandle
              simp only [] at hhandle
              split at hhandle
              · simp at hhandle
              · next agent' hdispatch =>
                  have htail := (List.cons.inj hhandle).2
                  obtain ⟨left', hfed', hle, hput⟩ := dispatchMessage_fed hfed hdispatch
                  -- a PUT would have left too few bytes for the other requests
                  have hnot : ∀ filename, request ≠ .put filename := by
                    intro filename hreq
                    have hlt := hput filename hreq
                    have hbytes := handle_bytes hcompact fuel hfed' rounds
                    rw [htail] at hbytes
                    rw [hrest, length_frames_requests hpb hsmall.tail] at hlt
                    omega
                  rw [dispatchMessage_withInput _ _ _ hnot, Option.map_eq_some_iff] at hdispatch
                  obtain ⟨⟨state, agent''⟩, hdispatch, heq⟩ := hdispatch
                  cases heq
                  have hfed'' : (agent''.withInput next (arriving left)).Fed left :=
                    ⟨hfed.ready, hfed.segmented, rfl⟩
                  have hkeeps := ih hsmall.tail hfed'' hrest htail
                  rw [keepsReading_withInput] at hkeeps
                  exact keepsReading_cons_cons.mpr ⟨hnot, agent'', hdispatch, hkeeps⟩
              · simp at hhandle

end Requests

/-- **No request is lost to an upload** exactly if the recv results are cut at the end of
the file, and none of the requests but the last one ends the loop or is a PUT. The agent
that goes on, `resumed`, has the connection as `ReadFileContents` left it. -/
theorem requests_after_upload_iff (hpb : pb.Lawful) (hcompact : pb.request.Compact)
    {file : List UInt8} (hne : file ≠ []) {requests : List Request}
    (hsmall : Small pb.request requests) {agent finished resumed : Agent}
    {segments : List (List UInt8)} (hfed : agent.Fed segments)
    (hpending : agent.parser.pending = [])
    (hstream : segments.flatten = serializeAll pb.fileContents (fileChunks file) ++
      serializeAll pb.request requests)
    {commandId : UInt16} {contents : List UInt8}
    (hread : agent.readFileContents pb fuel commandId = some (.complete, contents, finished))
    (hparser : resumed.parser = finished.parser)
    (hincoming : resumed.socket.incoming = finished.socket.incoming) :
    (∃ enough, ∀ rounds ≥ enough, (resumed.handle pb fuel rounds).1 = requests) ↔
      CutAt segments (serializeAll pb.fileContents (fileChunks file)) ∧
        resumed.keepsReading pb fuel requests = true := by
  have hfile := serializeAll_eq_frames hpb.fileContents (hpb.sized.small_fileChunks file)
  have hrequests := serializeAll_eq_frames hpb.request hsmall
  rw [hfile, hrequests] at hstream
  have hin : agent.socket.incoming = arriving segments ++ [] := by
    rw [hfed.incoming_eq, List.append_nil]
  rw [← List.drop_zero (l := fileChunks file)] at hstream hfile
  obtain ⟨-, taken, left, lost, ids, others, rfl, hlost, hmin, rfl⟩ :=
    readFile_complete hpb (Nat.zero_le _) (ChunkedFileReceiver.at_zero hne) hfed.segmented hin
      hstream hread
  -- what the receiver took is the file and what is lost with it
  rw [List.flatten_append, ← hlost, ← List.append_assoc] at hstream
  have htaken := List.append_cancel_right hstream
  rw [List.drop_zero] at hfile htaken hmin
  rw [hfile, cutAt_iff_lost_eq_nil htaken hmin]
  have hresumed : resumed.Fed left := by
    refine ⟨hparser ▸ hfed.ready, hfed.segmented.right, ?_⟩
    rw [hincoming, List.append_nil]
  have hunread : resumed.unread left = left.flatten := by
    rw [unread, hparser, hpending, List.nil_append]
  constructor
  · rintro ⟨enough, hall⟩
    have hhandle := hall enough (Nat.le_refl _)
    have hbytes := handle_bytes hcompact fuel hresumed enough
    rw [hhandle, hunread, ← length_frames_requests hpb.request hsmall, ← hlost,
      List.length_append] at hbytes
    obtain rfl : lost = [] := List.length_eq_zero_iff.mp (by omega)
    refine ⟨rfl, keepsReading_of_handle hpb.request hcompact hsmall hresumed ?_ hhandle⟩
    rw [hunread, ← hlost, List.nil_append]
  · rintro ⟨rfl, hkeeps⟩
    refine ⟨requests.length, fun rounds hrounds =>
      handle_of_keepsReading hpb.request hcompact hsmall hresumed ?_ hkeeps hrounds⟩
    rw [hunread, ← hlost, List.nil_append]

/-- An agent with an active command, to which the given segments arrive. -/
def agentReceiving (segments : List (List UInt8)) : Agent where
  socket := { incoming := arriving segments, sends := [.accepted 100] }
  activeCommands := { commandIds := [1] }

/-- A file of one byte, and in a segment of their own the requests PWD and QUIT. -/
theorem requests_after_upload_cut :
    (agentReceiving [[0, 0, 0, 5, 10, 1, 7, 16, 1],
        [0, 0, 0, 2, 58, 0, 0, 0, 0, 2, 66, 0]]).readFileContents ftpProto 2 1 =
          some (.complete, [7], agentReceiving [[0, 0, 0, 2, 58, 0, 0, 0, 0, 2, 66, 0]]) ∧
      ∃ enough, ∀ rounds ≥ enough,
        ((agentReceiving [[0, 0, 0, 2, 58, 0, 0, 0, 0, 2, 66, 0]]).handle ftpProto 2 rounds).1 =
          [.pwd, .quit] := by
  have hread : (agentReceiving [[0, 0, 0, 5, 10, 1, 7, 16, 1],
      [0, 0, 0, 2, 58, 0, 0, 0, 0, 2, 66, 0]]).readFileContents ftpProto 2 1 =
        some (.complete, [7], agentReceiving [[0, 0, 0, 2, 58, 0, 0, 0, 0, 2, 66, 0]]) := rfl
  have hsmall : Small ftpProto.request [.pwd, .quit] := by
    intro request hmem
    simp only [List.mem_cons, List.not_mem_nil, or_false] at hmem
    rcases hmem with rfl | rfl
    · decide
    · decide
  have hsegments : Segments [[0, 0, 0, 5, 10, 1, 7, 16, 1],
      [0, 0, 0, 2, 58, 0, 0, 0, 0, 2, 66, 0]] := by decide
  exact ⟨hread, (requests_after_upload_iff ftpProto_lawful requestProto_compact
    (List.cons_ne_nil 7 []) hsmall ⟨MessageParser.ready_fresh, hsegments, rfl⟩ rfl rfl hread
    rfl rfl).mpr
    ⟨⟨[[0, 0, 0, 5, 10, 1, 7, 16, 1]], [[0, 0, 0, 2, 58, 0, 0, 0, 0, 2, 66, 0]], rfl, rfl⟩, rfl⟩⟩

/-- The same file with the request PWD in the same segment: the request is never seen. -/
theorem requests_after_upload_lost :
    ∃ segments finished, (agentReceiving segments).Fed segments ∧
      segments.flatten = serializeAll fileContentsProto (fileChunks [7]) ++
        serializeAll requestProto [.pwd] ∧
      (agentReceiving segments).readFileContents ftpProto 2 1 =
        some (.complete, [7], finished) ∧
      ∀ rounds, (finished.handle ftpProto 2 rounds).1 = [] := by
  refine ⟨[[0, 0, 0, 5, 10, 1, 7, 16, 1, 0, 0, 0, 2, 58, 0]], _,
    ⟨MessageParser.ready_fresh, by decide, rfl⟩, by decide, rfl, ?_⟩
  intro rounds
  cases rounds with
  | zero => rfl
  | succ rounds => rfl

end Agent

end Csci6780
