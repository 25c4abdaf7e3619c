import Csci6780.Agent
import Csci6780.MessageSizes

/-!
# What an Agent Takes off its Connection

Two readers share an agent's socket: `ReadNextMessage`, with the agent's own parser, and
`ReadFileContents`, with a receiver of its own that is thrown away at the end of the file.
This module keeps the account of the bytes between them.

Every handler but that of PUT only sends. What it does is independent of the input side of
the connection, `withInput`, so a request that is dispatched there can be judged without
knowing how the stream was cut.

## Main results

* `dispatchMessage_withInput`: only PUT reads from the connection.
* `handle_bytes`: `Handle` dispatches no more requests than bytes arrive for.
-/

namespace Csci6780

/-! ### The input side -/

/-- The socket with other results to come. -/
def Socket.withIncoming (socket : Socket) (incoming : List RecvResult) : Socket :=
  { socket with incoming := incoming }

namespace Agent

variable {pb : FtpProtobuf} {fuel : ℕ}

/-- The agent with another input side: its parser, and the recv results to come. -/
def withInput (agent : Agent) (parser : MessageParser) (incoming : List RecvResult) : Agent :=
  { agent with parser := parser, socket := agent.socket.withIncoming incoming }

theorem withInput_self (agent : Agent) :
    agent.withInput agent.parser agent.socket.incoming = agent := rfl

/-! ### Handlers that only send -/

section Sending

variable (agent : Agent) (parser : MessageParser) (incoming : List RecvResult)

theorem send_withIncoming (socket : Socket) (buffer : List UInt8) :
    (socket.withIncoming incoming).send buffer =
      (socket.send buffer).map (Prod.map id (·.withIncoming incoming)) := by
  rw [Socket.send, Socket.send, Socket.withIncoming]
  simp only []
  split <;> rfl

theorem sendNextChunk_withIncoming (sender : ChunkedFileSender) (socket : Socket) :
    sender.sendNextChunk pb.fileContents (socket.withIncoming incoming) =
      (sender.sendNextChunk pb.fileContents socket).map
        (Prod.map id (Prod.map id (·.withIncoming incoming))) := by
  have hloop : ∀ buffer, (socket.withIncoming incoming).sendLoop buffer =
      Prod.map id (·.withIncoming incoming) (socket.sendLoop buffer) := fun _ => rfl
  rw [ChunkedFileSender.sendNextChunk, ChunkedFileSender.sendNextChunk]
  simp only [hloop]
  split
  · rcases hrun : socket.sendLoop
      (serialize pb.fileContents sender.fileMessage sender.outgoingMessageBuffer).2 with
      ⟨last, socket'⟩
    cases last <;> rfl
  · rfl

theorem sendResponse_withInput (response : Response) :
    (agent.withInput parser incoming).sendResponse pb response =
      (agent.sendResponse pb response).map (Prod.map id (·.withInput parser incoming)) := by
  rw [sendResponse, sendResponse]
  simp only [withInput, send_withIncoming]
  split
  · cases agent.socket.send (serialize pb.response response agent.outgoingMessageBuffer).2 <;> rfl
  · rfl

theorem sendFileContents_withInput (file : List UInt8) (commandId : UInt16) :
    (agent.withInput parser incoming).sendFileContents pb fuel file commandId =
      (agent.sendFileContents pb fuel file commandId).map
        (Prod.map id (·.withInput parser incoming)) := by
  refine whileLoop_map (Prod.map id (Prod.map id (·.withInput parser incoming))) _ ?_ fuel
    (ChunkedFileSender.setFileContents {} file, false, agent)
  rintro ⟨sender, terminated, agent⟩
  simp only [Prod.map, id, sendFileStep]
  split
  · rfl
  · split
    · rfl
    · simp only [withInput, sendNextChunk_withIncoming]
      cases sender.sendNextChunk pb.fileContents agent.socket with
      | none => rfl
      | some out =>
          obtain ⟨bytesSent, sender', socket'⟩ := out
          simp only [Option.map_some, Prod.map, id]
          split <;> rfl

theorem startCommand_withInput (response : UInt32 → Response) :
    (agent.withInput parser incoming).startCommand pb fuel response =
      (agent.startCommand pb fuel response).map
        (Prod.map id (·.withInput parser incoming)) := by
  simp only [startCommand, Option.bind_eq_bind, Option.map_bind]
  refine Option.bind_congr fun generated _ => ?_
  have hactive : ({ agent.withInput parser incoming with
      activeCommands := generated.2 } : Agent).insertCommand generated.1 =
        (({ agent with activeCommands := generated.2 } : Agent).insertCommand
          generated.1).withInput parser incoming := rfl
  simp only [Function.comp_apply, hactive, sendResponse_withInput, Option.bind_map,
    Option.map_bind]
  rfl

theorem handleGet_withInput (filename : String) :
    (agent.withInput parser incoming).handleGet pb fuel filename =
      (agent.handleGet pb fuel filename).map (Prod.map id (·.withInput parser incoming)) := by
  rw [handleGet, handleGet, startCommand_withInput]
  simp only [Option.bind_eq_bind, Option.map_bind, Option.bind_map]
  refine Option.bind_congr fun started _ => ?_
  simp only [Function.comp_apply, Prod.map, sendFileContents_withInput, Option.bind_map,
    Option.map_bind]
  rfl

/-- The end of the handlers that change the file system or the directory. -/
theorem acknowledgeIf_withInput (changed : Bool) :
    (if changed then (agent.withInput parser incoming).acknowledge pb
      else some (.error, agent.withInput parser incoming)) =
      (if changed then agent.acknowledge pb else some (.error, agent)).map
        (Prod.map id (·.withInput parser incoming)) := by
  cases changed with
  | false => rfl
  | true =>
      simp only [if_true, acknowledge, sendResponse_withInput, Option.bind_eq_bind,
        Option.map_bind, Option.bind_map]
      rfl

/-- **Only PUT reads from the connection.** -/
theorem dispatchMessage_withInput {request : Request} (hput : ∀ filename, request ≠ .put filename) :
    (agent.withInput parser incoming).dispatchMessage pb fuel request =
      (agent.dispatchMessage pb fuel request).map
        (Prod.map id (·.withInput parser incoming)) := by
  cases request with
  | get filename => exact handleGet_withInput agent parser incoming filename
  | put filename => exact absurd rfl (hput filename)
  | delete filename =>
      simp only [dispatchMessage, handleDelete, Option.bind_eq_bind, Option.map_bind]
      refine Option.bind_congr fun deleted _ => ?_
      obtain ⟨removed, fileHandler⟩ := deleted
      exact acknowledgeIf_withInput { agent with fileHandler := fileHandler } _ _ removed
  | list =>
      simp only [dispatchMessage, handleList, Option.bind_eq_bind, Option.map_bind,
        sendResponse_withInput, Option.bind_map]
      refine Option.bind_congr fun names _ => ?_
      rw [Function.comp_apply, Option.map_bind]
      rfl
  | changeDir goUp dirName =>
      cases goUp with
      | false =>
          exact acknowledgeIf_withInput
            { agent with fileHandler := (agent.fileHandler.changeDir dirName).2 } _ _ true
      | true =>
          exact acknowledgeIf_withInput
            { agent with fileHandler := agent.fileHandler.upDir.2 } _ _ true
  | makeDir dirName =>
      simp only [dispatchMessage, handleMakeDir, Option.bind_eq_bind, Option.map_bind]
      refine Option.bind_congr fun made _ => ?_
      obtain ⟨created, fileHandler⟩ := made
      exact acknowledgeIf_withInput { agent with fileHandler := fileHandler } _ _ created
  | pwd =>
      simp only [dispatchMessage, handlePwd, Option.bind_eq_bind, Option.map_bind,
        sendResponse_withInput, Option.bind_map]
      rfl
  | quit => rfl
  | terminate commandId => rfl
  | fileContents message => rfl
  | notSet => rfl

end Sending

/-! ### Reading requests -/

/-- The agent is between messages, and the given segments are all that is still to come. -/
structure Fed (agent : Agent) (segments : List (List UInt8)) : Prop where
  ready : agent.parser.Ready
  segmented : Segments segments
  incoming_eq : agent.socket.incoming = arriving segments

/-- The bytes that the agent has read beyond its last message, and those still to come. -/
def unread (agent : Agent) (segments : List (List UInt8)) : List UInt8 :=
  agent.parser.pending ++ segments.flatten

section Reading

variable {agent : Agent} {segments : List (List UInt8)}

variable (pb) in
/-- **One request.** When the unread bytes begin with a frame, `ReadNextMessage` takes just
that frame off them, whatever is to come behind. -/
theorem readNextMessage_of_frame_unread (hready : agent.parser.Ready) (hseg : Segments segments)
    {tail : List RecvResult} (hin : agent.socket.incoming = arriving segments ++ tail)
    (hf : HasFrame (agent.unread segments)) :
    ∃ next left, MessageParser.Ready next ∧ Segments left ∧
      next.pending ++ left.flatten = afterFrame (agent.unread segments) ∧
      agent.readNextMessage pb =
        match pb.request.parseBody (frameBody (agent.unread segments)) with
        | none => some (.error, none, agent.withInput next (arriving left ++ tail))
        | some request =>
            some (.active, some request, agent.withInput next (arriving left ++ tail)) := by
  obtain ⟨taken, left, p, rfl, hp, hpend, hfp, -, hrun⟩ :=
    agent.socket.recvLoop_of_hasFrame false hready hseg hin hf
  obtain ⟨hnext, hnextpend⟩ := hp.nextMessage hfp
  obtain ⟨-, hget⟩ := hp.wellFormed.getMessage_of_hasFrame pb.request hfp
  have hbytes : agent.unread (taken ++ left) = p.pending ++ left.flatten := by
    rw [unread, List.flatten_append, ← List.append_assoc, hpend]
  obtain ⟨-, hbody, hafter⟩ := hfp.append left.flatten
  refine ⟨p.nextMessage, left, hnext, hseg.right, ?_, ?_⟩
  · rw [hbytes, hafter, ← hnextpend]
  · rw [hbytes, hbody, readNextMessage, hrun]
    simp only [hget]
    cases pb.request.parseBody (frameBody p.pending) <;> rfl

variable (pb) in
/-- One request of an agent to which nothing but the segments is still to come. -/
theorem readNextMessage_of_hasFrame (h : agent.Fed segments)
    (hf : HasFrame (agent.unread segments)) :
    ∃ next left, (agent.withInput next (arriving left)).Fed left ∧
      (agent.withInput next (arriving left)).unread left =
        afterFrame (agent.unread segments) ∧
      agent.readNextMessage pb =
        match pb.request.parseBody (frameBody (agent.unread segments)) with
        | none => some (.error, none, agent.withInput next (arriving left))
        | some request => some (.active, some request, agent.withInput next (arriving left)) := by
  have hin : agent.socket.incoming = arriving segments ++ [] := by
    rw [h.incoming_eq, List.append_nil]
  obtain ⟨next, left, hnext, hseg, hrest, hread⟩ :=
    readNextMessage_of_frame_unread pb h.ready h.segmented hin hf
  rw [List.append_nil] at hread
  exact ⟨next, left, ⟨hnext, hseg, rfl⟩, hrest, hread⟩

/-- When the unread bytes hold no whole frame, `ReadNextMessage` blocks. -/
theorem readNextMessage_of_not_hasFrame (h : agent.Fed segments)
    (hno : ¬ HasFrame (agent.unread segments)) : agent.readNextMessage pb = none := by
  have hin : agent.socket.incoming = arriving segments ++ [] := by
    rw [h.incoming_eq, List.append_nil]
  obtain ⟨p, -, -, hrun⟩ := agent.socket.recvLoop_of_not_hasFrame h.ready h.segmented hin
    (fun _ _ hnil => nomatch hnil) hno
  rw [readNextMessage, hrun]
  rfl

/-- A PUT that ends has taken something off the connection. -/
theorem handlePut_takes {agent' : Agent} {filename : String} {state : ClientState}
    (h : agent.handlePut pb fuel filename = some (state, agent')) :
    agent'.parser = agent.parser ∧ agent'.socket.incoming <:+ agent.socket.incoming ∧
      agent'.socket.incoming ≠ agent.socket.incoming := by
  rw [handlePut, ← agent.withInput_self, startCommand_withInput] at h
  simp only [Option.bind_eq_bind, Option.bind_eq_some_iff, Option.map_eq_some_iff,
    Prod.exists] at h
  obtain ⟨id, started, ⟨id', started', -, hstart⟩, last, contents, finished, hread, h⟩ := h
  cases hstart
  have htakes := readFileContents_takes hread
  obtain ⟨socket, ids, others, hsuffix, rfl⟩ := (readFile_readsOn hread).1
  split at h
  · cases h
    exact ⟨rfl, hsuffix, htakes⟩
  · cases h
    exact ⟨rfl, hsuffix, htakes⟩

/-- Handling a request leaves the agent between messages, with no more unread bytes; a PUT
leaves fewer. -/
theorem dispatchMessage_fed (h : agent.Fed segments) {request : Request} {state : ClientState}
    {agent' : Agent}
    (hdispatch : agent.dispatchMessage pb fuel request = some (state, agent')) :
    ∃ left, agent'.Fed left ∧ (agent'.unread left).length ≤ (agent.unread segments).length ∧
      ∀ filename, request = .put filename →
        (agent'.unread left).length < (agent.unread segments).length := by
  by_cases hput : ∃ filename, request = .put filename
  · obtain ⟨filename, rfl⟩ := hput
    obtain ⟨hparser, hsuffix, htakes⟩ := handlePut_takes hdispatch
    rw [h.incoming_eq] at hsuffix htakes
    obtain ⟨taken, left, rfl, hleft⟩ := exists_of_suffix_arriving hsuffix
    have hlt : (agent'.unread left).length < (agent.unread (taken ++ left)).length := by
      have hpos : 0 < taken.flatten.length := by
        cases taken with
        | nil => exact absurd hleft htakes
        | cons segment taken =>
            have hne := List.length_pos_iff.mpr (h.segmented segment (by simp)).1
            rw [List.flatten_cons, List.length_append]
            omega
      simp only [unread, hparser, List.flatten_append, List.length_append]
      omega
    exact ⟨left, ⟨hparser ▸ h.ready, h.segmented.right, hleft⟩, Nat.le_of_lt hlt,
      fun _ _ => hlt⟩
  · have hnot : ∀ filename, request ≠ .put filename := not_exists.mp hput
    rw [← agent.withInput_self, dispatchMessage_withInput _ _ _ hnot,
      Option.map_eq_some_iff] at hdispatch
    obtain ⟨⟨state', agent''⟩, -, heq⟩ := hdispatch
    cases heq
    exact ⟨segments, ⟨h.ready, h.segmented, h.incoming_eq⟩, Nat.le_refl _,
      fun filename hreq => absurd hreq (hnot filename)⟩

/-! ### The account -/

/-- The bytes that requests take on the wire. -/
def wireSize (pb : FtpProtobuf) (requests : List Request) : ℕ :=
  (requests.map fun request => 4 + pb.request.byteSizeLong request).sum

theorem wireSize_cons (request : Request) (requests : List Request) :
    wireSize pb (request :: requests) =
      4 + pb.request.byteSizeLong request + wireSize pb requests := by
  rw [wireSize, List.map_cons, List.sum_cons, wireSize]

/-- Only no requests take no bytes. -/
theorem eq_nil_of_wireSize_eq_zero {requests : List Request} (h : wireSize pb requests = 0) :
    requests = [] := by
  cases requests with
  | nil => rfl
  | cons request requests =>
      rw [wireSize_cons] at h
      omega

/-- **The account of `Handle`.** It dispatches no more requests than there are bytes for. -/
theorem handle_bytes (hcompact : pb.request.Compact) (fuel : ℕ) (h : agent.Fed segments)
    (rounds : ℕ) :
    wireSize pb (agent.handle pb fuel rounds).1 ≤ (agent.unread segments).length := by
  induction rounds generalizing agent segments with
  | zero => exact Nat.zero_le _
  | succ rounds ih =>
      rw [handle]
      by_cases hf : HasFrame (agent.unread segments)
      · obtain ⟨next, left, hfed, hrest, hread⟩ := readNextMessage_of_hasFrame pb h hf
        rw [hread]
        rcases hparse : pb.request.parseBody (frameBody (agent.unread segments)) with
          - | request
        · exact Nat.zero_le _
        · have hsize := hcompact _ _ hparse
          have hafter := hf.length_afterFrame
          rw [← hrest] at hafter
          have hone : wireSize pb [request] ≤ (agent.unread segments).length := by
            rw [wireSize_cons, wireSize, List.map_nil, List.sum_nil]
            omega
          simp only []
          split
          · exact hone
          · next agent' hdispatch =>
              obtain ⟨left', hfed', hle, -⟩ := dispatchMessage_fed hfed hdispatch
              have hrec := ih hfed'
              simp only [wireSize_cons]
              omega
          · exact hone
      · rw [readNextMessage_of_not_hasFrame h hf]
        exact Nat.zero_le _

end Reading

end Agent

end Csci6780
