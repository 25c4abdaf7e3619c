import Csci6780.Agent
import Csci6780.FtpClient

/-!
# What a GET Delivers

The server answers a GET with a response that holds the command id, and right behind it the
frames of the file. The client reads the response with its own parser, `recv` call by `recv`
call, and the `DownloadTask` reads the file with a receiver of its own; what the client's
parser has read beyond the response stays there. A file without any bytes has no frames, so
nothing tells the task that it is complete.

## Main results

* `Agent.handleGet_sends`: what the server puts on the wire.
* `Client.get_response`: what the client has read, shown and lost before the download.
* `get_delivers_file`: when the client saves the file.
-/

namespace Csci6780

/-! ### The server -/

/-- A command stays active as long as nobody deletes it. -/
theorem CommandIDs.contains_foldl {ids : CommandIDs} {commandId : UInt16}
    (h : ids.contains commandId = true) {ops : List CommandOp}
    (hops : .delete commandId ∉ ops) :
    (ops.foldl CommandOp.apply ids).contains commandId = true := by
  induction ops generalizing ids with
  | nil => exact h
  | cons op ops ih =>
      rw [List.foldl_cons]
      refine ih ?_ fun hmem => hops (List.mem_cons_of_mem _ hmem)
      cases op with
      | insert id => exact (CommandIDs.contains_insert _ _ _).mpr (.inr h)
      | delete id =>
          refine (CommandIDs.contains_delete _ _ _).mpr ⟨h, ?_⟩
          rintro rfl
          exact hops List.mem_cons_self

namespace Agent

variable {pb : FtpProtobuf} {fuel : ℕ}

/-- The command is active, and no other agent is going to terminate it. -/
structure Active (agent : Agent) (commandId : UInt16) : Prop where
  isActive : agent.activeCommands.contains commandId = true
  others : ∀ ops ∈ agent.others, .delete commandId ∉ ops

/-- A check of an active command. -/
theorem Active.check {agent : Agent} {commandId : UInt16} (h : agent.Active commandId) :
    ∃ ids others, agent.contains commandId =
        (true, { agent with activeCommands := ids, others := others }) ∧
      ({ agent with activeCommands := ids, others := others } : Agent).Active commandId := by
  have hids : ((agent.others.headD []).foldl CommandOp.apply agent.activeCommands).contains
      commandId = true := by
    refine CommandIDs.contains_foldl h.isActive ?_
    rcases hothers : agent.others with - | ⟨ops, others⟩
    · exact List.not_mem_nil
    · exact h.others ops (hothers ▸ List.mem_cons_self)
  refine ⟨_, agent.others.tail, ?_, hids, fun ops hmem => h.others ops (List.mem_of_mem_tail hmem)⟩
  rw [Agent.contains, hids]

/-- One round of an active command on its way: it is done, or sends its chunk. -/
theorem sendFileStep_cases (hpb : pb.Lawful) {file wire : List UInt8}
    (hlen : file.length < 2 ^ 32) {commandId : UInt16} {i : ℕ} {sender : ChunkedFileSender}
    {agent : Agent}
    (h : ChunkedFileSender.Sending pb.fileContents file wire i sender agent.socket)
    (hactive : agent.Active commandId)
    {out : (ChunkedFileSender × Bool × Agent) ⊕ (Bool × Agent)}
    (hstep : sendFileStep pb commandId (sender, false, agent) = some out) :
    (sender.sentCompleteFile = true ∧ out = .inr (true, agent)) ∨
    ∃ sender' agent', out = .inl (sender', false, agent') ∧ agent'.Active commandId ∧
      ChunkedFileSender.Sending pb.fileContents file wire (i + 1) sender' agent'.socket := by
  by_cases hdone : sender.sentCompleteFile = true
  · rw [sendFileStep, if_pos hdone, Option.some.injEq] at hstep
    exact .inl ⟨hdone, hstep.symm⟩
  · rw [sendFileStep, if_neg hdone] at hstep
    obtain ⟨-, ⟨n, sender', socket', hpos, h', -, hsend⟩ | ⟨-, hblocked⟩⟩ :=
      h.sendNextChunk_spec hpb.fileContents hpb.sized hlen hdone
    · have hsent : ({ agent with socket := socket' } : Agent).Active commandId :=
        ⟨hactive.isActive, hactive.others⟩
      obtain ⟨ids, others, hcheck, hactive'⟩ := hsent.check
      simp only [Bool.false_eq_true, if_false, hsend, hcheck] at hstep
      rw [if_pos (by omega)] at hstep
      exact .inr ⟨_, _, (Option.some.inj hstep).symm, hactive', h'⟩
    · simp only [Bool.false_eq_true, if_false, hblocked] at hstep
      cases hstep

/-- **Sending a file.** An active command whose `send` calls accept something sends the
frames of the file. -/
theorem sendFileContents_sends (hpb : pb.Lawful) {file : List UInt8}
    (hlen : file.length < 2 ^ 32) {commandId : UInt16} {agent agent' : Agent} {ok : Bool}
    (hrun : agent.sendFileContents pb fuel file commandId = some (ok, agent'))
    (hacc : Accepting agent.socket.sends) (hactive : agent.Active commandId) :
    agent'.socket.sent = agent.socket.sent ++
      frames ((fileChunks file).map pb.fileContents.encoding) := by
  have hstart := ChunkedFileSender.at_zero {} file
  refine whileLoop_inv
    (fun s => s.2.1 = false ∧ s.2.2.Active commandId ∧ ∃ i,
      ChunkedFileSender.Sending pb.fileContents file (agent.socket.sent ++
        frames ((fileChunks file).map pb.fileContents.encoding)) i s.1 s.2.2.socket)
    (fun r => r.2.socket.sent = agent.socket.sent ++
      frames ((fileChunks file).map pb.fileContents.encoding)) ?_ ?_
    ⟨rfl, hactive, 0, hstart, hacc, rfl⟩ hrun
  · rintro ⟨sender, terminated, agent₁⟩ s' ⟨rfl, hactive, i, h⟩ hstep
    rcases sendFileStep_cases hpb hlen h hactive hstep with
      ⟨-, hout⟩ | ⟨sender', agent₂, hout, hactive', h'⟩
    · cases hout
    · cases hout
      exact ⟨rfl, hactive', i + 1, h'⟩
  · rintro ⟨sender, terminated, agent₁⟩ r ⟨rfl, hactive, i, h⟩ hstep
    rcases sendFileStep_cases hpb hlen h hactive hstep with
      ⟨hdone, hout⟩ | ⟨sender', agent₂, hout, -, -⟩
    · cases hout
      exact h.sent_eq hdone
    · cases hout

/-- The response of a GET that the first `send` accepts as a whole. -/
theorem sendResponse_sends (hpb : pb.Lawful) {agent agent' : Agent} {response : Response}
    (hsize : pb.response.byteSizeLong response < 2 ^ 31) {n : ℕ} {sends : List SendResult}
    (hsends : agent.socket.sends = .accepted n :: sends)
    (hn : (frame (pb.response.encoding response)).length ≤ n) {sent : Bool}
    (hrun : agent.sendResponse pb response = some (sent, agent')) :
    agent' = { agent with
      outgoingMessageBuffer := frame (pb.response.encoding response)
      socket := { agent.socket with
        sends := sends
        sent := agent.socket.sent ++ frame (pb.response.encoding response) } } := by
  rw [sendResponse, serialize_eq_frame hpb.response hsize] at hrun
  simp only [if_true, Socket.send, hsends, List.take_of_length_le hn] at hrun
  exact (congrArg Prod.snd (Option.some.inj hrun)).symm

/-- **What a GET puts on the wire**: the response with the command id, and the frames of the
file. -/
theorem handleGet_sends (hpb : pb.Lawful) {agent agent' : Agent} {filename : String}
    (hlen : (agent.fileHandler.get filename).length < 2 ^ 32) {commandId : UInt16}
    {ids : CommandIDs} (hid : agent.activeCommands.generateID fuel = some (commandId, ids))
    (hsize : pb.response.byteSizeLong (.get commandId.toUInt32) < 2 ^ 31) {n : ℕ}
    {sends : List SendResult} (hsends : agent.socket.sends = .accepted n :: sends)
    (hn : (frame (pb.response.encoding (.get commandId.toUInt32))).length ≤ n)
    (hacc : Accepting sends) (hothers : ∀ ops ∈ agent.others, .delete commandId ∉ ops)
    {state : ClientState} (hrun : agent.handleGet pb fuel filename = some (state, agent')) :
    agent'.socket.sent = agent.socket.sent ++
      (frame (pb.response.encoding (.get commandId.toUInt32)) ++
        frames ((fileChunks (agent.fileHandler.get filename)).map pb.fileContents.encoding)) := by
  rw [handleGet, startCommand, hid] at hrun
  simp only [Option.bind_eq_bind, Option.bind_some, Option.bind_eq_some_iff, Option.pure_def,
    Option.some.injEq, Prod.exists, Prod.mk.injEq] at hrun
  obtain ⟨id, started, ⟨sent, responded, hresponse, hid', rfl⟩, ok, finished, hfile, -, rfl⟩ := hrun
  subst hid'
  have hsends' : (({ agent with activeCommands := ids } : Agent).insertCommand
      commandId).socket.sends = .accepted n :: sends := hsends
  have hactive : (({ agent with activeCommands := ids } : Agent).insertCommand
      commandId).Active commandId :=
    ⟨(CommandIDs.contains_insert _ _ _).mpr (.inl rfl), hothers⟩
  obtain rfl := sendResponse_sends hpb hsize hsends' hn hresponse
  have hsent := sendFileContents_sends hpb hlen hfile hacc ⟨hactive.isActive, hactive.others⟩
  exact hsent.trans (List.append_assoc _ _ _)

end Agent

/-! ### The client -/

namespace Client

variable {pb : FtpProtobuf}

/-- **What the client has read before the download.** `WaitForMessage` stops with the
segment in which the response ends, and `HandleResponse` shows the response; what that
segment holds beyond it, `lost`, stays in the client's parser. -/
theorem get_response (hpb : pb.Lawful) {client : Client} (hwf : client.parser.WellFormed)
    {response : Response} (hsize : pb.response.byteSizeLong response < 2 ^ 31)
    {segments : List (List UInt8)} (hseg : Segments segments) {tail : List RecvResult}
    (hin : client.socket.incoming = arriving segments ++ tail) {rest : List UInt8}
    (hstream : segments.flatten = frame (pb.response.encoding response) ++ rest) :
    ∃ taken left lost parser waited, segments = taken ++ left ∧
      taken.flatten = frame (pb.response.encoding response) ++ lost ∧
      lost ++ left.flatten = rest ∧
      (taken = [] ∨ taken.dropLast.flatten.length <
        (frame (pb.response.encoding response)).length) ∧
      client.waitForMessage = some (client.connected, waited) ∧
      waited.handleResponse pb.response = { client with
        socket := { client.socket with incoming := arriving left ++ tail }
        parser := parser
        shown := client.shown ++ showResponse response ++ "\n" } := by
  have hbody : (pb.response.encoding response).length < 2 ^ 32 := by
    rw [hpb.response.length_encoding hsize]
    omega
  have hready : client.parser.resetParser.Ready :=
    hwf.resetParser.ready_of_not_hasFrame
      (client.parser.pending_resetParser ▸ not_hasFrame_nil)
  have hf : HasFrame (client.parser.resetParser.pending ++ segments.flatten) := by
    rw [MessageParser.pending_resetParser, List.nil_append, hstream]
    exact hasFrame_frame_append hbody rest
  obtain ⟨taken, left, parser, rfl, hparser, hpend, hfp, hmin, hrun⟩ :=
    client.socket.recvLoop_of_hasFrame true hready hseg hin hf
  rw [MessageParser.pending_resetParser, List.nil_append] at hpend hmin
  rw [List.flatten_append] at hstream
  rw [hpend] at hfp
  obtain ⟨hframe, hrest⟩ := hfp.eq_of_append_eq hbody hstream
  have htaken := hfp.eq_frame_append
  rw [hframe] at htaken
  obtain ⟨-, hget⟩ := hparser.wellFormed.getMessage_of_hasFrame pb.response (hpend ▸ hfp)
  rw [hpend, hframe, hpb.response.parseBody_encoding hsize] at hget
  refine ⟨taken, left, afterFrame taken.flatten, parser.nextMessage,
    { client with
      parser := parser
      socket := { client.socket with incoming := arriving left ++ tail } },
    rfl, htaken, hrest, hmin.imp_right fun hno => ?_, ?_, ?_⟩
  · exact length_dropLast_lt_of_not_hasFrame (U := []) hno hbody hstream
  · rw [waitForMessage, hrun]
  · simp only [handleResponse, hget, Option.getD_some]

/-- A GET is the download that follows the response. -/
theorem get_eq {client waited reading : Client} {connected : Bool}
    (hwait : client.waitForMessage = some (connected, waited))
    (hshow : waited.handleResponse pb.response = reading) (fuel : ℕ) (filename : String) :
    client.get pb fuel filename =
      (DownloadTask.run pb.fileContents fuel { filename := filename } reading.socket
        reading.saved).map fun (status, socket, saved) =>
          (status, { reading with socket := socket, saved := saved }) := by
  rw [get, hwait]
  simp only [Option.bind_eq_bind, Option.bind_some, hshow, Option.pure_def, Option.map_eq_bind]
  rfl

/-- The client saves the file under the given name, and has shown the command id. -/
def Delivers (pb : FtpProtobuf) (client : Client) (filename : String) (commandId : UInt16)
    (file : List UInt8) : Prop :=
  ∃ fuel client', client.get pb fuel filename = some (.done, client') ∧
    client'.saved = client.saved ++ [⟨filename, file⟩] ∧
    client'.shown = client.shown ++ ("command_id: " ++ toString commandId.toNat) ++ "\n"

/-- A file of at most 1000 bytes is one chunk. -/
theorem fileChunks_of_le {file : List UInt8} (hne : file ≠ []) (hle : file.length ≤ 1000) :
    fileChunks file = [⟨file, true⟩] := by
  have hpos := List.length_pos_iff.mpr hne
  have hcount : chunkCount file = 1 := by
    simp only [chunkCount, kChunkSize]
    omega
  have hlast : (decide (kChunkSize * 0 + kChunkSize ≥ file.length)) = true :=
    decide_eq_true (by simpa [kChunkSize] using hle)
  have htake : file.take kChunkSize = file := List.take_of_length_le hle
  rw [fileChunks, hcount, List.range_one, List.map_singleton, chunkAt, hlast, Nat.mul_zero,
    List.drop_zero, htake]

/-- **When a GET delivers the file.** Let the server handle a GET whose command nobody
terminates, with a first `send` that accepts the whole response and others that accept
something each. The client shows the command id and saves the file if the file is not empty
and the recv results are cut at the end of the response; it saves no empty file, and no file
of at most 1000 bytes without that cut. -/
theorem get_delivers_file (hpb : pb.Lawful) (hcompact : pb.fileContents.Compact)
    (hadd : FileContentsAdditive pb.fileContents) (fuel : ℕ) (server : Agent) (filename : String)
    (hlen : (server.fileHandler.get filename).length < 2 ^ 32) {commandId : UInt16}
    {ids : CommandIDs} (hid : server.activeCommands.generateID fuel = some (commandId, ids))
    (hsize : pb.response.byteSizeLong (.get commandId.toUInt32) < 2 ^ 31) {n : ℕ}
    {sends : List SendResult} (hsends : server.socket.sends = .accepted n :: sends)
    (hn : (frame (pb.response.encoding (.get commandId.toUInt32))).length ≤ n)
    (hacc : Accepting sends) (hothers : ∀ ops ∈ server.others, .delete commandId ∉ ops)
    {state : ClientState} {served : Agent}
    (hserved : server.handleGet pb fuel filename = some (state, served))
    {client : Client} (hwf : client.parser.WellFormed) {segments : List (List UInt8)}
    (hseg : Segments segments) {tail : List RecvResult} (htail : NoData tail)
    (hin : client.socket.incoming = arriving segments ++ tail)
    (hstream : server.socket.sent ++ segments.flatten = served.socket.sent)
    (saveAs : String) :
    (server.fileHandler.get filename ≠ [] ∧
        CutAt segments (serialize pb.response (.get commandId.toUInt32) []).2 →
      client.Delivers pb saveAs commandId (server.fileHandler.get filename)) ∧
    (client.Delivers pb saveAs commandId (server.fileHandler.get filename) →
      server.fileHandler.get filename ≠ [] ∧
        ((server.fileHandler.get filename).length ≤ 1000 →
          CutAt segments (serialize pb.response (.get commandId.toUInt32) []).2)) := by
  rw [serialize_eq_frame hpb.response hsize]
  have hwire := Agent.handleGet_sends hpb hlen hid hsize hsends hn hacc hothers hserved
  rw [hwire] at hstream
  have hflat := List.append_cancel_left hstream
  generalize server.fileHandler.get filename = file at hflat ⊢
  obtain ⟨taken, left, lost, parser, waited, rfl, htaken, hlost, hmin, hwait, hshow⟩ :=
    get_response hpb hwf hsize hseg hin hflat
  rw [cutAt_iff_lost_eq_nil htaken hmin]
  constructor
  · rintro ⟨hne, rfl⟩
    rw [List.nil_append] at hlost
    have hat : (⟨saveAs, {}⟩ : DownloadTask).receiver.At file 0 :=
      ChunkedFileReceiver.at_zero hne
    have hawaiting : DownloadTask.Awaiting pb.fileContents file tail 0 ⟨saveAs, {}⟩
        { client.socket with incoming := arriving left ++ tail } :=
      ⟨Nat.zero_le _, hat, left, hseg.right, rfl, hlost⟩
    obtain ⟨fuel', socket', hdownload⟩ :=
      DownloadTask.run_saves hpb.fileContents hpb.sized hawaiting client.saved
    have hget := get_eq hwait hshow fuel' saveAs
    rw [hdownload] at hget
    refine ⟨fuel', _, hget, rfl, ?_⟩
    rw [showResponse, UInt16.toNat_toUInt32]
  · rintro ⟨fuel', client', hget, hsaved, -⟩
    rw [get_eq hwait hshow, Option.map_eq_some_iff] at hget
    obtain ⟨⟨status, socket', saved'⟩, hdownload, hclient⟩ := hget
    obtain rfl : saved' = client.saved ++ [⟨saveAs, file⟩] := by
      rw [← hsaved, ← (Prod.mk.inj hclient).2]
    -- what was lost is missing from what the download needs
    have hempty : pb.fileContents.byteSizeLong ⟨[], false⟩ = 0 := hadd.empty
    have hroom : pb.fileContents.byteSizeLong ⟨[], false⟩ + left.flatten.length ≤
        left.flatten.length := by omega
    have haccounted : DownloadTask.Accounted pb.fileContents left.flatten.length ⟨saveAs, {}⟩
        { client.socket with incoming := arriving left ++ tail } :=
      ⟨MessageParser.ready_fresh, left, tail, hseg.right, htail, rfl, .inr ⟨rfl, hroom⟩⟩
    have hbytes : 4 + pb.fileContents.byteSizeLong ⟨file, true⟩ ≤ left.flatten.length := by
      rcases DownloadTask.run_bytes hcompact hadd haccounted hdownload with
        hnone | ⟨contents, hcontents, hle⟩
      · exact absurd (List.append_right_eq_self.mp hnone) (List.cons_ne_nil _ _)
      · obtain rfl : file = contents := by simpa using hcontents
        exact hle
    have hlength := congrArg List.length hlost
    rw [List.length_append] at hlength
    have hne : file ≠ [] := by
      rintro rfl
      rw [show fileChunks [] = [] from rfl, List.map_nil, frames_nil, List.length_nil] at hlength
      omega
    refine ⟨hne, fun hle => ?_⟩
    rw [fileChunks_of_le hne hle, List.map_singleton, frames_cons, frames_nil, List.append_nil,
      length_frame] at hlength
    have hsized : pb.fileContents.byteSizeLong ⟨file, true⟩ < 2 ^ 31 := by
      have hsize : pb.fileContents.byteSizeLong ⟨file, true⟩ ≤ file.length + 16 :=
        (hpb.sized ⟨file, true⟩).2
      omega
    have hbody := hpb.fileContents.length_encoding hsized
    exact List.length_eq_zero_iff.mp (by omega)

/-- A server with one file that holds the byte 7. -/
def getServer : Agent where
  socket := { sends := [.accepted 100, .accepted 100] }
  fileHandler := { fs := FileSystem.empty.link [] ['f'] (.file [7] true) }

/-- A client to which the given segments arrive before the server closes the connection. -/
def getClient (segments : List (List UInt8)) : Client where
  socket := { incoming := arriving segments ++ [.closed] }

/-- The response and the file in segments of their own: the file is saved. -/
theorem get_delivers_file_cut :
    (getClient [[0, 0, 0, 4, 10, 2, 8, 1], [0, 0, 0, 5, 10, 1, 7, 16, 1]]).Delivers ftpProto
      "g" 1 [7] := by
  have hacc : Accepting [.accepted 100] := accepting_singleton (Nat.succ_pos 99)
  have hseg : Segments [[0, 0, 0, 4, 10, 2, 8, 1], [0, 0, 0, 5, 10, 1, 7, 16, 1]] := by decide
  have htail : NoData [.closed] := by
    intro bytes hmem
    cases List.mem_singleton.mp hmem
  have hclient : (getClient [[0, 0, 0, 4, 10, 2, 8, 1],
      [0, 0, 0, 5, 10, 1, 7, 16, 1]]).parser.WellFormed := MessageParser.wellFormed_fresh
  have hsize : ftpProto.response.byteSizeLong (.get (1 : UInt16).toUInt32) < 2 ^ 31 := by decide
  exact (get_delivers_file ftpProto_lawful fileContentsProto_compact fileContentsProto_additive
    2 getServer "f" (by decide) rfl hsize rfl (by decide) hacc (by decide) rfl hclient hseg
    htail rfl rfl "g").1
    ⟨List.cons_ne_nil 7 [],
      ⟨[[0, 0, 0, 4, 10, 2, 8, 1]], [[0, 0, 0, 5, 10, 1, 7, 16, 1]], rfl, rfl⟩⟩

/-- The same bytes in one segment: the server has sent everything, the client has shown the
command id, the download is done, and no file is saved. -/
theorem get_loses_file :
    ∃ served client', getServer.handleGet ftpProto 2 "f" = some (.active, served) ∧
      getServer.fileHandler.get "f" = [7] ∧
      (getClient [served.socket.sent]).get ftpProto 2 "g" = some (.done, client') ∧
      client'.shown = "command_id: 1\n" ∧ client'.saved = [] :=
  ⟨_, _, rfl, rfl, rfl, rfl, rfl⟩

end Client

end Csci6780
