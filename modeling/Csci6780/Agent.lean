import Csci6780.ChunkedFiles
import Csci6780.CommandIds
import Csci6780.FileHandler

/-!
# The FTP Server's Agent

This module embeds `server::Agent`, which serves one client's connection: it reads requests
with its own message parser, dispatches each to a handler, and goes on until the client
disconnects or something fails. GET and PUT transfer a file over the same connection, with
a sender or a receiver of their own, and stop early when their command id is no longer in
the shared set of active commands.

The agent's surroundings are part of its state: the socket with its script, the file
system, the shared command ids, and what other agents do to these before each check. A
function returns `none` where the source does not return: a call blocks for ever, a loop
runs out of fuel, or the file system throws.

The tests of `ReadFileContents` are told apart by `FileReadEnd`, of which the source's
return value is a function; the handler of PUT looks at neither.

## Main results

* `readFileStep_cases`: what one round of `ReadFileContents` can do.
* `readFile_readsOn`: only a file that was read to its end has contents.
* `readFile_complete`: the contents of such a file, and what its reading has cost.
-/

namespace Csci6780

/-- `Agent::ClientState`. -/
inductive ClientState
  | active
  | disconnected
  | error
  deriving DecidableEq, Repr

/-- `Agent`, with the surroundings it works on. `others` is what other agents do to the
active commands before each of the coming checks. -/
structure Agent where
  socket : Socket := {}
  parser : MessageParser := {}
  outgoingMessageBuffer : List UInt8 := []
  activeCommands : CommandIDs := {}
  others : List (List CommandOp) := []
  fileHandler : FileHandler := {}

namespace Agent

variable (pb : FtpProtobuf)

/-! ### Commands -/

/-- `active_commands_->Contains`, after what other agents did meanwhile. -/
def contains (agent : Agent) (commandId : UInt16) : Bool × Agent :=
  let ids := (agent.others.headD []).foldl CommandOp.apply agent.activeCommands
  (ids.contains commandId, { agent with activeCommands := ids, others := agent.others.tail })

/-- `active_commands_->Insert`. -/
def insertCommand (agent : Agent) (commandId : UInt16) : Agent :=
  { agent with activeCommands := agent.activeCommands.insert commandId }

/-- `active_commands_->Delete`. -/
def deleteCommand (agent : Agent) (commandId : UInt16) : Agent :=
  { agent with activeCommands := agent.activeCommands.delete commandId }

/-! ### Reading -/

/-- How `ReadFileContents` ends. -/
inductive FileReadEnd
  | complete
  | failed
  | disconnected
  | terminated
  | cleanUpFailed
  deriving DecidableEq, Repr

/-- The client state that `ReadFileContents` returns. -/
def FileReadEnd.state : FileReadEnd → ClientState
  | .complete => .active
  | .failed => .error
  | .disconnected => .disconnected
  | .terminated => .active
  | .cleanUpFailed => .error

/-- One round of the loop of `ReadFileContents`. -/
def readFileStep (fuel : ℕ) (commandId : UInt16) : ChunkedFileReceiver × Agent →
    Option ((ChunkedFileReceiver × Agent) ⊕ (FileReadEnd × List UInt8 × Agent))
  | (receiver, agent) =>
      if receiver.hasCompleteFile then
        some (.inr (.complete, receiver.getFileContents.1, agent))
      else
        let (active, agent) := agent.contains commandId
        match receiver.receiveNextChunk pb.fileContents agent.socket with
        | none => none
        | some (bytesRead, receiver, socket) =>
            let agent := { agent with socket := socket }
            if bytesRead < 0 then some (.inr (.failed, [], agent))
            else if bytesRead = 0 then some (.inr (.disconnected, [], agent))
            else if active then some (.inl (receiver, agent))
            else
              match receiver.cleanUp pb.fileContents fuel socket with
              | none => none
              | some (false, _, socket) =>
                  some (.inr (.cleanUpFailed, [], { agent with socket := socket }))
              | some (true, _, socket) =>
                  some (.inr (.terminated, [], { agent with socket := socket }))

/-- `Agent::ReadFileContents`: how it ends, what it leaves in the caller's empty buffer, and
the agent. -/
def readFileContents (fuel : ℕ) (agent : Agent) (commandId : UInt16) :
    Option (FileReadEnd × List UInt8 × Agent) :=
  whileLoop (readFileStep pb fuel commandId) fuel ({}, agent)

/-- `Agent::ReadNextMessage`: the client state, the message where there is one, and the
agent. -/
def readNextMessage (agent : Agent) : Option (ClientState × Option Request × Agent) :=
  match agent.socket.recvLoop false agent.parser with
  | (.complete, parser, socket) =>
      match parser.getMessage pb.request with
      | (none, next) =>
          some (.error, none, { agent with parser := next, socket := socket })
      | (some message, next) =>
          some (.active, some message, { agent with parser := next, socket := socket })
  | (.closed, parser, socket) =>
      some (.disconnected, none, { agent with parser := parser, socket := socket })
  | (.timedOut, parser, socket) =>
      some (.error, none, { agent with parser := parser.resetParser, socket := socket })
  | (.failed, parser, socket) =>
      some (.error, none, { agent with parser := parser.resetParser, socket := socket })
  | (.blocked, _, _) => none

/-! ### Sending -/

/-- `Agent::SendResponse`. -/
def sendResponse (agent : Agent) (response : Response) : Option (Bool × Agent) :=
  let (serialized, buffer) := serialize pb.response response agent.outgoingMessageBuffer
  let agent := { agent with outgoingMessageBuffer := buffer }
  if serialized then
    match agent.socket.send buffer with
    | none => none
    | some (result, socket) => some (¬ result < 0, { agent with socket := socket })
  else some (false, agent)

/-- One round of the loop of `SendFileContents`. -/
def sendFileStep (commandId : UInt16) : ChunkedFileSender × Bool × Agent →
    Option ((ChunkedFileSender × Bool × Agent) ⊕ (Bool × Agent))
  | (sender, terminated, agent) =>
      if sender.sentCompleteFile then some (.inr (true, agent))
      else if terminated then some (.inr (true, agent))
      else
        match sender.sendNextChunk pb.fileContents agent.socket with
        | none => none
        | some (bytesSent, sender, socket) =>
            let agent := { agent with socket := socket }
            if bytesSent ≠ -1 then
              let (active, agent) := agent.contains commandId
              some (.inl (sender, !active, agent))
            else some (.inr (false, agent))

/-- `Agent::SendFileContents`. -/
def sendFileContents (fuel : ℕ) (agent : Agent) (fileContents : List UInt8)
    (commandId : UInt16) : Option (Bool × Agent) :=
  whileLoop (sendFileStep pb commandId) fuel
    (ChunkedFileSender.setFileContents {} fileContents, false, agent)

/-! ### The handlers -/

/-- The start that the handlers of GET and PUT share: a new command id is made active and
sent to the client. -/
def startCommand (fuel : ℕ) (agent : Agent) (response : UInt32 → Response) :
    Option (UInt16 × Agent) := do
  let (id, ids) ← agent.activeCommands.generateID fuel
  let agent := { agent with activeCommands := ids }.insertCommand id
  let (_, agent) ← agent.sendResponse pb (response id.toUInt32)
  return (id, agent)

/-- `Agent::HandleRequest(GetRequest)`. -/
def handleGet (fuel : ℕ) (agent : Agent) (filename : String) : Option (ClientState × Agent) := do
  let (id, agent) ← agent.startCommand pb fuel .get
  let (sent, agent) ← agent.sendFileContents pb fuel (agent.fileHandler.get filename) id
  return (if sent then .active else .error, agent.deleteCommand id)

/-- `Agent::HandleRequest(PutRequest)`. -/
def handlePut (fuel : ℕ) (agent : Agent) (filename : String) : Option (ClientState × Agent) := do
  let (id, agent) ← agent.startCommand pb fuel .put
  let (_, fileContents, agent) ← agent.readFileContents pb fuel id
  let (written, fileHandler) := agent.fileHandler.put filename fileContents
  let agent := { agent with fileHandler := fileHandler }
  if written then return (.active, agent.deleteCommand id) else return (.error, agent)

/-- The end of the handlers that only acknowledge: an empty response. -/
def acknowledge (agent : Agent) : Option (ClientState × Agent) := do
  let (sent, agent) ← agent.sendResponse pb .notSet
  return (if sent then .active else .error, agent)

/-- `Agent::HandleRequest(DeleteRequest)`. -/
def handleDelete (agent : Agent) (filename : String) : Option (ClientState × Agent) := do
  let (removed, fileHandler) ← agent.fileHandler.delete filename
  let agent := { agent with fileHandler := fileHandler }
  if removed then agent.acknowledge pb else return (.error, agent)

/-- `Agent::HandleRequest(ListRequest)`. -/
def handleList (agent : Agent) : Option (ClientState × Agent) := do
  let names ← agent.fileHandler.list
  let (sent, agent) ← agent.sendResponse pb (.list (names.map String.ofList))
  return (if sent then .active else .error, agent)

/-- `Agent::HandleRequest(ChangeDirRequest)`. -/
def handleChangeDir (agent : Agent) (goUp : Bool) (dirName : String) :
    Option (ClientState × Agent) :=
  let (changed, fileHandler) :=
    if goUp then agent.fileHandler.upDir else agent.fileHandler.changeDir dirName
  let agent := { agent with fileHandler := fileHandler }
  if changed then agent.acknowledge pb else some (.error, agent)

/-- `Agent::HandleRequest(MakeDirRequest)`. -/
def handleMakeDir (agent : Agent) (dirName : String) : Option (ClientState × Agent) := do
  let (created, fileHandler) ← agent.fileHandler.makeDir dirName
  let agent := { agent with fileHandler := fileHandler }
  if created then agent.acknowledge pb else return (.error, agent)

/-- `Agent::HandleRequest(PwdRequest)`. -/
def handlePwd (agent : Agent) : Option (ClientState × Agent) := do
  let (sent, agent) ← agent.sendResponse pb
    (.pwd (String.ofList agent.fileHandler.getCurrentDir))
  return (if sent then .active else .error, agent)

/-- `Agent::HandleRequest(TerminateRequest)`: the 32-bit id of the request is narrowed by
the call of `Delete`. -/
def handleTerminate (agent : Agent) (commandId : UInt32) : ClientState × Agent :=
  (.active, agent.deleteCommand commandId.toUInt16)

/-- `Agent::DispatchMessage`. -/
def dispatchMessage (fuel : ℕ) (agent : Agent) : Request → Option (ClientState × Agent)
  | .get filename => agent.handleGet pb fuel filename
  | .put filename => agent.handlePut pb fuel filename
  | .delete filename => agent.handleDelete pb filename
  | .list => agent.handleList pb
  | .changeDir goUp dirName => agent.handleChangeDir pb goUp dirName
  | .makeDir dirName => agent.handleMakeDir pb dirName
  | .pwd => agent.handlePwd pb
  | .quit => some (.disconnected, agent)
  | .terminate commandId => some (agent.handleTerminate commandId)
  | .fileContents _ => some (.active, agent)
  | .notSet => some (.error, agent)

/-- The requests that `Agent::Handle` dispatches in its first rounds, and what it returns if
it returns by then. -/
def handle (fuel : ℕ) : ℕ → Agent → List Request × Option Bool
  | 0, _ => ([], none)
  | rounds + 1, agent =>
      match agent.readNextMessage pb with
      | none => ([], none)
      | some (.active, some message, agent) =>
          match agent.dispatchMessage pb fuel message with
          | none => ([message], none)
          | some (.active, agent) =>
              let (dispatched, result) := handle fuel rounds agent
              (message :: dispatched, result)
          | some (state, _) => ([message], some (state ≠ .error))
      | some (state, _, _) => ([], some (state ≠ .error))

/-! ### Starting a command -/

/-- A response only uses the socket and the outgoing buffer. -/
theorem sendResponse_eq {pb : FtpProtobuf} {agent agent' : Agent} {response : Response}
    {sent : Bool} (h : agent.sendResponse pb response = some (sent, agent')) :
    ∃ socket buffer,
      agent' = { agent with socket := socket, outgoingMessageBuffer := buffer } := by
  rw [sendResponse] at h
  simp only [] at h
  split at h
  · split at h
    · cases h
    · cases h
      exact ⟨_, _, rfl⟩
  · cases h
    exact ⟨_, _, rfl⟩

/-- Starting a command leaves the file handler alone. -/
theorem startCommand_fileHandler {pb : FtpProtobuf} {fuel : ℕ} {agent agent' : Agent}
    {response : UInt32 → Response} {commandId : UInt16}
    (h : agent.startCommand pb fuel response = some (commandId, agent')) :
    agent'.fileHandler = agent.fileHandler := by
  simp only [startCommand, Option.bind_eq_bind, Option.bind_eq_some_iff, Option.pure_def,
    Option.some.injEq, Prod.mk.injEq, Prod.exists] at h
  obtain ⟨id, ids, -, sent, started, hsend, -, rfl⟩ := h
  obtain ⟨_, _, rfl⟩ := sendResponse_eq hsend
  rfl

/-! ### Reading a file that arrives whole -/

section ReadFile

variable {pb} {fuel : ℕ} {commandId : UInt16}

/-- A check changes nothing but the active commands. -/
theorem contains_eq (agent : Agent) (commandId : UInt16) :
    ∃ active ids others, agent.contains commandId =
      (active, { agent with activeCommands := ids, others := others }) :=
  ⟨_, _, _, rfl⟩

/-- The agent after some more reading: results are taken off the socket, and the other
agents have been at the active commands. -/
def ReadsOn (agent agent' : Agent) : Prop :=
  ∃ socket ids others, socket.incoming <:+ agent.socket.incoming ∧
    agent' = { agent with socket := socket, activeCommands := ids, others := others }

theorem ReadsOn.refl (agent : Agent) : agent.ReadsOn agent :=
  ⟨_, _, _, List.suffix_refl _, rfl⟩

theorem ReadsOn.trans {agent₁ agent₂ agent₃ : Agent} (h₁₂ : agent₁.ReadsOn agent₂)
    (h₂₃ : agent₂.ReadsOn agent₃) : agent₁.ReadsOn agent₃ := by
  obtain ⟨_, _, _, h₁₂, rfl⟩ := h₁₂
  obtain ⟨socket, ids, others, h₂₃, rfl⟩ := h₂₃
  exact ⟨socket, ids, others, h₂₃.trans h₁₂, rfl⟩

/-- **One round of `ReadFileContents`.** With the complete file it returns its contents.
Otherwise it receives a chunk, and goes on or returns without contents. -/
theorem readFileStep_cases {receiver : ChunkedFileReceiver} {agent : Agent}
    {out : (ChunkedFileReceiver × Agent) ⊕ (FileReadEnd × List UInt8 × Agent)}
    (h : readFileStep pb fuel commandId (receiver, agent) = some out) :
    (receiver.hasCompleteFile = true ∧ out = .inr (.complete, receiver.fileContents, agent)) ∨
    (¬ receiver.hasCompleteFile = true ∧ ∃ n receiver' received,
      receiver.receiveNextChunk pb.fileContents agent.socket =
        some (n, receiver', received.socket) ∧ agent.ReadsOn received ∧
      (out = .inl (receiver', received) ∨ ∃ last agent', last ≠ .complete ∧
        received.ReadsOn agent' ∧ out = .inr (last, [], agent'))) := by
  obtain ⟨active, ids, others, hcheck⟩ := agent.contains_eq commandId
  rw [readFileStep, hcheck] at h
  by_cases hc : receiver.hasCompleteFile = true
  · rw [if_pos hc, Option.some.injEq] at h
    exact .inl ⟨hc, h.symm⟩
  · refine .inr ⟨hc, ?_⟩
    rw [if_neg hc] at h
    simp only [] at h
    split at h
    · cases h
    · next n receiver' socket hcall =>
        refine ⟨n, receiver',
          { agent with socket := socket, activeCommands := ids, others := others }, hcall,
          ⟨_, _, _, (ChunkedFileReceiver.receiveNextChunk_incoming hcall).1, rfl⟩, ?_⟩
        split at h
        · exact .inr ⟨_, _, by simp, .refl _, (Option.some.inj h).symm⟩
        · split at h
          · exact .inr ⟨_, _, by simp, .refl _, (Option.some.inj h).symm⟩
          · split at h
            · exact .inl (Option.some.inj h).symm
            · split at h
              · cases h
              · next hclean =>
                  exact .inr ⟨_, _, by simp,
                    ⟨_, _, _, ChunkedFileReceiver.cleanUp_incoming hclean, rfl⟩,
                    (Option.some.inj h).symm⟩
              · next hclean =>
                  exact .inr ⟨_, _, by simp,
                    ⟨_, _, _, ChunkedFileReceiver.cleanUp_incoming hclean, rfl⟩,
                    (Option.some.inj h).symm⟩

/-- What the loop of `ReadFileContents` leaves: only a complete file has contents. -/
theorem readFile_readsOn {rounds : ℕ} {receiver : ChunkedFileReceiver} {agent agent' : Agent}
    {last : FileReadEnd} {contents : List UInt8}
    (h : whileLoop (readFileStep pb fuel commandId) rounds (receiver, agent) =
      some (last, contents, agent')) :
    agent.ReadsOn agent' ∧ (last ≠ .complete → contents = []) := by
  refine whileLoop_inv (fun s => agent.ReadsOn s.2)
    (fun r => agent.ReadsOn r.2.2 ∧ (r.1 ≠ .complete → r.2.1 = [])) ?_ ?_ (.refl agent) h
  · rintro ⟨receiver, agent₁⟩ s' hinv hstep
    rcases readFileStep_cases hstep with
      ⟨-, hout⟩ | ⟨-, n, receiver', received, -, hreads, hout | ⟨last, agent', -, -, hout⟩⟩
    · cases hout
    · cases hout
      exact hinv.trans hreads
    · cases hout
  · rintro ⟨receiver, agent₁⟩ r hinv hstep
    rcases readFileStep_cases hstep with
      ⟨-, hout⟩ | ⟨-, n, receiver', received, -, hreads, hout | ⟨last, agent', -, hend, hout⟩⟩
    · cases hout
      exact ⟨hinv, fun hne => absurd rfl hne⟩
    · cases hout
    · cases hout
      exact ⟨(hinv.trans hreads).trans hend, fun _ => rfl⟩

/-- `ReadFileContents` takes at least one result off the socket. -/
theorem readFileContents_takes {agent agent' : Agent} {last : FileReadEnd}
    {contents : List UInt8}
    (h : agent.readFileContents pb fuel commandId = some (last, contents, agent')) :
    agent'.socket.incoming ≠ agent.socket.incoming := by
  -- the first call takes a result, and the others give none back
  have hfirst : ∀ n receiver' received, ChunkedFileReceiver.receiveNextChunk pb.fileContents {}
      agent.socket = some (n, receiver', received) →
      received.incoming.length < agent.socket.incoming.length := by
    intro n receiver' received hcall
    obtain ⟨hsuffix, htakes⟩ := ChunkedFileReceiver.receiveNextChunk_incoming hcall
    exact Nat.lt_of_le_of_ne hsuffix.length_le fun heq =>
      htakes (by decide) (hsuffix.eq_of_length heq)
  suffices hlt : agent'.socket.incoming.length < agent.socket.incoming.length from
    fun heq => absurd (congrArg List.length heq) (Nat.ne_of_lt hlt)
  rw [readFileContents] at h
  cases fuel with
  | zero => cases h
  | succ fuel =>
      rw [whileLoop] at h
      split at h
      · cases h
      · next s' hstep =>
          rcases readFileStep_cases hstep with
            ⟨hc, -⟩ | ⟨-, n, receiver', received, hcall, -, hout | ⟨_, _, -, -, hout⟩⟩
          · cases hc
          · cases hout
            obtain ⟨socket, _, _, hsuffix, rfl⟩ := (readFile_readsOn h).1
            exact Nat.lt_of_le_of_lt hsuffix.length_le (hfirst _ _ _ hcall)
          · cases hout
      · next r hstep =>
          rcases readFileStep_cases hstep with
            ⟨hc, -⟩ | ⟨-, n, receiver', received, hcall, -, hout | ⟨_, _, -, hend, hout⟩⟩
          · cases hc
          · cases hout
          · cases hout
            cases h
            obtain ⟨socket, _, _, hsuffix, rfl⟩ := hend
            exact Nat.lt_of_le_of_lt hsuffix.length_le (hfirst _ _ _ hcall)

/-- **The run lemma of `ReadFileContents`.** Let the receiver have the first `i` chunks, with
the frames of the others and then `rest` at hand or about to arrive. If the file is read to
its end, the contents are the file. No segment is taken after the one with the file's last
byte, and what that segment holds beyond it is lost: `lost` and the segments left make up
`rest`. -/
theorem readFile_complete (hpb : pb.Lawful) {rounds : ℕ} {agent agent' : Agent}
    {file contents : List UInt8} {i : ℕ} (hi : i ≤ chunkCount file)
    {receiver : ChunkedFileReceiver} (h : receiver.At file i)
    {segments : List (List UInt8)} (hseg : Segments segments) {tail : List RecvResult}
    (hin : agent.socket.incoming = arriving segments ++ tail) {rest : List UInt8}
    (hstream : receiver.parser.pending ++ segments.flatten =
      frames (((fileChunks file).drop i).map pb.fileContents.encoding) ++ rest)
    (hrun : whileLoop (readFileStep pb fuel commandId) rounds (receiver, agent) =
      some (.complete, contents, agent')) :
    contents = file ∧ ∃ taken left lost ids others, segments = taken ++ left ∧
      lost ++ left.flatten = rest ∧
      (taken = [] ∨ (receiver.parser.pending ++ taken.dropLast.flatten).length <
        (frames (((fileChunks file).drop i).map pb.fileContents.encoding)).length) ∧
      agent' = { agent with
        socket := { agent.socket with incoming := arriving left ++ tail }
        activeCommands := ids
        others := others } := by
  induction rounds generalizing i receiver agent segments with
  | zero => cases hrun
  | succ rounds ih =>
      rcases Nat.eq_or_lt_of_le hi with rfl | hlt
      · obtain ⟨hcomplete, hcontents⟩ := h.fileContents_of_complete
        have hnil : (fileChunks file).drop (chunkCount file) = [] :=
          List.drop_of_length_le (Nat.le_of_eq (length_fileChunks file))
        rw [hnil, List.map_nil, frames_nil, List.nil_append] at hstream
        have hstep : readFileStep pb fuel commandId (receiver, agent) =
            some (.inr (.complete, file, agent)) := by
          rw [readFileStep, if_pos hcomplete, ChunkedFileReceiver.getFileContents, hcontents]
        rw [whileLoop_return hstep, Option.some.injEq] at hrun
        obtain ⟨-, rfl, rfl⟩ : True ∧ file = contents ∧ agent = agent' := by simpa using hrun
        refine ⟨rfl, [], segments, receiver.parser.pending, agent.activeCommands, agent.others,
          rfl, hstream, .inl rfl, ?_⟩
        rw [← hin]
      · obtain ⟨taken, left, receiver', rfl, h', hrest, hmin, hcall⟩ :=
          h.receiveNextChunk_of_frames hpb.fileContents hpb.sized hlt hseg hin hstream
        rw [whileLoop] at hrun
        split at hrun
        · cases hrun
        · next s' hstep =>
            rcases readFileStep_cases hstep with
              ⟨-, hout⟩ | ⟨-, n, receiver'', received, hcall', hreads, hout | ⟨_, _, -, -, hout⟩⟩
            · cases hout
            · cases hout
              obtain ⟨socket, ids, others, -, rfl⟩ := hreads
              rw [hcall, Option.some.injEq, Prod.mk.injEq, Prod.mk.injEq] at hcall'
              obtain ⟨-, rfl, rfl⟩ := hcall'
              obtain ⟨hcontents, taken', left', lost, ids', others', rfl, hlost, hmin', rfl⟩ :=
                ih (i := i + 1) hlt h' hseg.right rfl hrest hrun
              refine ⟨hcontents, taken ++ taken', left', lost, ids', others',
                by rw [List.append_assoc], hlost, ?_, rfl⟩
              -- the frame, and what the receiver then holds, are what was taken for it
              rw [drop_fileChunks hlt, List.map_cons, frames_cons] at hstream ⊢
              have htaken : receiver.parser.pending ++ taken.flatten =
                  frame (pb.fileContents.encoding (chunkAt file i)) ++
                    receiver'.parser.pending := by
                rw [List.append_assoc, ← hrest, List.flatten_append, ← List.append_assoc,
                  ← List.append_assoc] at hstream
                exact List.append_cancel_right hstream
              rcases List.eq_nil_or_concat' taken' with rfl | ⟨before, last, rfl⟩
              · rw [List.append_nil]
                refine hmin.imp_right fun hshort => Nat.lt_of_lt_of_le hshort ?_
                rw [List.length_append]
                exact Nat.le_add_right _ _
              · right
                rcases hmin' with hnil | hmin'
                · exact absurd hnil (by simp)
                · rw [← List.append_assoc, List.dropLast_concat, List.flatten_append,
                    ← List.append_assoc, htaken]
                  rw [List.dropLast_concat] at hmin'
                  simp only [List.length_append] at hmin' ⊢
                  omega
            · cases hout
        · next r hstep =>
            rcases readFileStep_cases hstep with
              ⟨hc, -⟩ | ⟨-, _, _, _, -, -, hout | ⟨last, agent'', hlast, -, hout⟩⟩
            · exact absurd hc (h.not_hasCompleteFile hlt)
            · cases hout
            · cases hout
              cases hrun
              exact absurd rfl hlast

end ReadFile

end Agent

end Csci6780
