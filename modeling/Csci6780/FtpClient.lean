import Csci6780.ChunkedFiles
import Csci6780.MessageSizes
import Csci6780.ThreadPool

/-!
# The FTP Client

This module embeds the parts of `client::Client` and of the client's tasks that move a file:
`WaitForMessage` and `HandleResponse`, which read and show the server's response to a
request with the client's own parser, and `UploadTask` and `DownloadTask`, which the thread
pool runs afterwards on the same socket with a sender or a receiver of their own.

What the client leaves behind is kept in its state: the text it has written to the console
and the files it has handed to `SaveIncomingFile`. The pool's loop is `taskStep`; a task
that is not cancelled ends when `RunAtomic` returns something other than `RUNNING`.

## Main results

* `UploadTask.run_sends`: an upload that ends has sent the frames of its file.
* `DownloadTask.run_saves`: a download whose file arrives saves it.
* `DownloadTask.run_bytes`: a download saves no more than arrives.
-/

namespace Csci6780

/-! ### Tasks -/

/-- One round of the loop of `ThreadPool::RunTask`. -/
def taskStep {σ : Type} (runAtomic : σ → Option (TaskStatus × σ)) (s : σ) :
    Option (σ ⊕ (TaskStatus × σ)) :=
  match runAtomic s with
  | none => none
  | some (.running, s) => some (.inl s)
  | some (status, s) => some (.inr (status, s))

/-- `UploadTask`. -/
structure UploadTask where
  sender : ChunkedFileSender := {}
  deriving DecidableEq, Repr

namespace UploadTask

/-- The constructor of `UploadTask`. -/
def create (fileData : List UInt8) : UploadTask where
  sender := ChunkedFileSender.setFileContents {} fileData

/-- `UploadTask::RunAtomic`. -/
def runAtomic (pb : Protobuf FileContents) : UploadTask × Socket →
    Option (TaskStatus × UploadTask × Socket)
  | (task, socket) =>
      if task.sender.sentCompleteFile then some (.done, task, socket)
      else
        match task.sender.sendNextChunk pb socket with
        | none => none
        | some (kSendResult, sender, socket) =>
            let task := { task with sender := sender }
            if kSendResult < 0 then
              if socket.errno = .again then some (.running, task, socket)
              else some (.failed, task, socket)
            else if kSendResult = 0 then some (.done, task, socket)
            else some (.running, task, socket)

/-- The pool runs the task. -/
def run (pb : Protobuf FileContents) (fuel : ℕ) (task : UploadTask) (socket : Socket) :
    Option (TaskStatus × UploadTask × Socket) :=
  whileLoop (taskStep (runAtomic pb)) fuel (task, socket)

end UploadTask

/-- A file handed to `SaveIncomingFile`: its name and its contents. -/
structure SavedFile where
  name : String
  contents : List UInt8
  deriving DecidableEq, Repr

/-- `DownloadTask`. -/
structure DownloadTask where
  filename : String
  receiver : ChunkedFileReceiver := {}
  deriving DecidableEq, Repr

namespace DownloadTask

/-- `DownloadTask::RunAtomic`, with the files saved so far. -/
def runAtomic (pb : Protobuf FileContents) : DownloadTask × Socket × List SavedFile →
    Option (TaskStatus × DownloadTask × Socket × List SavedFile)
  | (task, socket, saved) =>
      if !task.receiver.hasCompleteFile then
        match task.receiver.receiveNextChunk pb socket with
        | none => none
        | some (bytesRead, receiver, socket) =>
            if bytesRead < 0 then
              if socket.errno = .again then
                some (.running, { task with receiver := receiver }, socket, saved)
              else some (.failed, { task with receiver := receiver.reset }, socket, saved)
            else if bytesRead = 0 then
              some (.done, { task with receiver := receiver }, socket, saved)
            else some (.running, { task with receiver := receiver }, socket, saved)
      else
        let (contents, receiver) := task.receiver.getFileContents
        some (.done, { task with receiver := receiver }, socket,
          saved ++ [⟨task.filename, contents⟩])

/-- The pool runs the task, and then `CleanUp`. -/
def run (pb : Protobuf FileContents) (fuel : ℕ) (task : DownloadTask) (socket : Socket)
    (saved : List SavedFile) : Option (TaskStatus × Socket × List SavedFile) :=
  match whileLoop (taskStep (runAtomic pb)) fuel (task, socket, saved) with
  | none => none
  | some (status, task, socket, saved) =>
      match task.receiver.cleanUp pb fuel socket with
      | none => none
      | some (_, _, socket) => some (status, socket, saved)

end DownloadTask

/-! ### The client -/

/-- `InputParser::GetContentsMessage`, given the contents of the local file. -/
def getContentsMessage (contents : List UInt8) : FileContents where
  contents := contents

/-- The names of a directory as `HandleResponse` shows them: three on a line. -/
def showNames (names : List String) : String :=
  String.join (names.zipIdx.map fun (name, i) =>
    name ++ if (i + 1) % 3 = 0 ∧ i ≠ names.length - 1 then "\n" else "   ")

/-- What `HandleResponse` shows of a response. -/
def showResponse : Response → String
  | .list filenames => showNames filenames
  | .pwd dirName => dirName
  | .put commandId => "command_id: " ++ toString commandId.toNat
  | .get commandId => "command_id: " ++ toString commandId.toNat
  | .notSet => ""

/-- `client::Client`, with what it has shown and saved. -/
structure Client where
  socket : Socket := {}
  connected : Bool := true
  parser : MessageParser := {}
  outgoingMsgBuf : List UInt8 := []
  shown : String := ""
  saved : List SavedFile := []
  deriving DecidableEq, Repr

namespace Client

/-- `Client::WaitForMessage`, `none` if it blocks. -/
def waitForMessage (client : Client) : Option (Bool × Client) :=
  match client.socket.recvLoop true client.parser.resetParser with
  | (.blocked, _, _) => none
  | (_, parser, socket) =>
      some (client.connected, { client with parser := parser, socket := socket })

/-- `Client::HandleResponse`. A response that cannot be got is shown as an empty one. -/
def handleResponse (pb : Protobuf Response) (client : Client) : Client :=
  let (msg, parser) := client.parser.getMessage pb
  { client with
    parser := parser
    shown := client.shown ++ showResponse (msg.getD .notSet) ++ "\n" }

/-- `Client::FtpShell` for `get`, from the response on: `WaitForMessage`, `HandleResponse`,
and the `DownloadTask`. -/
def get (pb : FtpProtobuf) (fuel : ℕ) (client : Client) (filename : String) :
    Option (TaskStatus × Client) := do
  let (_, client) ← client.waitForMessage
  let client := client.handleResponse pb.response
  let (status, socket, saved) ←
    DownloadTask.run pb.fileContents fuel { filename := filename } client.socket client.saved
  return (status, { client with socket := socket, saved := saved })

/-- `Client::FtpShell` for `put`: the `UploadTask` for the contents of the local file. -/
def createPutTask (pb : Protobuf FileContents) (client : Client) (contents : List UInt8) :
    UploadTask × Client :=
  let (_, buffer) := serialize pb (getContentsMessage contents) client.outgoingMsgBuf
  (UploadTask.create buffer, { client with outgoingMsgBuf := buffer })

end Client

/-! ### Uploading -/

section Upload

variable {pb : Protobuf FileContents} (hpb : pb.Lawful) (hsized : FileContentsSized pb)

include hpb hsized

/-- While every `send` accepts something, an upload goes on until the file is sent. -/
theorem UploadTask.taskStep_cases {task : UploadTask} {socket : Socket}
    (hacc : Accepting socket.sends)
    {out : (UploadTask × Socket) ⊕ (TaskStatus × UploadTask × Socket)}
    (h : taskStep (runAtomic pb) (task, socket) = some out) :
    (task.sender.sentCompleteFile = true ∧ out = .inr (.done, task, socket)) ∨
    (¬ task.sender.sentCompleteFile = true ∧ ∃ sender' socket',
      task.sender.sendNextChunk pb socket =
        some (((frame (pb.encoding task.sender.fileMessage)).length : ℤ), sender', socket') ∧
      sender'.fileContents = task.sender.fileContents ∧ Accepting socket'.sends ∧
      out = .inl (⟨sender'⟩, socket')) := by
  rw [taskStep, runAtomic] at h
  by_cases hdone : task.sender.sentCompleteFile = true
  · rw [if_pos hdone] at h
    exact .inl ⟨hdone, (Option.some.inj h).symm⟩
  · rw [if_neg hdone] at h
    have hpos : 0 < (frame (pb.encoding task.sender.fileMessage)).length := by
      rw [length_frame]
      omega
    rcases task.sender.sendNextChunk_of_accepting hpb hsized hacc with
      ⟨used, left, hsplit, -, hsend⟩ | ⟨-, hblocked⟩
    · refine .inr ⟨hdone, _, _, hsend, rfl, ?_, ?_⟩
      · rw [hsplit] at hacc
        exact hacc.right
      · simp only [hsend] at h
        rw [if_neg (by omega), if_neg (by omega)] at h
        exact (Option.some.inj h).symm
    · simp only [hblocked] at h
      cases h

/-- **An upload that ends has sent its file**: what the socket will have sent in the end has
been sent. -/
theorem UploadTask.run_sends {file wire : List UInt8} (hlen : file.length < 2 ^ 32) {i : ℕ}
    {task task' : UploadTask} {socket socket' : Socket}
    (h : ChunkedFileSender.Sending pb file wire i task.sender socket) {rounds : ℕ}
    {status : TaskStatus} (hrun : task.run pb rounds socket = some (status, task', socket')) :
    socket'.sent = wire := by
  refine whileLoop_inv
    (fun s => ∃ i, ChunkedFileSender.Sending pb file wire i s.1.sender s.2)
    (fun r => r.2.2.sent = wire) ?_ ?_ ⟨i, h⟩ hrun
  · rintro ⟨task, socket⟩ s' ⟨i, h⟩ hstep
    rcases taskStep_cases hpb hsized h.accepting hstep with
      ⟨-, hout⟩ | ⟨hnot, sender', socket₁, hsend, -, -, hout⟩
    · cases hout
    · cases hout
      obtain ⟨-, ⟨_, sender'', socket₂, -, h', -, hsend'⟩ | ⟨-, hblocked⟩⟩ :=
        h.sendNextChunk_spec hpb hsized hlen hnot
      · rw [hsend', Option.some.injEq, Prod.mk.injEq, Prod.mk.injEq] at hsend
        obtain ⟨-, rfl, rfl⟩ := hsend
        exact ⟨i + 1, h'⟩
      · rw [hblocked] at hsend
        cases hsend
  · rintro ⟨task, socket⟩ r ⟨i, h⟩ hstep
    rcases taskStep_cases hpb hsized h.accepting hstep with
      ⟨hdone, hout⟩ | ⟨-, sender', socket₁, -, -, -, hout⟩
    · cases hout
      exact h.sent_eq hdone
    · cases hout

/-- An upload that ends has a file of fewer than `2 ^ 32` bytes: the position in a longer
one wraps and never reaches its end. -/
theorem UploadTask.length_lt_of_run {rounds : ℕ} {task task' : UploadTask}
    {socket socket' : Socket} (hacc : Accepting socket.sends) {status : TaskStatus}
    (hrun : task.run pb rounds socket = some (status, task', socket')) :
    task.sender.fileContents.length < 2 ^ 32 := by
  refine whileLoop_inv
    (fun s => s.1.sender.fileContents = task.sender.fileContents ∧ Accepting s.2.sends)
    (fun _ => task.sender.fileContents.length < 2 ^ 32) ?_ ?_ ⟨rfl, hacc⟩ hrun
  · rintro ⟨task₁, socket⟩ s' ⟨hsame, hacc⟩ hstep
    rcases taskStep_cases hpb hsized hacc hstep with
      ⟨-, hout⟩ | ⟨-, sender', socket₁, -, hsame', hacc', hout⟩
    · cases hout
    · cases hout
      exact ⟨hsame'.trans hsame, hacc'⟩
  · rintro ⟨task₁, socket⟩ r ⟨hsame, hacc⟩ hstep
    rcases taskStep_cases hpb hsized hacc hstep with
      ⟨hdone, -⟩ | ⟨-, sender', socket₁, -, -, -, hout⟩
    · rw [← hsame]
      exact ChunkedFileSender.length_lt_of_sentCompleteFile hdone
    · cases hout

end Upload

/-! ### Downloading -/

section Download

variable {pb : Protobuf FileContents}

/-- A receiver that was reset has nothing to clean up. -/
theorem ChunkedFileReceiver.cleanUp_reset (receiver : ChunkedFileReceiver) (socket : Socket)
    (fuel : ℕ) : receiver.reset.cleanUp pb (fuel + 1) socket =
      some (true, receiver.reset.reset, socket) :=
  whileLoop_return rfl fuel

/-- A download on its way: the receiver has the first `i` chunks, and the segments hold the
frames of the others. -/
structure DownloadTask.Awaiting (pb : Protobuf FileContents) (file : List UInt8)
    (tail : List RecvResult) (i : ℕ) (task : DownloadTask) (socket : Socket) : Prop where
  le_chunkCount : i ≤ chunkCount file
  isAt : task.receiver.At file i
  arriving : ∃ segments, Segments segments ∧ socket.incoming = arriving segments ++ tail ∧
    task.receiver.parser.pending ++ segments.flatten =
      frames (((fileChunks file).drop i).map pb.encoding)

/-- **A download whose file arrives saves it.** The segments hold the frames of the file. -/
theorem DownloadTask.run_saves (hpb : pb.Lawful) (hsized : FileContentsSized pb)
    {file : List UInt8} {tail : List RecvResult} {i : ℕ} {task : DownloadTask}
    {socket : Socket} (h : Awaiting pb file tail i task socket) (saved : List SavedFile) :
    ∃ fuel socket', task.run pb fuel socket saved =
      some (.done, socket', saved ++ [⟨task.filename, file⟩]) := by
  have hrounds : ∃ fuel r, whileLoop (taskStep (runAtomic pb)) fuel (task, socket, saved) =
      some r ∧ r.1 = .done ∧ r.2.2.2 = saved ++ [⟨task.filename, file⟩] ∧
        ∃ receiver : ChunkedFileReceiver, r.2.1.receiver = receiver.reset := by
    refine whileLoop_returns
      (fun n s => ∃ i, Awaiting pb file tail i s.1 s.2.1 ∧ s.1.filename = task.filename ∧
        s.2.2 = saved ∧ n = chunkCount file - i) _ ?_ ⟨i, h, rfl, rfl, rfl⟩
    rintro n ⟨task', socket', saved'⟩ ⟨i, h, hname, rfl, rfl⟩
    replace h : Awaiting pb file tail i task' socket' := h
    rcases Nat.eq_or_lt_of_le h.le_chunkCount with rfl | hi
    · obtain ⟨hcomplete, hcontents⟩ := h.isAt.fileContents_of_complete
      replace hname : task'.filename = task.filename := hname
      refine .inr ⟨(.done, ⟨task.filename, task'.receiver.reset⟩, socket',
        saved' ++ [⟨task.filename, file⟩]), ?_, rfl, rfl, task'.receiver, rfl⟩
      rw [taskStep, runAtomic, hcomplete]
      simp only [Bool.not_true, Bool.false_eq_true, if_false,
        ChunkedFileReceiver.getFileContents, hcontents, hname]
    · obtain ⟨segments, hseg, hin, hstream⟩ := h.arriving
      rw [← List.append_nil (frames _)] at hstream
      obtain ⟨taken, left, receiver', rfl, h', hrest, -, hcall⟩ :=
        h.isAt.receiveNextChunk_of_frames hpb hsized hi hseg hin hstream
      rw [List.append_nil] at hrest
      have hpos := (length_contents_chunkAt hi).1
      refine .inl ⟨_, (⟨task'.filename, receiver'⟩,
        { socket' with incoming := arriving left ++ tail }, saved'), ?_, ?_, i + 1,
        ⟨hi, h', left, hseg.right, rfl, hrest⟩, hname, rfl, rfl⟩
      · omega
      · rw [taskStep, runAtomic, Bool.eq_false_iff.mpr (h.isAt.not_hasCompleteFile hi)]
        simp only [Bool.not_false, if_true, hcall]
        rw [if_neg (by omega), if_neg (by omega)]
  obtain ⟨fuel, ⟨status, task', socket', saved'⟩, hrun, rfl, rfl, receiver, hreset⟩ := hrounds
  replace hreset : task'.receiver = receiver.reset := hreset
  obtain ⟨fuel, rfl⟩ : ∃ k, fuel = k + 1 := by
    cases fuel with
    | zero => cases hrun
    | succ k => exact ⟨k, rfl⟩
  refine ⟨fuel + 1, socket', ?_⟩
  rw [run, hrun]
  simp only [hreset, ChunkedFileReceiver.cleanUp_reset]

/-- What a download has saved is what its rounds have saved. -/
theorem DownloadTask.rounds_of_run {fuel : ℕ} {task : DownloadTask} {socket socket' : Socket}
    {saved saved' : List SavedFile} {status : TaskStatus}
    (hrun : task.run pb fuel socket saved = some (status, socket', saved')) :
    ∃ task' socket'', whileLoop (taskStep (runAtomic pb)) fuel (task, socket, saved) =
      some (status, task', socket'', saved') := by
  rw [run] at hrun
  split at hrun
  · cases hrun
  · next hrounds =>
      split at hrun
      · cases hrun
      · cases hrun
        exact ⟨_, _, hrounds⟩

/-- No more data arrives. -/
def NoData (incoming : List RecvResult) : Prop := ∀ bytes, .data bytes ∉ incoming

/-- **The account of one call.** A `ReceiveNextChunk` call that receives a message takes its
frame off the bytes at hand and about to arrive; any other call takes nothing from them that
it does not keep. -/
theorem ChunkedFileReceiver.receiveNextChunk_bytes (hcompact : pb.Compact)
    {receiver receiver' : ChunkedFileReceiver} (hready : receiver.parser.Ready)
    {socket socket' : Socket} {segments : List (List UInt8)} (hseg : Segments segments)
    {tail : List RecvResult} (hin : socket.incoming = arriving segments ++ tail)
    (htail : NoData tail) {n : ℤ}
    (hcall : receiver.receiveNextChunk pb socket = some (n, receiver', socket')) :
    ∃ segments' tail', receiver'.parser.Ready ∧ Segments segments' ∧ NoData tail' ∧
      socket'.incoming = arriving segments' ++ tail' ∧
      ((receiver'.fileContents = receiver.fileContents ∧
          receiver'.completeFile = receiver.completeFile ∧
          (receiver'.parser.pending ++ segments'.flatten).length ≤
            (receiver.parser.pending ++ segments.flatten).length) ∨
        ∃ m, receiver'.fileContents = receiver.fileContents ++ m.contents ∧
          receiver'.completeFile = (receiver.completeFile || m.isLast) ∧
          (receiver'.parser.pending ++ segments'.flatten).length + (4 + pb.byteSizeLong m) ≤
            (receiver.parser.pending ++ segments.flatten).length) := by
  by_cases hf : HasFrame (receiver.parser.pending ++ segments.flatten)
  · obtain ⟨taken, left, parser, rfl, hparser, hpend, hft, -, hrun⟩ :=
      receiveNextChunk_of_hasFrame pb hready hseg hin hf
    have hlen := hft.length_afterFrame
    rw [← hpend] at hlen
    rw [hrun] at hcall
    rcases hparse : pb.parseBody (frameBody (receiver.parser.pending ++ taken.flatten)) with
      - | m
    · rw [hparse] at hcall
      cases hcall
      refine ⟨left, tail, hparser, hseg.right, htail, rfl, .inl ⟨rfl, rfl, ?_⟩⟩
      simp only [List.flatten_append, List.length_append] at hlen ⊢
      omega
    · rw [hparse] at hcall
      cases hcall
      have hsize := hcompact _ _ hparse
      refine ⟨left, tail, hparser, hseg.right, htail, rfl, .inr ⟨m, rfl, rfl, ?_⟩⟩
      simp only [List.flatten_append, List.length_append] at hlen ⊢
      omega
  · obtain ⟨parser, hparser, hpend, hrun⟩ := receiveNextChunk_of_not_hasFrame pb hready hseg hin
      (fun bytes rest h => htail bytes (h ▸ List.mem_cons_self)) hf
    have hle : (parser.pending ++ ([] : List (List UInt8)).flatten).length ≤
        (receiver.parser.pending ++ segments.flatten).length :=
      Nat.le_of_eq (by rw [hpend, List.flatten_nil, List.append_nil])
    rw [hrun] at hcall
    rcases tail with - | ⟨result, rest⟩
    · cases hcall
    · have hrest : NoData rest := fun bytes hmem => htail bytes (List.mem_cons_of_mem _ hmem)
      have hnil : Segments [] := fun _ hmem => absurd hmem List.not_mem_nil
      cases result with
      | data bytes => exact absurd List.mem_cons_self (htail bytes)
      | closed | timedOut | failed =>
          cases hcall
          exact ⟨[], rest, hparser, hnil, hrest, rfl, .inl ⟨rfl, rfl, hle⟩⟩

/-- One round of a download saves the complete file, or receives the next chunk. -/
theorem DownloadTask.taskStep_cases {task : DownloadTask} {socket : Socket}
    {saved : List SavedFile}
    {out : (DownloadTask × Socket × List SavedFile) ⊕
      (TaskStatus × DownloadTask × Socket × List SavedFile)}
    (h : taskStep (runAtomic pb) (task, socket, saved) = some out) :
    (task.receiver.completeFile = true ∧ ∃ task', out = .inr (.done, task', socket,
      saved ++ [⟨task.filename, task.receiver.fileContents⟩])) ∨
    (task.receiver.completeFile = false ∧ ∃ n receiver' socket',
      task.receiver.receiveNextChunk pb socket = some (n, receiver', socket') ∧
      (out = .inl (⟨task.filename, receiver'⟩, socket', saved) ∨
        ∃ status task', out = .inr (status, task', socket', saved))) := by
  rw [taskStep, runAtomic, ChunkedFileReceiver.hasCompleteFile] at h
  cases hc : task.receiver.completeFile with
  | true =>
      rw [hc] at h
      exact .inl ⟨rfl, _, (Option.some.inj h).symm⟩
  | false =>
      right
      rw [hc] at h
      rcases hcall : task.receiver.receiveNextChunk pb socket with - | ⟨n, receiver', socket'⟩
      · rw [hcall] at h
        cases h
      · refine ⟨rfl, n, receiver', socket', rfl, ?_⟩
        simp only [hcall, Bool.not_false, if_true] at h
        by_cases hneg : n < 0
        · rw [if_pos hneg] at h
          by_cases hagain : socket'.errno = .again
          · rw [if_pos hagain] at h
            exact .inl (Option.some.inj h).symm
          · rw [if_neg hagain] at h
            exact .inr ⟨_, _, (Option.some.inj h).symm⟩
        · rw [if_neg hneg] at h
          by_cases hzero : n = 0
          · rw [if_pos hzero] at h
            exact .inr ⟨_, _, (Option.some.inj h).symm⟩
          · rw [if_neg hzero] at h
            exact .inl (Option.some.inj h).symm

/-- The account of a download: what it has could have been written in `bytes` bytes, with
room for what is at hand and about to arrive, or for one frame when it has the file. -/
structure DownloadTask.Accounted (pb : Protobuf FileContents) (bytes : ℕ)
    (task : DownloadTask) (socket : Socket) : Prop where
  ready : task.receiver.parser.Ready
  arriving : ∃ segments tail, Segments segments ∧ NoData tail ∧
    socket.incoming = arriving segments ++ tail ∧
    (task.receiver.completeFile = true ∧
        4 + pb.byteSizeLong ⟨task.receiver.fileContents, true⟩ ≤ bytes ∨
      task.receiver.completeFile = false ∧
        pb.byteSizeLong ⟨task.receiver.fileContents, false⟩ +
          (task.receiver.parser.pending ++ segments.flatten).length ≤ bytes)

/-- One call of a download that does not have its file yet keeps the account. -/
theorem DownloadTask.Accounted.receiveNextChunk {bytes : ℕ} {task : DownloadTask}
    {socket socket' : Socket} (h : Accounted pb bytes task socket) (hcompact : pb.Compact)
    (hadd : FileContentsAdditive pb) (hnot : task.receiver.completeFile = false) {n : ℤ}
    {receiver' : ChunkedFileReceiver}
    (hcall : task.receiver.receiveNextChunk pb socket = some (n, receiver', socket')) :
    Accounted pb bytes ⟨task.filename, receiver'⟩ socket' := by
  obtain ⟨segments, tail, hseg, htail, hin, ⟨hfalse, -⟩ | ⟨-, hroom⟩⟩ := h.arriving
  · rw [hnot] at hfalse
    cases hfalse
  · obtain ⟨segments', tail', hready', hseg', htail', hin', hbytes⟩ :=
      ChunkedFileReceiver.receiveNextChunk_bytes hcompact h.ready hseg hin htail hcall
    refine ⟨hready', segments', tail', hseg', htail', hin', ?_⟩
    simp only []
    rcases hbytes with ⟨hsame, hcomplete, hle⟩ | ⟨⟨chunk, isLast⟩, hmore, hcomplete, hle⟩
    · rw [hcomplete, hsame]
      exact .inr ⟨hnot, by omega⟩
    · have hsize := hadd.append task.receiver.fileContents chunk isLast
      rw [hnot, Bool.false_or] at hcomplete
      replace hmore : receiver'.fileContents = task.receiver.fileContents ++ chunk := hmore
      rw [hcomplete, hmore]
      cases isLast with
      | false => exact .inr ⟨rfl, by omega⟩
      | true => exact .inl ⟨rfl, by omega⟩

/-- **A download saves no more than arrives**: what it saves could have been written in one
frame within the bytes accounted for. -/
theorem DownloadTask.run_bytes (hcompact : pb.Compact) (hadd : FileContentsAdditive pb)
    {bytes : ℕ} {task : DownloadTask} {socket socket' : Socket}
    (h : Accounted pb bytes task socket) {fuel : ℕ} {saved saved' : List SavedFile}
    {status : TaskStatus}
    (hrun : task.run pb fuel socket saved = some (status, socket', saved')) :
    saved' = saved ∨ ∃ contents, saved' = saved ++ [⟨task.filename, contents⟩] ∧
      4 + pb.byteSizeLong ⟨contents, true⟩ ≤ bytes := by
  obtain ⟨task', socket'', hrounds⟩ := rounds_of_run hrun
  refine whileLoop_inv
    (fun s => Accounted pb bytes s.1 s.2.1 ∧ s.1.filename = task.filename ∧ s.2.2 = saved)
    (fun r => r.2.2.2 = saved ∨ ∃ contents, r.2.2.2 = saved ++ [⟨task.filename, contents⟩] ∧
      4 + pb.byteSizeLong ⟨contents, true⟩ ≤ bytes) ?_ ?_ ⟨h, rfl, rfl⟩ hrounds
  · rintro ⟨task₁, socket₁, saved₁⟩ s' ⟨h, hname, hsaved⟩ hstep
    rcases taskStep_cases hstep with
      ⟨-, _, hout⟩ | ⟨hnot, n, receiver', socket₂, hcall, hout | ⟨_, _, hout⟩⟩
    · cases hout
    · cases hout
      exact ⟨h.receiveNextChunk hcompact hadd hnot hcall, hname, hsaved⟩
    · cases hout
  · rintro ⟨task₁, socket₁, saved₁⟩ r ⟨h, hname, rfl⟩ hstep
    replace hname : task₁.filename = task.filename := hname
    rcases taskStep_cases hstep with
      ⟨hcomplete, _, hout⟩ | ⟨-, n, receiver', socket₂, -, hout | ⟨_, _, hout⟩⟩
    · cases hout
      refine .inr ⟨task₁.receiver.fileContents, by rw [hname], ?_⟩
      obtain ⟨-, -, -, -, -, ⟨-, hle⟩ | ⟨hfalse, -⟩⟩ := h.arriving
      · exact hle
      · rw [hcomplete] at hfalse
        cases hfalse
    · cases hout
    · cases hout
      exact .inl rfl

end Download

end Csci6780
