import Csci6780.FtpMessages
import Csci6780.Socket
import Csci6780.Lib.Loop

/-!
# Chunked Files

This module embeds `common/chunked_files`. `ChunkedFileSender` cuts a file into
`FileContents` messages of at most 1000 bytes and sends each with as many `send` calls as
it takes; `ChunkedFileReceiver` reads messages back until it has seen one that is marked as
the last.

The sender's position in the file is a `uint32_t` and is a `UInt32` here; the size of the
file is a `size_t`, which no list exceeds. The position never passes the size, so the
source's unsigned subtraction of the two is the subtraction of natural numbers.

The messages of a file are `fileChunks file`, a definition of what is to be sent that knows
nothing about positions or calls.

## Main results

* `ChunkedFileSender.sendFile`: the sender puts exactly the frames of `fileChunks` on the
  wire.
* `receiveNextChunk_of_hasFrame`: one call takes one message off the stream.
* `chunked_transfer_round_trip`: the receiver reassembles the file from any segmentation.
-/

namespace Csci6780

/-! ### The sender -/

/-- Number of bytes of the file to send in each chunk. -/
def kChunkSize : ℕ := 1000

/-- `ChunkedFileSender`. -/
structure ChunkedFileSender where
  outgoingMessageBuffer : List UInt8 := []
  fileContents : List UInt8 := []
  totalBytesSent : UInt32 := 0
  deriving DecidableEq, Repr

namespace ChunkedFileSender

/-- `ChunkedFileSender::SetFileContents`. -/
def setFileContents (sender : ChunkedFileSender) (contents : List UInt8) : ChunkedFileSender :=
  { sender with fileContents := contents, totalBytesSent := 0 }

/-- The size of the next chunk. -/
def kActualSize (sender : ChunkedFileSender) : ℕ :=
  min kChunkSize (sender.fileContents.length - sender.totalBytesSent.toNat)

/-- The message that `SendNextChunk` packs. -/
def fileMessage (sender : ChunkedFileSender) : FileContents where
  contents := (sender.fileContents.drop sender.totalBytesSent.toNat).take sender.kActualSize
  isLast := sender.totalBytesSent.toNat + kChunkSize ≥ sender.fileContents.length

/-- `ChunkedFileSender::SendNextChunk`, `none` if it blocks. -/
def sendNextChunk (pb : Protobuf FileContents) (sender : ChunkedFileSender) (socket : Socket) :
    Option (ℤ × ChunkedFileSender × Socket) :=
  let (serialized, buffer) := serialize pb sender.fileMessage sender.outgoingMessageBuffer
  let packed := { sender with outgoingMessageBuffer := buffer }
  if serialized then
    match socket.sendLoop buffer with
    | (.complete, socket) =>
        some (sizeToInt buffer.length,
          { packed with
            totalBytesSent := sender.totalBytesSent + UInt32.ofNat sender.kActualSize },
          socket)
    | (.closed, socket) => some (0, packed, socket)
    | (.timedOut, socket) => some (-1, packed, socket)
    | (.failed, socket) => some (-1, packed, socket)
    | (.blocked, _) => none
  else some (-1, packed, socket)

/-- `ChunkedFileSender::SentCompleteFile`. -/
def sentCompleteFile (sender : ChunkedFileSender) : Bool :=
  sender.totalBytesSent.toNat = sender.fileContents.length

/-- One round of calling `SendNextChunk` until `SentCompleteFile`. -/
def sendStep (pb : Protobuf FileContents) : ChunkedFileSender × Socket →
    Option ((ChunkedFileSender × Socket) ⊕ (ChunkedFileSender × Socket))
  | (sender, socket) =>
      if sender.sentCompleteFile then some (.inr (sender, socket))
      else
        match sender.sendNextChunk pb socket with
        | none => none
        | some (_, sender, socket) => some (.inl (sender, socket))

end ChunkedFileSender

/-! ### The receiver -/

/-- `ChunkedFileReceiver`. -/
structure ChunkedFileReceiver where
  parser : MessageParser := {}
  fileContents : List UInt8 := []
  completeFile : Bool := false
  deriving DecidableEq, Repr

namespace ChunkedFileReceiver

/-- `ChunkedFileReceiver::ReceiveNextChunk`, `none` if it blocks. -/
def receiveNextChunk (pb : Protobuf FileContents) (receiver : ChunkedFileReceiver)
    (socket : Socket) : Option (ℤ × ChunkedFileReceiver × Socket) :=
  match socket.recvLoop false receiver.parser with
  | (.complete, parser, socket) =>
      match parser.getMessage pb with
      | (none, parser) => some (-1, { receiver with parser := parser }, socket)
      | (some fileMessage, parser) =>
          some (sizeToInt fileMessage.contents.length,
            { parser := parser
              fileContents := receiver.fileContents ++ fileMessage.contents
              completeFile := receiver.completeFile || fileMessage.isLast },
            socket)
  | (.closed, parser, socket) => some (0, { receiver with parser := parser }, socket)
  | (.timedOut, parser, socket) => some (-1, { receiver with parser := parser }, socket)
  | (.failed, parser, socket) => some (-1, { receiver with parser := parser }, socket)
  | (.blocked, _, _) => none

/-- `ChunkedFileReceiver::HasCompleteFile`. -/
def hasCompleteFile (receiver : ChunkedFileReceiver) : Bool := receiver.completeFile

/-- `ChunkedFileReceiver::Reset`. -/
def reset (receiver : ChunkedFileReceiver) : ChunkedFileReceiver where
  parser := receiver.parser.resetParser

/-- `ChunkedFileReceiver::GetFileContents`: the contents and the receiver afterwards. -/
def getFileContents (receiver : ChunkedFileReceiver) : List UInt8 × ChunkedFileReceiver :=
  (receiver.fileContents, receiver.reset)

/-- One round of `CleanUp`. -/
def cleanUpStep (pb : Protobuf FileContents) : ChunkedFileReceiver × Socket →
    Option ((ChunkedFileReceiver × Socket) ⊕ (Bool × ChunkedFileReceiver × Socket))
  | (receiver, socket) =>
      if receiver.parser.hasOverflow || receiver.parser.hasPartialMessage then
        match receiver.receiveNextChunk pb socket with
        | none => none
        | some (result, receiver, socket) =>
            if result < 0 then some (.inr (false, receiver, socket))
            else some (.inl (receiver, socket))
      else some (.inr (true, receiver.reset, socket))

/-- `ChunkedFileReceiver::CleanUp`. -/
def cleanUp (pb : Protobuf FileContents) (fuel : ℕ) (receiver : ChunkedFileReceiver)
    (socket : Socket) : Option (Bool × ChunkedFileReceiver × Socket) :=
  whileLoop (cleanUpStep pb) fuel (receiver, socket)

/-- A `ReceiveNextChunk` call as it is logged: what it returned and the recv results it
took. -/
structure Call where
  result : ℤ
  taken : List RecvResult
  deriving DecidableEq, Repr

/-- One round of calling `ReceiveNextChunk` until `HasCompleteFile`, with a log of the
calls. -/
def receiveStep (pb : Protobuf FileContents) : List Call × ChunkedFileReceiver × Socket →
    Option ((List Call × ChunkedFileReceiver × Socket) ⊕
      (List Call × ChunkedFileReceiver × Socket))
  | (calls, receiver, socket) =>
      if receiver.hasCompleteFile then some (.inr (calls, receiver, socket))
      else
        match receiver.receiveNextChunk pb socket with
        | none => none
        | some (result, receiver', socket') =>
            let taken :=
              socket.incoming.take (socket.incoming.length - socket'.incoming.length)
            some (.inl (calls ++ [⟨result, taken⟩], receiver', socket'))

end ChunkedFileReceiver

/-! ### The chunks of a file -/

/-- The number of chunks of a file. -/
def chunkCount (file : List UInt8) : ℕ := (file.length + 999) / kChunkSize

/-- The `i`-th chunk of a file. -/
def chunkAt (file : List UInt8) (i : ℕ) : FileContents where
  contents := (file.drop (kChunkSize * i)).take kChunkSize
  isLast := kChunkSize * i + kChunkSize ≥ file.length

/-- The messages a file is sent as. -/
def fileChunks (file : List UInt8) : List FileContents :=
  (List.range (chunkCount file)).map (chunkAt file)

@[simp] theorem length_fileChunks (file : List UInt8) :
    (fileChunks file).length = chunkCount file := by
  rw [fileChunks, List.length_map, List.length_range]

/-- The first `k` chunks hold the first `1000 * k` bytes. -/
theorem flatMap_contents_range (file : List UInt8) (k : ℕ) :
    ((List.range k).map (chunkAt file)).flatMap FileContents.contents =
      file.take (kChunkSize * k) := by
  induction k with
  | zero => rw [Nat.mul_zero, List.take_zero]; rfl
  | succ k ih =>
      rw [List.range_succ, List.map_append, List.flatMap_append, ih, List.map_singleton,
        List.flatMap_singleton, chunkAt, Nat.mul_succ, List.take_add]

/-- The chunks hold the file. -/
theorem flatMap_contents_fileChunks (file : List UInt8) :
    (fileChunks file).flatMap FileContents.contents = file := by
  rw [fileChunks, flatMap_contents_range]
  refine List.take_of_length_le ?_
  simp only [chunkCount, kChunkSize]
  omega

/-- Only the last chunk is marked as such. -/
theorem isLast_chunkAt {file : List UInt8} {i : ℕ} (hi : i < chunkCount file) :
    (chunkAt file i).isLast = true ↔ i + 1 = chunkCount file := by
  rw [chunkAt, decide_eq_true_iff]
  simp only [chunkCount, kChunkSize] at hi ⊢
  omega

theorem map_isLast_fileChunks {file : List UInt8} (hne : file ≠ []) :
    (fileChunks file).map FileContents.isLast =
      List.replicate (chunkCount file - 1) false ++ [true] := by
  obtain ⟨k, hk⟩ : ∃ k, chunkCount file = k + 1 := by
    have hpos := List.length_pos_iff.mpr hne
    refine ⟨chunkCount file - 1, ?_⟩
    simp only [chunkCount, kChunkSize]
    omega
  have hlast : (chunkAt file k).isLast = true := (isLast_chunkAt (by omega)).mpr hk.symm
  rw [fileChunks, hk, List.range_succ, Nat.add_sub_cancel, List.map_append, List.map_append,
    List.map_singleton, List.map_singleton, hlast]
  congr 1
  rw [List.eq_replicate_iff]
  refine ⟨by simp, ?_⟩
  intro b hb
  obtain ⟨m, hm, rfl⟩ := List.mem_map.mp hb
  obtain ⟨i, hi, rfl⟩ := List.mem_map.mp hm
  rw [List.mem_range] at hi
  rw [Bool.eq_false_iff, ne_eq, isLast_chunkAt (by omega)]
  omega

/-- No chunk of a file is empty, and none holds more than 1000 bytes. -/
theorem length_contents_chunkAt {file : List UInt8} {i : ℕ} (hi : i < chunkCount file) :
    1 ≤ (chunkAt file i).contents.length ∧ (chunkAt file i).contents.length ≤ kChunkSize := by
  simp only [chunkAt, chunkCount, kChunkSize, List.length_take, List.length_drop] at hi ⊢
  omega

section Transfer

variable {pb : Protobuf FileContents}

/-- A chunk is far from the size limit of a message. -/
theorem FileContentsSized.byteSizeLong_chunkAt_lt (hsized : FileContentsSized pb)
    {file : List UInt8} {i : ℕ} (hi : i < chunkCount file) :
    pb.byteSizeLong (chunkAt file i) < 2 ^ 31 := by
  have hle := (hsized (chunkAt file i)).2
  have hlen := (length_contents_chunkAt hi).2
  simp only [kChunkSize] at hlen
  omega

theorem FileContentsSized.length_encoding_chunkAt_lt (hsized : FileContentsSized pb)
    (hpb : pb.Lawful) {file : List UInt8} {i : ℕ} (hi : i < chunkCount file) :
    (pb.encoding (chunkAt file i)).length < 2 ^ 32 := by
  have hsize := hsized.byteSizeLong_chunkAt_lt hi
  rw [hpb.length_encoding hsize]
  omega

theorem FileContentsSized.small_fileChunks (hsized : FileContentsSized pb)
    (file : List UInt8) : Small pb (fileChunks file) := by
  intro m hm
  obtain ⟨i, hi, rfl⟩ := List.mem_map.mp hm
  exact hsized.byteSizeLong_chunkAt_lt (List.mem_range.mp hi)

/-! ### Sending a file -/

/-- A packed message holds at most 1000 bytes of the file. -/
theorem ChunkedFileSender.byteSizeLong_fileMessage_lt (hsized : FileContentsSized pb)
    (sender : ChunkedFileSender) : pb.byteSizeLong sender.fileMessage < 1100 := by
  have hle := (hsized sender.fileMessage).2
  have hlen : sender.fileMessage.contents.length ≤ kChunkSize := by
    rw [fileMessage, List.length_take, kActualSize]
    omega
  simp only [kChunkSize] at hlen
  omega

/-- A file that is sent completely has a size that its position can hold. -/
theorem ChunkedFileSender.length_lt_of_sentCompleteFile {sender : ChunkedFileSender}
    (h : sender.sentCompleteFile = true) : sender.fileContents.length < 2 ^ 32 := by
  rw [sentCompleteFile, decide_eq_true_iff] at h
  rw [← h]
  exact sender.totalBytesSent.toNat_lt

/-- The frame of a packed message is far from the size of a C `int`. -/
theorem ChunkedFileSender.length_frame_fileMessage_lt (hpb : pb.Lawful)
    (hsized : FileContentsSized pb) (sender : ChunkedFileSender) :
    (frame (pb.encoding sender.fileMessage)).length < 2 ^ 31 := by
  have hsmall := sender.byteSizeLong_fileMessage_lt hsized
  rw [length_frame, hpb.length_encoding (by omega)]
  omega

/-- `SendNextChunk` sends the frame of its message, and moves on when it is complete. -/
theorem ChunkedFileSender.sendNextChunk_eq (hpb : pb.Lawful) (hsized : FileContentsSized pb)
    (sender : ChunkedFileSender) (socket : Socket) :
    sender.sendNextChunk pb socket =
      let packed :=
        { sender with outgoingMessageBuffer := frame (pb.encoding sender.fileMessage) }
      match socket.sendLoop (frame (pb.encoding sender.fileMessage)) with
      | (.complete, socket) =>
          some (((frame (pb.encoding sender.fileMessage)).length : ℤ),
            { packed with
              totalBytesSent := sender.totalBytesSent + UInt32.ofNat sender.kActualSize },
            socket)
      | (.closed, socket) => some (0, packed, socket)
      | (.timedOut, socket) => some (-1, packed, socket)
      | (.failed, socket) => some (-1, packed, socket)
      | (.blocked, _) => none := by
  have hsmall := sender.byteSizeLong_fileMessage_lt hsized
  rw [sendNextChunk, serialize_eq_frame hpb (by omega) sender.outgoingMessageBuffer]
  simp only [if_true, sizeToInt_of_lt (sender.length_frame_fileMessage_lt hpb hsized)]

/-- **One chunk.** When every `send` accepts something, `SendNextChunk` puts the frame of
its message on the wire and moves on, unless it blocks for lack of `send` results. -/
theorem ChunkedFileSender.sendNextChunk_of_accepting (hpb : pb.Lawful)
    (hsized : FileContentsSized pb) (sender : ChunkedFileSender) {socket : Socket}
    (hacc : Accepting socket.sends) :
    (∃ used left : List SendResult, socket.sends = used ++ left ∧
      used.length ≤ (frame (pb.encoding sender.fileMessage)).length ∧
      sender.sendNextChunk pb socket =
        some (((frame (pb.encoding sender.fileMessage)).length : ℤ),
          { sender with
            outgoingMessageBuffer := frame (pb.encoding sender.fileMessage)
            totalBytesSent := sender.totalBytesSent + UInt32.ofNat sender.kActualSize },
          { socket with
            sends := left, sent := socket.sent ++ frame (pb.encoding sender.fileMessage) })) ∨
    (socket.sends.length < (frame (pb.encoding sender.fileMessage)).length ∧
      sender.sendNextChunk pb socket = none) := by
  rw [sender.sendNextChunk_eq hpb hsized]
  rcases socket.sendLoop_of_accepting hacc (frame (pb.encoding sender.fileMessage)) with
    ⟨used, left, hsplit, hused, hrun⟩ | ⟨hlt, hrun⟩
  · refine .inl ⟨used, left, hsplit, hused, ?_⟩
    simp only [hrun]
  · refine .inr ⟨hlt, ?_⟩
    obtain ⟨socket', hblocked⟩ : ∃ socket',
        socket.sendLoop (frame (pb.encoding sender.fileMessage)) = (.blocked, socket') :=
      ⟨_, Prod.ext hrun rfl⟩
    simp only [hblocked]

/-- The sender is about to send the `i`-th chunk of `file`, or done when there is none. -/
structure ChunkedFileSender.At (sender : ChunkedFileSender) (file : List UInt8) (i : ℕ) :
    Prop where
  fileContents_eq : sender.fileContents = file
  totalBytesSent_eq : sender.totalBytesSent.toNat = min (kChunkSize * i) file.length

theorem ChunkedFileSender.at_zero (sender : ChunkedFileSender) (file : List UInt8) :
    (sender.setFileContents file).At file 0 :=
  ⟨rfl, by rw [Nat.mul_zero, Nat.zero_min]; rfl⟩

namespace ChunkedFileSender.At

variable {sender : ChunkedFileSender} {file : List UInt8} {i : ℕ}

/-- The file is sent when there are no chunks left. -/
theorem sentCompleteFile_iff (h : sender.At file i) :
    sender.sentCompleteFile = true ↔ chunkCount file ≤ i := by
  rw [ChunkedFileSender.sentCompleteFile, decide_eq_true_iff, h.totalBytesSent_eq,
    h.fileContents_eq]
  simp only [chunkCount, kChunkSize]
  omega

theorem totalBytesSent_of_lt (h : sender.At file i) (hi : i < chunkCount file) :
    sender.totalBytesSent.toNat = kChunkSize * i := by
  rw [h.totalBytesSent_eq]
  simp only [chunkCount, kChunkSize] at hi ⊢
  omega

/-- The message that is packed is the `i`-th chunk. -/
theorem fileMessage_eq (h : sender.At file i) (hi : i < chunkCount file) :
    sender.fileMessage = chunkAt file i := by
  have htake : ∀ n, (file.drop n).take (min kChunkSize (file.length - n)) =
      (file.drop n).take kChunkSize := by
    intro n
    have hall : (file.drop n).take (file.drop n).length = file.drop n := List.take_length
    rw [← List.length_drop, ← List.take_take, hall]
  rw [ChunkedFileSender.fileMessage, ChunkedFileSender.kActualSize, h.fileContents_eq,
    h.totalBytesSent_of_lt hi, htake]
  rfl

/-- The sender moves on to the next chunk, unless its position wraps. -/
theorem succ (h : sender.At file i) (hi : i < chunkCount file)
    (hwrap : sender.totalBytesSent.toNat + sender.kActualSize < 2 ^ 32) (buffer : List UInt8) :
    ChunkedFileSender.At { sender with
      outgoingMessageBuffer := buffer
      totalBytesSent := sender.totalBytesSent + UInt32.ofNat sender.kActualSize } file (i + 1) := by
  refine ⟨h.fileContents_eq, ?_⟩
  have htotal := h.totalBytesSent_of_lt hi
  simp only [ChunkedFileSender.kActualSize, h.fileContents_eq, htotal, UInt32.toNat_add,
    UInt32.toNat_ofNat', chunkCount, kChunkSize] at hi hwrap ⊢
  omega

/-- The position in a short file does not wrap. -/
theorem add_kActualSize_lt (h : sender.At file i) (hlen : file.length < 2 ^ 32) :
    sender.totalBytesSent.toNat + sender.kActualSize < 2 ^ 32 := by
  rw [ChunkedFileSender.kActualSize, h.fileContents_eq, h.totalBytesSent_eq]
  omega

/-- The `i`-th chunk is sent, and the sender is at the next one. -/
theorem sendNextChunk_spec (h : sender.At file i) (hpb : pb.Lawful)
    (hsized : FileContentsSized pb) (hi : i < chunkCount file) (hlen : file.length < 2 ^ 32)
    {socket : Socket} (hacc : Accepting socket.sends) :
    (∃ (sender' : ChunkedFileSender) (used left : List SendResult),
      sender'.At file (i + 1) ∧ socket.sends = used ++ left ∧
      used.length ≤ (frame (pb.encoding (chunkAt file i))).length ∧
      sender.sendNextChunk pb socket =
        some (((frame (pb.encoding (chunkAt file i))).length : ℤ), sender',
          { socket with
            sends := left, sent := socket.sent ++ frame (pb.encoding (chunkAt file i)) })) ∨
    (socket.sends.length < (frame (pb.encoding (chunkAt file i))).length ∧
      sender.sendNextChunk pb socket = none) := by
  rw [← h.fileMessage_eq hi]
  refine (sender.sendNextChunk_of_accepting hpb hsized hacc).imp_left ?_
  rintro ⟨used, left, hsplit, hused, hsend⟩
  exact ⟨_, used, left, h.succ hi (h.add_kActualSize_lt hlen) _, hsplit, hused, hsend⟩

end ChunkedFileSender.At

/-- The chunks from the `i`-th on. -/
theorem drop_fileChunks {file : List UInt8} {i : ℕ} (hi : i < chunkCount file) :
    (fileChunks file).drop i = chunkAt file i :: (fileChunks file).drop (i + 1) := by
  have hi' : i < (fileChunks file).length := by rwa [length_fileChunks]
  rw [List.drop_eq_getElem_cons hi']
  congr 1
  simp [fileChunks]

/-- A sender on its way: it is at the `i`-th chunk, every `send` to come accepts something,
and `wire` is what the socket will have sent in the end. -/
structure ChunkedFileSender.Sending (pb : Protobuf FileContents) (file wire : List UInt8)
    (i : ℕ) (sender : ChunkedFileSender) (socket : Socket) : Prop where
  isAt : sender.At file i
  accepting : Accepting socket.sends
  sent_append : socket.sent ++ frames (((fileChunks file).drop i).map pb.encoding) = wire

namespace ChunkedFileSender.Sending

variable {file wire : List UInt8} {i : ℕ} {sender : ChunkedFileSender} {socket : Socket}

/-- A sender on its way that is done has sent everything. -/
theorem sent_eq (h : Sending pb file wire i sender socket)
    (hdone : sender.sentCompleteFile = true) : socket.sent = wire := by
  have hnil : (fileChunks file).drop i = [] :=
    List.drop_of_length_le (by rw [length_fileChunks]; exact h.isAt.sentCompleteFile_iff.mp hdone)
  rw [← h.sent_append, hnil, List.map_nil, frames_nil, List.append_nil]

/-- A sender on its way that is not done sends its chunk with at most one `send` for each
byte, unless it runs out of these. -/
theorem sendNextChunk_spec (h : Sending pb file wire i sender socket) (hpb : pb.Lawful)
    (hsized : FileContentsSized pb) (hlen : file.length < 2 ^ 32)
    (hnot : ¬ sender.sentCompleteFile = true) :
    i < chunkCount file ∧
    ((∃ (n : ℕ) (sender' : ChunkedFileSender) (socket' : Socket), 0 < n ∧
        Sending pb file wire (i + 1) sender' socket' ∧
        socket.sends.length ≤
          (frame (pb.encoding (chunkAt file i))).length + socket'.sends.length ∧
        sender.sendNextChunk pb socket = some ((n : ℤ), sender', socket')) ∨
      (socket.sends.length < (frame (pb.encoding (chunkAt file i))).length ∧
        sender.sendNextChunk pb socket = none)) := by
  have hi : i < chunkCount file :=
    Nat.lt_of_not_le fun hle => hnot (h.isAt.sentCompleteFile_iff.mpr hle)
  refine ⟨hi, ?_⟩
  rcases h.isAt.sendNextChunk_spec hpb hsized hi hlen h.accepting with
    ⟨sender', used, left, hat, hsplit, hused, hsend⟩ | hblocked
  · have hwire := h.sent_append
    have haccepting := h.accepting
    have hcount := congrArg List.length hsplit
    rw [drop_fileChunks hi, List.map_cons, frames_cons, ← List.append_assoc] at hwire
    rw [hsplit] at haccepting
    rw [List.length_append] at hcount
    refine .inl ⟨_, sender', _, ?_, ⟨hat, haccepting.right, hwire⟩, ?_, hsend⟩
    · rw [length_frame]
      omega
    · simp only []
      omega
  · exact .inr hblocked

end ChunkedFileSender.Sending

/-- **Sending a file.** With enough `send` calls that all accept something, calling
`SendNextChunk` until `SentCompleteFile` puts exactly the frames of the file's chunks on the
wire. -/
theorem ChunkedFileSender.sendFile (hpb : pb.Lawful) (hsized : FileContentsSized pb)
    {file : List UInt8} (hlen : file.length < 2 ^ 32) (sender : ChunkedFileSender)
    {socket : Socket} (hacc : Accepting socket.sends)
    (henough : (frames ((fileChunks file).map pb.encoding)).length ≤ socket.sends.length) :
    ∃ fuel r, whileLoop (sendStep pb) fuel (sender.setFileContents file, socket) = some r ∧
      r.1.sentCompleteFile = true ∧
      r.2.sent = socket.sent ++ frames ((fileChunks file).map pb.encoding) := by
  refine whileLoop_returns
    (fun n s => ∃ i, Sending pb file
      (socket.sent ++ frames ((fileChunks file).map pb.encoding)) i s.1 s.2 ∧
      (frames (((fileChunks file).drop i).map pb.encoding)).length ≤ s.2.sends.length ∧
      n = chunkCount file - i) _ ?_ ⟨0, ⟨sender.at_zero file, hacc, rfl⟩, henough, rfl⟩
  rintro n ⟨sender, socket'⟩ ⟨i, hsending, hleft, rfl⟩
  replace hsending : Sending _ _ _ i sender socket' := hsending
  by_cases hdone : sender.sentCompleteFile = true
  · refine .inr ⟨(sender, socket'), ?_, hdone, hsending.sent_eq hdone⟩
    rw [sendStep, if_pos hdone]
  · obtain ⟨hi, hsend⟩ := hsending.sendNextChunk_spec hpb hsized hlen hdone
    simp only [drop_fileChunks hi, List.map_cons, frames_cons, List.length_append] at hleft
    rcases hsend with ⟨n, sender', socket'', -, hsending', hused, hsend⟩ | ⟨hlt, -⟩
    · refine .inl ⟨_, (sender', socket''), ?_, ?_, i + 1, hsending', ?_, rfl⟩
      · omega
      · rw [sendStep, if_neg hdone, hsend]
      · simp only []
        omega
    · omega

/-! ### Receiving a file -/

/-- One `ReceiveNextChunk` call, when the bytes at hand and the segments that arrive next
hold a complete frame: it takes just enough segments and hands the frame's body to
protobuf. -/
theorem ChunkedFileReceiver.receiveNextChunk_of_hasFrame (pb : Protobuf FileContents)
    {receiver : ChunkedFileReceiver} (hready : receiver.parser.Ready) {socket : Socket}
    {segments : List (List UInt8)} (hseg : Segments segments) {tail : List RecvResult}
    (hin : socket.incoming = arriving segments ++ tail)
    (hf : HasFrame (receiver.parser.pending ++ segments.flatten)) :
    ∃ taken left, ∃ parser : MessageParser, segments = taken ++ left ∧ parser.Ready ∧
      parser.pending = afterFrame (receiver.parser.pending ++ taken.flatten) ∧
      HasFrame (receiver.parser.pending ++ taken.flatten) ∧
      (taken = [] ∨ ¬ HasFrame (receiver.parser.pending ++ taken.dropLast.flatten)) ∧
      receiver.receiveNextChunk pb socket =
        match pb.parseBody (frameBody (receiver.parser.pending ++ taken.flatten)) with
        | none => some (-1, { receiver with parser := parser },
            { socket with incoming := arriving left ++ tail })
        | some m => some (sizeToInt m.contents.length,
            { parser := parser
              fileContents := receiver.fileContents ++ m.contents
              completeFile := receiver.completeFile || m.isLast },
            { socket with incoming := arriving left ++ tail }) := by
  obtain ⟨taken, left, p, rfl, hp, hpend, hfp, hmin, hrun⟩ :=
    socket.recvLoop_of_hasFrame false hready hseg hin hf
  obtain ⟨hnext, hnextpend⟩ := hp.nextMessage hfp
  obtain ⟨-, hget⟩ := hp.wellFormed.getMessage_of_hasFrame pb hfp
  rw [hpend] at hnextpend hfp hget
  refine ⟨taken, left, p.nextMessage, rfl, hnext, hnextpend, hfp, hmin, ?_⟩
  rw [receiveNextChunk, hrun]
  simp only [hget]
  cases pb.parseBody (frameBody (receiver.parser.pending ++ taken.flatten)) with
  | none => rfl
  | some m => rfl

/-- A `ReceiveNextChunk` call only takes results off the script, and takes some unless a
message was at hand. -/
theorem ChunkedFileReceiver.receiveNextChunk_incoming {receiver receiver' : ChunkedFileReceiver}
    {socket socket' : Socket} {n : ℤ}
    (h : receiver.receiveNextChunk pb socket = some (n, receiver', socket')) :
    socket'.incoming <:+ socket.incoming ∧
      (¬ receiver.parser.hasCompleteMessage = true → socket'.incoming ≠ socket.incoming) := by
  have hsuffix := recvLoop_incoming false socket.incoming receiver.parser
  have htakes := fun hnot : ¬ receiver.parser.hasCompleteMessage = true =>
    recvLoop_takes false socket.incoming hnot
  rw [receiveNextChunk, Socket.recvLoop] at h
  rcases hrun : recvLoop false socket.incoming receiver.parser with ⟨last, parser, incoming⟩
  rw [hrun] at h hsuffix htakes
  have hsocket : last ≠ .blocked ∧ socket'.incoming = incoming := by
    cases last with
    | complete =>
        simp only [] at h
        split at h
        · simp only [Option.some.injEq, Prod.mk.injEq] at h
          exact ⟨by simp, h.2.2 ▸ rfl⟩
        · simp only [Option.some.injEq, Prod.mk.injEq] at h
          exact ⟨by simp, h.2.2 ▸ rfl⟩
    | closed | timedOut | failed =>
        simp only [Option.some.injEq, Prod.mk.injEq] at h
        exact ⟨by simp, h.2.2 ▸ rfl⟩
    | blocked => cases h
  rw [hsocket.2]
  exact ⟨hsuffix, fun hnot => htakes hnot hsocket.1⟩

/-- A round of `CleanUp` only takes results off the script. -/
theorem ChunkedFileReceiver.cleanUpStep_incoming {receiver : ChunkedFileReceiver}
    {socket : Socket}
    {out : (ChunkedFileReceiver × Socket) ⊕ (Bool × ChunkedFileReceiver × Socket)}
    (h : cleanUpStep pb (receiver, socket) = some out) :
    (Sum.elim Prod.snd (fun r => r.2.2) out).incoming <:+ socket.incoming := by
  rw [cleanUpStep] at h
  split at h
  · split at h
    · cases h
    · next hcall =>
        have hsuffix := (receiveNextChunk_incoming hcall).1
        split at h
        · obtain rfl := Option.some.inj h
          exact hsuffix
        · obtain rfl := Option.some.inj h
          exact hsuffix
  · obtain rfl := Option.some.inj h
    exact List.suffix_refl _

theorem ChunkedFileReceiver.cleanUp_incoming {receiver receiver' : ChunkedFileReceiver}
    {socket socket' : Socket} {fuel : ℕ} {ok : Bool}
    (h : receiver.cleanUp pb fuel socket = some (ok, receiver', socket')) :
    socket'.incoming <:+ socket.incoming :=
  whileLoop_inv (fun s => s.2.incoming <:+ socket.incoming)
    (fun r => r.2.2.incoming <:+ socket.incoming)
    (fun _ _ hinv hstep => (cleanUpStep_incoming hstep).trans hinv)
    (fun _ _ hinv hstep => (cleanUpStep_incoming hstep).trans hinv) (List.suffix_refl _) h

/-- What a `ReceiveNextChunk` call returns whose receive loop ended without a complete
message. -/
def ChunkedFileReceiver.receiveEnd (receiver : ChunkedFileReceiver) :
    RecvEnd × MessageParser × Socket → Option (ℤ × ChunkedFileReceiver × Socket)
  | (.closed, parser, socket) => some (0, { receiver with parser := parser }, socket)
  | (.timedOut, parser, socket) => some (-1, { receiver with parser := parser }, socket)
  | (.failed, parser, socket) => some (-1, { receiver with parser := parser }, socket)
  | _ => none

/-- One `ReceiveNextChunk` call, when no complete frame is at hand or about to arrive: it
keeps what it has read, and ends as the result after the segments says. -/
theorem ChunkedFileReceiver.receiveNextChunk_of_not_hasFrame (pb : Protobuf FileContents)
    {receiver : ChunkedFileReceiver} (hready : receiver.parser.Ready) {socket : Socket}
    {segments : List (List UInt8)} (hseg : Segments segments) {tail : List RecvResult}
    (hin : socket.incoming = arriving segments ++ tail)
    (htail : ∀ bytes rest, tail ≠ .data bytes :: rest)
    (hno : ¬ HasFrame (receiver.parser.pending ++ segments.flatten)) :
    ∃ parser : MessageParser, parser.Ready ∧
      parser.pending = receiver.parser.pending ++ segments.flatten ∧
      receiver.receiveNextChunk pb socket =
        receiver.receiveEnd (socket.recvEnd parser tail) := by
  obtain ⟨p, hp, hpend, hrun⟩ := socket.recvLoop_of_not_hasFrame hready hseg hin htail hno
  refine ⟨p, hp, hpend, ?_⟩
  rw [receiveNextChunk, hrun]
  rcases tail with - | ⟨result, rest⟩
  · rfl
  · cases result with
    | data bytes => exact absurd rfl (htail bytes rest)
    | closed => rfl
    | timedOut => rfl
    | failed => rfl

/-- The receiver has the first `i` chunks of `file`. -/
structure ChunkedFileReceiver.At (receiver : ChunkedFileReceiver) (file : List UInt8) (i : ℕ) :
    Prop where
  ready : receiver.parser.Ready
  fileContents_eq : receiver.fileContents = file.take (kChunkSize * i)
  completeFile_eq : receiver.completeFile = decide (i = chunkCount file)

theorem ChunkedFileReceiver.at_zero {file : List UInt8} (hne : file ≠ []) :
    ChunkedFileReceiver.At {} file 0 := by
  refine ⟨MessageParser.ready_fresh, rfl, ?_⟩
  have hpos := List.length_pos_iff.mpr hne
  rw [eq_comm, decide_eq_false_iff_not]
  simp only [chunkCount, kChunkSize]
  omega

namespace ChunkedFileReceiver.At

variable {receiver : ChunkedFileReceiver} {file : List UInt8} {i : ℕ}

/-- With all chunks received the contents are the file. -/
theorem fileContents_of_complete (h : receiver.At file (chunkCount file)) :
    receiver.hasCompleteFile = true ∧ receiver.fileContents = file := by
  refine ⟨by rw [hasCompleteFile, h.completeFile_eq, decide_eq_true rfl], ?_⟩
  rw [h.fileContents_eq]
  refine List.take_of_length_le ?_
  simp only [chunkCount, kChunkSize]
  omega

theorem not_hasCompleteFile (h : receiver.At file i) (hi : i < chunkCount file) :
    ¬ receiver.hasCompleteFile = true := by
  rw [hasCompleteFile, h.completeFile_eq, decide_eq_true_iff]
  omega

/-- **One chunk.** When the frame of the `i`-th chunk is at hand or about to arrive, a call
returns its size and leaves the bytes that follow it. -/
theorem receiveNextChunk_spec (h : receiver.At file i) (hpb : pb.Lawful)
    (hsized : FileContentsSized pb) (hi : i < chunkCount file) {socket : Socket}
    {segments : List (List UInt8)} (hseg : Segments segments) {tail : List RecvResult}
    (hin : socket.incoming = arriving segments ++ tail) {later rest : List UInt8}
    (hf : HasFrame (receiver.parser.pending ++ segments.flatten))
    (hstream : receiver.parser.pending ++ segments.flatten ++ later =
      frame (pb.encoding (chunkAt file i)) ++ rest) :
    ∃ (taken left : List (List UInt8)) (receiver' : ChunkedFileReceiver),
      segments = taken ++ left ∧ receiver'.At file (i + 1) ∧
      receiver'.parser.pending ++ left.flatten ++ later = rest ∧
      (taken = [] ∨ (receiver.parser.pending ++ taken.dropLast.flatten).length <
        (frame (pb.encoding (chunkAt file i))).length) ∧
      receiver.receiveNextChunk pb socket =
        some (((chunkAt file i).contents.length : ℤ), receiver',
          { socket with incoming := arriving left ++ tail }) := by
  obtain ⟨taken, left, parser, rfl, hready, hpend, hfp, hmin, hcall⟩ :=
    ChunkedFileReceiver.receiveNextChunk_of_hasFrame pb h.ready hseg hin hf
  have hsize := hsized.byteSizeLong_chunkAt_lt hi
  have hbody := hsized.length_encoding_chunkAt_lt hpb hi
  rw [List.flatten_append, List.append_assoc, List.append_assoc] at hstream
  have hstream' : receiver.parser.pending ++ taken.flatten ++ (left.flatten ++ later) =
      frame (pb.encoding (chunkAt file i)) ++ rest := by rw [List.append_assoc, hstream]
  obtain ⟨hframe, hrest⟩ := hfp.eq_of_append_eq hbody hstream'
  have hresult : sizeToInt (chunkAt file i).contents.length =
      (chunkAt file i).contents.length := by
    have hlen := (length_contents_chunkAt hi).2
    simp only [kChunkSize] at hlen
    exact sizeToInt_of_lt (by omega)
  rw [hframe, hpb.parseBody_encoding hsize] at hcall
  simp only [hresult] at hcall
  refine ⟨taken, left, _, rfl, ?_, ?_, ?_, hcall⟩
  · refine ⟨hready, ?_, ?_⟩
    · rw [h.fileContents_eq, chunkAt, Nat.mul_succ, List.take_add]
    · rw [h.completeFile_eq]
      have hlast := isLast_chunkAt hi
      rw [Bool.eq_iff_iff]
      simp only [Bool.or_eq_true, decide_eq_true_eq, hlast]
      omega
  · rw [hpend, List.append_assoc, hrest]
  · exact hmin.imp_right fun hno => length_dropLast_lt_of_not_hasFrame hno hbody hstream'

/-- **One chunk off the stream of a file.** When the frames of the chunks from the `i`-th on
are at hand or about to arrive, so is the first of them. -/
theorem receiveNextChunk_of_frames (h : receiver.At file i) (hpb : pb.Lawful)
    (hsized : FileContentsSized pb) (hi : i < chunkCount file) {socket : Socket}
    {segments : List (List UInt8)} (hseg : Segments segments) {tail : List RecvResult}
    (hin : socket.incoming = arriving segments ++ tail) {rest : List UInt8}
    (hstream : receiver.parser.pending ++ segments.flatten =
      frames (((fileChunks file).drop i).map pb.encoding) ++ rest) :
    ∃ (taken left : List (List UInt8)) (receiver' : ChunkedFileReceiver),
      segments = taken ++ left ∧ receiver'.At file (i + 1) ∧
      receiver'.parser.pending ++ left.flatten =
        frames (((fileChunks file).drop (i + 1)).map pb.encoding) ++ rest ∧
      (taken = [] ∨ (receiver.parser.pending ++ taken.dropLast.flatten).length <
        (frame (pb.encoding (chunkAt file i))).length) ∧
      receiver.receiveNextChunk pb socket =
        some (((chunkAt file i).contents.length : ℤ), receiver',
          { socket with incoming := arriving left ++ tail }) := by
  have hbody := hsized.length_encoding_chunkAt_lt hpb hi
  rw [drop_fileChunks hi, List.map_cons, frames_cons, List.append_assoc] at hstream
  have hf : HasFrame (receiver.parser.pending ++ segments.flatten) := by
    rw [hstream]
    exact hasFrame_frame_append hbody _
  obtain ⟨taken, left, receiver', rfl, h', hrest, hmin, hcall⟩ :=
    h.receiveNextChunk_spec hpb hsized hi hseg hin hf (by rw [List.append_nil, hstream])
  rw [List.append_nil] at hrest
  exact ⟨taken, left, receiver', rfl, h', hrest, hmin, hcall⟩

end ChunkedFileReceiver.At

/-- A script that delivers a stream with failed calls in between: every result is a segment
of 1 to 4096 bytes, a timeout or another error. -/
def Retryable (incoming : List RecvResult) : Prop :=
  ∀ result ∈ incoming, (∃ bytes, result = .data bytes ∧ 1 ≤ bytes.length ∧
    bytes.length ≤ 4096) ∨ result = .timedOut ∨ result = .failed

theorem Retryable.segments {segments : List (List UInt8)} {tail : List RecvResult}
    (h : Retryable (arriving segments ++ tail)) : Segments segments := by
  intro segment hmem
  have hdata : RecvResult.data segment ∈ arriving segments ++ tail :=
    List.mem_append_left _ (List.mem_map_of_mem hmem)
  rcases h _ hdata with ⟨bytes, hb, hpos, hle⟩ | hb | hb
  · injection hb with hb
    subst hb
    exact ⟨List.length_pos_iff.mp hpos, by omega⟩
  · cases hb
  · cases hb

theorem Retryable.right {as bs : List RecvResult} (h : Retryable (as ++ bs)) : Retryable bs :=
  fun r hr => h r (List.mem_append_right _ hr)

namespace ChunkedFileReceiver

variable {file : List UInt8}

/-- A logged call that did not return 0, and returned a negative value only because its
last `recv` failed. -/
def CallOk (call : Call) : Prop :=
  call.result ≠ 0 ∧ (call.result < 0 → ∃ segments last,
    call.taken = arriving segments ++ [last] ∧ (last = .timedOut ∨ last = .failed))

/-- A round that goes on logs its result and what it took. -/
theorem receiveStep_of_call {receiver receiver' : ChunkedFileReceiver}
    {socket socket' : Socket} {taken : List RecvResult} {result : ℤ}
    (hnot : ¬ receiver.hasCompleteFile = true)
    (hin : socket.incoming = taken ++ socket'.incoming)
    (hcall : receiver.receiveNextChunk pb socket = some (result, receiver', socket'))
    (calls : List Call) :
    receiveStep pb (calls, receiver, socket) =
      some (.inl (calls ++ [⟨result, taken⟩], receiver', socket')) := by
  have hlog : socket.incoming.take (socket.incoming.length - socket'.incoming.length) =
      taken := by
    rw [hin, List.length_append, Nat.add_sub_cancel, List.take_left]
  rw [receiveStep, if_neg hnot, hcall]
  simp only [hlog]

/-- A receiver on its way: it has the first `i` chunks, and the script delivers the frames
of the others. -/
structure Awaiting (pb : Protobuf FileContents) (file : List UInt8) (i : ℕ)
    (receiver : ChunkedFileReceiver) (socket : Socket) : Prop where
  le_chunkCount : i ≤ chunkCount file
  isAt : receiver.At file i
  retryable : Retryable socket.incoming
  stream : receiver.parser.pending ++ arrived socket.incoming =
    frames (((fileChunks file).drop i).map pb.encoding)

/-- **One call of a receiver on its way** gets a chunk, or takes a failed call off the
script. -/
theorem Awaiting.receiveNextChunk_spec {receiver : ChunkedFileReceiver} {socket : Socket}
    {i : ℕ} (h : Awaiting pb file i receiver socket) (hpb : pb.Lawful)
    (hsized : FileContentsSized pb) (hi : i < chunkCount file) :
    ∃ (j : ℕ) (call : Call) (receiver' : ChunkedFileReceiver) (socket' : Socket),
      Awaiting pb file j receiver' socket' ∧ CallOk call ∧
      chunkCount file - j + socket'.incoming.length <
        chunkCount file - i + socket.incoming.length ∧
      socket.incoming = call.taken ++ socket'.incoming ∧
      receiver.receiveNextChunk pb socket = some (call.result, receiver', socket') := by
  obtain ⟨segments, tail, hin, htail⟩ := exists_arriving socket.incoming
  have hscript := h.retryable
  have hpending := h.stream
  have hcount := congrArg List.length hin
  rw [hin] at hscript
  rw [drop_fileChunks hi, List.map_cons, frames_cons, hin, arrived_append, arrived_arriving,
    ← List.append_assoc] at hpending
  by_cases hf : HasFrame (receiver.parser.pending ++ segments.flatten)
  · obtain ⟨taken, left, receiver', rfl, h', hrest, -, hcall⟩ :=
      h.isAt.receiveNextChunk_spec hpb hsized hi hscript.segments hin hf hpending
    rw [arriving_append, List.append_assoc] at hin hcount hscript
    have hpos := (length_contents_chunkAt hi).1
    have hok : CallOk ⟨((chunkAt file i).contents.length : ℤ), arriving taken⟩ := by
      simp only [CallOk]
      exact ⟨by omega, fun hneg => by omega⟩
    refine ⟨i + 1, _, receiver', _, ⟨hi, h', hscript.right, ?_⟩, hok, ?_, hin, hcall⟩
    · rw [arrived_append, arrived_arriving, ← List.append_assoc, hrest]
    · simp only [List.length_append] at hcount ⊢
      omega
  · obtain ⟨parser, hready, hpend, hcall⟩ :=
      receiveNextChunk_of_not_hasFrame pb h.isAt.ready hscript.segments hin htail hf
    rcases tail with - | ⟨result, rest⟩
    · -- the whole stream has arrived, so the frame is complete after all
      have hbody := hsized.length_encoding_chunkAt_lt hpb hi
      rw [show arrived [] = [] from rfl, List.append_nil] at hpending
      rw [hpending] at hf
      exact absurd (hasFrame_frame_append hbody _) hf
    · have hresult : result = .timedOut ∨ result = .failed := by
        rcases hscript result (by simp) with ⟨bytes, rfl, -⟩ | hresult
        · exact absurd rfl (htail bytes rest)
        · exact hresult
      obtain ⟨errno, hfailed⟩ : ∃ errno, receiver.receiveNextChunk pb socket =
          some (-1, { receiver with parser := parser },
            { socket with incoming := rest, errno := errno }) := by
        rcases hresult with rfl | rfl
        · exact ⟨.again, hcall⟩
        · exact ⟨.other, hcall⟩
      have hbytes : arrived [result] = [] := by
        rcases hresult with rfl | rfl
        · rfl
        · rfl
      have hin' : socket.incoming = (arriving segments ++ [result]) ++ rest := by
        rw [hin, List.append_assoc, List.singleton_append]
      have hat : At { receiver with parser := parser } file i :=
        ⟨hready, h.isAt.fileContents_eq, h.isAt.completeFile_eq⟩
      have hok : CallOk ⟨-1, arriving segments ++ [result]⟩ :=
        ⟨by simp, fun _ => ⟨segments, result, rfl, hresult⟩⟩
      refine ⟨i, _, _, { socket with incoming := rest, errno := errno },
        ⟨h.le_chunkCount, hat, ?_, ?_⟩, hok, ?_, hin', hfailed⟩
      · exact fun r hr => hscript r (List.mem_append_right _ (List.mem_cons_of_mem _ hr))
      · rw [← h.stream, hin', arrived_append, arrived_append, arrived_arriving, hbytes,
          List.append_nil, ← List.append_assoc, hpend]
      · simp only [List.length_append, List.length_cons] at hcount ⊢
        omega

/-- **Receiving a file.** From a script that delivers its frames, with failed calls in
between, calling `ReceiveNextChunk` until `HasCompleteFile` gets the file, and no call
returns 0 or fails without cause. -/
theorem receiveFile (hpb : pb.Lawful) (hsized : FileContentsSized pb) (hne : file ≠ [])
    {socket : Socket} (hscript : Retryable socket.incoming)
    (hstream : arrived socket.incoming = frames ((fileChunks file).map pb.encoding)) :
    ∃ fuel r, whileLoop (receiveStep pb) fuel ([], {}, socket) = some r ∧
      (∀ call ∈ r.1, CallOk call) ∧ r.2.1.getFileContents.1 = file := by
  have hstart : Awaiting pb file 0 {} socket :=
    ⟨Nat.zero_le _, at_zero hne, hscript, hstream⟩
  have hnone : ∀ call ∈ ([] : List Call), CallOk call := fun _ hmem => nomatch hmem
  refine whileLoop_returns
    (fun n s => ∃ i, Awaiting pb file i s.2.1 s.2.2 ∧ (∀ call ∈ s.1, CallOk call) ∧
      n = chunkCount file - i + s.2.2.incoming.length) _ ?_ ⟨0, hstart, hnone, rfl⟩
  rintro n ⟨calls, receiver, socket'⟩ ⟨i, h, hok, rfl⟩
  replace h : Awaiting _ _ i receiver socket' := h
  rcases Nat.eq_or_lt_of_le h.le_chunkCount with rfl | hi
  · obtain ⟨hcomplete, hcontents⟩ := h.isAt.fileContents_of_complete
    refine .inr ⟨(calls, receiver, socket'), ?_, hok, hcontents⟩
    rw [receiveStep, if_pos hcomplete]
  · obtain ⟨j, call, receiver', socket'', h', hcall, hlt, hin, hrun⟩ :=
      h.receiveNextChunk_spec hpb hsized hi
    refine .inl ⟨_, _, hlt, receiveStep_of_call (h.isAt.not_hasCompleteFile hi) hin hrun calls,
      j, h', ?_, rfl⟩
    intro call' hmem
    rcases List.mem_append.mp hmem with hmem | hmem
    · exact hok call' hmem
    · rw [List.mem_singleton.mp hmem]
      exact hcall

end ChunkedFileReceiver

end Transfer

/-- **Chunked transfer round trip.** A non-empty file of fewer than `2 ^ 32` bytes has
`⌈n / 1000⌉` chunks that hold the file and of which only the last is marked. Whatever
positive number of bytes each `send` accepts, the sender puts exactly their frames on the
wire. From any segmentation of these into recv results of 1 to 4096 bytes, with failed
calls anywhere in between, the receiver gets the file; none of its calls returns 0, and one
returns a negative value only if its last `recv` failed. -/
theorem chunked_transfer_round_trip {pb : Protobuf FileContents} (hpb : pb.Lawful)
    (hsized : FileContentsSized pb) (file : List UInt8) (hne : file ≠ [])
    (hlen : file.length < 2 ^ 32) :
    ∃ chunks : List FileContents,
      chunks.length = (file.length + 999) / 1000 ∧
      chunks.flatMap FileContents.contents = file ∧
      chunks.map FileContents.isLast = List.replicate (chunks.length - 1) false ++ [true] ∧
      (∀ (sender : ChunkedFileSender) (socket : Socket), Accepting socket.sends →
        (serializeAll pb chunks).length ≤ socket.sends.length →
        ∃ fuel sender' socket', whileLoop (ChunkedFileSender.sendStep pb) fuel
            (sender.setFileContents file, socket) = some (sender', socket') ∧
          sender'.sentCompleteFile = true ∧
          socket'.sent = socket.sent ++ serializeAll pb chunks) ∧
      (∀ socket : Socket, Retryable socket.incoming →
        arrived socket.incoming = serializeAll pb chunks →
        ∃ fuel calls receiver' socket', whileLoop (ChunkedFileReceiver.receiveStep pb) fuel
            ([], {}, socket) = some (calls, receiver', socket') ∧
          (∀ call ∈ calls, ChunkedFileReceiver.CallOk call) ∧
          receiver'.getFileContents.1 = file) := by
  have hframes := serializeAll_eq_frames hpb (hsized.small_fileChunks file)
  refine ⟨fileChunks file, length_fileChunks file, flatMap_contents_fileChunks file,
    ?_, ?_, ?_⟩
  · rw [length_fileChunks]
    exact map_isLast_fileChunks hne
  · intro sender socket hacc henough
    rw [hframes] at henough ⊢
    obtain ⟨fuel, ⟨sender', socket'⟩, hrun, hdone, hsent⟩ :=
      sender.sendFile hpb hsized hlen hacc henough
    exact ⟨fuel, sender', socket', hrun, hdone, hsent⟩
  · intro socket hscript hstream
    rw [hframes] at hstream
    obtain ⟨fuel, ⟨calls, receiver', socket'⟩, hrun, hok, hcontents⟩ :=
      ChunkedFileReceiver.receiveFile hpb hsized hne hscript hstream
    exact ⟨fuel, calls, receiver', socket', hrun, hok, hcontents⟩

/-- A file of one byte, received in two segments with a timeout in front. -/
theorem chunked_transfer_one_byte :
    ∃ fuel calls receiver' socket', whileLoop (ChunkedFileReceiver.receiveStep fileContentsProto)
        fuel ([], {}, { incoming :=
          [.timedOut, .data [0, 0, 0], .data [5, 10, 1, 7, 16, 1]] }) =
          some (calls, receiver', socket') ∧
      (∀ call ∈ calls, ChunkedFileReceiver.CallOk call) ∧ receiver'.getFileContents.1 = [7] := by
  obtain ⟨chunks, hlen, hfile, hlast, -, hreceive⟩ := chunked_transfer_round_trip
    fileContentsProto_lawful fileContentsProto_sized [7] (by decide) (by decide)
  obtain ⟨m, rfl⟩ : ∃ m, chunks = [m] := List.length_eq_one_iff.mp hlen
  obtain ⟨contents, isLast⟩ := m
  obtain rfl : contents = [7] := by simpa using hfile
  obtain rfl : isLast = true := by simpa using hlast
  refine hreceive _ ?_ (by decide)
  intro result hmem
  simp only [List.mem_cons, List.not_mem_nil, or_false] at hmem
  rcases hmem with rfl | rfl | rfl
  · exact .inr (.inl rfl)
  · exact .inl ⟨_, rfl, by decide, by decide⟩
  · exact .inl ⟨_, rfl, by decide, by decide⟩

end Csci6780
