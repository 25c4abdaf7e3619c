import Csci6780.FtpClient
import Csci6780.PutRequest

/-!
# What a PUT Stores

The client's `put` command makes a `FileContents` message of the whole local file,
serialises it, and gives the result to an `UploadTask`. `ChunkedFileSender` takes it for the
file and wraps each 1000 bytes of it in a `FileContents` message of its own. The server
undoes one of the two layers: what it stores is the serialised message, which is never the
file.

## Main results

* `length_serialize`: `Serialize` leaves a buffer of the size it writes first, also when it
  fails.
* `put_stores_serialized`: what a PUT stores, and that it is not the file.
-/

namespace Csci6780

/-- `SerializeToArray` stays within the buffer it is given. -/
def Protobuf.Bounded {Msg : Type} (pb : Protobuf Msg) : Prop :=
  ∀ m size bytes, pb.serializeToArray m size = some bytes → (bytes.length : ℤ) ≤ size

theorem wireProto_bounded {Msg : Type} (toFields : Msg → List Proto3.Field)
    (ofFields : List Proto3.Field → Option Msg) : (wireProto toFields ofFields).Bounded := by
  intro m size bytes h
  rw [wireProto] at h
  simp only [] at h
  split at h
  · next hsize =>
      cases h
      exact hsize.1
  · cases h

/-- A C `int` with the bits of an unsigned word is no greater than the word. -/
theorem toInt_toInt32_le (n : UInt32) : n.toInt32.toInt ≤ n.toNat := by
  have hbit : n.toInt32.toInt = n.toBitVec.toInt := rfl
  have hnat : n.toBitVec.toNat = n.toNat := rfl
  rw [hbit, BitVec.toInt_eq_toNat_cond, hnat]
  split <;> omega

/-- **The size of a serialised message**, whether or not protobuf could write it: the prefix
and as many bytes as the prefix says. -/
theorem length_serialize {Msg : Type} {pb : Protobuf Msg} (hbounded : pb.Bounded) (m : Msg)
    (buffer : List UInt8) :
    (serialize pb m buffer).2.length = 4 + pb.byteSizeLong m % 2 ^ 32 := by
  have hk : (UInt32.ofNat (pb.byteSizeLong m)).toNat = pb.byteSizeLong m % 2 ^ 32 :=
    UInt32.toNat_ofNat'
  have hpacked : (copyInto (toBigEndian (UInt32.ofNat (pb.byteSizeLong m)))
      (resize buffer (4 + (UInt32.ofNat (pb.byteSizeLong m)).toNat)) 0).length =
        4 + pb.byteSizeLong m % 2 ^ 32 := by
    rw [length_copyInto (by rw [length_resize, length_toBigEndian]; omega), length_resize, hk]
  rw [serialize]
  rcases hser : pb.serializeToArray m (UInt32.ofNat (pb.byteSizeLong m)).toInt32.toInt with
    - | bytes
  · exact hpacked
  · have hle := hbounded _ _ _ hser
    have hint : (UInt32.ofNat (pb.byteSizeLong m)).toInt32.toInt ≤
        (UInt32.ofNat (pb.byteSizeLong m)).toNat := toInt_toInt32_le _
    simp only []
    rw [length_copyInto, hpacked]
    omega

/-- **A PUT never stores the file.** -/
theorem put_stores_serialized {pb : FtpProtobuf} (hpb : pb.Lawful)
    (hbounded : pb.fileContents.Bounded) (localFile : List UInt8) {fuel : ℕ} (client : Client)
    (hacc : Accepting client.socket.sends) {task' : UploadTask} {socket' : Socket}
    {status : TaskStatus}
    (hupload : (client.createPutTask pb.fileContents localFile).1.run pb.fileContents fuel
      client.socket = some (status, task', socket'))
    {agent started finished : Agent} {filename : String} {commandId : UInt16}
    (hstart : agent.startCommand pb fuel .put = some (commandId, started))
    {segments : List (List UInt8)} (hseg : Segments segments)
    {tail : List RecvResult} (hin : started.socket.incoming = arriving segments ++ tail)
    (hstream : client.socket.sent ++ segments.flatten = socket'.sent)
    {contents : List UInt8}
    (hread : started.readFileContents pb fuel commandId =
      some (.complete, contents, finished)) :
    (∃ state agent', agent.handlePut pb fuel filename = some (state, agent') ∧
      agent'.fileHandler = (agent.fileHandler.put filename contents).2) ∧
      contents = (serialize pb.fileContents (getContentsMessage localFile)
        client.outgoingMsgBuf).2 ∧ contents ≠ localFile := by
  have hsize := length_serialize hbounded (getContentsMessage localFile) client.outgoingMsgBuf
  have hne : (serialize pb.fileContents (getContentsMessage localFile)
      client.outgoingMsgBuf).2 ≠ [] := by
    rw [← List.length_pos_iff, hsize]
    omega
  have hlen := UploadTask.length_lt_of_run hpb.fileContents hpb.sized hacc hupload
  have hat := ChunkedFileSender.at_zero {} (serialize pb.fileContents
    (getContentsMessage localFile) client.outgoingMsgBuf).2
  have hsent := UploadTask.run_sends hpb.fileContents hpb.sized hlen ⟨hat, hacc, rfl⟩ hupload
  -- the wire has the chunks of the serialised message, and the server puts these together
  rw [hsent] at hstream
  have hframes := List.append_cancel_left hstream
  rw [← List.append_nil (frames _)] at hframes
  obtain ⟨hcontents, -⟩ := Agent.readFile_complete hpb (Nat.zero_le _)
    (ChunkedFileReceiver.at_zero hne) hseg hin hframes hread
  refine ⟨⟨_, _, Agent.handlePut_of_read filename hstart hread, rfl⟩, hcontents, ?_⟩
  -- the message and its prefix are longer than the file, unless their size wraps
  rw [hcontents]
  intro heq
  have hlocal := congrArg List.length heq
  have hle := hpb.sized (getContentsMessage localFile)
  rw [hsize] at hlocal
  simp only [getContentsMessage] at hle hlocal
  omega

/-- A client whose first `send` accepts up to 100 bytes. -/
def putClient : Client where
  socket := { sends := [.accepted 100] }

/-- A server to which the upload of a file of one byte arrives in one segment. -/
def putServer : Agent where
  socket :=
    { incoming := arriving [[0, 0, 0, 11, 10, 7, 0, 0, 0, 3, 10, 1, 5, 16, 1]]
      sends := [.accepted 100] }

/-- The file of one byte is not what the server stores. -/
theorem put_stores_serialized_one_byte :
    (∃ state agent', putServer.handlePut ftpProto 2 "f" = some (state, agent') ∧
      agent'.fileHandler = (putServer.fileHandler.put "f" [0, 0, 0, 3, 10, 1, 5]).2) ∧
      [0, 0, 0, 3, 10, 1, 5] = (serialize fileContentsProto (getContentsMessage [5]) []).2 ∧
      [0, 0, 0, 3, 10, 1, 5] ≠ ([5] : List UInt8) := by
  have hacc : Accepting putClient.socket.sends := accepting_singleton (Nat.succ_pos 99)
  have hseg : Segments [[0, 0, 0, 11, 10, 7, 0, 0, 0, 3, 10, 1, 5, 16, 1]] := by decide
  exact put_stores_serialized ftpProto_lawful (wireProto_bounded _ _) [5] putClient hacc rfl rfl
    hseg (List.append_nil _).symm rfl rfl

/-- The client uploads the byte 5, the server reads the upload to its end, and the file it
stores has seven bytes. -/
theorem put_loses_file :
    ∃ task' socket' agent',
      (putClient.createPutTask fileContentsProto [5]).1.run fileContentsProto 2
        putClient.socket = some (.done, task', socket') ∧
      putServer.socket.incoming = arriving [socket'.sent] ∧
      putServer.handlePut ftpProto 2 "f" = some (.active, agent') ∧
      agent'.fileHandler.stored "f" = some [0, 0, 0, 3, 10, 1, 5] :=
  ⟨_, _, _, rfl, rfl, rfl, rfl⟩

end Csci6780
