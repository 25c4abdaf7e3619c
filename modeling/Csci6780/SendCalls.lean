import Csci6780.ChunkedFiles

/-!
# The Calls of SendNextChunk

This module counts the calls of `SendNextChunk` that a loop needs to send a file, the loop being
that of `Agent::SendFileContents` and of `UploadTask`: it goes on while `SentCompleteFile` is
false. The position in the file is a `uint32_t`, but its size is a `size_t`, and
`SentCompleteFile` tests whether the two are equal. So the loop ends just for the sizes that a
`uint32_t` holds, and then no position wraps.

## Main results

* `ChunkedFileSender.sendCallStep_refines`: the log of the calls does not change the loop.
* `sendFile_calls_iff`: when the loop ends, and with which calls.
-/

namespace Csci6780

/-- A `SendNextChunk` call as it is logged: the position before it, the number of bytes of the
file in its message, and the position after it. -/
structure SendCall where
  offset : UInt32
  size : ℕ
  next : UInt32
  deriving DecidableEq, Repr

namespace ChunkedFileSender

/-- One round of calling `SendNextChunk` until `SentCompleteFile`, with a log of the calls. -/
def sendCallStep (pb : Protobuf FileContents) : List SendCall × ChunkedFileSender × Socket →
    Option ((List SendCall × ChunkedFileSender × Socket) ⊕
      (List SendCall × ChunkedFileSender × Socket))
  | (calls, sender, socket) =>
      match sendStep pb (sender, socket) with
      | none => none
      | some (.inl (sender', socket')) =>
          let call : SendCall :=
            ⟨sender.totalBytesSent, sender.fileMessage.contents.length, sender'.totalBytesSent⟩
          some (.inl (calls ++ [call], sender', socket'))
      | some (.inr r) => some (.inr (calls, r))

variable {pb : Protobuf FileContents} {file wire : List UInt8}

/-- The log of the calls does not change the loop. -/
theorem sendCallStep_refines (pb : Protobuf FileContents) (fuel : ℕ)
    (s : List SendCall × ChunkedFileSender × Socket) :
    whileLoop (sendStep pb) fuel s.2 =
      (whileLoop (sendCallStep pb) fuel s).map Prod.snd := by
  refine whileLoop_map Prod.snd Prod.snd ?_ fuel s
  rintro ⟨calls, sender, socket⟩
  rw [sendCallStep]
  rcases sendStep pb (sender, socket) with - | (⟨sender', socket'⟩ | r) <;> rfl

/-- No call changes the contents of the file. -/
theorem sendNextChunk_fileContents {sender sender' : ChunkedFileSender} {socket socket' : Socket}
    {n : ℤ} (h : sender.sendNextChunk pb socket = some (n, sender', socket')) :
    sender'.fileContents = sender.fileContents := by
  rcases hser : serialize pb sender.fileMessage sender.outgoingMessageBuffer with
    ⟨serialized, buffer⟩
  rw [sendNextChunk, hser] at h
  cases serialized with
  | false =>
      cases h
      rfl
  | true =>
      rcases hloop : socket.sendLoop buffer with ⟨last, socket₁⟩
      simp only [if_true, hloop] at h
      cases last with
      | complete | closed | timedOut | failed =>
          cases h
          rfl
      | blocked => cases h

/-- **A long file is never sent.** Its size is not the value of any position. -/
theorem length_lt_of_sendStep {fuel : ℕ} {sender : ChunkedFileSender} {socket : Socket}
    {r : ChunkedFileSender × Socket} (h : whileLoop (sendStep pb) fuel (sender, socket) = some r) :
    sender.fileContents.length < 2 ^ 32 := by
  refine whileLoop_inv (fun s => s.1.fileContents = sender.fileContents)
    (fun _ => sender.fileContents.length < 2 ^ 32) ?_ ?_ rfl h
  · rintro ⟨sender₁, socket₁⟩ s' hsame hstep
    rw [sendStep] at hstep
    split at hstep
    · cases hstep
    · split at hstep
      · cases hstep
      · next hsend =>
          obtain rfl := Sum.inl.inj (Option.some.inj hstep)
          exact (sendNextChunk_fileContents hsend).trans hsame
  · rintro ⟨sender₁, socket₁⟩ r hsame hstep
    rw [sendStep] at hstep
    split at hstep
    · next hdone =>
        rw [← hsame]
        exact length_lt_of_sentCompleteFile hdone
    · split at hstep <;> cases hstep

/-- The call that sends the `i`-th chunk. -/
structure Sends (file : List UInt8) (i : ℕ) (call : SendCall) : Prop where
  offset_eq : call.offset.toNat = kChunkSize * i
  size_eq : call.size = min kChunkSize (file.length - kChunkSize * i)
  next_eq : call.next.toNat = call.offset.toNat + call.size

/-- The calls send the first `i` chunks. -/
def SendsFirst (file : List UInt8) (i : ℕ) (calls : List SendCall) : Prop :=
  calls.length = i ∧ ∀ j call, calls[j]? = some call → Sends file j call

theorem SendsFirst.nil (file : List UInt8) : SendsFirst file 0 [] :=
  ⟨rfl, fun j call hget => by simp at hget⟩

theorem SendsFirst.concat {i : ℕ} {calls : List SendCall} (h : SendsFirst file i calls)
    {call : SendCall} (hcall : Sends file i call) : SendsFirst file (i + 1) (calls ++ [call]) := by
  obtain ⟨rfl, hcalls⟩ := h
  refine ⟨by simp, fun j call' hget => ?_⟩
  rcases Nat.lt_trichotomy j calls.length with hlt | rfl | hgt
  · rw [List.getElem?_append_left hlt] at hget
    exact hcalls j call' hget
  · rw [List.getElem?_concat_length, Option.some.injEq] at hget
    exact hget ▸ hcall
  · rw [List.getElem?_eq_none (by simp; omega)] at hget
    cases hget

/-- All calls but the last send whole chunks. -/
theorem SendsFirst.size_of_mem_dropLast {calls : List SendCall}
    (h : SendsFirst file (chunkCount file) calls) {call : SendCall}
    (hmem : call ∈ calls.dropLast) : call.size = kChunkSize := by
  obtain ⟨j, hj, hget⟩ := List.mem_iff_getElem.mp hmem
  rw [List.length_dropLast, h.1] at hj
  rw [List.getElem_dropLast] at hget
  have hsends := h.2 j call (List.getElem?_eq_some_iff.mpr ⟨by rw [h.1]; omega, hget⟩)
  rw [hsends.size_eq]
  simp only [chunkCount, kChunkSize] at hj ⊢
  omega

/-- No position wraps. -/
theorem SendsFirst.next_of_mem {i : ℕ} {calls : List SendCall} (h : SendsFirst file i calls)
    {call : SendCall} (hmem : call ∈ calls) :
    call.next.toNat = call.offset.toNat + call.size := by
  obtain ⟨j, hget⟩ := List.mem_iff_getElem?.mp hmem
  exact (h.2 j call hget).next_eq

/-- A round of a sender on its way logs the call for its chunk. -/
theorem Sending.sends {i : ℕ} {sender sender' : ChunkedFileSender} {socket socket' : Socket}
    (h : Sending pb file wire i sender socket) (h' : Sending pb file wire (i + 1) sender' socket')
    (hi : i < chunkCount file) :
    Sends file i
      ⟨sender.totalBytesSent, sender.fileMessage.contents.length, sender'.totalBytesSent⟩ := by
  have hoffset := h.isAt.totalBytesSent_of_lt hi
  have hnext := h'.isAt.totalBytesSent_eq
  refine ⟨hoffset, ?_, ?_⟩
  · simp only [h.isAt.fileMessage_eq hi, chunkAt, List.length_take, List.length_drop]
  · simp only [h.isAt.fileMessage_eq hi, chunkAt, List.length_take, List.length_drop, hoffset,
      hnext, chunkCount, kChunkSize] at hi ⊢
    omega

/-- **The calls of a loop that returns** send the chunks of the file, one after the other. -/
theorem Sending.log_of_run (hpb : pb.Lawful) (hsized : FileContentsSized pb)
    (hlen : file.length < 2 ^ 32) {i : ℕ} {calls calls' : List SendCall}
    {sender : ChunkedFileSender} {socket : Socket} (h : Sending pb file wire i sender socket)
    (hi : i ≤ chunkCount file) (hcalls : SendsFirst file i calls) {fuel : ℕ}
    {r : ChunkedFileSender × Socket}
    (hrun : whileLoop (sendCallStep pb) fuel (calls, sender, socket) = some (calls', r)) :
    SendsFirst file (chunkCount file) calls' := by
  refine whileLoop_inv
    (fun s => ∃ i, i ≤ chunkCount file ∧ Sending pb file wire i s.2.1 s.2.2 ∧
      SendsFirst file i s.1)
    (fun r => SendsFirst file (chunkCount file) r.1) ?_ ?_ ⟨i, hi, h, hcalls⟩ hrun
  · rintro ⟨calls, sender, socket⟩ s' ⟨i, -, h, hcalls⟩ hstep
    rw [sendCallStep, sendStep] at hstep
    by_cases hdone : sender.sentCompleteFile = true
    · rw [if_pos hdone] at hstep
      cases hstep
    · obtain ⟨hi, hsend⟩ := h.sendNextChunk_spec hpb hsized hlen hdone
      rw [if_neg hdone] at hstep
      rcases hsend with ⟨n, sender', socket', -, h', -, hsend⟩ | ⟨-, hblocked⟩
      · rw [hsend] at hstep
        obtain rfl := Sum.inl.inj (Option.some.inj hstep)
        exact ⟨i + 1, hi, h', hcalls.concat (h.sends h' hi)⟩
      · rw [hblocked] at hstep
        cases hstep
  · rintro ⟨calls, sender, socket⟩ r ⟨i, hi, h, hcalls⟩ hstep
    rw [sendCallStep, sendStep] at hstep
    by_cases hdone : sender.sentCompleteFile = true
    · rw [if_pos hdone] at hstep
      obtain rfl := Sum.inr.inj (Option.some.inj hstep)
      obtain rfl := Nat.le_antisymm hi (h.isAt.sentCompleteFile_iff.mp hdone)
      exact hcalls
    · rw [if_neg hdone] at hstep
      cases hsend : sender.sendNextChunk pb socket with
      | none =>
          rw [hsend] at hstep
          cases hstep
      | some out =>
          rw [hsend] at hstep
          cases hstep

end ChunkedFileSender

/-- The loop sends the file and ends after `⌈n / 1000⌉` calls. All of these but the last send 1000
bytes of the file, and each one moves the position by what it sends. -/
def SendsInTime (pb : Protobuf FileContents) (file : List UInt8) (sender : ChunkedFileSender)
    (socket : Socket) : Prop :=
  ∃ fuel calls sender' socket', whileLoop (ChunkedFileSender.sendCallStep pb) fuel
      ([], sender.setFileContents file, socket) = some (calls, sender', socket') ∧
    sender'.sentCompleteFile = true ∧
    calls.length = (file.length + 999) / 1000 ∧
    (∀ call ∈ calls.dropLast, call.size = 1000) ∧
    ∀ call ∈ calls, call.next.toNat = call.offset.toNat + call.size

/-- A loop that returns has a file of fewer than `2 ^ 32` bytes. -/
theorem SendsInTime.length_lt {pb : Protobuf FileContents} {file : List UInt8}
    {sender : ChunkedFileSender} {socket : Socket} (h : SendsInTime pb file sender socket) :
    file.length < 2 ^ 32 := by
  obtain ⟨fuel, calls, sender', socket', hrun, -⟩ := h
  have hloop := ChunkedFileSender.sendCallStep_refines pb fuel
    ([], sender.setFileContents file, socket)
  rw [hrun] at hloop
  exact ChunkedFileSender.length_lt_of_sendStep hloop

/-- **The calls of `SendNextChunk`.** When every `send` accepts something, be it all that is offered
or less, the loop sends a file in just the calls that its chunks need, and no position wraps, if
and only if the file has fewer than `2 ^ 32` bytes. -/
theorem sendFile_calls_iff {pb : Protobuf FileContents} (hpb : pb.Lawful)
    (hsized : FileContentsSized pb) (file : List UInt8) (sender : ChunkedFileSender)
    (socket : Socket) (hacc : Accepting socket.sends)
    (henough : (serializeAll pb (fileChunks file)).length ≤ socket.sends.length) :
    SendsInTime pb file sender socket ↔ file.length < 2 ^ 32 := by
  refine ⟨SendsInTime.length_lt, fun hlen => ?_⟩
  rw [serializeAll_eq_frames hpb (hsized.small_fileChunks file)] at henough
  obtain ⟨fuel, r, hrun, hdone, -⟩ := sender.sendFile hpb hsized hlen hacc henough
  have hloop := ChunkedFileSender.sendCallStep_refines pb fuel
    ([], sender.setFileContents file, socket)
  rw [hrun, eq_comm, Option.map_eq_some_iff] at hloop
  obtain ⟨⟨calls, sender', socket'⟩, hcalls, rfl⟩ := hloop
  have hstart : ChunkedFileSender.Sending pb file
      (socket.sent ++ frames ((fileChunks file).map pb.encoding)) 0
      (sender.setFileContents file) socket := ⟨sender.at_zero file, hacc, rfl⟩
  have hsends := hstart.log_of_run hpb hsized hlen (Nat.zero_le _) (.nil file) hcalls
  exact ⟨fuel, calls, sender', socket', hcalls, hdone, hsends.1,
    fun _ hmem => hsends.size_of_mem_dropLast hmem, fun _ hmem => hsends.next_of_mem hmem⟩

/-- A file of one byte, the nine bytes of its frame accepted at once. -/
theorem sendFile_calls_one_byte :
    SendsInTime fileContentsProto [7] {} { sends := List.replicate 9 (.accepted 1000) } := by
  have hacc : Accepting (List.replicate 9 (.accepted 1000)) := by
    intro result hmem
    exact ⟨1000, by omega, List.eq_of_mem_replicate hmem⟩
  have henough : (serializeAll fileContentsProto (fileChunks [7])).length ≤
      (List.replicate 9 (SendResult.accepted 1000)).length := by decide
  exact (sendFile_calls_iff fileContentsProto_lawful fileContentsProto_sized [7] {}
    { sends := List.replicate 9 (.accepted 1000) } hacc henough).mpr (by decide)

/-- A file of `2 ^ 32` bytes is never sent, whatever `send` returns. -/
theorem sendFile_never_ends :
    ¬ ∃ socket, SendsInTime fileContentsProto (List.replicate (2 ^ 32) 0) {} socket := by
  rintro ⟨socket, h⟩
  have hlen := h.length_lt
  rw [List.length_replicate] at hlen
  exact Nat.lt_irrefl _ hlen

end Csci6780
