import Csci6780.FtpGet

/-!
# Terminated GETs

`Agent::SendFileContents` looks after every chunk whether its command is still active, and
stops in front of the next chunk when it is not. The loop's own test comes first, so that a
file that is complete ends it whatever the last check has answered.

The other agents act on the shared ids before each check; `answer` is what the checks to come
answer on their account, and any sequence of answers is possible (`exists_answers`).

## Main results

* `sendFileStep_spec`: a round sends a chunk and takes the next answer.
* `terminated_get`: which chunks are sent.
-/

namespace Csci6780

namespace Agent

variable {pb : FtpProtobuf}

/-! ### The answers -/

/-- What the `k`-th of the coming checks answers, counted from 1. -/
def answer (agent : Agent) (commandId : UInt16) (k : ℕ) : Bool :=
  ((agent.others.take k).flatten.foldl CommandOp.apply agent.activeCommands).contains commandId

/-- A check takes the first answer. -/
theorem contains_answer (agent : Agent) (commandId : UInt16) :
    ∃ agent', agent.contains commandId = (agent.answer commandId 1, agent') ∧
      agent'.socket = agent.socket ∧
      ∀ k, agent'.answer commandId k = agent.answer commandId (k + 1) := by
  have hfirst : (agent.others.take 1).flatten = agent.others.headD [] := by
    cases agent.others with
    | nil => rfl
    | cons ops others => exact List.append_nil ops
  refine ⟨(agent.contains commandId).2, ?_, rfl, fun k => ?_⟩
  · rw [answer, hfirst]
    rfl
  · rw [answer, answer, contains]
    cases hothers : agent.others with
    | nil => simp only [List.tail_nil, List.take_nil, List.headD_nil, List.foldl_nil]
    | cons ops others =>
        rw [List.take_succ_cons, List.flatten_cons, List.foldl_append]
        rfl

/-- Any answers are possible. -/
theorem exists_answers (agent : Agent) (commandId : UInt16) (answers : List Bool) :
    ∃ others, ∀ k (hk : k < answers.length),
      ({ agent with others := others } : Agent).answer commandId (k + 1) = answers[k] := by
  refine ⟨answers.map fun active =>
    [if active then .insert commandId else .delete commandId], fun k hk => ?_⟩
  rw [answer, List.take_add_one, List.flatten_append, List.foldl_append,
    List.getElem?_eq_getElem (by rwa [List.length_map]), List.getElem_map]
  cases answers[k] with
  | true => exact (CommandIDs.contains_insert _ _ _).mpr (.inl rfl)
  | false =>
      rw [Bool.eq_false_iff]
      exact fun h => ((CommandIDs.contains_delete _ _ _).mp h).2 rfl

/-- The number of chunks that are sent of `n`: as many as it takes for a check to answer no, or
all of them if none of the checks before the last chunk does. -/
def chunksSent (agent : Agent) (commandId : UInt16) (n : ℕ) : ℕ :=
  ((List.range' 1 (n - 1)).find? fun k => !agent.answer commandId k).getD n

theorem chunksSent_of_answer {agent : Agent} {commandId : UInt16} {i n : ℕ} (hpos : 0 < i)
    (hi : i < n) (hno : agent.answer commandId i = false)
    (hyes : ∀ k, 0 < k → k < i → agent.answer commandId k = true) :
    agent.chunksSent commandId n = i := by
  have hfind : (List.range' 1 (n - 1)).find? (fun k => !agent.answer commandId k) = some i := by
    rw [List.find?_range'_eq_some]
    refine ⟨by rw [hno]; rfl, List.mem_range'_1.mpr (by omega), fun k hk hki => ?_⟩
    rw [hyes k hk hki]
    rfl
  rw [chunksSent, hfind, Option.getD_some]

theorem chunksSent_of_forall {agent : Agent} {commandId : UInt16} {n : ℕ}
    (hyes : ∀ k, 0 < k → k < n → agent.answer commandId k = true) :
    agent.chunksSent commandId n = n := by
  have hfind : (List.range' 1 (n - 1)).find? (fun k => !agent.answer commandId k) = none := by
    rw [List.find?_range'_eq_none]
    intro k hk hkn
    rw [hyes k hk (by omega)]
    rfl
  rw [chunksSent, hfind, Option.getD_none]

/-! ### Sending -/

/-- A GET on its way: it has sent `i` chunks, the checks between them have answered yes, and
the answers to come are those of `start` from the `i`-th on. -/
structure Transferring (pb : FtpProtobuf) (file wire : List UInt8) (commandId : UInt16)
    (start : Agent) (i : ℕ) (sender : ChunkedFileSender) (terminated : Bool) (agent : Agent) :
    Prop where
  sending : ChunkedFileSender.Sending pb.fileContents file wire i sender agent.socket
  le_chunkCount : i ≤ chunkCount file
  enough : (frames (((fileChunks file).drop i).map pb.fileContents.encoding)).length ≤
    agent.socket.sends.length
  terminated_eq : terminated = (decide (0 < i) && !start.answer commandId i)
  answered : ∀ k, 0 < k → k < i → start.answer commandId k = true
  answer_eq : ∀ k, agent.answer commandId k = start.answer commandId (i + k)

section Transferring

variable {file wire : List UInt8} {commandId : UInt16} {start agent : Agent} {i : ℕ}
  {sender : ChunkedFileSender} {terminated : Bool}

/-- What has been sent is the frames of the first `i` chunks. -/
theorem Transferring.sent_eq
    (h : Transferring pb file (start.socket.sent ++
      frames ((fileChunks file).map pb.fileContents.encoding)) commandId start i sender terminated
        agent) :
    agent.socket.sent = start.socket.sent ++
      frames (((fileChunks file).take i).map pb.fileContents.encoding) := by
  have hwire := h.sending.sent_append
  rw [← List.take_append_drop i (fileChunks file), List.map_append, frames_append,
    ← List.append_assoc, List.take_append_drop] at hwire
  exact List.append_cancel_right hwire

/-- **One round.** The file is complete, or the command is terminated, or the next chunk is
sent and the next answer taken. -/
theorem Transferring.sendFileStep_spec (hpb : pb.Lawful) (hlen : file.length < 2 ^ 32)
    (h : Transferring pb file wire commandId start i sender terminated agent) :
    (i = start.chunksSent commandId (chunkCount file) ∧
      sendFileStep pb commandId (sender, terminated, agent) = some (.inr (true, agent))) ∨
    ∃ sender' terminated' agent',
      Transferring pb file wire commandId start (i + 1) sender' terminated' agent' ∧
      i < chunkCount file ∧
      sendFileStep pb commandId (sender, terminated, agent) =
        some (.inl (sender', terminated', agent')) := by
  by_cases hdone : sender.sentCompleteFile = true
  · have hle := h.sending.isAt.sentCompleteFile_iff.mp hdone
    obtain rfl : i = chunkCount file := Nat.le_antisymm h.le_chunkCount hle
    refine .inl ⟨(chunksSent_of_forall h.answered).symm, ?_⟩
    rw [sendFileStep, if_pos hdone]
  · obtain ⟨hi, hsend⟩ := h.sending.sendNextChunk_spec hpb.fileContents hpb.sized hlen hdone
    have hterminated := h.terminated_eq
    cases terminated with
    | true =>
        rw [eq_comm, Bool.and_eq_true, decide_eq_true_iff, Bool.not_eq_true'] at hterminated
        refine .inl ⟨(chunksSent_of_answer hterminated.1 hi hterminated.2 h.answered).symm, ?_⟩
        rw [sendFileStep, if_neg hdone, if_pos rfl]
    | false =>
        have hyes : ∀ k, 0 < k → k < i + 1 → start.answer commandId k = true := by
          intro k hpos hk
          rcases Nat.lt_succ_iff_lt_or_eq.mp hk with hlt | rfl
          · exact h.answered k hpos hlt
          · rw [decide_eq_true hpos, Bool.true_and, eq_comm, Bool.not_eq_false'] at hterminated
            exact hterminated
        have henough := h.enough
        rw [drop_fileChunks hi, List.map_cons, frames_cons, List.length_append] at henough
        rcases hsend with ⟨n, sender', socket', hpos, h', hused, hsend⟩ | ⟨hlt, -⟩
        · obtain ⟨agent', hcheck, hsocket, hanswers⟩ :=
            ({ agent with socket := socket' } : Agent).contains_answer commandId
          have hfirst : ({ agent with socket := socket' } : Agent).answer commandId 1 =
              start.answer commandId (i + 1) := h.answer_eq 1
          refine .inr ⟨sender', !start.answer commandId (i + 1), agent', ⟨?_, hi, ?_, ?_, hyes, ?_⟩,
            hi, ?_⟩
          · rw [hsocket]
            exact h'
          · rw [hsocket]
            simp only []
            omega
          · rw [decide_eq_true (Nat.succ_pos i), Bool.true_and]
          · intro k
            rw [hanswers, show i + 1 + k = i + (k + 1) by omega, ← h.answer_eq]
            rfl
          · rw [sendFileStep, if_neg hdone]
            simp only [Bool.false_eq_true, if_false, hsend, hcheck, hfirst]
            rw [if_pos (by omega)]
        · omega

end Transferring

/-- **A terminated GET stops on a frame boundary.** While every `send` accepts some of the bytes
it is offered, `SendFileContents` returns `true` and has put exactly the frames of the first
chunks on the wire: as many as are sent when a check first answers no, or all of them. -/
theorem terminated_get (hpb : pb.Lawful) {file : List UInt8} (hlen : file.length < 2 ^ 32)
    (commandId : UInt16) {agent : Agent} (hacc : Accepting agent.socket.sends)
    (henough : (serializeAll pb.fileContents (fileChunks file)).length ≤
      agent.socket.sends.length) :
    ∃ fuel agent', agent.sendFileContents pb fuel file commandId = some (true, agent') ∧
      agent'.socket.sent = agent.socket.sent ++ serializeAll pb.fileContents
        ((fileChunks file).take (agent.chunksSent commandId (chunkCount file))) := by
  have hsmall := hpb.sized.small_fileChunks file
  have hsmall' : ∀ n, Small pb.fileContents ((fileChunks file).take n) :=
    fun n m hm => hsmall m (List.mem_of_mem_take hm)
  rw [serializeAll_eq_frames hpb.fileContents hsmall] at henough
  rw [serializeAll_eq_frames hpb.fileContents (hsmall' _)]
  have hstart : Transferring pb file (agent.socket.sent ++
      frames ((fileChunks file).map pb.fileContents.encoding)) commandId agent 0
        (ChunkedFileSender.setFileContents {} file) false agent :=
    { sending := ⟨ChunkedFileSender.at_zero {} file, hacc, rfl⟩
      le_chunkCount := Nat.zero_le _
      enough := henough
      terminated_eq := rfl
      answered := fun k _ hlt => absurd hlt (Nat.not_lt_zero k)
      answer_eq := fun k => by rw [Nat.zero_add] }
  have hrun : ∃ fuel r, agent.sendFileContents pb fuel file commandId = some r ∧ r.1 = true ∧
      r.2.socket.sent = agent.socket.sent ++ frames (((fileChunks file).take
        (agent.chunksSent commandId (chunkCount file))).map pb.fileContents.encoding) := by
    refine whileLoop_returns
      (fun n s => ∃ i, Transferring pb file (agent.socket.sent ++
        frames ((fileChunks file).map pb.fileContents.encoding)) commandId agent i s.1 s.2.1 s.2.2 ∧
        n = chunkCount file - i) _ ?_ ⟨0, hstart, rfl⟩
    rintro n ⟨sender, terminated, agent₁⟩ ⟨i, h, rfl⟩
    replace h : Transferring _ _ _ _ _ i sender terminated agent₁ := h
    rcases h.sendFileStep_spec hpb hlen with
      ⟨hi, hstep⟩ | ⟨sender', terminated', agent₂, h', hi, hstep⟩
    · refine .inr ⟨(true, agent₁), hstep, rfl, ?_⟩
      rw [← hi]
      exact h.sent_eq
    · exact .inl ⟨_, _, by omega, hstep, i + 1, h', rfl⟩
  obtain ⟨fuel, ⟨ok, agent'⟩, hrun, rfl, hsent⟩ := hrun
  exact ⟨fuel, agent', hrun, hsent⟩

/-- An agent whose command is terminated while the first chunk is sent. -/
def agentTerminated : Agent where
  socket := { sends := List.replicate 1100 (.accepted 600) }
  activeCommands := { commandIds := [1] }
  others := [[.delete 1]]

/-- A file of two chunks, of which the first is sent. -/
theorem terminated_get_first :
    ∃ fuel agent', agentTerminated.sendFileContents ftpProto fuel (List.replicate 1001 7) 1 =
        some (true, agent') ∧
      agent'.socket.sent =
        serializeAll fileContentsProto ((fileChunks (List.replicate 1001 7)).take 1) := by
  have hacc : Accepting agentTerminated.socket.sends := by
    intro result hmem
    exact ⟨600, by omega, (List.mem_replicate.mp hmem).2⟩
  have hlen : (List.replicate 1001 (7 : UInt8)).length < 2 ^ 32 := by
    rw [List.length_replicate]
    omega
  have henough : (serializeAll fileContentsProto (fileChunks (List.replicate 1001 7))).length ≤
      agentTerminated.socket.sends.length := by decide +kernel
  have hcount : agentTerminated.chunksSent 1 (chunkCount (List.replicate 1001 7)) = 1 := by
    rw [chunkCount, List.length_replicate]
    rfl
  obtain ⟨fuel, agent', hrun, hsent⟩ := terminated_get ftpProto_lawful hlen 1 hacc henough
  rw [hcount] at hsent
  exact ⟨fuel, agent', hrun, hsent.trans (List.nil_append _)⟩

end Agent

end Csci6780
