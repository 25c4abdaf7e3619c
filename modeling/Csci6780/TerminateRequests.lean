import Csci6780.FtpGet

/-!
# Terminate Requests

A client learns the id of its command as a 32-bit number and can ask the server to terminate a
command by any 32-bit number. The set of active commands holds 16-bit ids; the handler of the
request passes its number to `CommandIDs::Delete`, which takes its low 16 bits. A number that no
command was reported under can therefore remove one.

## Main results

* `handleTerminate_iff`: which requests remove just the command they name.
* `terminate_affects_only_iff`: and when a command that ends early was named.
-/

namespace Csci6780

namespace Agent

variable {pb : FtpProtobuf} {fuel : ℕ}

/-- The ids `after` are those `before` without the command that was reported to its client as
`commandId`. -/
def TerminatesOnly (before after : CommandIDs) (commandId : UInt32) : Prop :=
  ∀ id : UInt16, after.contains id = true ↔ before.contains id = true ∧ id.toUInt32 ≠ commandId

/-- A reported id is a number below `2 ^ 16`, and is narrowed to the id. -/
theorem toUInt32_eq_iff (id : UInt16) (commandId : UInt32) :
    id.toUInt32 = commandId ↔ commandId.toNat < 2 ^ 16 ∧ commandId.toUInt16 = id := by
  have hid := id.toNat_lt
  rw [← UInt32.toNat_inj, ← UInt16.toNat_inj, UInt16.toNat_toUInt32, UInt32.toNat_toUInt16]
  omega

/-- **One request.** It removes just the command it names exactly if its number fits 16 bits, or
no command has the id that it is narrowed to. -/
theorem handleTerminate_iff (agent : Agent) (commandId : UInt32) :
    TerminatesOnly agent.activeCommands (agent.handleTerminate commandId).2.activeCommands
        commandId ↔
      commandId.toNat < 2 ^ 16 ∨ agent.activeCommands.contains commandId.toUInt16 = false := by
  have hafter : ∀ id, (agent.handleTerminate commandId).2.activeCommands.contains id = true ↔
      agent.activeCommands.contains id = true ∧ id ≠ commandId.toUInt16 :=
    CommandIDs.contains_delete agent.activeCommands commandId.toUInt16
  constructor
  · intro h
    by_contra hnot
    rw [not_or, Bool.not_eq_false] at hnot
    obtain ⟨hlarge, hactive⟩ := hnot
    -- the id that is removed was not reported as this number
    have hnamed : commandId.toUInt16.toUInt32 ≠ commandId :=
      fun heq => hlarge ((toUInt32_eq_iff _ _).mp heq).1
    exact ((hafter _).mp ((h _).mpr ⟨hactive, hnamed⟩)).2 rfl
  · intro h id
    rw [hafter]
    refine and_congr_right fun hid => not_congr ?_
    rw [toUInt32_eq_iff]
    constructor
    · rintro rfl
      rcases h with hsmall | hnone
      · exact ⟨hsmall, rfl⟩
      · rw [hnone] at hid
        cases hid
    · rintro ⟨-, rfl⟩
      rfl

/-! ### A running command -/

/-- What another agent does to the active commands: it starts or ends a command of its own, or
serves a TerminateRequest. -/
inductive Access
  | start (id : UInt16)
  | finish (id : UInt16)
  | terminate (commandId : UInt32)
  deriving DecidableEq, Repr

/-- The call that an access makes. -/
def Access.op : Access → CommandOp
  | .start id => .insert id
  | .finish id => .delete id
  | .terminate commandId => .delete commandId.toUInt16

/-- A command is running: it is active, the other agents are going to make the given accesses,
and none of them ends it as its own. -/
structure Running (agent : Agent) (commandId : UInt16) (accesses : List (List Access)) : Prop where
  isActive : agent.activeCommands.contains commandId = true
  others_eq : agent.others = accesses.map (List.map Access.op)
  own : .finish commandId ∉ accesses.flatten

/-- No request has a number that is only narrowed to the command's id. -/
def Named (commandId : UInt16) (accesses : List (List Access)) : Prop :=
  ∀ number, .terminate number ∈ accesses.flatten →
    number.toNat < 2 ^ 16 ∨ number.toUInt16 ≠ commandId

/-- A running command that no request names stays active. -/
theorem Running.active {agent : Agent} {commandId : UInt16} {accesses : List (List Access)}
    (h : agent.Running commandId accesses) (hnamed : Named commandId accesses)
    (hnot : .terminate commandId.toUInt32 ∉ accesses.flatten) : agent.Active commandId := by
  refine ⟨h.isActive, fun ops hops hmem => ?_⟩
  rw [h.others_eq] at hops
  obtain ⟨round, hround, rfl⟩ := List.mem_map.mp hops
  obtain ⟨access, haccess, hop⟩ := List.mem_map.mp hmem
  have hmember : access ∈ accesses.flatten := List.mem_flatten.mpr ⟨round, hround, haccess⟩
  cases access with
  | start id => cases hop
  | finish id =>
      cases hop
      exact h.own hmember
  | terminate number =>
      have hid : number.toUInt16 = commandId := CommandOp.delete.inj hop
      rcases hnamed number hmember with hsmall | hne
      · exact hnot ((toUInt32_eq_iff commandId number).mpr ⟨hsmall, hid⟩ ▸ hmember)
      · exact hne hid

/-- A PUT whose command stays active is not terminated. -/
theorem readFileContents_of_active {agent agent' : Agent} {commandId : UInt16}
    (hactive : agent.Active commandId) {last : FileReadEnd} {contents : List UInt8}
    (h : agent.readFileContents pb fuel commandId = some (last, contents, agent')) :
    last ≠ .terminated ∧ last ≠ .cleanUpFailed := by
  refine whileLoop_inv (fun s => s.2.Active commandId)
    (fun r => r.1 ≠ .terminated ∧ r.1 ≠ .cleanUpFailed) ?_ ?_ hactive h
  · rintro ⟨receiver, agent⟩ s' hactive hstep
    obtain ⟨ids, others, hcheck, hactive'⟩ := Active.check hactive
    rw [readFileStep, hcheck] at hstep
    split at hstep
    · cases hstep
    · simp only [if_true] at hstep
      split at hstep
      · cases hstep
      · split at hstep
        · cases hstep
        · split at hstep
          · cases hstep
          · cases hstep
            exact ⟨hactive'.isActive, hactive'.others⟩
  · rintro ⟨receiver, agent⟩ r hactive hstep
    obtain ⟨ids, others, hcheck, -⟩ := Active.check hactive
    rw [readFileStep, hcheck] at hstep
    split at hstep
    · cases hstep
      simp
    · simp only [if_true] at hstep
      split at hstep
      · cases hstep
      · split at hstep
        · cases hstep
          simp
        · split at hstep
          · cases hstep
            simp
          · cases hstep

/-- **A TerminateRequest affects only the command it names** exactly if its number fits 16 bits,
or no active command has the id that it is narrowed to. In a run whose requests are such, a GET
has sent its whole file, and a PUT was not terminated, unless a request carried its id. -/
theorem terminate_affects_only_iff (hpb : pb.Lawful) :
    (∀ (agent : Agent) (commandId : UInt32),
      TerminatesOnly agent.activeCommands (agent.handleTerminate commandId).2.activeCommands
          commandId ↔
        commandId.toNat < 2 ^ 16 ∨ agent.activeCommands.contains commandId.toUInt16 = false) ∧
    ∀ (agent : Agent) (commandId : UInt16) (accesses : List (List Access)),
      agent.Running commandId accesses → Named commandId accesses →
        (∀ (fuel : ℕ) (file : List UInt8) (ok : Bool) (agent' : Agent), file.length < 2 ^ 32 →
          Accepting agent.socket.sends →
          agent.sendFileContents pb fuel file commandId = some (ok, agent') →
          agent'.socket.sent ≠ agent.socket.sent ++
            frames ((fileChunks file).map pb.fileContents.encoding) →
          .terminate commandId.toUInt32 ∈ accesses.flatten) ∧
        ∀ (fuel : ℕ) (last : FileReadEnd) (contents : List UInt8) (agent' : Agent),
          agent.readFileContents pb fuel commandId = some (last, contents, agent') →
          last = .terminated ∨ last = .cleanUpFailed →
          .terminate commandId.toUInt32 ∈ accesses.flatten := by
  refine ⟨handleTerminate_iff, fun agent commandId accesses hrunning hnamed => ⟨?_, ?_⟩⟩
  · intro fuel file ok agent' hlen hacc hrun hearly
    by_contra hnot
    exact hearly (sendFileContents_sends hpb hlen hrun hacc (hrunning.active hnamed hnot))
  · intro fuel last contents agent' hrun hearly
    by_contra hnot
    obtain ⟨hterminated, hfailed⟩ :=
      readFileContents_of_active (hrunning.active hnamed hnot) hrun
    rcases hearly with rfl | rfl
    · exact hterminated rfl
    · exact hfailed rfl

/-- An agent whose PUT is terminated by its number while the file arrives. -/
def agentPutting : Agent where
  socket := { incoming := [.data [0, 0, 0, 5, 10, 1, 7, 16, 1]] }
  activeCommands := { commandIds := [1, 2] }
  others := [[.delete 1]]

/-- The request to terminate 2 of two commands, and the PUT that ends early because a request
named it. -/
theorem terminate_affects_only_two :
    TerminatesOnly agentPutting.activeCommands
      (agentPutting.handleTerminate 2).2.activeCommands 2 ∧
    (∃ agent', agentPutting.readFileContents ftpProto 2 1 = some (.terminated, [], agent')) ∧
    Access.terminate 1 ∈ [[Access.terminate 1]].flatten := by
  obtain ⟨hone, hrun⟩ := terminate_affects_only_iff ftpProto_lawful
  have hrunning : agentPutting.Running 1 [[.terminate 1]] := ⟨rfl, rfl, by decide⟩
  have hnamed : Named 1 [[.terminate 1]] := by
    intro number hmem
    have heq : Access.terminate number = .terminate 1 := by simpa using hmem
    cases heq
    exact .inl (by decide)
  obtain ⟨agent', hread⟩ :
      ∃ agent', agentPutting.readFileContents ftpProto 2 1 = some (.terminated, [], agent') :=
    ⟨_, rfl⟩
  exact ⟨(hone _ 2).mpr (.inl (by decide)), ⟨agent', hread⟩,
    (hrun _ 1 _ hrunning hnamed).2 2 _ _ _ hread (.inl rfl)⟩

/-- The request to terminate 65537 removes the command that was reported as 1. -/
theorem terminate_affects_other :
    ¬ TerminatesOnly { commandIds := [1] }
      (Agent.handleTerminate { activeCommands := { commandIds := [1] } } 65537).2.activeCommands
        65537 := by
  intro h
  have hgone := (h 1).mpr ⟨rfl, by decide⟩
  cases hgone

end Agent

end Csci6780
