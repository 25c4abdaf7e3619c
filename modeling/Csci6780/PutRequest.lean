import Csci6780.Agent

/-!
# A PUT that Does not Complete

`Agent::HandleRequest(PutRequest)` ignores what `ReadFileContents` returns. Whether the file
arrived, the client went away, the socket failed or the command was terminated, the handler
hands the buffer to `FileHandler::Put`, and unless a complete file was received that buffer
is empty. Opening the file for writing has truncated it by then, so the stored file is lost.

## Main results

* `handlePut_of_read`: a PUT writes whatever was read, and ends its command.
* `handlePut_keeps_file_iff`: a PUT that does not complete keeps the stored file exactly if
  that is empty already or cannot be opened for writing.
-/

namespace Csci6780

namespace Agent

variable {pb : FtpProtobuf} {fuel : ℕ}

/-- **What a PUT does.** However the read ends, what it left in the buffer is written and
the command id is deleted. -/
theorem handlePut_of_read {agent started finished : Agent} (filename : String)
    {commandId : UInt16} {last : FileReadEnd} {contents : List UInt8}
    (hstart : agent.startCommand pb fuel .put = some (commandId, started))
    (hread : started.readFileContents pb fuel commandId = some (last, contents, finished)) :
    agent.handlePut pb fuel filename =
      some (.active, { finished with
        fileHandler := (agent.fileHandler.put filename contents).2
        activeCommands := finished.activeCommands.delete commandId }) := by
  have hstarted : started.fileHandler = agent.fileHandler := startCommand_fileHandler hstart
  obtain ⟨_, _, _, -, rfl⟩ := (readFile_readsOn hread).1
  rw [handlePut, hstart]
  simp only [Option.bind_eq_bind, Option.bind_some, hread, hstarted]
  rfl

/-- A PUT that is terminated, or whose client disconnects or whose socket fails before the
file is complete, keeps the named file and ends its command exactly when the file is empty
already or cannot be opened for writing. -/
theorem handlePut_keeps_file_iff (pb : FtpProtobuf) (fuel : ℕ) (agent : Agent)
    (filename : String) {commandId : UInt16} {started finished : Agent} {last : FileReadEnd}
    {contents : List UInt8}
    (hstart : agent.startCommand pb fuel .put = some (commandId, started))
    (hread : started.readFileContents pb fuel commandId = some (last, contents, finished))
    (hlast : last ≠ .complete) :
    (∃ state agent', agent.handlePut pb fuel filename = some (state, agent') ∧
        agent'.fileHandler.stored filename = agent.fileHandler.stored filename ∧
        agent'.activeCommands.contains commandId = false) ↔
      agent.fileHandler.stored filename = some [] ∨
        agent.fileHandler.canWrite filename = false := by
  obtain rfl := (readFile_readsOn hread).2 hlast
  have hput := handlePut_of_read filename hstart hread
  have hdeleted : (finished.activeCommands.delete commandId).contains commandId = false := by
    rw [Bool.eq_false_iff, ne_eq, CommandIDs.contains_delete]
    exact fun h => h.2 rfl
  have hstored := agent.fileHandler.stored_put filename []
  constructor
  · rintro ⟨state, agent', hrun, hsame, -⟩
    rw [hput, Option.some.injEq, Prod.mk.injEq] at hrun
    obtain ⟨-, rfl⟩ := hrun
    rw [hstored] at hsame
    by_cases hwrite : agent.fileHandler.canWrite filename = true
    · rw [if_pos hwrite] at hsame
      exact .inl hsame.symm
    · exact .inr (Bool.eq_false_iff.mpr hwrite)
  · intro hkeeps
    refine ⟨_, _, hput, ?_, hdeleted⟩
    rw [hstored]
    rcases hkeeps with hempty | hwrite
    · rw [hempty, ite_self]
    · rw [if_neg (by rw [hwrite]; decide)]

/-- A server with one file that holds one byte, whose client asks to store the file and
closes the connection. -/
def agentOfClosed (canWrite : Bool) : Agent where
  socket := { incoming := [.closed], sends := [.accepted 100] }
  fileHandler := { fs := FileSystem.empty.link [] ['f'] (.file [1] canWrite) }

/-- Where the file cannot be opened for writing, it survives. -/
theorem handlePut_keeps_file_not_writable :
    ∃ state agent', (agentOfClosed false).handlePut ftpProto 2 "f" = some (state, agent') ∧
      agent'.fileHandler.stored "f" = some [1] ∧ agent'.activeCommands.contains 1 = false :=
  (handlePut_keeps_file_iff ftpProto 2 (agentOfClosed false) "f" rfl rfl (by decide)).mpr
    (.inr rfl)

/-- A PUT whose client closes the connection at once empties the stored file. -/
theorem handlePut_empties_file :
    ∃ (commandId : UInt16) (started finished : Agent) (contents : List UInt8),
      (agentOfClosed true).startCommand ftpProto 2 .put = some (commandId, started) ∧
      started.readFileContents ftpProto 2 commandId =
        some (.disconnected, contents, finished) ∧
      (agentOfClosed true).fileHandler.stored "f" = some [1] ∧
      ∃ state agent', (agentOfClosed true).handlePut ftpProto 2 "f" = some (state, agent') ∧
        agent'.fileHandler.stored "f" = some [] :=
  ⟨_, _, _, _, rfl, rfl, rfl, _, _, rfl, rfl⟩

end Agent

end Csci6780
