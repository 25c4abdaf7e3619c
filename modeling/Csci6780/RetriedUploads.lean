import Csci6780.FtpClient
import Csci6780.Lib.Runs

/-!
# Retried Uploads

The pool calls `UploadTask::RunAtomic` again and again until the task is no longer running, and a
`send` that times out leaves it running. How much of a frame has been sent is a local variable of
`SendNextChunk`, so the next call starts over with the whole frame. This module says when what the
socket accepts is the beginning of the frames of the file all the same.

A run is one action after the other, each of them a call of `RunAtomic` while the task is running.
There is nothing to say about the middle of a call: it looks like the end of one whose next `send`
times out, and every script of `send` results is considered.

## Main results

* `Upload.step_spec`: what one call sends.
* `retried_uploads`: no call follows one that was cut short, so the stream is intact.
-/

namespace Csci6780

/-- An upload: the task, its socket, and what `RunAtomic` returned last. -/
structure Upload where
  task : UploadTask
  socket : Socket
  status : TaskStatus := .running
  deriving DecidableEq, Repr

/-- One call of `RunAtomic`, while the task is running. -/
def uploadStep (pb : Protobuf FileContents) (u : Upload) (_ : Unit) : Option Upload :=
  if u.status = .running then
    match UploadTask.runAtomic pb (u.task, u.socket) with
    | none => none
    | some (status, task, socket) => some ⟨task, socket, status⟩
  else none

namespace Upload

/-- The upload of a file. -/
def start (file : List UInt8) (socket : Socket) : Upload where
  task   := UploadTask.create file
  socket := socket

/-- The frame that the next call sends. -/
def nextFrame (pb : Protobuf FileContents) (u : Upload) : List UInt8 :=
  frame (pb.encoding u.task.sender.fileMessage)

/-- The next call is cut short: a `send` times out after some of the frame has been accepted, but
not all of it. -/
def CutShort (pb : Protobuf FileContents) (u : Upload) : Prop :=
  ∃ accepts rest, u.socket.sends = accepts ++ .timedOut :: rest ∧ Accepting accepts ∧
    accepts ≠ [] ∧ counted accepts < (u.nextFrame pb).length

/-- The next call sends its frame, and its position in the file is then `2 ^ 32` or more. -/
def Wraps (pb : Protobuf FileContents) (u : Upload) : Prop :=
  2 ^ 32 ≤ u.task.sender.totalBytesSent.toNat + u.task.sender.kActualSize ∧
    ∃ accepts rest, u.socket.sends = accepts ++ rest ∧ Accepting accepts ∧
      (u.nextFrame pb).length ≤ counted accepts

/-- The next call may be followed by another one. -/
def Repeatable (pb : Protobuf FileContents) (u : Upload) : Prop := ¬ u.CutShort pb ∧ ¬ u.Wraps pb

/-- What has been sent since the socket had sent `sent` is the beginning of the frames of
`file`. -/
def Intact (pb : Protobuf FileContents) (file sent : List UInt8) (u : Upload) : Prop :=
  ∃ bytes, u.socket.sent = sent ++ bytes ∧ bytes <+: frames ((fileChunks file).map pb.encoding)

/-- The frames of the first `i` chunks have been sent, and the sender is about to send the next
one. -/
structure Between (pb : Protobuf FileContents) (file sent : List UInt8) (i : ℕ) (u : Upload) :
    Prop where
  isAt : u.task.sender.At file i
  sent_eq : u.socket.sent = sent ++ frames (((fileChunks file).take i).map pb.encoding)

variable {pb : Protobuf FileContents} {file sent : List UInt8} {i : ℕ} {u u' : Upload}

theorem between_start (pb : Protobuf FileContents) (file : List UInt8) (socket : Socket) :
    (start file socket).Between pb file socket.sent 0 where
  isAt    := ChunkedFileSender.at_zero {} file
  sent_eq := by rw [List.take_zero, List.map_nil, frames_nil, List.append_nil]; rfl

/-- A chunk's frame goes between the frames before it and those after it. -/
theorem frames_take_succ (hi : i < chunkCount file) :
    frames (((fileChunks file).take i).map pb.encoding) ++
        frame (pb.encoding (chunkAt file i)) =
      frames (((fileChunks file).take (i + 1)).map pb.encoding) := by
  have hget : (fileChunks file).take (i + 1) = (fileChunks file).take i ++ [chunkAt file i] := by
    rw [List.take_add, drop_fileChunks hi]
    rfl
  rw [hget, List.map_append, frames_append, List.map_singleton, frames_cons, frames_nil,
    List.append_nil]

/-- The frames of some of the chunks are the beginning of all frames. -/
theorem frames_take_prefix (pb : Protobuf FileContents) (file : List UInt8) (i : ℕ) :
    frames (((fileChunks file).take i).map pb.encoding) <+:
      frames ((fileChunks file).map pb.encoding) := by
  refine ⟨frames (((fileChunks file).drop i).map pb.encoding), ?_⟩
  rw [← frames_append, ← List.map_append, List.take_append_drop]

/-- A sender that is not done has a chunk left. -/
theorem Between.lt_chunkCount (h : u.Between pb file sent i)
    (hnot : u.task.sender.sentCompleteFile = false) : i < chunkCount file := by
  by_contra hle
  rw [h.isAt.sentCompleteFile_iff.mpr (Nat.le_of_not_lt hle)] at hnot
  cases hnot

theorem Between.intact (h : u.Between pb file sent i) : u.Intact pb file sent :=
  ⟨_, h.sent_eq, frames_take_prefix pb file i⟩

/-- Whatever part of the next frame is sent, the stream is intact. -/
theorem Between.intact_of_prefix (h : u.Between pb file sent i) (hi : i < chunkCount file)
    {part : List UInt8} (hpart : part <+: u.nextFrame pb)
    (hsent : u'.socket.sent = u.socket.sent ++ part) : u'.Intact pb file sent := by
  obtain ⟨rest, hrest⟩ := hpart
  obtain ⟨later, hlater⟩ := frames_take_prefix pb file (i + 1)
  refine ⟨frames (((fileChunks file).take i).map pb.encoding) ++ part, ?_, rest ++ later, ?_⟩
  · rw [hsent, h.sent_eq, List.append_assoc]
  · rw [nextFrame, h.isAt.fileMessage_eq hi] at hrest
    rw [← hlater, ← frames_take_succ hi, ← hrest]
    simp only [List.append_assoc]

end Upload

section Retried

variable {pb : Protobuf FileContents} (hpb : pb.Lawful) (hsized : FileContentsSized pb)
  {file sent : List UInt8} {i : ℕ} {u u' : Upload}

include hpb hsized

/-- What a call of `RunAtomic` does: nothing when the file is sent; otherwise it sends the next
frame and moves on, or sends a part of it and stays where it is, with the task still running only
if a timeout is the reason. -/
theorem Upload.step_cases (hstep : uploadStep pb u () = some u') :
    (u.task.sender.sentCompleteFile = true ∧ u'.socket = u.socket ∧ u'.status = .done) ∨
    (u.task.sender.sentCompleteFile = false ∧ u'.socket.sent = u.socket.sent ++ u.nextFrame pb ∧
      u'.task.sender = { u.task.sender with
        outgoingMessageBuffer := u.nextFrame pb
        totalBytesSent := u.task.sender.totalBytesSent +
          UInt32.ofNat u.task.sender.kActualSize } ∧
      ∃ accepts rest, u.socket.sends = accepts ++ rest ∧ Accepting accepts ∧
        (u.nextFrame pb).length ≤ counted accepts) ∨
    (u.task.sender.sentCompleteFile = false ∧ ∃ part, part <+: u.nextFrame pb ∧
      u'.socket.sent = u.socket.sent ++ part ∧
      u'.task.sender = { u.task.sender with outgoingMessageBuffer := u.nextFrame pb } ∧
      (u'.status = .running → ∃ accepts rest, u.socket.sends = accepts ++ .timedOut :: rest ∧
        Accepting accepts ∧ part.length = counted accepts ∧
        counted accepts < (u.nextFrame pb).length)) := by
  rw [uploadStep] at hstep
  split at hstep
  · rw [UploadTask.runAtomic] at hstep
    by_cases hdone : u.task.sender.sentCompleteFile = true
    · rw [if_pos hdone] at hstep
      obtain rfl := Option.some.inj hstep
      exact .inl ⟨hdone, rfl, rfl⟩
    · have hpos : 0 < (u.nextFrame pb).length := by
        rw [nextFrame, length_frame]
        omega
      obtain ⟨last, accepted, left, accepts, rest, hloop, hsplit, hacc, hend⟩ :=
        u.socket.sendLoop_spec (u.nextFrame pb)
      rw [if_neg hdone, u.task.sender.sendNextChunk_eq hpb hsized, ← nextFrame] at hstep
      simp only [hloop] at hstep
      refine .inr ?_
      rcases hend with ⟨hlast, haccepted, hle⟩ | ⟨hlast, hinit, hcount, hlt, htimedOut⟩
      · obtain rfl := hlast
        obtain rfl := haccepted
        simp only [if_neg (show ¬ ((u.nextFrame pb).length : ℤ) < 0 by omega),
          if_neg (show ¬ ((u.nextFrame pb).length : ℤ) = 0 by omega)] at hstep
        obtain rfl := Option.some.inj hstep
        exact .inl ⟨Bool.not_eq_true _ ▸ hdone, rfl, rfl, accepts, rest, hsplit, hacc, hle⟩
      · refine .inr ⟨Bool.not_eq_true _ ▸ hdone, accepted, hinit, ?_⟩
        cases last with
        | complete => exact absurd rfl hlast
        | closed =>
            simp only [if_neg (Int.lt_irrefl 0), if_true] at hstep
            obtain rfl := Option.some.inj hstep
            exact ⟨rfl, rfl, fun hrunning => TaskStatus.noConfusion hrunning⟩
        | timedOut =>
            obtain ⟨more, rfl⟩ := htimedOut rfl
            obtain rfl := Option.some.inj hstep
            exact ⟨rfl, rfl, fun _ => ⟨accepts, more, hsplit, hacc, hcount, hlt⟩⟩
        | failed =>
            obtain rfl := Option.some.inj hstep
            exact ⟨rfl, rfl, fun hrunning => TaskStatus.noConfusion hrunning⟩
        | blocked => cases hstep
  · cases hstep

/-- **One call.** From between two frames a call sends a part of the next one, and ends between
two frames if it may be repeated. -/
theorem Upload.step_spec (h : u.Between pb file sent i) (hstep : uploadStep pb u () = some u') :
    u'.Intact pb file sent ∧
      (u.Repeatable pb → u'.status = .running → ∃ j, u'.Between pb file sent j) := by
  rcases step_cases hpb hsized hstep with ⟨-, hsocket, hstatus⟩ |
    ⟨hnot, hsent, hsender, haccepts⟩ | ⟨hnot, part, hpart, hsent, hsender, hrunning⟩
  · refine ⟨?_, fun _ hrunning => ?_⟩
    · rw [Intact, hsocket]
      exact h.intact
    · rw [hstatus] at hrunning
      cases hrunning
  · have hi := h.lt_chunkCount hnot
    refine ⟨h.intact_of_prefix hi (List.prefix_refl _) hsent, fun hrep _ => ⟨i + 1, ?_, ?_⟩⟩
    · rw [hsender]
      exact h.isAt.succ hi (Nat.lt_of_not_le fun hle => hrep.2 ⟨hle, haccepts⟩) _
    · rw [hsent, h.sent_eq, List.append_assoc, nextFrame, h.isAt.fileMessage_eq hi,
        frames_take_succ hi]
  · have hi := h.lt_chunkCount hnot
    refine ⟨h.intact_of_prefix hi hpart hsent, fun hrep hstill => ⟨i, ?_, ?_⟩⟩
    · rw [hsender]
      exact ⟨h.isAt.fileContents_eq, h.isAt.totalBytesSent_eq⟩
    · obtain ⟨accepts, rest, hsplit, hacc, hcount, hlt⟩ := hrunning hstill
      have hnil : accepts = [] := by
        by_contra hne
        exact hrep.1 ⟨accepts, rest, hsplit, hacc, hne, hlt⟩
      rw [hnil, counted_nil, List.length_eq_zero_iff] at hcount
      rw [hsent, hcount, List.append_nil, h.sent_eq]

/-- From between two frames, a run in which only repeatable calls are followed by others keeps the
stream intact. -/
theorem Upload.Between.eachState_intact (h : u.Between pb file sent i) {k : ℕ}
    (hsteps : EachStep (uploadStep pb) (fun u _ => u.Repeatable pb) u (List.replicate k ())) :
    EachState (uploadStep pb) (Upload.Intact pb file sent) u (List.replicate (k + 1) ()) := by
  induction k generalizing u i with
  | zero => exact .cons h.intact fun m hm => .nil (Upload.step_spec hpb hsized h hm).1
  | succ k ih =>
      rw [List.replicate_succ]
      refine .cons h.intact fun m hm => ?_
      obtain ⟨hintact, hbetween⟩ := Upload.step_spec hpb hsized h hm
      by_cases hrunning : m.status = .running
      · obtain ⟨j, hm'⟩ := hbetween hsteps.first hrunning
        exact ih hm' (hsteps.tail hm)
      · refine .cons hintact fun m' hm' => ?_
        rw [uploadStep, if_neg hrunning] at hm'
        cases hm'

end Retried

/-- **Retried uploads.** However the calls of `send` end, in every run of `UploadTask` in which no
call of `RunAtomic` follows one that was cut short, or that took the position in the file to
`2 ^ 32`, what the socket has accepted is at all times the beginning of the frames of the file. -/
theorem retried_uploads {pb : Protobuf FileContents} (hpb : pb.Lawful)
    (hsized : FileContentsSized pb) (file : List UInt8) (socket : Socket) (k : ℕ)
    (hsteps : EachStep (uploadStep pb) (fun u _ => u.Repeatable pb) (.start file socket)
      (List.replicate k ())) :
    EachState (uploadStep pb) (Upload.Intact pb file socket.sent) (.start file socket)
      (List.replicate (k + 1) ()) :=
  (Upload.between_start pb file socket).eachState_intact hpb hsized hsteps

/-- A call that times out before anything is accepted, and one that sends the frame. -/
theorem retried_uploads_one_byte :
    EachState (uploadStep fileContentsProto) (Upload.Intact fileContentsProto [7] [])
      (.start [7] { sends := [.timedOut, .accepted 100] }) (List.replicate 3 ()) := by
  refine retried_uploads fileContentsProto_lawful fileContentsProto_sized [7]
    { sends := [.timedOut, .accepted 100] } 2 ?_
  have hfirst : (Upload.start [7] { sends := [.timedOut, .accepted 100] }).Repeatable
      fileContentsProto := by
    refine ⟨?_, fun hwraps => absurd hwraps.1 (by decide)⟩
    rintro ⟨accepts, rest, hsplit, hacc, hne, -⟩
    cases accepts with
    | nil => exact hne rfl
    | cons result accepts =>
        obtain ⟨n, -, rfl⟩ := hacc result List.mem_cons_self
        injection hsplit with hhead
        cases hhead
  have hsecond : ∀ u, uploadStep fileContentsProto
      (.start [7] { sends := [.timedOut, .accepted 100] }) () = some u →
      u.Repeatable fileContentsProto := by
    intro u hu
    obtain rfl := Option.some.inj hu
    refine ⟨?_, fun hwraps => absurd hwraps.1 (by decide)⟩
    rintro ⟨accepts, rest, hsplit, -, hne, -⟩
    cases accepts with
    | nil => exact hne rfl
    | cons result accepts =>
        injection hsplit with hhead htail
        cases accepts with
        | nil => cases htail
        | cons _ _ => cases htail
  exact .cons hfirst fun u hu => .cons (hsecond u hu) fun m _ => .nil m

/-- A timeout after the first byte of the frame: the whole frame follows the byte. -/
theorem retried_upload_corrupts :
    ¬ EachState (uploadStep fileContentsProto) (Upload.Intact fileContentsProto [7] [])
      (.start [7] { sends := [.accepted 1, .timedOut, .accepted 100] }) (List.replicate 2 ()) := by
  intro h
  obtain ⟨u, hrun, hsent⟩ : ∃ u, runFrom (uploadStep fileContentsProto)
      (.start [7] { sends := [.accepted 1, .timedOut, .accepted 100] }) (List.replicate 2 ()) =
        some u ∧ u.socket.sent = [0, 0, 0, 0, 5, 10, 1, 7, 16, 1] := ⟨_, rfl, rfl⟩
  obtain ⟨bytes, hbytes, hinit⟩ := h.last hrun
  have hlen := hinit.length_le
  have hframe : (frames ((fileChunks [7]).map fileContentsProto.encoding)).length = 9 := by decide
  rw [hsent, List.nil_append] at hbytes
  rw [← hbytes, hframe] at hlen
  simp at hlen

end Csci6780
