import Csci6780.FtpClient

/-!
# The Participant's Multicast Receiver

This module embeds `participant_tasks::MulticastReceiver`. Its `RunAtomic` does one of two
things: it takes a message off the parser and prints it, or it calls `recv` once and feeds the
parser. A segment that holds several frames is therefore drained over several calls before the
socket is looked at again.

What the task leaves behind is the text of its log file and the lines it has handed to the
console task's queue. The result of `GetMessage` is not looked at, so a frame that does not
parse is printed as well; `garbled` is what protobuf leaves in a message that it could not parse.

## Main results

* `MulticastReceiver.Receiving.taskStep_spec`: one call prints a message or takes a recv result.
* `MulticastReceiver.multicasts_printed`: when the connection is closed, every multicast has
  been printed.
-/

namespace Csci6780

namespace PubSub

open Proto3

/-! ### The message -/

/-- `ForwardMulticast`. -/
structure ForwardMulticast where
  message : String := ""
  originId : UInt32 := 0
  deriving DecidableEq, Repr

/-- The fields of a `ForwardMulticast` message. -/
def ForwardMulticast.toFields (m : ForwardMulticast) : List Field :=
  stringFields 1 m.message ++ uint32Fields 2 m.originId

/-- Read a `ForwardMulticast` message. -/
def ForwardMulticast.ofFields (fields : List Field) : Option ForwardMulticast := do
  let message ← getString 1 "" fields
  return { message, originId := UInt32.ofNat (getVarint 2 0 fields) }

/-- `ForwardMulticast` in the proto3 wire format. -/
def forwardMulticastProto : Protobuf ForwardMulticast :=
  wireProto ForwardMulticast.toFields ForwardMulticast.ofFields

theorem ForwardMulticast.ofFields_toFields (m : ForwardMulticast) :
    ForwardMulticast.ofFields m.toFields = some m := by
  have hmessage : getString 1 "" m.toFields = some m.message :=
    getString_eq (by simp [toFields])
  have horigin : UInt32.ofNat (getVarint 2 0 m.toFields) = m.originId :=
    getVarint_eq (by simp [toFields])
  rw [ofFields, hmessage, horigin]
  rfl

/-- **The wire format of `ForwardMulticast` is lawful.** -/
theorem forwardMulticastProto_lawful : forwardMulticastProto.Lawful := by
  refine wireProto_lawful (fun m hsize => Plain.wellFormed ?_ hsize)
    fun m _ => m.ofFields_toFields
  exact (plain_stringFields (by omega) (by omega) _).append
    (plain_uint32Fields (by omega) (by omega) _)

/-- The line that is printed for a message. -/
def ForwardMulticast.toOut (msg : ForwardMulticast) : String :=
  "[" ++ toString msg.originId.toNat ++ "] " ++ msg.message

end PubSub

open PubSub

/-! ### The task -/

/-- One `recv` call: the result and the socket, or `none` if it blocks. -/
def Socket.recv (socket : Socket) : Option (RecvResult × Socket) :=
  match socket.incoming with
  | [] => none
  | .timedOut :: incoming =>
      some (.timedOut, { socket with incoming := incoming, errno := .again })
  | .failed :: incoming =>
      some (.failed, { socket with incoming := incoming, errno := .other })
  | result :: incoming => some (result, { socket with incoming := incoming })

/-- `MulticastReceiver`, with the text of its log file and what it has sent to the console. -/
structure MulticastReceiver where
  parser : MessageParser := {}
  logFile : String := ""
  console : List String := []
  deriving DecidableEq, Repr

namespace MulticastReceiver

variable (pb : Protobuf ForwardMulticast) (garbled : List UInt8 → ForwardMulticast)

/-- `MulticastReceiver::RunAtomic`. -/
def runAtomic : MulticastReceiver × Socket → Option (TaskStatus × MulticastReceiver × Socket)
  | (task, socket) =>
      if task.parser.hasCompleteMessage then
        let (msg, parser) := task.parser.getMessage pb
        let toOut := (msg.getD (garbled task.parser.partialMessage)).toOut
        some (.running,
          { parser := parser
            logFile := task.logFile ++ toOut ++ "\n"
            console := task.console ++ [toOut] },
          socket)
      else
        match socket.recv with
        | none => none
        | some (.timedOut, socket) | some (.failed, socket) =>
            if socket.errno = .again then some (.running, task, socket)
            else some (.failed, task, socket)
        | some (.closed, socket) => some (.done, task, socket)
        | some (.data bytes, socket) =>
            some (.running, { task with parser := task.parser.addNewData bytes }, socket)

/-- The task with more messages printed. -/
def printed (task : MulticastReceiver) (msgs : List ForwardMulticast) : MulticastReceiver :=
  { task with
    logFile := msgs.foldl (fun text msg => text ++ msg.toOut ++ "\n") task.logFile
    console := task.console ++ msgs.map ForwardMulticast.toOut }

/-- A script without an error: every result is a segment of 1 to 4096 bytes or a timeout. -/
def Patient (script : List RecvResult) : Prop :=
  ∀ result ∈ script, (∃ bytes, result = .data bytes ∧ 1 ≤ bytes.length ∧
    bytes.length ≤ 4096) ∨ result = .timedOut

theorem Patient.tail {result : RecvResult} {script : List RecvResult}
    (h : Patient (result :: script)) : Patient script :=
  fun r hr => h r (List.mem_cons_of_mem _ hr)

/-! ### Receiving -/

/-- A task on its way: the frames of `msgs` and the part `cut` of another frame are at hand or
arrive by `script`, and then the connection is closed. -/
structure Receiving (cut : List UInt8) (rest : List RecvResult) (msgs : List ForwardMulticast)
    (script : List RecvResult) (task : MulticastReceiver) (socket : Socket) : Prop where
  ready : task.parser.Ready
  small : Small pb msgs
  patient : Patient script
  incoming_eq : socket.incoming = script ++ .closed :: rest
  stream : task.parser.pending ++ arrived script = frames (msgs.map pb.encoding) ++ cut

variable {pb}

section Receiving

variable (hpb : pb.Lawful) {cut : List UInt8} (hcut : ¬ HasFrame cut) {rest : List RecvResult}
  {msgs : List ForwardMulticast} {script : List RecvResult} {task : MulticastReceiver}
  {socket : Socket}

include hpb

/-- A frame that is not complete yet while everything has arrived is the part at the end. -/
theorem Receiving.eq_nil_of_arrived (h : Receiving pb cut rest msgs [] task socket)
    (hno : ¬ HasFrame task.parser.pending) : msgs = [] := by
  cases msgs with
  | nil => rfl
  | cons m msgs =>
      have hstream := h.stream
      rw [show arrived [] = [] from rfl, List.append_nil, List.map_cons, frames_cons,
        List.append_assoc] at hstream
      rw [hstream] at hno
      exact absurd (hasFrame_frame_append (h.small.framable hpb).head _) hno

include hcut

/-- With a message at hand, a call prints it, and it is the next one of the stream. -/
theorem Receiving.taskStep_of_hasFrame (h : Receiving pb cut rest msgs script task socket)
    (hf : HasFrame task.parser.pending) :
    ∃ m msgs' parser, msgs = m :: msgs' ∧
      Receiving pb cut rest msgs' script { task.printed [m] with parser := parser } socket ∧
      taskStep (runAtomic pb garbled) (task, socket) =
        some (.inl ({ task.printed [m] with parser := parser }, socket)) := by
  have hwf := h.ready.wellFormed
  cases msgs with
  | nil =>
      have hall := (hf.append (arrived script)).1
      rw [h.stream, List.map_nil, frames_nil, List.nil_append] at hall
      exact absurd hall hcut
  | cons m msgs =>
      have hstream := h.stream
      rw [List.map_cons, frames_cons, List.append_assoc] at hstream
      obtain ⟨hframe, hafter⟩ := hf.eq_of_append_eq (h.small.framable hpb).head hstream
      obtain ⟨hnext, hpend⟩ := h.ready.nextMessage hf
      obtain ⟨-, hget⟩ := hwf.getMessage_of_hasFrame pb hf
      rw [hframe, hpb.parseBody_encoding h.small.head] at hget
      refine ⟨m, msgs, task.parser.nextMessage, rfl,
        ⟨hnext, h.small.tail, h.patient, h.incoming_eq, ?_⟩, ?_⟩
      · rw [hpend, hafter]
      · rw [taskStep, runAtomic, if_pos (hwf.hasCompleteMessage_iff.mpr hf), hget]
        rfl

/-- **One call.** It prints the next message, or takes a result off the script and prints
nothing; with nothing left to print, it notices that the connection is closed. -/
theorem Receiving.taskStep_spec (h : Receiving pb cut rest msgs script task socket) :
    (∃ m msgs' parser, msgs = m :: msgs' ∧
      Receiving pb cut rest msgs' script { task.printed [m] with parser := parser } socket ∧
      taskStep (runAtomic pb garbled) (task, socket) =
        some (.inl ({ task.printed [m] with parser := parser }, socket))) ∨
    (∃ result script' parser socket', script = result :: script' ∧
      Receiving pb cut rest msgs script' { task with parser := parser } socket' ∧
      taskStep (runAtomic pb garbled) (task, socket) =
        some (.inl ({ task with parser := parser }, socket'))) ∨
    (msgs = [] ∧ ∃ socket',
      taskStep (runAtomic pb garbled) (task, socket) = some (.inr (.done, task, socket'))) := by
  have hwf := h.ready.wellFormed
  by_cases hf : HasFrame task.parser.pending
  · exact .inl (h.taskStep_of_hasFrame garbled hpb hcut hf)
  · have hnot : ¬ task.parser.hasCompleteMessage = true :=
      fun hc => hf (hwf.hasCompleteMessage_iff.mp hc)
    have hin := h.incoming_eq
    cases script with
    | nil =>
        refine .inr (.inr ⟨h.eq_nil_of_arrived hpb hf, { socket with incoming := rest }, ?_⟩)
        rw [taskStep, runAtomic, if_neg hnot, Socket.recv, hin]
        rfl
    | cons result script =>
        rcases h.patient result List.mem_cons_self with ⟨bytes, rfl, hpos, hle⟩ | rfl
        · have hdata : bytes.length < 2 ^ 32 := by omega
          obtain ⟨hready, hpend⟩ := hwf.ready_addNewData hf hdata
          refine .inr (.inl ⟨.data bytes, script, task.parser.addNewData bytes,
            { socket with incoming := script ++ .closed :: rest }, rfl,
            ⟨hready, h.small, h.patient.tail, rfl, ?_⟩, ?_⟩)
          · rw [hpend, List.append_assoc]
            exact h.stream
          · rw [taskStep, runAtomic, if_neg hnot, Socket.recv, hin]
            rfl
        · refine .inr (.inl ⟨.timedOut, script, task.parser,
            { socket with incoming := script ++ .closed :: rest, errno := .again }, rfl,
            ⟨h.ready, h.small, h.patient.tail, rfl, h.stream⟩, ?_⟩)
          rw [taskStep, runAtomic, if_neg hnot, Socket.recv, hin]
          rfl

/-- **The run of a task on its way** prints what is to come, and ends. -/
theorem Receiving.run_prints (h : Receiving pb cut rest msgs script task socket) :
    ∃ fuel r, whileLoop (taskStep (runAtomic pb garbled)) fuel (task, socket) = some r ∧
      r.1 = .done ∧ r.2.1.console = (task.printed msgs).console ∧
      r.2.1.logFile = (task.printed msgs).logFile := by
  -- each call takes a message or a result, so that their number goes down
  refine whileLoop_returns
    (fun n s => ∃ msgs' script', Receiving pb cut rest msgs' script' s.1 s.2 ∧
      (s.1.printed msgs').console = (task.printed msgs).console ∧
      (s.1.printed msgs').logFile = (task.printed msgs).logFile ∧
      n = msgs'.length + script'.length) _ ?_ ⟨msgs, script, h, rfl, rfl, rfl⟩
  rintro n ⟨task', socket'⟩ ⟨msgs', script', h, hconsole, hlog, rfl⟩
  replace h : Receiving pb cut rest msgs' script' task' socket' := h
  rcases h.taskStep_spec garbled hpb hcut with
    ⟨m, msgs'', parser, rfl, h', hstep⟩ | ⟨result, script'', parser, socket'', rfl, h', hstep⟩ |
    ⟨rfl, socket'', hstep⟩
  · refine .inl ⟨_, _, ?_, hstep, msgs'', script', h', ?_, ?_, rfl⟩
    · rw [List.length_cons]
      omega
    · rw [← hconsole]
      simp only [printed, List.map_cons, List.map_nil, List.append_assoc, List.singleton_append]
    · rw [← hlog]
      rfl
  · refine .inl ⟨_, _, ?_, hstep, msgs', script'', h', hconsole, hlog, rfl⟩
    rw [List.length_cons]
    omega
  · refine .inr ⟨_, hstep, rfl, ?_, ?_⟩
    · rw [← hconsole]
      simp only [printed, List.map_nil, List.append_nil]
    · rw [← hlog]
      rfl

end Receiving

/-- **Every multicast is printed once, in order, before the task is done.** The frames of
`msgs` and a proper part of another frame arrive in segments of any size with timeouts in
between, and then the connection is closed; the pool runs the task until it stops returning
`RUNNING`. -/
theorem multicasts_printed (hpb : pb.Lawful) {msgs : List ForwardMulticast}
    (hsmall : Small pb msgs) {body cut : List UInt8} (hbody : body.length < 2 ^ 32)
    (hcut : cut <+: frame body) (hproper : cut ≠ frame body) {script : List RecvResult}
    (hscript : Patient script) (hstream : arrived script = serializeAll pb msgs ++ cut)
    (rest : List RecvResult) {task : MulticastReceiver} (hfresh : task.parser = {})
    {socket : Socket} (hincoming : socket.incoming = script ++ .closed :: rest) :
    ∃ fuel task' socket',
      whileLoop (taskStep (runAtomic pb garbled)) fuel (task, socket) =
        some (.done, task', socket') ∧
      task'.console = task.console ++ msgs.map ForwardMulticast.toOut ∧
      task'.logFile =
        msgs.foldl (fun text msg => text ++ msg.toOut ++ "\n") task.logFile := by
  have hno := not_hasFrame_of_prefix_frame hbody hcut hproper
  have hstart : Receiving pb cut rest msgs script task socket := by
    refine ⟨hfresh ▸ MessageParser.ready_fresh, hsmall, hscript, hincoming, ?_⟩
    rw [hfresh, MessageParser.pending_fresh, List.nil_append, hstream,
      serializeAll_eq_frames hpb hsmall]
  obtain ⟨fuel, ⟨status, task', socket'⟩, hrun, rfl, hconsole, hlog⟩ :=
    hstart.run_prints garbled hpb hno
  exact ⟨fuel, task', socket', hrun, hconsole, hlog⟩

/-- Two multicasts, cut inside the first, with a timeout and the start of a third. -/
theorem multicasts_printed_two :
    ∃ fuel task' socket',
      whileLoop (taskStep (runAtomic forwardMulticastProto fun _ => {})) fuel
        ({}, { incoming := [.data [0, 0, 0, 6, 10, 2, 104], .timedOut,
          .data [105, 16, 1, 0, 0, 0, 6, 10, 2, 121, 111, 16, 2, 0, 0], .closed] }) =
            some (.done, task', socket') ∧
      task'.console = ["[1] hi", "[2] yo"] ∧ task'.logFile = "[1] hi\n[2] yo\n" := by
  have hsmall : Small forwardMulticastProto [⟨"hi", 1⟩, ⟨"yo", 2⟩] := by
    intro m hmem
    simp only [List.mem_cons, List.not_mem_nil, or_false] at hmem
    rcases hmem with rfl | rfl
    · decide
    · decide
  have hscript : Patient [.data [0, 0, 0, 6, 10, 2, 104], .timedOut,
      .data [105, 16, 1, 0, 0, 0, 6, 10, 2, 121, 111, 16, 2, 0, 0]] := by
    intro result hmem
    simp only [List.mem_cons, List.not_mem_nil, or_false] at hmem
    rcases hmem with rfl | rfl | rfl
    · exact .inl ⟨_, rfl, by decide, by decide⟩
    · exact .inr rfl
    · exact .inl ⟨_, rfl, by decide, by decide⟩
  have hcut : ([0, 0] : List UInt8) <+: frame [1] := ⟨[0, 1, 1], rfl⟩
  exact multicasts_printed (fun _ => {}) forwardMulticastProto_lawful hsmall (by decide) hcut
    (by decide) hscript (by decide) [] rfl rfl

end MulticastReceiver

end Csci6780
