import Csci6780.AtMostOnce
import Csci6780.Lib.Channels
import Csci6780.MulticastReceiver

/-!
# What Participants Print

The coordinator handles its requests one after another, and every connection that it makes to a
participant leads to a `MulticastReceiver`, which prints what arrives into the participant's log
file and onto its console. What has been sent is on its way for as long as it likes: a receiver
reads it in pieces of any length, while the coordinator handles further requests, and when the
participant disconnects, its receiver is stopped wherever it stands. All connections and receivers
that there ever were are part of the state, since the log file and the console outlast them.

A connection that is made for a participant reaches that participant's receiver. Connections do not
lose, repeat or reorder bytes, and a send takes its whole message.

## Main results

* `Accounted.serve`, `Delivers.receive`: a request and a call of `RunAtomic` keep the account of
  what was sent, what is on its way and what is printed.
* `Inv.step`: every step of a well-formed run keeps the invariant.
* `multicasts_printed_once`: in a well-formed run, nobody prints a multicast twice or one that was
  not sent, and who was connected prints it when everything has arrived.
-/

namespace Csci6780.PubSub

open scoped List

/-- What `Messenger::SerializeMessage` fills in. -/
def Message.forward (msg : Message) : ForwardMulticast where
  message := msg.msg
  originId := msg.participantId

/-- A connection from a messenger to the receiver of a participant: the messenger's
`outgoing_message_buffer_`, the bytes on their way, the receiver's parser, and whether the receiver
is run by its pool. -/
structure Link where
  participant : UInt32
  outgoing : List UInt8 := []
  wire : List UInt8 := []
  parser : MessageParser := {}
  running : Bool := true

/-- The coordinator and the receivers of the participants. `peer` is the connection that one of the
coordinator's descriptors leads to. -/
structure Audience where
  coordinator : Coordinator
  links : List Link := []
  peer : ℤ → Option ℕ := fun _ => none
  logFile : UInt32 → String := fun _ => ""
  console : UInt32 → List String := fun _ => []

variable (pb : Protobuf ForwardMulticast) (garbled : List UInt8 → ForwardMulticast)

/-- `Messenger::SendMessage`, on the messenger's end of the connection. -/
def Link.send (msg : Message) (succeeds : Bool) (link : Link) : Link :=
  let outgoing := (serialize pb msg.forward link.outgoing).2
  { link with
    outgoing
    wire := link.wire ++ if succeeds then outgoing else [] }

/-- What `recv` returns fits into the receiver's buffer. -/
def fitsBuffer : RecvResult → Bool
  | .data bytes => 1 ≤ bytes.length && bytes.length ≤ 4096
  | _ => true

namespace Audience

/-- A connection is made from a descriptor, and the receiver of the participant accepts it. -/
def accept (s : Audience) (p : Participant) : Audience :=
  { s with
    links := s.links ++ [{ participant := p.id }]
    peer := Function.update s.peer p.sockFd (some s.links.length) }

/-- A message is sent on a descriptor. -/
def send (s : Audience) (fd : ℤ) (msg : Message) (succeeds : Bool) : Audience :=
  match s.peer fd with
  | none => s
  | some k => { s with links := s.links.modify k (Link.send pb msg succeeds) }

/-- `close(fd)`. -/
def close (s : Audience) (fd : ℤ) : Audience :=
  { s with peer := Function.update s.peer fd none }

/-- What the coordinator's event does to the connections; `p` is the record of the participant that
it connects to. -/
def note (p : Participant) (s : Audience) : Event → Audience
  | .connecting true => s.accept p
  | .sent fd _ msg succeeded => s.send pb fd msg succeeded
  | .closed fd => s.close fd
  | _ => s

/-- The record of the messenger that was added last. -/
def newest (c : Coordinator) : Participant :=
  (c.messengers.getLast?.map Messenger.participant).getD Participant.zero

/-- The coordinator has handled a request and come to a state; its new events have done what they
do to the connections. -/
def follow (s : Audience) (c : Coordinator) : Audience :=
  { (c.trace.drop s.coordinator.trace.length).foldl (note pb (newest c)) s with coordinator := c }

/-- The coordinator handles a request. -/
def serve (s : Audience) (x : Exchange) : Option Audience :=
  (s.coordinator.serve x).map (s.follow pb)

/-- The receiver at the other end of a connection. -/
def receiver (s : Audience) (link : Link) : MulticastReceiver where
  parser := link.parser
  logFile := s.logFile link.participant
  console := s.console link.participant

/-- A receiver has run. -/
def afterRun (s : Audience) (k : ℕ) (link : Link) (task : MulticastReceiver) : Audience :=
  { s with
    links := s.links.set k { link with parser := task.parser }
    logFile := Function.update s.logFile link.participant task.logFile
    console := Function.update s.console link.participant task.console }

/-- `MulticastReceiver::RunAtomic` of a receiver, where `recv` would return `result`. -/
def receive (s : Audience) (k : ℕ) (result : RecvResult) : Option Audience :=
  s.links[k]?.bind fun link =>
    (MulticastReceiver.runAtomic pb garbled (s.receiver link, { incoming := [result] })).bind
      fun (status, task, socket) =>
        -- what `recv` has returned has come off the wire
        let read := if socket.incoming = [] then arrived [result] else []
        if link.running && fitsBuffer result && read.isPrefixOf link.wire then
          some (s.afterRun k
            { link with wire := link.wire.drop read.length, running := status = .running } task)
        else none

/-- The participant cancels its receiver. -/
def stop (s : Audience) (k : ℕ) : Audience :=
  { s with links := s.links.modify k fun link => { link with running := false } }

/-- The coordinator handles a request, a receiver runs, or it is cancelled. -/
inductive Action
  | serve (x : Exchange)
  | receive (k : ℕ) (result : RecvResult)
  | stop (k : ℕ)

/-- One step. -/
def step (s : Audience) : Action → Option Audience
  | .serve x => s.serve pb x
  | .receive k result => s.receive pb garbled k result
  | .stop k => some (s.stop k)

/-! ### What participants are sent and what they print -/

/-- The participants that the connections lead to. -/
def listeners (s : Audience) : List UInt32 := s.links.map Link.participant

/-- The connection leads to the participant. -/
def isFor (s : Audience) (id : UInt32) (k : ℕ) : Bool := s.listeners[k]? = some id

/-- The descriptor leads to a receiver of the participant. -/
def Leads (s : Audience) (fd : ℤ) (id : UInt32) : Prop :=
  ∃ k, s.peer fd = some k ∧ s.isFor id k = true

/-- The participant has printed the messages, and nothing else. -/
def Printed (s : Audience) (id : UInt32) (msgs : List Message) : Prop :=
  s.logFile id = msgs.foldl (fun text msg => text ++ msg.forward.toOut ++ "\n") "" ∧
    s.console id = msgs.map fun msg => msg.forward.toOut

/-- Nothing is on its way to the participant. -/
def Quiet (s : Audience) (id : UInt32) : Prop :=
  ∀ link ∈ s.links, link.participant = id → link.parser.pending = [] ∧ link.wire = []

end Audience

/-- The message that an event sends to the participant. -/
def Event.messageTo (id : UInt32) : Event → Option Message
  | .sent _ receiver msg _ => if receiver = id then some msg else none
  | _ => none

/-- What the participant has been sent. -/
def sentTo (id : UInt32) (trace : List Event) : List Message := trace.filterMap (Event.messageTo id)

/-- The message is one of the multicasts that were asked for, under its number. -/
def Message.IsOf (asked : List ForwardMulticast) (msg : Message) : Prop :=
  asked[msg.number]? = some msg.forward

theorem Message.IsOf.append {asked : List ForwardMulticast} {msg : Message} (h : msg.IsOf asked)
    (more : List ForwardMulticast) : msg.IsOf (asked ++ more) := by
  have hlt := (List.getElem?_eq_some_iff.mp h).1
  exact (List.getElem?_append_left hlt).trans h

theorem Message.IsOf.small {pb : Protobuf ForwardMulticast} {asked : List ForwardMulticast}
    {msg : Message} (h : msg.IsOf asked) (hsmall : Small pb asked) :
    pb.byteSizeLong msg.forward < 2 ^ 31 :=
  hsmall _ (List.mem_of_getElem? h)

theorem small_append {Msg : Type} {pb : Protobuf Msg} {ms more : List Msg} (h : Small pb ms)
    (hmore : Small pb more) : Small pb (ms ++ more) :=
  fun m hm => (List.mem_append.mp hm).elim (h m) (hmore m)

/-- The event does nothing to a connection. -/
def Event.silent : Event → Bool
  | .sent _ _ _ _ | .connecting _ | .closed _ => false
  | _ => true

/-! ### The messages of one connection -/

/-- The messages are on their way: in part they are in the parser, in part on the wire. -/
structure OnTheWay (parser : MessageParser) (wire : List UInt8) (msgs : List Message) : Prop where
  ready : parser.Ready
  small : Small pb (msgs.map Message.forward)
  stream : parser.pending ++ wire = frames ((msgs.map Message.forward).map pb.encoding)

section OnTheWay

variable {pb} {parser : MessageParser} {wire : List UInt8} {msgs : List Message} {msg : Message}

theorem onTheWay_nil : OnTheWay pb {} [] [] :=
  ⟨MessageParser.ready_fresh, fun _ h => absurd h List.not_mem_nil, by
    rw [MessageParser.pending_fresh]
    rfl⟩

/-- A message that is sent follows the others. -/
theorem OnTheWay.send (h : OnTheWay pb parser wire msgs) (hpb : pb.Lawful)
    (hsmall : pb.byteSizeLong msg.forward < 2 ^ 31) (outgoing : List UInt8) :
    OnTheWay pb parser (wire ++ (serialize pb msg.forward outgoing).2) (msgs ++ [msg]) where
  ready := h.ready
  small := by
    intro m hm
    rw [List.map_append, List.mem_append] at hm
    rcases hm with hm | hm
    · exact h.small m hm
    · obtain rfl := List.mem_singleton.mp hm
      exact hsmall
  stream := by
    rw [serialize_eq_frame hpb hsmall, ← List.append_assoc, h.stream, List.map_append,
      List.map_append, frames_append]
    simp

/-- What `recv` has returned goes into the parser. -/
theorem OnTheWay.read {data : List UInt8} (h : OnTheWay pb parser (data ++ wire) msgs)
    (hno : ¬HasFrame parser.pending) (hdata : data.length < 2 ^ 32) :
    OnTheWay pb (parser.addNewData data) wire msgs := by
  obtain ⟨hready, hpend⟩ := h.ready.wellFormed.ready_addNewData hno hdata
  refine ⟨hready, h.small, ?_⟩
  rw [hpend, List.append_assoc, h.stream]

/-- A message that is complete is the next one. -/
theorem OnTheWay.next (h : OnTheWay pb parser wire msgs) (hpb : pb.Lawful)
    (hf : HasFrame parser.pending) :
    ∃ msg rest, msgs = msg :: rest ∧
      parser.getMessage pb = (some msg.forward, parser.nextMessage) ∧
      OnTheWay pb parser.nextMessage wire rest := by
  obtain ⟨m, rest, hmsgs, hget, hstream⟩ :=
    h.ready.wellFormed.getMessage_of_frames hpb hf h.small h.stream
  cases msgs with
  | nil => cases hmsgs
  | cons msg msgs =>
      obtain ⟨rfl, rfl⟩ := List.cons.inj hmsgs
      obtain ⟨hready, hpend⟩ := h.ready.nextMessage hf
      refine ⟨msg, msgs, rfl, hget, hready, h.small.tail, ?_⟩
      rw [hpend, hstream]

/-- When no byte is on its way, no message is. -/
theorem OnTheWay.eq_nil (h : OnTheWay pb parser wire msgs) (hpending : parser.pending = [])
    (hwire : wire = []) : msgs = [] := by
  have hstream := h.stream
  rw [hpending, hwire, List.append_nil, eq_comm, frames_eq_nil_iff] at hstream
  exact List.map_eq_nil_iff.mp (List.map_eq_nil_iff.mp hstream)

end OnTheWay

namespace Audience

/-! ### The account of all connections -/

/-- **The account**: which message was sent on which connection, and which was printed from it.
What is not printed yet is on its way. -/
structure Delivers (s : Audience) (sent printed : List (ℕ × Message)) : Prop where
  sent_lt : ∀ d ∈ sent, d.1 < s.links.length
  printed_lt : ∀ d ∈ printed, d.1 < s.links.length
  printed_eq : ∀ id, s.Printed id (among (s.isFor id) printed)
  link : ∀ k link, s.links[k]? = some link →
    ∃ msgs, OnTheWay pb link.parser link.wire msgs ∧
      through k sent = through k printed ++ msgs

section Account

variable {pb} {s s' : Audience} {sent printed : List (ℕ × Message)} {k : ℕ} {link link' : Link}
  {id : UInt32}

theorem isFor_of_link (h : s.links[k]? = some link) (id : UInt32) :
    s.isFor id k = decide (link.participant = id) := by
  rw [isFor, listeners, List.getElem?_map, h]
  simp

theorem link_of_isFor (h : s.isFor id k = true) :
    ∃ link, s.links[k]? = some link ∧ link.participant = id := by
  rw [isFor, decide_eq_true_iff, listeners, List.getElem?_map, Option.map_eq_some_iff] at h
  exact h

theorem isFor_congr (h : s'.listeners = s.listeners) : s'.isFor = s.isFor := by
  funext id k
  rw [isFor, isFor, h]

theorem listeners_set (hk : s.links[k]? = some link) (hsame : link'.participant = link.participant)
    (hlinks : s'.links = s.links.set k link') : s'.listeners = s.listeners := by
  rw [listeners, hlinks, List.map_set, hsame, listeners]
  refine List.ext_getElem? fun j => ?_
  rw [List.getElem?_set]
  split
  · next hj =>
      subst hj
      rw [List.getElem?_map, hk, Option.map_some, if_pos]
      rw [List.length_map]
      exact (List.getElem?_eq_some_iff.mp hk).1
  · rfl

/-- One connection goes on: messages are sent on it, or printed from it. -/
theorem Delivers.update (h : s.Delivers pb sent printed) (hk : s.links[k]? = some link)
    (hsame : link'.participant = link.participant) (hlinks : s'.links = s.links.set k link')
    {ins outs msgs : List Message} (hholds : OnTheWay pb link'.parser link'.wire msgs)
    (hmsgs : through k sent ++ ins = through k printed ++ outs ++ msgs)
    (hprinted : ∀ id, s'.Printed id
      (among (s.isFor id) printed ++ if link.participant = id then outs else [])) :
    s'.Delivers pb (sent ++ ins.map fun msg => (k, msg))
      (printed ++ outs.map fun msg => (k, msg)) := by
  have hlen : s'.links.length = s.links.length := by rw [hlinks, List.length_set]
  have hlt : k < s.links.length := (List.getElem?_eq_some_iff.mp hk).1
  have hfor := isFor_congr (listeners_set hk hsame hlinks)
  have htagged : ∀ (items : List (ℕ × Message)) (more : List Message),
      (∀ d ∈ items, d.1 < s.links.length) →
      ∀ d ∈ items ++ more.map fun msg => (k, msg), d.1 < s'.links.length := by
    intro items more hitems d hd
    rw [hlen]
    rcases List.mem_append.mp hd with hd | hd
    · exact hitems d hd
    · obtain ⟨msg, -, rfl⟩ := List.mem_map.mp hd
      exact hlt
  refine ⟨htagged sent ins h.sent_lt, htagged printed outs h.printed_lt, fun id => ?_,
    fun j other hj => ?_⟩
  · rw [hfor, among_append, among_map_mk, isFor_of_link hk]
    simpa using hprinted id
  · rw [through_append, through_append]
    by_cases hjk : k = j
    · subst hjk
      rw [hlinks, List.getElem?_set_self hlt] at hj
      obtain rfl := Option.some.inj hj
      refine ⟨msgs, hholds, ?_⟩
      rw [through_self, through_self]
      exact hmsgs
    · rw [hlinks, List.getElem?_set_ne hjk] at hj
      obtain ⟨msgs', hholds', heq⟩ := h.link j other hj
      refine ⟨msgs', hholds', ?_⟩
      rw [through_of_ne hjk, through_of_ne hjk, List.append_nil, List.append_nil]
      exact heq

/-- A new connection has carried nothing yet. -/
theorem among_accept (p : Participant) {items : List (ℕ × Message)}
    (h : ∀ d ∈ items, d.1 < s.links.length) (id : UInt32) :
    among ((s.accept p).isFor id) items = among (s.isFor id) items := by
  refine among_congr fun d hd => ?_
  rw [isFor, isFor, listeners, listeners, Audience.accept, List.map_append,
    List.getElem?_append_left]
  rw [List.length_map]
  exact h d hd

theorem Delivers.accept (h : s.Delivers pb sent printed) (p : Participant) :
    (s.accept p).Delivers pb sent printed := by
  have hlen : (s.accept p).links.length = s.links.length + 1 := List.length_append
  refine ⟨fun d hd => ?_, fun d hd => ?_, fun id => ?_, fun k link hk => ?_⟩
  · rw [hlen]
    exact Nat.lt_succ_of_lt (h.sent_lt d hd)
  · rw [hlen]
    exact Nat.lt_succ_of_lt (h.printed_lt d hd)
  · rw [among_accept p h.printed_lt]
    exact h.printed_eq id
  · rcases Nat.lt_or_ge k s.links.length with hlt | hge
    · refine h.link k link ?_
      rw [← hk, Audience.accept, List.getElem?_append_left hlt]
    · have hk' : k = s.links.length := by
        have := (List.getElem?_eq_some_iff.mp hk).1
        omega
      subst hk'
      rw [Audience.accept, List.getElem?_append_right (Nat.le_refl _), Nat.sub_self] at hk
      obtain rfl := Option.some.inj hk
      refine ⟨[], onTheWay_nil, ?_⟩
      rw [through_eq_nil fun d hd => Nat.ne_of_lt (h.sent_lt d hd),
        through_eq_nil fun d hd => Nat.ne_of_lt (h.printed_lt d hd), List.append_nil]

/-- A list is changed where an item is. -/
theorem modify_eq_set_of_getElem? {α : Type} {l : List α} {k : ℕ} {a : α} (h : l[k]? = some a)
    (f : α → α) : l.modify k f = l.set k (f a) := by
  rw [List.modify_eq_set_getElem?, h]
  rfl

/-- **A message is sent** on the connection that the descriptor leads to. -/
theorem Delivers.send (h : s.Delivers pb sent printed) (hpb : pb.Lawful) {fd : ℤ} {msg : Message}
    (hleads : s.Leads fd id) (hsmall : pb.byteSizeLong msg.forward < 2 ^ 31) :
    ∃ k, s.isFor id k = true ∧ (s.send pb fd msg true).Delivers pb (sent ++ [(k, msg)]) printed ∧
      (s.send pb fd msg true).listeners = s.listeners ∧
      (s.send pb fd msg true).peer = s.peer := by
  obtain ⟨k, hpeer, hfor⟩ := hleads
  obtain ⟨link, hk, rfl⟩ := link_of_isFor hfor
  obtain ⟨msgs, hholds, hmsgs⟩ := h.link k link hk
  have hlinks : (s.send pb fd msg true).links = s.links.set k (link.send pb msg true) := by
    rw [Audience.send, hpeer]
    exact modify_eq_set_of_getElem? hk _
  have hshown : ∀ id, (s.send pb fd msg true).Printed id (among (s.isFor id) printed) := by
    intro id
    rw [Audience.send, hpeer]
    exact h.printed_eq id
  have hsame : (link.send pb msg true).participant = link.participant := rfl
  refine ⟨k, hfor, ?_, listeners_set hk hsame hlinks, by rw [Audience.send, hpeer]⟩
  have hnext := h.update hk hsame hlinks (hholds.send hpb hsmall link.outgoing)
    (show through k sent ++ [msg] = through k printed ++ [] ++ (msgs ++ [msg]) by
      rw [hmsgs, List.append_nil, List.append_assoc])
    fun id => by
      rw [ite_self, List.append_nil]
      exact hshown id
  simpa using hnext

/-- What `recv` returns when no message is complete: nothing that the parser gets, or a part of
what is on its way. -/
theorem runAtomic_reads {task task' : MulticastReceiver} {result : RecvResult}
    {status : TaskStatus} {socket : Socket} (hno : task.parser.hasCompleteMessage = false)
    (hrun : MulticastReceiver.runAtomic pb garbled (task, { incoming := [result] }) =
      some (status, task', socket)) :
    socket.incoming = [] ∧ (task' = task ∧ arrived [result] = [] ∨
      ∃ bytes, result = .data bytes ∧
        task' = { task with parser := task.parser.addNewData bytes }) := by
  rw [MulticastReceiver.runAtomic, if_neg (Bool.eq_false_iff.mp hno)] at hrun
  cases result with
  | data bytes =>
      cases hrun
      exact ⟨rfl, .inr ⟨bytes, rfl, rfl⟩⟩
  | timedOut | failed | closed =>
      cases hrun
      exact ⟨rfl, .inl ⟨rfl, rfl⟩⟩

/-- A receiver has run and printed messages. -/
theorem Delivers.afterRun (h : s.Delivers pb sent printed) (hk : s.links[k]? = some link)
    {task : MulticastReceiver} {outs msgs : List Message}
    (hsame : link'.participant = link.participant)
    (hholds : OnTheWay pb task.parser link'.wire msgs)
    (hmsgs : through k sent = through k printed ++ outs ++ msgs)
    (hlogFile : task.logFile = outs.foldl (fun text msg => text ++ msg.forward.toOut ++ "\n")
      (s.logFile link.participant))
    (hconsole : task.console =
      s.console link.participant ++ outs.map fun msg => msg.forward.toOut) :
    ∃ more, (s.afterRun k link' task).Delivers pb sent (printed ++ more) ∧
      (s.afterRun k link' task).listeners = s.listeners := by
  have hend : ({ link' with parser := task.parser } : Link).participant = link.participant := hsame
  have hlinks : (s.afterRun k link' task).links =
      s.links.set k { link' with parser := task.parser } := rfl
  refine ⟨outs.map fun msg => (k, msg), ?_, listeners_set hk hend hlinks⟩
  have hnext := h.update hk hend hlinks hholds
    (show through k sent ++ [] = through k printed ++ outs ++ msgs by
      rw [List.append_nil, hmsgs])
    fun id => ?_
  · simpa using hnext
  · obtain ⟨hold, hold'⟩ := h.printed_eq id
    show Function.update s.logFile link'.participant task.logFile id = _ ∧
      Function.update s.console link'.participant task.console id = _
    rw [hsame]
    by_cases hid : link.participant = id
    · subst hid
      rw [if_pos rfl, Function.update_self, Function.update_self, hlogFile, hconsole, hold, hold',
        List.foldl_append, List.map_append]
      exact ⟨rfl, rfl⟩
    · rw [if_neg hid, List.append_nil, Function.update_of_ne (Ne.symm hid),
        Function.update_of_ne (Ne.symm hid)]
      exact ⟨hold, hold'⟩

/-- **A receiver runs**: it prints the next message, or takes in what has arrived. -/
theorem Delivers.receive (h : s.Delivers pb sent printed) (hpb : pb.Lawful) {result : RecvResult}
    (hs : s.receive pb garbled k result = some s') :
    (∃ more, s'.Delivers pb sent (printed ++ more) ∧ s'.listeners = s.listeners) ∧
      s'.peer = s.peer ∧ s'.coordinator = s.coordinator := by
  obtain ⟨link, hk, hs⟩ := Option.bind_eq_some_iff.mp hs
  obtain ⟨⟨status, task, socket⟩, hrun, hs⟩ := Option.bind_eq_some_iff.mp hs
  rw [Option.ite_none_right_eq_some] at hs
  obtain ⟨hguard, hs⟩ := hs
  obtain rfl := Option.some.inj hs
  rw [Bool.and_eq_true, Bool.and_eq_true, List.isPrefixOf_iff_prefix] at hguard
  obtain ⟨⟨-, hfits⟩, hprefix⟩ := hguard
  obtain ⟨msgs, hholds, hmsgs⟩ := h.link k link hk
  have hcomplete := hholds.ready.wellFormed.hasCompleteMessage_iff
  refine ⟨?_, rfl, rfl⟩
  by_cases hf : HasFrame link.parser.pending
  · -- the receiver prints a message and does not look at the socket
    obtain ⟨msg, rest, rfl, hget, hnext⟩ := hholds.next hpb hf
    rw [MulticastReceiver.runAtomic, receiver, if_pos (hcomplete.mpr hf), hget] at hrun
    cases hrun
    rw [List.append_cons] at hmsgs
    rw [if_neg (List.cons_ne_nil _ _)]
    exact h.afterRun hk rfl hnext hmsgs rfl rfl
  · have hnone : through k sent = through k printed ++ [] ++ msgs := by
      rw [hmsgs, List.append_nil]
    rcases runAtomic_reads garbled (Bool.eq_false_iff.mpr fun hc => hf (hcomplete.mp hc)) hrun with
      ⟨hincoming, ⟨rfl, harrived⟩ | ⟨bytes, rfl, rfl⟩⟩
    · rw [if_pos hincoming, harrived]
      exact h.afterRun hk rfl hholds hnone rfl (List.append_nil _).symm
    · have harrived : arrived [.data bytes] = bytes := List.append_nil bytes
      rw [if_pos hincoming, harrived] at hprefix ⊢
      obtain ⟨rest, hwire⟩ := hprefix
      rw [← hwire] at hholds
      have hdata : bytes.length < 2 ^ 32 := by
        rw [fitsBuffer, Bool.and_eq_true, decide_eq_true_iff, decide_eq_true_iff] at hfits
        omega
      rw [← hwire, List.drop_left]
      exact h.afterRun hk rfl (hholds.read hf hdata) hnone rfl (List.append_nil _).symm

/-- A receiver that is cancelled prints nothing more. -/
theorem Delivers.stop (h : s.Delivers pb sent printed) (k : ℕ) :
    (s.stop k).Delivers pb sent printed ∧ (s.stop k).listeners = s.listeners := by
  cases hk : s.links[k]? with
  | none =>
      have hsame : s.stop k = s := by
        rw [Audience.stop, List.modify_eq_self]
        exact List.getElem?_eq_none_iff.mp hk
      rw [hsame]
      exact ⟨h, rfl⟩
  | some link =>
      obtain ⟨msgs, hholds, hmsgs⟩ := h.link k link hk
      have hlinks : (s.stop k).links = s.links.set k { link with running := false } :=
        modify_eq_set_of_getElem? hk _
      have hsame : ({ link with running := false } : Link).participant = link.participant := rfl
      have hnext := h.update hk hsame hlinks hholds
        (show through k sent ++ [] = through k printed ++ [] ++ msgs by
          rw [hmsgs, List.append_nil, List.append_nil])
        fun id => by
          rw [ite_self, List.append_nil]
          exact h.printed_eq id
      refine ⟨?_, listeners_set hk hsame hlinks⟩
      simpa using hnext

end Account

/-! ### The events of a request -/

/-- The event does nothing to a connection. -/
def Idle (s : Audience) (e : Event) : Prop :=
  e.silent = true ∨ ∃ fd, e = .closed fd ∧ s.peer fd = none

/-- The event sends a multicast to a participant that the descriptor leads to, or does nothing to
a connection. -/
def Reaches (asked : List ForwardMulticast) (s : Audience) (e : Event) : Prop :=
  s.Idle e ∨ ∃ fd id msg, e = .sent fd id msg true ∧ s.Leads fd id ∧ msg.IsOf asked

section Events

variable {pb} {s s' : Audience} {sent printed : List (ℕ × Message)} {id : UInt32} {e : Event}
  {events : List Event} {p : Participant} {asked : List ForwardMulticast}

/-- Closing a descriptor that leads nowhere. -/
theorem close_of_peer {fd : ℤ} (h : s.peer fd = none) : s.close fd = s := by
  have hupdate : Function.update s.peer fd none = s.peer := by
    rw [← h, Function.update_eq_self]
  rw [Audience.close, hupdate]

theorem note_of_idle (h : s.Idle e) : s.note pb p e = s := by
  rcases h with hsilent | ⟨fd, rfl, hpeer⟩
  · cases e with
    | sent | connecting | closed => cases hsilent
    | _ => rfl
  · exact close_of_peer hpeer

theorem messageTo_of_idle (h : s.Idle e) (id : UInt32) : e.messageTo id = none := by
  rcases h with hsilent | ⟨fd, rfl, -⟩
  · cases e with
    | sent => cases hsilent
    | _ => rfl
  · rfl

theorem Leads.congr {fd : ℤ} (h : s.Leads fd id) (hpeer : s'.peer = s.peer)
    (hlisteners : s'.listeners = s.listeners) : s'.Leads fd id := by
  rw [Leads, hpeer, isFor_congr hlisteners]
  exact h

theorem Reaches.congr (h : Reaches asked s e) (hpeer : s'.peer = s.peer)
    (hlisteners : s'.listeners = s.listeners) : Reaches asked s' e := by
  rcases h with (hsilent | ⟨fd, rfl, hnone⟩) | ⟨fd, receiver, msg, rfl, hleads, hasked⟩
  · exact .inl (.inl hsilent)
  · exact .inl (.inr ⟨fd, rfl, (congrFun hpeer fd).trans hnone⟩)
  · exact .inr ⟨fd, receiver, msg, rfl, hleads.congr hpeer hlisteners, hasked⟩

/-- A connection leads to one participant. -/
theorem isFor_unique {id' : UInt32} {k : ℕ} (h : s.isFor id k = true) (h' : s.isFor id' k = true) :
    id = id' := by
  rw [isFor, decide_eq_true_iff] at h h'
  exact Option.some.inj (h.symm.trans h')

theorem Leads.unique {fd : ℤ} {id' : UInt32} (h : s.Leads fd id) (h' : s.Leads fd id') :
    id = id' := by
  obtain ⟨k, hk, hfor⟩ := h
  obtain ⟨k', hk', hfor'⟩ := h'
  obtain rfl := Option.some.inj (hk.symm.trans hk')
  exact isFor_unique hfor hfor'

/-- **The sends of a request.** The messages go to the participants that they are for. -/
theorem Delivers.notes (h : s.Delivers pb sent printed) (hpb : pb.Lawful) (hsmall : Small pb asked)
    (p : Participant) (hevents : ∀ e ∈ events, Reaches asked s e) :
    ∃ more, (events.foldl (note pb p) s).Delivers pb (sent ++ more) printed ∧
      (events.foldl (note pb p) s).listeners = s.listeners ∧
      (events.foldl (note pb p) s).peer = s.peer ∧
      (∀ id, among (s.isFor id) more = sentTo id events) ∧ ∀ d ∈ more, d.2.IsOf asked := by
  induction events generalizing s sent with
  | nil =>
      exact ⟨[], by rwa [List.append_nil], rfl, rfl, fun _ => rfl,
        fun _ h => absurd h List.not_mem_nil⟩
  | cons e events ih =>
      rw [List.foldl_cons]
      rcases hevents e List.mem_cons_self with hidle | ⟨fd, receiver, msg, rfl, hleads, hasked⟩
      · obtain ⟨more, hdelivers, hlisteners, hpeer, hmore, hof⟩ :=
          ih h fun e he => hevents e (List.mem_cons_of_mem _ he)
        rw [note_of_idle hidle]
        refine ⟨more, hdelivers, hlisteners, hpeer, fun id => ?_, hof⟩
        rw [hmore id, sentTo, sentTo, List.filterMap_cons_none (messageTo_of_idle hidle id)]
      · obtain ⟨k, hfor, hsent, hsame, hpeer⟩ := h.send hpb hleads (hasked.small hsmall)
        have hrest : ∀ e ∈ events, Reaches asked (s.send pb fd msg true) e := fun e he =>
          (hevents e (List.mem_cons_of_mem _ he)).congr hpeer hsame
        obtain ⟨more, hdelivers, hlisteners, hpeer', hmore, hof⟩ := ih hsent hrest
        refine ⟨(k, msg) :: more, ?_, hlisteners.trans hsame, hpeer'.trans hpeer, fun id => ?_,
          List.forall_mem_cons.mpr ⟨hasked, hof⟩⟩
        · rw [List.append_cons]
          exact hdelivers
        · rw [isFor_congr hsame] at hmore
          rw [among_cons, hmore id, sentTo, sentTo, List.filterMap_cons, Event.messageTo]
          by_cases hid : receiver = id
          · subst hid
            rw [if_pos hfor, if_pos rfl, List.singleton_append]
          · have hnot : ¬s.isFor id k = true := fun hfor' => hid (isFor_unique hfor hfor')
            rw [if_neg hnot, if_neg hid, List.nil_append]

end Events

/-! ### Descriptors -/

/-- The records and the messengers have descriptors that lead to their participants. -/
structure Wired (s : Audience) : Prop where
  isOpen : ∀ fd k, s.peer fd = some k → s.coordinator.descriptors fd ≠ none
  record : ∀ id p, s.coordinator.participants.idToParticipant id = some p → s.Leads p.sockFd id
  messenger : ∀ m ∈ s.coordinator.messengers, s.Leads m.participant.sockFd m.participant.id

section Wired

variable {s : Audience} {c : Coordinator} {id : UInt32} {fd : ℤ} {p : Participant}

theorem Wired.isOpen_of_leads (h : s.Wired) (hleads : s.Leads fd id) :
    s.coordinator.descriptors fd ≠ none := by
  obtain ⟨k, hk, -⟩ := hleads
  exact h.isOpen fd k hk

/-- A descriptor that is closed leads nowhere. -/
theorem Wired.peer_eq_none (h : s.Wired) (hclosed : s.coordinator.descriptors fd = none) :
    s.peer fd = none := by
  cases hpeer : s.peer fd with
  | none => rfl
  | some k => exact absurd hclosed (h.isOpen fd k hpeer)

/-- Nobody's connection is touched. -/
theorem Wired.frame (h : s.Wired)
    (hopen : ∀ fd, s.coordinator.descriptors fd ≠ none → c.descriptors fd ≠ none)
    (hrecords : ∀ id p', c.participants.idToParticipant id = some p' →
      ∃ p, s.coordinator.participants.idToParticipant id = some p ∧ p'.sockFd = p.sockFd)
    (hmessengers : ∀ m ∈ c.messengers, m ∈ s.coordinator.messengers) :
    ({ s with coordinator := c } : Audience).Wired where
  isOpen fd k hk := hopen fd (h.isOpen fd k hk)
  record id p' hp' := by
    obtain ⟨p, hp, hsock⟩ := hrecords id p' hp'
    rw [hsock]
    exact h.record id p hp
  messenger m hm := h.messenger m (hmessengers m hm)

/-- A connection is closed, and its participant is forgotten. -/
theorem Wired.close (h : s.Wired) (hleads : s.Leads fd id)
    (hdescriptors : c.descriptors = s.coordinator.descriptors.close fd)
    (hrecords : ∀ id' p', c.participants.idToParticipant id' = some p' →
      id' ≠ id ∧ s.coordinator.participants.idToParticipant id' = some p')
    (hmessengers : ∀ m ∈ c.messengers, m.participant.id ≠ id ∧ m ∈ s.coordinator.messengers) :
    ({ s.close fd with coordinator := c } : Audience).Wired := by
  have hkeep : ∀ {fd' id'}, id' ≠ id → s.Leads fd' id' → (s.close fd).Leads fd' id' := by
    rintro fd' id' hid hleads'
    obtain ⟨k, hk, hfor⟩ := hleads'
    have hne : fd' ≠ fd := by
      rintro rfl
      exact hid (Leads.unique ⟨k, hk, hfor⟩ hleads)
    exact ⟨k, (Function.update_of_ne hne _ _).trans hk, hfor⟩
  constructor
  · intro fd' k (hk : Function.update s.peer fd none fd' = some k)
    have hne : fd' ≠ fd := by
      rintro rfl
      rw [Function.update_self] at hk
      cases hk
    show c.descriptors fd' ≠ none
    rw [hdescriptors, Descriptors.close, Function.update_of_ne hne]
    exact h.isOpen fd' k ((Function.update_of_ne hne _ _).symm.trans hk)
  · intro id' p' hp'
    obtain ⟨hid, hp⟩ := hrecords id' p' hp'
    exact hkeep hid (h.record id' p' hp)
  · intro m hm
    obtain ⟨hid, hm⟩ := hmessengers m hm
    exact hkeep hid (h.messenger m hm)

/-- The new connection leads to its participant. -/
theorem leads_accept_self : (s.accept p).Leads p.sockFd p.id := by
  refine ⟨s.links.length, Function.update_self _ _ _, ?_⟩
  rw [isFor, listeners, Audience.accept, List.map_append, List.getElem?_append_right,
    List.length_map, Nat.sub_self]
  · exact decide_eq_true rfl
  · rw [List.length_map]

theorem Leads.accept (h : s.Leads fd id) (hne : fd ≠ p.sockFd) : (s.accept p).Leads fd id := by
  obtain ⟨k, hk, hfor⟩ := h
  refine ⟨k, (Function.update_of_ne hne _ _).trans hk, ?_⟩
  rw [isFor, decide_eq_true_iff] at hfor ⊢
  rw [listeners, Audience.accept, List.map_append]
  exact (List.getElem?_append_left (List.getElem?_eq_some_iff.mp hfor).1).trans hfor

/-- A connection is made from a descriptor that was closed. -/
theorem Wired.accept (h : s.Wired) (hclosed : s.coordinator.descriptors p.sockFd = none)
    (hsock : c.descriptors p.sockFd ≠ none)
    (hopen : ∀ fd, s.coordinator.descriptors fd ≠ none → c.descriptors fd ≠ none)
    (hrecords : ∀ id p', c.participants.idToParticipant id = some p' →
      (id = p.id ∧ p'.sockFd = p.sockFd) ∨
        ∃ q, s.coordinator.participants.idToParticipant id = some q ∧ p'.sockFd = q.sockFd)
    (hmessengers : ∀ m ∈ c.messengers, m.participant = p ∨ m ∈ s.coordinator.messengers) :
    ({ s.accept p with coordinator := c } : Audience).Wired := by
  have hkeep : ∀ {fd id}, s.Leads fd id → (s.accept p).Leads fd id := by
    intro fd id hleads
    refine hleads.accept ?_
    rintro rfl
    exact h.isOpen_of_leads hleads hclosed
  constructor
  · intro fd k hk
    by_cases hfd : fd = p.sockFd
    · rw [hfd]
      exact hsock
    · exact hopen fd (h.isOpen fd k ((Function.update_of_ne hfd _ _).symm.trans hk))
  · intro id p' hp'
    rcases hrecords id p' hp' with ⟨rfl, hsock'⟩ | ⟨q, hq, hsock'⟩
    · rw [hsock']
      exact leads_accept_self
    · rw [hsock']
      exact hkeep (h.record id q hq)
  · intro m hm
    rcases hmessengers m hm with rfl | hm
    · exact leads_accept_self
    · exact hkeep (h.messenger m hm)

end Wired

/-! ### One request -/

/-- The multicast that a request asks for. -/
def asks (x : Exchange) : List ForwardMulticast :=
  match x.request with
  | .sendMulticast message participantId => [⟨message, participantId⟩]
  | _ => []

/-- **The invariant.** What the coordinator has sent to a participant is what has gone into its
connections, and every message in the log or on a connection is one of the multicasts. -/
structure Accounted (asked : List ForwardMulticast) (s : Audience)
    (sent printed : List (ℕ × Message)) : Prop where
  wired : s.Wired
  delivers : s.Delivers pb sent printed
  sent_eq : ∀ id, sentTo id s.coordinator.trace = among (s.isFor id) sent
  count : s.coordinator.broadcasts = asked.length
  small : Small pb asked
  logged : ∀ msg ∈ s.coordinator.msgLog.entries, msg.IsOf asked
  known : ∀ d ∈ sent, d.2.IsOf asked

section Request

variable {pb} {s s₁ s' : Audience} {c : Coordinator} {x : Exchange}
  {sent printed : List (ℕ × Message)} {asked : List ForwardMulticast} {events : List Event}

theorem Wired.congr (h : ({ s with coordinator := c } : Audience).Wired) (hpeer : s'.peer = s.peer)
    (hlisteners : s'.listeners = s.listeners) :
    ({ s' with coordinator := c } : Audience).Wired where
  isOpen fd k hk := h.isOpen fd k ((congrFun hpeer fd).symm.trans hk)
  record id p hp := (h.record id p hp).congr hpeer hlisteners
  messenger m hm := (h.messenger m hm).congr hpeer hlisteners

theorem sentTo_append (id : UInt32) (trace more : List Event) :
    sentTo id (trace ++ more) = sentTo id trace ++ sentTo id more := List.filterMap_append

/-- **The account of a request**: the connections as it finds or makes them, and what it sends on
them. -/
theorem Accounted.request (h : Accounted pb asked s sent printed) (hpb : pb.Lawful)
    {more : List ForwardMulticast} (hsmall : Small pb more) (p : Participant)
    (hdelivers : s₁.Delivers pb sent printed)
    (hlisteners : ∀ id, among (s₁.isFor id) sent = among (s.isFor id) sent)
    (hevents : ∀ e ∈ events, Reaches (asked ++ more) s₁ e)
    (hwired : ({ s₁ with coordinator := c } : Audience).Wired)
    (hsent : ∀ id, sentTo id c.trace = sentTo id s.coordinator.trace ++ sentTo id events)
    (hcount : c.broadcasts = s.coordinator.broadcasts + more.length)
    (hlogged : ∀ msg ∈ c.msgLog.entries, msg ∈ s.coordinator.msgLog.entries ∨
      msg.IsOf (asked ++ more)) :
    ∃ ins, Accounted pb (asked ++ more)
      { events.foldl (note pb p) s₁ with coordinator := c } (sent ++ ins) printed := by
  obtain ⟨ins, hnext, hsame, hpeer, hins, hof⟩ :=
    hdelivers.notes hpb (small_append h.small hsmall) p hevents
  refine ⟨ins, hwired.congr hpeer hsame,
    ⟨hnext.sent_lt, hnext.printed_lt, hnext.printed_eq, hnext.link⟩, fun id => ?_, ?_,
    small_append h.small hsmall, fun msg hmsg => ?_, fun d hd => ?_⟩
  · show sentTo id c.trace = among (isFor (events.foldl (note pb p) s₁) id) (sent ++ ins)
    rw [isFor_congr hsame, among_append, hins, hlisteners, hsent, h.sent_eq]
  · show c.broadcasts = _
    rw [hcount, h.count, List.length_append]
  · exact (hlogged msg hmsg).elim (fun hold => (h.logged msg hold).append more) id
  · exact (List.mem_append.mp hd).elim (fun hold => (h.known d hold).append more) (hof d)

/-- The account of a request that sends nothing. -/
theorem Accounted.silent (h : Accounted pb asked s sent printed)
    (hdelivers : s₁.Delivers pb sent printed)
    (hlisteners : ∀ id, among (s₁.isFor id) sent = among (s.isFor id) sent)
    (hwired : ({ s₁ with coordinator := c } : Audience).Wired)
    (hsent : ∀ id, sentTo id c.trace = sentTo id s.coordinator.trace)
    (hcount : c.broadcasts = s.coordinator.broadcasts) (hlog : c.msgLog = s.coordinator.msgLog) :
    Accounted pb asked { s₁ with coordinator := c } sent printed where
  wired := hwired
  delivers := ⟨hdelivers.sent_lt, hdelivers.printed_lt, hdelivers.printed_eq, hdelivers.link⟩
  sent_eq id := (hsent id).trans ((h.sent_eq id).trans (hlisteners id).symm)
  count := hcount.trans h.count
  small := h.small
  logged := hlog ▸ h.logged
  known := h.known

theorem close_close (fd fd' : ℤ) : (s.close fd).close fd' = (s.close fd').close fd := by
  by_cases heq : fd = fd'
  · rw [heq]
  · exact congrArg (fun peer => { s with peer }) (Function.update_comm heq _ _ _)

/-- A messenger that is left was there before. -/
theorem mem_of_mem_delete {messengers : List Messenger} {deleted : Option Messenger} {m : Messenger}
    (h : m ∈ deleted.elim messengers messengers.erase) : m ∈ messengers := by
  cases deleted with
  | none => exact h
  | some m' => exact List.mem_of_mem_erase h

theorem newest_append (c : Coordinator) (messengers : List Messenger) (p : Participant)
    (h : c.messengers = messengers ++ [⟨p⟩]) : newest c = p := by
  rw [newest, h, List.getLast?_concat]
  rfl

theorem follow_eq (htrace : c.trace = s.coordinator.trace ++ events) :
    s.follow pb c = { events.foldl (note pb (newest c)) s with coordinator := c } := by
  rw [follow, htrace, List.drop_left]

/-- A registration is a connection on which nothing has been sent. -/
theorem Accounted.register (h : Accounted pb asked s sent printed) {portNumber id : UInt32}
    {p : Participant} {ds : Descriptors} (hpeer : s.peer x.clientFd = none)
    (hconnect : connectToParticipant s.coordinator.descriptors x.attempts
      (Coordinator.registrant x portNumber id) = (true, p, ds))
    (hc : c = { s.coordinator with
      id
      participants := s.coordinator.participants.registerParticipant p
      messengers := s.coordinator.messengers ++ [⟨p⟩]
      descriptors := ds
      trace := s.coordinator.trace ++ [.reading x.now, .registered id, .asked id portNumber,
        .closed x.clientFd, .connecting true] }) :
    Accounted pb asked (s.follow pb c) sent printed := by
  have hnewest : newest c = p := newest_append c s.coordinator.messengers p (by rw [hc])
  have hfollow : s.follow pb c = { s.accept p with coordinator := c } := by
    rw [follow_eq (congrArg Coordinator.trace hc), hnewest]
    show ({ (s.close x.clientFd).accept p with coordinator := c } : Audience) = _
    rw [close_of_peer hpeer]
  obtain ⟨hext, ⟨hfalse, -⟩ | ⟨-, -, sock, -, hsock, hleads, hp⟩⟩ :=
    connectToParticipant_cases _ _ _ hconnect
  · cases hfalse
  have hfd : p.sockFd = sock := by rw [hp]
  have hopen : ∀ fd, s.coordinator.descriptors fd ≠ none → ds fd ≠ none := by
    intro fd hfd
    rw [hext fd hfd]
    exact hfd
  rw [hfollow]
  subst hc
  refine h.silent (h.delivers.accept p) (among_accept p h.delivers.sent_lt)
    (h.wired.accept (hfd ▸ hsock) ?_ hopen ?_ ?_) (fun id' => ?_) rfl rfl
  · show ds p.sockFd ≠ none
    rw [hfd, hleads]
    exact Option.some_ne_none _
  · intro id' q hq
    rw [ParticipantManager.idToParticipant_registerParticipant, Function.update_apply] at hq
    split at hq
    · next heq => exact .inl ⟨heq, by rw [Option.some.inj hq]⟩
    · exact .inr ⟨q, hq, rfl⟩
  · intro m hm
    rcases List.mem_append.mp hm with hm | hm
    · exact .inr hm
    · exact .inl (by rw [List.mem_singleton.mp hm])
  · rw [sentTo_append]
    exact List.append_nil _

/-- A deregistration closes the connection that its participant was registered with. -/
theorem Accounted.deregister (h : Accounted pb asked s sent printed) {participantId : UInt32}
    {p : Participant} (hsound : s.coordinator.Sound) (hpeer : s.peer x.clientFd = none)
    (hreg : s.coordinator.registered participantId = true)
    (hp : s.coordinator.determineParticipant participantId = p) (hmatched : c.Matched)
    (hc : c = { s.coordinator with
      participants := s.coordinator.participants.deregisterParticipant p
      messengers := (s.coordinator.determineMessenger x participantId).elim
        s.coordinator.messengers s.coordinator.messengers.erase
      descriptors := s.coordinator.descriptors.close p.sockFd
      trace := s.coordinator.trace ++ [.closed p.sockFd, .closed x.clientFd] }) :
    Accounted pb asked (s.follow pb c) sent printed := by
  obtain ⟨q, hq⟩ := Coordinator.registered_iff.mp hreg
  obtain rfl : q = p := (Coordinator.determineParticipant_of_registered hq).symm.trans hp
  have hkey : q.id = participantId := hsound.consistent.key _ _ hq
  have hfollow : s.follow pb c = { s.close q.sockFd with coordinator := c } := by
    rw [follow_eq (congrArg Coordinator.trace hc)]
    show ({ (s.close q.sockFd).close x.clientFd with coordinator := c } : Audience) = _
    rw [close_close, close_of_peer hpeer]
  have hgone : c.messengersOf participantId = 0 := by
    have hconnected : c.connected participantId = false := by
      rw [hc]
      show (s.coordinator.participants.deregisterParticipant q).isConnectedId participantId = false
      rw [ParticipantManager.isConnectedId_deregisterParticipant, hkey]
      simp
    rw [hmatched participantId, hconnected]
    rfl
  rw [hfollow]
  refine h.silent ⟨h.delivers.sent_lt, h.delivers.printed_lt, h.delivers.printed_eq,
    h.delivers.link⟩ (fun _ => rfl)
    (h.wired.close (h.wired.record _ _ hq) (by rw [hc]) (fun id p' hp' => ?_) fun m hm => ?_)
    (fun id => ?_) (by rw [hc]) (by rw [hc])
  · rw [hc] at hp'
    rw [ParticipantManager.idToParticipant_deregisterParticipant, hkey,
      Function.update_apply] at hp'
    split at hp'
    · cases hp'
    · next hne => exact ⟨hne, hp'⟩
  · refine ⟨fun hid => List.count_eq_zero.mp hgone (List.mem_map.mpr ⟨m, hm, hid⟩), ?_⟩
    rw [hc] at hm
    exact mem_of_mem_delete hm
  · rw [hc, sentTo_append]
    exact List.append_nil _

/-- A participant that disconnects keeps its connection. -/
theorem Accounted.disconnect (h : Accounted pb asked s sent printed) {participantId : UInt32}
    {p : Participant} (hsound : s.coordinator.Sound) (hpeer : s.peer x.clientFd = none)
    (hreg : s.coordinator.registered participantId = true)
    (hconnected : s.coordinator.connected participantId = true)
    (hp : s.coordinator.determineParticipant participantId = p)
    (hc : c = { s.coordinator with
      participants := (s.coordinator.participants.disconnectParticipant p x.now).2
      messengers := (s.coordinator.determineMessenger x participantId).elim
        s.coordinator.messengers s.coordinator.messengers.erase
      trace := s.coordinator.trace ++
        ((if s.coordinator.participants.isConnected p then [.reading x.now] else []) ++
          [.closed x.clientFd]) }) :
    Accounted pb asked (s.follow pb c) sent printed := by
  obtain ⟨q, hq⟩ := Coordinator.registered_iff.mp hreg
  obtain rfl : q = p := (Coordinator.determineParticipant_of_registered hq).symm.trans hp
  have hkey : q.id = participantId := hsound.consistent.key _ _ hq
  have hmap : (s.coordinator.participants.disconnectParticipant q x.now).2.idToParticipant = _ :=
    ParticipantManager.disconnectParticipant_of_connected (hkey ▸ hconnected) (hkey ▸ hq)
  have hfollow : s.follow pb c = { s with coordinator := c } := by
    rw [follow_eq (congrArg Coordinator.trace hc), List.foldl_append]
    split
    · show ({ s.close x.clientFd with coordinator := c } : Audience) = _
      rw [close_of_peer hpeer]
    · show ({ s.close x.clientFd with coordinator := c } : Audience) = _
      rw [close_of_peer hpeer]
  rw [hfollow]
  refine h.silent h.delivers (fun _ => rfl)
    (h.wired.frame (fun fd hfd => ?_) (fun id p' hp' => ?_) fun m hm => ?_)
    (fun id => ?_) (by rw [hc]) (by rw [hc])
  · rw [hc]
    exact hfd
  · rw [hc] at hp'
    replace hp' := (congrFun hmap id).symm.trans hp'
    rw [hkey, Function.update_apply] at hp'
    split at hp'
    · next heq =>
        obtain rfl := Option.some.inj hp'
        exact ⟨q, heq ▸ hq, rfl⟩
    · exact ⟨p', hp', rfl⟩
  · rw [hc] at hm
    exact mem_of_mem_delete hm
  · rw [hc, sentTo_append, sentTo_append]
    split <;> exact List.append_nil _

/-- **A reconnection** makes a connection and sends what was missed on it. -/
theorem Accounted.reconnect (h : Accounted pb asked s sent printed) (hpb : pb.Lawful)
    {portNumber participantId : UInt32} {p p' : Participant} {ds : Descriptors}
    (hsound : s.coordinator.Sound) (hclosed : s.coordinator.descriptors x.clientFd = none)
    (hreg : s.coordinator.registered participantId = true)
    (hp : s.coordinator.determineParticipant participantId = p)
    (hconnect : connectToParticipant (s.coordinator.descriptors.openAs x.clientFd .request)
      x.attempts p = (true, p', ds))
    (hc : c = { s.coordinator with
      participants := (s.coordinator.participants.reconnectParticipant p').2
      messengers := s.coordinator.messengers ++ [⟨p'⟩]
      descriptors := ds.close x.clientFd
      trace := s.coordinator.trace ++ (.asked participantId portNumber :: .connecting true ::
        .reading x.now :: (replays x ⟨p'⟩ 0 (s.coordinator.missedBy x p') ++
          [.closed x.clientFd])) })
    (hok : c.AllSucceeded) :
    ∃ ins, Accounted pb (asked ++ []) (s.follow pb c) (sent ++ ins) printed := by
  obtain ⟨q, hq⟩ := Coordinator.registered_iff.mp hreg
  obtain rfl : q = p := (Coordinator.determineParticipant_of_registered hq).symm.trans hp
  have hid : p'.id = participantId :=
    (id_connectToParticipant hconnect).trans (hsound.consistent.key _ _ hq)
  have hmap := ParticipantManager.reconnectParticipant_of_known (hid ▸ hq)
  obtain ⟨hext, ⟨hfalse, -⟩ | ⟨-, -, sock, -, hsock, hleads, hp'⟩⟩ :=
    connectToParticipant_cases _ _ _ hconnect
  · cases hfalse
  have hfd : p'.sockFd = sock := by rw [hp']
  have hne : sock ≠ x.clientFd := by
    rintro rfl
    rw [Descriptors.openAs, Function.update_self] at hsock
    cases hsock
  rw [Descriptors.openAs, Function.update_of_ne hne] at hsock
  have hopen : ∀ fd, s.coordinator.descriptors fd ≠ none → (ds.close x.clientFd) fd ≠ none := by
    intro fd hfd
    have hother : fd ≠ x.clientFd := by
      rintro rfl
      exact hfd hclosed
    have hsame : (s.coordinator.descriptors.openAs x.clientFd .request) fd =
        s.coordinator.descriptors fd := Function.update_of_ne hother _ _
    rw [Descriptors.close, Function.update_of_ne hother, hext fd (by rwa [hsame]), hsame]
    exact hfd
  have hfollow : s.follow pb c = { (Event.reading x.now ::
      (replays x ⟨p'⟩ 0 (s.coordinator.missedBy x p') ++ [.closed x.clientFd])).foldl
        (note pb p') (s.accept p') with coordinator := c } := by
    rw [follow_eq (congrArg Coordinator.trace hc),
      newest_append c s.coordinator.messengers p' (by rw [hc])]
    rfl
  rw [hfollow]
  refine h.request hpb (fun _ hm => absurd hm List.not_mem_nil) p' (h.delivers.accept p')
    (among_accept p' h.delivers.sent_lt) (fun e he => ?_)
    (h.wired.accept (hfd ▸ hsock) ?_ (by rw [hc]; exact hopen) (fun id r hr => ?_) fun m hm => ?_)
    (fun id => ?_) (by rw [hc]; rfl) (fun msg hmsg => .inl (by rw [hc] at hmsg; exact hmsg))
  · rcases List.mem_cons.mp he with rfl | he
    · exact .inl (.inl rfl)
    rcases List.mem_append.mp he with he | he
    · obtain ⟨msg, hmsg, ok, rfl⟩ := mem_replays he
      have hsucceeded : ok = true := hok (.sent p'.sockFd p'.id msg ok) (by
        rw [hc]
        simp [he])
      rw [hsucceeded]
      refine .inr ⟨_, _, msg, rfl, leads_accept_self, ?_⟩
      rw [List.append_nil]
      exact h.logged msg (Coordinator.mem_missedBy.mp hmsg).1
    · obtain rfl := List.mem_singleton.mp he
      refine .inl (.inr ⟨_, rfl, ?_⟩)
      exact (Function.update_of_ne (hfd ▸ hne.symm) _ _).trans (h.wired.peer_eq_none hclosed)
  · rw [hc]
    show (ds.close x.clientFd) p'.sockFd ≠ none
    rw [hfd, Descriptors.close, Function.update_of_ne hne, hleads]
    exact Option.some_ne_none _
  · rw [hc] at hr
    replace hr := (congrFun hmap id).symm.trans hr
    rw [hid, Function.update_apply] at hr
    split at hr
    · next heq =>
        obtain rfl := Option.some.inj hr
        exact .inr ⟨q, heq ▸ hq, rfl⟩
    · exact .inr ⟨r, hr, rfl⟩
  · rw [hc] at hm
    rcases List.mem_append.mp hm with hm | hm
    · exact .inr hm
    · exact .inl (by rw [List.mem_singleton.mp hm])
  · rw [hc, sentTo_append]
    rfl

/-- What a broadcast does is silent, or sends its message to a messenger. -/
theorem broadcastEvents_cases {msg : Message} {ms : List Messenger} {e : Event}
    (he : e ∈ broadcastEvents x msg ms) :
    e.silent = true ∨ ∃ m ∈ ms, ∃ msg' ok,
      e = .sent m.participant.sockFd m.participant.id msg' ok ∧ msg'.number = msg.number ∧
        msg'.forward = msg.forward := by
  have hdeliveries : ∀ (msg : Message) (k : ℕ) (ms : List Messenger), e ∈ deliveries x msg k ms →
      ∃ m ∈ ms, ∃ ok, e = .sent m.participant.sockFd m.participant.id msg ok := by
    intro msg k ms
    induction ms generalizing k with
    | nil => exact fun h => absurd h List.not_mem_nil
    | cons m ms ih =>
        intro h
        rcases List.mem_cons.mp h with rfl | h
        · exact ⟨m, List.mem_cons_self, _, rfl⟩
        · obtain ⟨m', hm', ok, heq⟩ := ih (k + 1) h
          exact ⟨m', List.mem_cons_of_mem m hm', ok, heq⟩
  cases ms with
  | nil => exact absurd he List.not_mem_nil
  | cons m ms =>
      rcases List.mem_cons.mp he with rfl | he
      · exact .inr ⟨m, List.mem_cons_self, msg, _, rfl, rfl, rfl⟩
      rcases List.mem_cons.mp he with rfl | he
      · exact .inl rfl
      rcases List.mem_cons.mp he with rfl | he
      · exact .inl rfl
      obtain ⟨m', hm', ok, rfl⟩ := hdeliveries _ _ _ he
      exact .inr ⟨m', List.mem_cons_of_mem m hm', _, ok, rfl, rfl, rfl⟩

/-- **A multicast** is sent on the connections of the messengers. -/
theorem Accounted.multicast (h : Accounted pb asked s sent printed) (hpb : pb.Lawful)
    {message : String} {participantId : UInt32} (hsound : s.coordinator.Sound)
    (hclosed : s.coordinator.descriptors x.clientFd = none)
    (hreg : s.coordinator.registered participantId = true)
    (hsmall : Small pb [⟨message, participantId⟩])
    (hc : c = { s.coordinator with
      msgLog := loggedBy s.coordinator.msgLog x
        (s.coordinator.multicastOf message participantId) (s.coordinator.reached x)
      broadcasts := s.coordinator.broadcasts + 1
      trace := s.coordinator.trace ++ (.multicast s.coordinator.broadcasts ::
        (broadcastEvents x (s.coordinator.multicastOf message participantId)
          (s.coordinator.reached x) ++ [.closed x.clientFd])) })
    (hok : c.AllSucceeded) :
    ∃ ins, Accounted pb (asked ++ [⟨message, participantId⟩]) (s.follow pb c) (sent ++ ins)
      printed := by
  have hof : ∀ msg : Message, msg.number = s.coordinator.broadcasts →
      msg.forward = (s.coordinator.multicastOf message participantId).forward →
      msg.IsOf (asked ++ [⟨message, participantId⟩]) := by
    intro msg hnumber hforward
    have hauthor : (s.coordinator.multicastOf message participantId).forward =
        ⟨message, participantId⟩ := by
      rw [Message.forward, Coordinator.multicastOf, hsound.id_determineParticipant hreg]
    rw [Message.IsOf, hnumber, h.count, List.getElem?_append_right (Nat.le_refl _), Nat.sub_self,
      hforward, hauthor]
    rfl
  rw [follow_eq (congrArg Coordinator.trace hc)]
  refine h.request hpb hsmall _ h.delivers (fun _ => rfl) (fun e he => ?_)
    (h.wired.frame (fun fd hfd => ?_) (fun id p hp => ?_) fun m hm => ?_) (fun id => ?_)
    (by rw [hc]; rfl) (fun msg hmsg => ?_)
  · have hmem : e ∈ c.trace := by
      rw [hc]
      exact List.mem_append_right _ he
    rcases List.mem_cons.mp he with rfl | he
    · exact .inl (.inl rfl)
    rcases List.mem_append.mp he with he | he
    · rcases broadcastEvents_cases he with hsilent | ⟨m, hm, msg, ok, rfl, hnumber, hforward⟩
      · exact .inl (.inl hsilent)
      · have hsucceeded : ok = true := hok _ hmem
        rw [hsucceeded]
        have hmessenger : m ∈ s.coordinator.messengers :=
          (x.messengerOrder.mem_enumerate _ m).mp (List.mem_filter.mp hm).1
        exact .inr ⟨_, _, msg, rfl, h.wired.messenger m hmessenger, hof msg hnumber hforward⟩
    · obtain rfl := List.mem_singleton.mp he
      exact .inl (.inr ⟨_, rfl, h.wired.peer_eq_none hclosed⟩)
  · rw [hc]
    exact hfd
  · rw [hc] at hp
    exact ⟨p, hp, rfl⟩
  · rw [hc] at hm
    exact hm
  · rw [hc, sentTo_append]
  · rw [hc] at hmsg
    replace hmsg : msg ∈ (loggedBy s.coordinator.msgLog x _ (s.coordinator.reached x)).entries :=
      hmsg
    cases hreached : s.coordinator.reached x with
    | nil =>
        rw [hreached] at hmsg
        exact .inl hmsg
    | cons m ms =>
        rw [hreached] at hmsg
        rcases MessageLog.mem_of_mem_insert hmsg with hold | rfl
        · exact .inl hold
        · exact .inr (hof _ rfl rfl)

/-- **A request keeps the account.** -/
theorem Accounted.serve (h : Accounted pb asked s sent printed) (hpb : pb.Lawful)
    (hregular : s.coordinator.Regular) (hregular' : s'.coordinator.Regular)
    (hw : s.coordinator.WellFormed x) (hok : s'.coordinator.AllSucceeded)
    (hsmall : Small pb (asks x)) (hs : s.serve pb x = some s') :
    ∃ ins, Accounted pb (asked ++ asks x) s' (sent ++ ins) printed := by
  obtain ⟨c, hserve, rfl⟩ := Option.map_eq_some_iff.mp hs
  have hsound := hregular.sound
  obtain ⟨hfree, hserved⟩ := Coordinator.served_of_serve hsound.queue hserve
  have hclosed := (Descriptors.free_iff.mp hfree).2
  have hpeer := h.wired.peer_eq_none hclosed
  have hquiet : asks x = [] → Accounted pb asked (s.follow pb c) sent printed →
      ∃ ins, Accounted pb (asked ++ asks x) (s.follow pb c) (sent ++ ins) printed := by
    intro hnone hnext
    rw [hnone, List.append_nil]
    exact ⟨[], by rwa [List.append_nil]⟩
  cases hserved with
  | register portNumber id connected p ds hrequest hid hconnect =>
      obtain rfl : connected = true := hok (.connecting connected) (by simp [follow])
      refine hquiet (by rw [asks, hrequest]) (h.register hpeer hconnect rfl)
  | deregister participantId p hrequest hp =>
      rw [Coordinator.WellFormed, hrequest] at hw
      exact hquiet (by rw [asks, hrequest])
        (h.deregister hsound hpeer hw hp hregular'.matched rfl)
  | disconnect participantId p hrequest hp =>
      rw [Coordinator.WellFormed, hrequest] at hw
      exact hquiet (by rw [asks, hrequest]) (h.disconnect hsound hpeer hw.1 hw.2 hp rfl)
  | reconnect portNumber participantId connected p p' ds hrequest hp hconnect =>
      obtain rfl : connected = true := hok (.connecting connected) (by simp [follow])
      rw [Coordinator.WellFormed, hrequest] at hw
      have hnone : asks x = [] := by rw [asks, hrequest]
      rw [hnone]
      exact h.reconnect hpb hsound hclosed hw.1 hp hconnect rfl hok
  | multicast message participantId hrequest =>
      rw [Coordinator.WellFormed, hrequest] at hw
      have hone : asks x = [⟨message, participantId⟩] := by rw [asks, hrequest]
      rw [hone] at hsmall ⊢
      exact h.multicast hpb hsound hclosed hw hsmall rfl hok
  | notSet hrequest =>
      refine hquiet (by rw [asks, hrequest]) ?_
      simp only [follow, List.drop_length, List.foldl_nil]
      refine h.silent h.delivers (fun _ => rfl) (h.wired.frame (fun fd hfd => ?_)
        (fun id p hp => ⟨p, hp, rfl⟩) fun m hm => hm) (fun _ => rfl) rfl rfl
      show (s.coordinator.descriptors.openAs x.clientFd .request) fd ≠ none
      rw [Descriptors.openAs, Function.update_apply]
      split
      · exact Option.some_ne_none _
      · exact hfd

end Request

/-! ### Runs -/

/-- The multicast that a step asks for. -/
def asked (_ : Audience) : Action → List ForwardMulticast
  | .serve x => asks x
  | .receive _ _ | .stop _ => []

/-- A request is well formed, and its multicast is not too long to be sent. -/
def GoodStep (s : Audience) : Action → Prop
  | .serve x => s.coordinator.WellFormed x ∧ Small pb (asks x)
  | .receive _ _ | .stop _ => True

instance (s : Audience) : ∀ a, Decidable (GoodStep pb s a)
  | .serve x => inferInstanceAs
      (Decidable (s.coordinator.WellFormed x ∧ ∀ msg ∈ asks x, pb.byteSizeLong msg < 2 ^ 31))
  | .receive _ _ | .stop _ => .isTrue trivial

/-- The coordinator before the first request, without participants. -/
def start (td : ℤ) (descriptors : Descriptors) : Audience where
  coordinator := .start td descriptors

/-- **The invariant of well-formed runs**, with the multicasts of the run. -/
def Inv (multicasts : List ForwardMulticast) (s : Audience) : Prop :=
  s.coordinator.Regular ∧ ∃ sent printed, Accounted pb multicasts s sent printed

section Runs

variable {pb} {s s' : Audience} {a : Action} {as : List Action} {id : UInt32}
  {multicasts : List ForwardMulticast}

/-- A step is a request of the coordinator, or leaves it alone. -/
theorem coordinator_of_step (hs : s.step pb garbled a = some s') :
    (∃ x, a = .serve x ∧ s.coordinator.serve x = some s'.coordinator) ∨
      s'.coordinator = s.coordinator := by
  cases a with
  | serve x =>
      obtain ⟨c, hserve, rfl⟩ := Option.map_eq_some_iff.mp hs
      exact .inl ⟨x, rfl, hserve⟩
  | receive k result =>
      obtain ⟨link, -, hs⟩ := Option.bind_eq_some_iff.mp hs
      obtain ⟨⟨status, task, socket⟩, -, hs⟩ := Option.bind_eq_some_iff.mp hs
      rw [Option.ite_none_right_eq_some] at hs
      obtain rfl := Option.some.inj hs.2
      exact .inr rfl
  | stop k =>
      obtain rfl := Option.some.inj hs
      exact .inr rfl

/-- A property of histories that holds at the end of a run held all along. -/
theorem eachState_of_history {Q : Coordinator → Prop}
    (hback : ∀ {c c'}, Q c' → c.trace <+: c'.trace → Q c) (hsound : s.coordinator.Sound)
    (hrun : runFrom (step pb garbled) s as = some s') (h : Q s'.coordinator) :
    EachState (step pb garbled) (fun m : Audience => Q m.coordinator) s as := by
  have hsounds : EachState (step pb garbled) (fun m : Audience => m.coordinator.Sound) s as := by
    refine EachState.of_inv_always (fun m : Audience => m.coordinator.Sound)
      (fun m a m' hm hs => ?_) hsound as
    rcases coordinator_of_step garbled hs with ⟨x, -, hserve⟩ | hsame
    · exact hm.serve hserve
    · rwa [hsame]
  have hstates : EachState (step pb garbled)
      (fun m : Audience => m.coordinator.Sound → Q m.coordinator) s as := by
    refine EachState.of_back hrun (fun m a m' hs hq hm => ?_) fun _ => h
    rcases coordinator_of_step garbled hs with ⟨x, -, hserve⟩ | hsame
    · exact hback (hq (hm.serve hserve)) (hm.grows hserve)
    · rw [hsame] at hq
      exact hq hm
  exact (hstates.and hsounds).mono fun m hm => hm.1 hm.2

/-- Receivers that go on keep the account. -/
theorem Accounted.of_receivers {sent printed more : List (ℕ × Message)}
    (h : Accounted pb multicasts s sent printed) (hdelivers : s'.Delivers pb sent more)
    (hlisteners : s'.listeners = s.listeners) (hpeer : s'.peer = s.peer)
    (hcoordinator : s'.coordinator = s.coordinator) :
    Accounted pb multicasts s' sent more where
  wired := by
    have hwired := h.wired.congr (c := s.coordinator) hpeer hlisteners
    rw [← hcoordinator] at hwired
    exact hwired
  delivers := hdelivers
  sent_eq id := by rw [hcoordinator, isFor_congr hlisteners, h.sent_eq]
  count := hcoordinator ▸ h.count
  small := h.small
  logged := hcoordinator ▸ h.logged
  known := h.known

/-- **A step keeps the invariant.** -/
theorem Inv.step (h : Inv pb multicasts s) (hpb : pb.Lawful) (hgood : GoodStep pb s a)
    (hs : s.step pb garbled a = some s') (hok : s'.coordinator.AllSucceeded)
    (hclock : s'.coordinator.ClockRuns) (hfew : s'.coordinator.FewRegistrations) :
    Inv pb (multicasts ++ s.asked a) s' := by
  obtain ⟨hregular, sent, printed, haccounted⟩ := h
  cases a with
  | serve x =>
      obtain ⟨c, hserve, rfl⟩ := Option.map_eq_some_iff.mp hs
      have hregular' : c.Regular := hregular.serve hgood.1 hserve hok hclock hfew
      obtain ⟨ins, hnext⟩ := haccounted.serve hpb hregular hregular' hgood.1 hok hgood.2 hs
      exact ⟨hregular', _, _, hnext⟩
  | receive k result =>
      obtain ⟨⟨more, hdelivers, hlisteners⟩, hpeer, hcoordinator⟩ :=
        haccounted.delivers.receive garbled hpb hs
      rw [asked, List.append_nil, Inv, hcoordinator]
      exact ⟨hregular, _, _, haccounted.of_receivers hdelivers hlisteners hpeer hcoordinator⟩
  | stop k =>
      obtain rfl := Option.some.inj hs
      obtain ⟨hdelivers, hlisteners⟩ := haccounted.delivers.stop k
      rw [asked, List.append_nil]
      exact ⟨hregular, _, _, haccounted.of_receivers hdelivers hlisteners rfl rfl⟩

end Runs

end Audience

end Csci6780.PubSub
