import Csci6780.Lib.Loop
import Csci6780.Lib.Runs
import Csci6780.MessageLog
import Csci6780.Registrar

/-!
# The Coordinator

This module embeds the coordinator of the publish-subscribe system: `Coordinator`, the handler
of one request, with what all handlers share — the static id counter, the registrar, the
`MessengerManager` and its `Messenger`s, the message queue and the message log — and with the
descriptors of the process. `Coordinator.serve` accepts a connection and handles the request on
it; a run of requests is `runFrom Coordinator.serve`.

What a request meets in its surroundings is part of it (`Exchange`): the descriptor and the
address of the client, the answers of the operating system, the reading of the clock, and the
order in which hash sets are iterated. A handler reads the clock at most once.

What the coordinator does to its surroundings is kept as a list of events, and the multicasts
are numbered in the order in which they are handled. Nothing of the source reads either.

A messenger is its copy of the participant's record. Two messengers with one record cannot be
told apart by anything the source does with them, so erasing one by its address is erasing one
of its copies.

## Main definitions

* `Coordinator`, `Exchange`, `Event`: the state, a request with its surroundings, the history.
* `Coordinator.serve`: what the coordinator does with one request.
-/

namespace Csci6780.PubSub

/-- `pub_sub_messages::CoordinatorMessage`. -/
inductive CoordinatorMessage
  | register (portNumber : UInt32)
  | deregister (participantId : UInt32)
  | disconnect (participantId : UInt32)
  | reconnect (portNumber participantId : UInt32)
  | sendMulticast (message : String) (participantId : UInt32)
  | notSet
  deriving DecidableEq, Repr

/-- `Messenger`: the record of the participant it writes to. -/
structure Messenger where
  participant : Participant
  deriving DecidableEq, Repr

/-- A request and what it meets in its surroundings. `sends k` says whether the request's `k`-th
`send` to a participant succeeds; `garbage` is what an uninitialised descriptor holds. -/
structure Exchange where
  request : CoordinatorMessage
  clientFd : ℤ
  hostname : String
  attempts : ℕ → Attempt
  now : ℤ
  sends : ℕ → Bool
  garbage : ℤ
  messengerOrder : IterationOrder Messenger
  replayOrder : IterationOrder Message

/-- A request that meets no trouble: sockets connect, sends succeed, and hash sets are iterated
in the order of insertion. -/
def Exchange.smooth (request : CoordinatorMessage) (clientFd sock now : ℤ) : Exchange :=
  { request, clientFd, hostname := "127.0.0.1", attempts := fun _ => ⟨sock, true⟩, now
    sends := fun _ => true, garbage := -1
    messengerOrder := .ofInsertion Messenger, replayOrder := .ofInsertion Message }

/-- What the coordinator does to its surroundings: it reads the clock, answers a registration,
is asked to use a port for a participant, tries to connect, takes up a multicast, sends a
message to a participant, logs a multicast, closes a descriptor. -/
inductive Event
  | reading (time : ℤ)
  | registered (id : UInt32)
  | asked (id port : UInt32)
  | connecting (succeeded : Bool)
  | multicast (number : ℕ)
  | sent (fd : ℤ) (receiver : UInt32) (msg : Message) (succeeded : Bool)
  | logged (number : ℕ) (time : ℤ)
  | closed (fd : ℤ)
  deriving DecidableEq, Repr

/-- What the handlers share. `id` is `id_`, `broadcasts` the number of multicasts so far. -/
structure Coordinator where
  id : UInt32 := 0
  participants : ParticipantManager := {}
  messengers : List Messenger := []
  msgQueue : List Message := []
  msgLog : MessageLog
  descriptors : Descriptors
  broadcasts : ℕ := 0
  trace : List Event := []

/-! ### `GenerateID` -/

/-- The inner loop of `GenerateID`: the new value of `duplicate`. -/
def checkDuplicates (id : UInt32) : List Participant → Bool → Bool
  | [], duplicate => duplicate
  | p :: ps, _ => if p.id = id then true else checkDuplicates id ps false

/-- One round of `GenerateID`, with the answer of `GetAllConnected` in each round. -/
def generateStep (snapshots : ℕ → List Participant) :
    ℕ × UInt32 × Bool → Option ((ℕ × UInt32 × Bool) ⊕ UInt32)
  | (round, id, duplicate) =>
      let id := id + 1
      let duplicate := checkDuplicates id (snapshots round) duplicate
      some (if duplicate then .inl (round + 1, id, duplicate) else .inr id)

/-- `Coordinator::GenerateID`. With all its ids taken the loop goes on for ever; it has come
round by then. -/
def generateID (snapshots : ℕ → List Participant) (id : UInt32) : Option UInt32 :=
  whileLoop (generateStep snapshots) (2 ^ 32) (0, id, false)

namespace Coordinator

/-- The coordinator before the first request. -/
def start (td : ℤ) (descriptors : Descriptors) : Coordinator :=
  { msgLog := { td }, descriptors }

/-- Note an event. -/
def emit (c : Coordinator) (e : Event) : Coordinator := { c with trace := c.trace ++ [e] }

/-- `close(fd)`. -/
def close (c : Coordinator) (fd : ℤ) : Coordinator :=
  { c with descriptors := c.descriptors.close fd }.emit (.closed fd)

/-! ### `Registrar` -/

/-- `ConnectToParticipant`. -/
def connect (c : Coordinator) (x : Exchange) (p : Participant) :
    Bool × Participant × Coordinator :=
  let (connected, p, descriptors) := connectToParticipant c.descriptors x.attempts p
  (connected, p, { c with descriptors }.emit (.connecting connected))

/-- `Registrar::RegisterParticipant`. -/
def registerParticipant (c : Coordinator) (x : Exchange) (p : Participant) :
    Participant × Coordinator :=
  let (connected, p, c) := c.connect x p
  if connected then (p, { c with participants := c.participants.registerParticipant p })
  else (p, c)

/-- `Registrar::ReconnectParticipant`. -/
def reconnectParticipant (c : Coordinator) (x : Exchange) (p : Participant) :
    Participant × Coordinator :=
  let (connected, p, c) := c.connect x p
  if connected then (p, { c with participants := (c.participants.reconnectParticipant p).2 })
  else (p, c)

/-- `Registrar::DisconnectParticipant`; the participant manager reads the clock when it finds
the participant connected. -/
def disconnectParticipant (c : Coordinator) (x : Exchange) (p : Participant) : Coordinator :=
  let (found, participants) := c.participants.disconnectParticipant p x.now
  if found then { c with participants }.emit (.reading x.now) else { c with participants }

/-- `Registrar::DeregisterParticipant`. -/
def deregisterParticipant (c : Coordinator) (p : Participant) : Coordinator :=
  { c with participants := c.participants.deregisterParticipant p }.close p.sockFd

/-! ### `Messenger` and `MessengerManager` -/

/-- `MessengerManager::AddMessenger`. -/
def addMessenger (c : Coordinator) (m : Messenger) : Coordinator :=
  { c with messengers := c.messengers ++ [m] }

/-- `MessengerManager::DeleteMessenger`; erasing the null pointer has no effect. -/
def deleteMessenger (c : Coordinator) (messenger : Option Messenger) : Coordinator :=
  { c with messengers := messenger.elim c.messengers c.messengers.erase }

/-- `Messenger::SendMessage`. -/
def sendMessage (c : Coordinator) (m : Messenger) (msg : Message) (succeeds : Bool) :
    Coordinator :=
  c.emit (.sent m.participant.sockFd m.participant.id msg succeeds)

/-- `Messenger::LogMessage`: the message with its timestamp, and the log. -/
def logMessage (c : Coordinator) (x : Exchange) (msg : Message) : Message × Coordinator :=
  let msg := { msg with timestamp := x.now }
  (msg, ({ c with msgLog := c.msgLog.insert msg }.emit (.reading x.now)).emit
    (.logged msg.number x.now))

/-- The loop of `MessengerManager::BroadcastMessage`, before the `k`-th send. -/
def broadcastMessage (x : Exchange) : List Messenger → Bool → ℕ → Message → Coordinator →
    Coordinator
  | [], _, _, _, c => c
  | m :: ms, isLogged, k, msg, c =>
      if c.participants.isConnected m.participant then
        let c := c.sendMessage m msg (x.sends k)
        if isLogged then broadcastMessage x ms true (k + 1) msg c
        else
          let (msg, c) := c.logMessage x msg
          broadcastMessage x ms true (k + 1) msg c
      else broadcastMessage x ms isLogged k msg c

/-- The loop of `Messenger::SendMissedMessages`, before the `k`-th send. -/
def sendMissedMessages (x : Exchange) (m : Messenger) : List Message → ℕ → Coordinator →
    Coordinator
  | [], _, c => c
  | msg :: msgs, k, c =>
      let c := c.sendMessage m msg (x.sends k)
      if x.sends k then sendMissedMessages x m msgs (k + 1) c else c

/-! ### The handlers -/

/-- `Coordinator::DetermineParticipant`: the zero record when there is none. -/
def determineParticipant (c : Coordinator) (id : UInt32) : Participant :=
  (c.participants.getParticipant id).getD Participant.zero

/-- `Coordinator::DetermineMessenger`. -/
def determineMessenger (c : Coordinator) (x : Exchange) (id : UInt32) : Option Messenger :=
  (x.messengerOrder.enumerate c.messengers).find? fun m => m.participant.id = id

/-- The record that `HandleRequest(Register)` fills in. The port is cut to its 16 bits. -/
def registrant (x : Exchange) (portNumber : UInt32) (id : UInt32) : Participant :=
  { id, sockFd := x.garbage, port := portNumber.toUInt16, hostname := x.hostname
    connected := true, disconnectTime := x.now }

/-- `Coordinator::HandleRequest(Register)`. -/
def handleRegister (c : Coordinator) (x : Exchange) (portNumber : UInt32) :
    Option Coordinator := do
  let id ← generateID (fun _ => c.participants.getAllConnected) c.id
  let participant := registrant x portNumber id
  let c := { c with id }.emit (.reading x.now)
  let c := (c.emit (.registered id)).emit (.asked id portNumber)
  let c := c.close x.clientFd
  let (participant, c) := c.registerParticipant x participant
  return c.addMessenger ⟨participant⟩

/-- `Coordinator::HandleRequest(Deregister)`. -/
def handleDeregister (c : Coordinator) (x : Exchange) (participantId : UInt32) : Coordinator :=
  let participant := c.determineParticipant participantId
  let messenger := c.determineMessenger x participantId
  let c := c.deregisterParticipant participant
  let c := c.deleteMessenger messenger
  c.close x.clientFd

/-- `Coordinator::HandleRequest(Disconnect)`. -/
def handleDisconnect (c : Coordinator) (x : Exchange) (participantId : UInt32) : Coordinator :=
  let participant := c.determineParticipant participantId
  let messenger := c.determineMessenger x participantId
  let c := c.disconnectParticipant x participant
  let c := c.deleteMessenger messenger
  c.close x.clientFd

/-- `Coordinator::HandleRequest(Reconnect)`. The port of the request is not used; the event only
notes that it was named. -/
def handleReconnect (c : Coordinator) (x : Exchange) (portNumber participantId : UInt32) :
    Coordinator :=
  let participant := c.determineParticipant participantId
  let c := c.emit (.asked participantId portNumber)
  let (participant, c) := c.reconnectParticipant x participant
  let messenger : Messenger := ⟨participant⟩
  let c := c.addMessenger messenger
  let c := c.emit (.reading x.now)
  let missed := c.msgLog.getMissedMessages participant.disconnectTime x.now
  let c := c.sendMissedMessages x messenger (x.replayOrder.enumerate missed.elements) 0
  c.close x.clientFd

/-- `Coordinator::HandleRequest(SendMulticast)`: the handler pushes its message and then pops
one. The queue is not empty then; `none` is never reached. -/
def handleSendMulticast (c : Coordinator) (x : Exchange) (message : String)
    (participantId : UInt32) : Option Coordinator :=
  let participant := c.determineParticipant participantId
  let msg : Message :=
    { msg := message, participantId := participant.id, number := c.broadcasts }
  let c := { c with broadcasts := c.broadcasts + 1, msgQueue := c.msgQueue ++ [msg] }
  match c.msgQueue with
  | [] => none
  | msg :: msgQueue =>
      let c := { c with msgQueue }.emit (.multicast msg.number)
      let c := c.broadcastMessage x (x.messengerOrder.enumerate c.messengers) false 0 msg
      some (c.close x.clientFd)

/-- `Coordinator::DispatchMessage`. -/
def dispatchMessage (c : Coordinator) (x : Exchange) : Option Coordinator :=
  match x.request with
  | .register portNumber => c.handleRegister x portNumber
  | .deregister participantId => some (c.handleDeregister x participantId)
  | .disconnect participantId => some (c.handleDisconnect x participantId)
  | .reconnect portNumber participantId => some (c.handleReconnect x portNumber participantId)
  | .sendMulticast message participantId => c.handleSendMulticast x message participantId
  | .notSet => some c

/-- Accept a connection and handle the request on it. -/
def serve (c : Coordinator) (x : Exchange) : Option Coordinator :=
  if c.descriptors.free x.clientFd then
    { c with descriptors := c.descriptors.openAs x.clientFd .request }.dispatchMessage x
  else none

end Coordinator

end Csci6780.PubSub
