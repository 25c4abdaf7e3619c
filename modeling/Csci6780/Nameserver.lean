import Csci6780.ConsistentHashMsgs
import Csci6780.Lib.Ripple
import Csci6780.Lib.Unordered
import Csci6780.Node

/-!
# Name Servers

This module embeds `nameserver::Nameserver`, a server of the hash ring: the keys between its
bounds are its own, and it knows the servers before and after it in the ring. Its handlers are
functions from the server and a message to the server afterwards and the message that is sent on,
with the endpoint that it is sent to.

What protobuf or the standard library leaves undefined is `none`: an index past the end of a
`repeated` member, and going on from an element of a map that was erased. In which order an
iteration sees a map's pairs is a parameter.
-/

namespace Csci6780.HashRing

/-- `Nameserver`. The constructor does not set `id_`, `successor_id_` and `predecessor_id_`. -/
structure Nameserver where
  pairs : UnorderedMap UInt32 String := .empty
  bounds : UInt32 × UInt32 := (0, 0)
  successor : Endpoint := {}
  successorId : UInt32
  predecessor : Endpoint := {}
  predecessorId : UInt32
  bootstrap : Endpoint
  port : Int32
  id : UInt32
  deriving DecidableEq

/-- A server after it has handled a message, and what it sends on. -/
structure Handled (Msg : Type) where
  server : Nameserver
  destination : Endpoint
  message : Msg
  deriving DecidableEq

/-- The server and the message, for a row of servers in which the message is passed along. -/
def Handled.pass {Msg : Type} (h : Handled Msg) : Nameserver × Msg := (h.server, h.message)

/-- The endpoint that a `ServerInfo` gives; `Endpoint::port` has 16 bits. -/
def ServerInfo.endpoint (m : ServerInfo) : Endpoint := ⟨m.ip, m.port.toUInt16⟩

/-- The `ServerInfo` of a server of the ring. -/
def serverInfo (id : UInt32) (e : Endpoint) : ServerInfo := ⟨id, e.hostname, e.port.toUInt32⟩

/-- A place in the ring is the same after it was sent. -/
@[simp] theorem endpoint_serverInfo (id : UInt32) (e : Endpoint) :
    (serverInfo id e).endpoint = e := by
  simp [serverInfo, ServerInfo.endpoint]

/-- `IsInitialized`, of a proto3 message. -/
def isInitialized {Msg : Type} (_ : Msg) : Bool := true

namespace Nameserver

/-- Whether a key lies between a server's bounds. -/
def Owns (ns : Nameserver) (key : UInt32) : Prop := ns.bounds.1 ≤ key ∧ key ≤ ns.bounds.2

instance (ns : Nameserver) (key : UInt32) : Decidable (ns.Owns key) :=
  inferInstanceAs (Decidable (_ ∧ _))

/-- What a server tells of its successor. -/
def successorInfo (ns : Nameserver) : ServerInfo := serverInfo ns.successorId ns.successor

/-- What a server tells of its predecessor. -/
def predecessorInfo (ns : Nameserver) : ServerInfo := serverInfo ns.predecessorId ns.predecessor

/-! ### Ripples -/

/-- `HandleRequest(LookUpResult)`. -/
def handleLookUpResult (ns : Nameserver) (request : LookUpResult) : Handled LookUpResult :=
  let req :=
    if ns.Owns request.key then
      match ns.pairs.find request.key with
      | some value => { request with value, id := ns.id }
      | none => request
    else request
  { server := ns
    destination := ns.successor
    message := { req with serverIds := req.serverIds ++ [ns.id] } }

/-- `HandleRequest(InsertResult)`. -/
def handleInsertResult (ns : Nameserver) (request : InsertResult) : Handled InsertResult :=
  let owns := ns.Owns request.key
  { server := if owns then { ns with pairs := ns.pairs.insert (request.key, request.value) } else ns
    destination := ns.successor
    message :=
      { request with
        id := if owns then ns.id else request.id
        serverIds := request.serverIds ++ [ns.id] } }

/-- `HandleRequest(DeleteResult)`. -/
def handleDeleteResult (ns : Nameserver) (request : DeleteResult) : Handled DeleteResult :=
  let found := ns.Owns request.key ∧ (ns.pairs.find request.key).isSome
  { server := if found then { ns with pairs := ns.pairs.erase request.key } else ns
    destination := ns.successor
    message :=
      { request with
        deleteSuccess := if found then true else request.deleteSuccess
        serverIds := request.serverIds ++ [ns.id] } }

/-! ### Entering -/

/-- `HandleRequest(EntranceInformation)`. `mutable_successor_info()` in the second condition makes
the member present. -/
def handleEntranceInformation (ns : Nameserver) (request : EntranceInformation) :
    Handled EntranceInformation :=
  let req :=
    if ns.id < request.id ∧ request.id < ns.successorId then
      { request with successorInfo := some ns.successorInfo }
    else if request.id < ns.id ∧ ns.predecessorId < request.id then
      { request with predecessorInfo := some ns.predecessorInfo }
    else request
  let req :=
    if ns.successor = ns.bootstrap then
      let req := { req with successorInfo := some (info req.successorInfo) }
      if isInitialized (info req.successorInfo) then req
      else
        let req := { req with predecessorInfo := some (info req.predecessorInfo) }
        if isInitialized (info req.predecessorInfo) then req
        else { req with successorInfo := some ns.successorInfo }
    else req
  { server := ns, destination := ns.successor, message := req }

/-- What `Enter` sends to its successor. -/
def updatePredReq (ns : Nameserver) : UpdatePredecessorRequest where
  predecessorInfo := some { id := ns.id, port := ns.port.toUInt32 }

/-- Insert the pairs of the keys and the values of the same index. -/
def insertPairs (pairs : UnorderedMap UInt32 String) :
    List UInt32 → List String → Option (UnorderedMap UInt32 String)
  | [], _ => some pairs
  | _ :: _, [] => none
  | key :: keys, value :: values => insertPairs (pairs.insert (key, value)) keys values

/-- What `Enter` takes from its successor's answer. -/
def takeOver (ns : Nameserver) (res : UpdatePredecessorResponse) : Option Nameserver := do
  let pairs ← insertPairs ns.pairs res.keys res.values
  return { ns with bounds := (res.lowerBounds, res.upperBounds), pairs }

/-- The loop of `HandleRequest(UpdatePredecessorRequest)` over the pairs, which gives those below
the middle of the bounds away. `pair_index` stays zero, and after `pairs_.erase` the loop has no
element to go on from. -/
def giveAway (upper : UInt32) :
    List (UInt32 × String) → UnorderedMap UInt32 String → UpdatePredecessorResponse →
      Option (UnorderedMap UInt32 String × UpdatePredecessorResponse)
  | [], pairs, res => some (pairs, res)
  | pair :: rest, pairs, res => do
      let (pairs, res) ←
        if pair.1 < upper / 2 + 1 then do
          let keys ← setAt res.keys 0 pair.1
          let values ← setAt res.values 0 pair.2
          pure (pairs.erase pair.1, { res with keys, values })
        else pure (pairs, res)
      if pairs.contains pair.1 then giveAway upper rest pairs res else none

/-- `HandleRequest(UpdatePredecessorRequest)`. -/
def handleUpdatePredecessorRequest (order : IterationOrder (UInt32 × String)) (ns : Nameserver)
    (request : UpdatePredecessorRequest) (source : Endpoint) :
    Option (Handled UpdatePredecessorResponse) := do
  let predecessor : Endpoint := ⟨source.hostname, (info request.predecessorInfo).port.toUInt16⟩
  let middleKey := (ns.bounds.1 - ns.bounds.2) / 2
  let (pairs, res) ← giveAway ns.bounds.2 (order.enumerate ns.pairs.elements) ns.pairs
    { lowerBounds := ns.bounds.1, upperBounds := ns.bounds.1 - middleKey }
  return {
    server :=
      { ns with
        predecessor
        predecessorId := (info request.predecessorInfo).id
        pairs
        bounds := (ns.bounds.1 + ((ns.bounds.2 - ns.bounds.1) / 2 + 1), ns.bounds.2) }
    destination := predecessor
    message := res }

/-- `HandleRequest(UpdateSuccessorRequest)`. -/
def handleUpdateSuccessorRequest (ns : Nameserver) (request : UpdateSuccessorRequest) :
    Nameserver :=
  { ns with
    successor := (info request.successorInfo).endpoint
    successorId := (info request.successorInfo).id }

/-! ### Exiting -/

/-- The loop of `Exit` over the pairs. -/
def packPairs : List (UInt32 × String) → ℕ → ExitInformation → Option ExitInformation
  | [], _, exitInfo => some exitInfo
  | pair :: rest, pairIndex, exitInfo => do
      let keys ← setAt exitInfo.keys pairIndex pair.1
      let values ← setAt exitInfo.values pairIndex pair.2
      packPairs rest (pairIndex + 1) { exitInfo with keys, values }

/-- What `Exit` sends to the successor. -/
def exitInformation (order : IterationOrder (UInt32 × String)) (ns : Nameserver) :
    Option ExitInformation := do
  let exitInfo ← packPairs (order.enumerate ns.pairs.elements) 0
    { lowerBounds := ns.bounds.1, upperBounds := ns.bounds.2 }
  return { exitInfo with predecessorInfo := some ns.predecessorInfo }

/-- `Exit`: what is sent to the successor and what is sent to the predecessor. -/
def exit (order : IterationOrder (UInt32 × String)) (ns : Nameserver) :
    Option ((Endpoint × ExitInformation) × (Endpoint × UpdateSuccessorRequest)) := do
  let exitInfo ← ns.exitInformation order
  let updateSuccReq := { successorInfo := some ns.successorInfo }
  return ((ns.successor, exitInfo), (ns.predecessor, updateSuccReq))

/-- `HandleRequest(ExitInformation)`. -/
def handleExitInformation (ns : Nameserver) (request : ExitInformation) : Option Nameserver := do
  let pairs ← insertPairs ns.pairs request.keys request.values
  return { ns with
    bounds := (ns.bounds.1, request.upperBounds)
    pairs
    predecessor := (info request.predecessorInfo).endpoint
    predecessorId := (info request.predecessorInfo).id }

end Nameserver

/-- A name server of the ring, and the endpoint at which it listens. -/
structure Member where
  endpoint : Endpoint
  server : Nameserver

/-- The place of a name server in the ring. -/
def Member.info (m : Member) : ServerInfo := serverInfo m.server.id m.endpoint

end Csci6780.HashRing
