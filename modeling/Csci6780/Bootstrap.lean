import Csci6780.Nameserver

/-!
# The Bootstrap Server

This module embeds `nameserver::Bootstrap`, the server that starts the ring: it admits entering
servers and takes the commands of the console. What it writes to the console is a list of lines.

The handlers of the three results set an element one past the end of `server_ids`, which protobuf
leaves undefined. What that comes to is a parameter: the list afterwards, or nothing, where the
program does not get beyond it.
-/

namespace Csci6780.HashRing

/-- `Nameserver::Nameserver`. The ids that it does not set are parameters. -/
def Nameserver.construct (port : Int32) (bootstrap : Endpoint)
    (id successorId predecessorId : UInt32) : Nameserver :=
  { port, bootstrap, id, successorId, predecessorId }

/-- The endpoint that `client_` is connected to. -/
def Nameserver.clientEndpoint (ns : Nameserver) : Endpoint := ns.bootstrap

/-- `Bootstrap`. -/
structure Bootstrap extends Nameserver where
  enteringNameserver : Endpoint := {}
  deriving DecidableEq

/-- The bootstrap server after a command or a message, the lines that it has written to the
console, and what it sends. -/
structure Told (Msg : Type) where
  server : Bootstrap
  console : List String := []
  sent : Option (Endpoint × Msg) := none

namespace Bootstrap

/-- `Bootstrap::Bootstrap`. -/
def construct (port : Int32) (kvs : UnorderedMap UInt32 String)
    (id successorId predecessorId : UInt32) : Bootstrap :=
  let endpoint : Endpoint := ⟨"127.0.0.1", port.toUInt32.toUInt16⟩
  { Nameserver.construct port endpoint id successorId predecessorId with
    pairs := kvs
    bounds := (0, 1023)
    successor := endpoint }

/-! ### Entering servers -/

/-- `HandleRequest(EntranceRequest)`. -/
def handleEntranceRequest (bs : Bootstrap) (request : EntranceRequest) (source : Endpoint) :
    Bootstrap × (Endpoint × EntranceInformation) :=
  ({ bs with enteringNameserver := source },
    if bs.successor = bs.bootstrap then (source, {}) else (bs.successor, { id := request.id }))

/-- `HandleRequest(EntranceInformation)`. What the handler fills in goes into a copy of the
message, and the message itself is sent; a fatal log entry ends the program. -/
def handleEntranceInformation (bs : Bootstrap) (request : EntranceInformation) :
    Option (Endpoint × EntranceInformation) :=
  let successorSet := isInitialized (info request.successorInfo)
  let predecessorSet := isInitialized (info request.predecessorInfo)
  if successorSet && !predecessorSet then some (bs.enteringNameserver, request)
  else if !successorSet && predecessorSet then some (bs.enteringNameserver, request)
  else if !(predecessorSet || successorSet) then none
  else some (bs.enteringNameserver, request)

/-! ### Commands -/

/-- `LookUp`. The request is sent through `client_`. -/
def lookUp (bs : Bootstrap) (key : UInt32) : Told LookUpResult :=
  match bs.pairs.find key with
  | some value => { server := bs, console := ["Value: " ++ value, "Contacted: 0"] }
  | none =>
      if bs.successor = bs.bootstrap then { server := bs, console := ["Key not found."] }
      else { server := bs, sent := some (bs.clientEndpoint, { id := 0, key }) }

/-- `Insert`. -/
def insert (bs : Bootstrap) (key : UInt32) (val : String) : Told InsertResult :=
  if bs.bounds.1 ≤ key ∧ key ≤ bs.bounds.2 then
    { server := { bs with pairs := bs.pairs.insert (key, val) }
      console := ["Inserted into: 0", "Contacted: 0"] }
  else if bs.successor = bs.bootstrap then { server := bs, console := ["Key out of range."] }
  else { server := bs, sent := some (bs.successor, { id := 0, key, value := val }) }

/-- `Delete`. -/
def delete (bs : Bootstrap) (key : UInt32) : Told DeleteResult :=
  match bs.pairs.find key with
  | some _ =>
      { server := { bs with pairs := bs.pairs.erase key }, console := ["Contacted: 0"] }
  | none =>
      if bs.successor = bs.bootstrap then { server := bs, console := ["Key not found."] }
      else { server := bs, sent := some (bs.successor, { deleteSuccess := false, key }) }

/-! ### Results -/

/-- `PrintContacted`. -/
def printContacted (serverIds : List UInt32) : String :=
  serverIds.foldl (fun contacted id => contacted ++ toString id.toNat ++ ", ") "Contacted: "

/-- `HandleRequest(LookUpResult)`, as the lines that it writes. -/
def handleLookUpResult (setPastEnd : List UInt32 → Option (List UInt32))
    (request : LookUpResult) : Option (List String) := do
  let serverIds ← setPastEnd request.serverIds
  let req := { request with serverIds }
  if req.id = 0 then return ["Key not found."]
  else return ["Value: " ++ req.value, printContacted request.serverIds]

/-- `HandleRequest(InsertResult)`, as the lines that it writes. -/
def handleInsertResult (setPastEnd : List UInt32 → Option (List UInt32))
    (request : InsertResult) : Option (List String) := do
  let serverIds ← setPastEnd request.serverIds
  let req := { request with serverIds }
  if req.id = 0 then return ["Key out of range."]
  else return ["Inserted into: " ++ toString req.id.toNat, printContacted req.serverIds]

/-- `HandleRequest(DeleteResult)`, as the lines that it writes. -/
def handleDeleteResult (setPastEnd : List UInt32 → Option (List UInt32))
    (request : DeleteResult) : Option (List String) := do
  let serverIds ← setPastEnd request.serverIds
  let req := { request with serverIds }
  if !req.deleteSuccess then return ["Key not found."]
  else return ["Successful deletion.", printContacted req.serverIds]

end Bootstrap

end Csci6780.HashRing
