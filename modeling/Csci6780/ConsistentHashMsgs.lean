import Csci6780.WireFormat

/-!
# The Messages of the Hash Ring

The messages of `project4/proto/consistent_hash_msgs.proto` and their fields in the wire format.
The servers of the ring send most of them bare, but listen for the two unions
`NameServerMessage` and `BootstrapMessage`.

A `repeated` member is a list. `RepeatedField::Set` of an index that the field does not have is
undefined, and so is `Get` (`setAt`, and the list's own `[i]?`).

## Main results

* `nameServerMessageProto_lawful`, `bootstrapMessageProto_lawful`: a union that is sent as one
  reads back.
-/

namespace Csci6780.HashRing

open Proto3

/-! ### The messages -/

/-- `RepeatedField::Set`. -/
def setAt {α : Type} (field : List α) (i : ℕ) (a : α) : Option (List α) :=
  if i < field.length then some (field.set i a) else none

/-- `ServerInfo`. -/
structure ServerInfo where
  id : UInt32 := 0
  ip : String := ""
  port : UInt32 := 0
  deriving DecidableEq, Repr

/-- `LookUpResult`. -/
structure LookUpResult where
  key : UInt32 := 0
  value : String := ""
  serverIds : List UInt32 := []
  id : UInt32 := 0
  deriving DecidableEq, Repr

/-- `InsertResult`. -/
structure InsertResult where
  key : UInt32 := 0
  value : String := ""
  id : UInt32 := 0
  serverIds : List UInt32 := []
  deriving DecidableEq, Repr

/-- `DeleteResult`. -/
structure DeleteResult where
  key : UInt32 := 0
  deleteSuccess : Bool := false
  serverIds : List UInt32 := []
  deriving DecidableEq, Repr

/-- `EntranceRequest`. -/
structure EntranceRequest where
  id : UInt32 := 0
  deriving DecidableEq, Repr

/-- `EntranceInformation`. -/
structure EntranceInformation where
  id : UInt32 := 0
  successorInfo : Option ServerInfo := none
  predecessorInfo : Option ServerInfo := none
  deriving DecidableEq, Repr

/-- `UpdatePredecessorRequest`. -/
structure UpdatePredecessorRequest where
  predecessorInfo : Option ServerInfo := none
  deriving DecidableEq, Repr

/-- `ExitInformation`. -/
structure ExitInformation where
  lowerBounds : UInt32 := 0
  upperBounds : UInt32 := 0
  keys : List UInt32 := []
  values : List String := []
  predecessorInfo : Option ServerInfo := none
  deriving DecidableEq, Repr

/-- `UpdatePredecessorResponse`. -/
structure UpdatePredecessorResponse where
  lowerBounds : UInt32 := 0
  upperBounds : UInt32 := 0
  keys : List UInt32 := []
  values : List String := []
  deriving DecidableEq, Repr

/-- `UpdateSuccessorRequest`. -/
structure UpdateSuccessorRequest where
  successorInfo : Option ServerInfo := none
  deriving DecidableEq, Repr

/-- `NameServerMessage`. -/
inductive NameServerMessage
  | entranceInfo (m : EntranceInformation)
  | exitInfo (m : ExitInformation)
  | updatePredReq (m : UpdatePredecessorRequest)
  | updateSuccReq (m : UpdateSuccessorRequest)
  | updatePredRes (m : UpdatePredecessorResponse)
  | lookUpResult (m : LookUpResult)
  | insertResult (m : InsertResult)
  | deleteResult (m : DeleteResult)
  | notSet
  deriving DecidableEq, Repr

/-- `BootstrapMessage`. -/
inductive BootstrapMessage
  | nameServerMessage (m : NameServerMessage)
  | entranceRequest (m : EntranceRequest)
  | notSet
  deriving DecidableEq, Repr

/-- A sub-message that is absent reads as its default. -/
def info (m : Option ServerInfo) : ServerInfo := m.getD {}

/-! ### Their fields -/

/-- The `uint32` member of a number, merged into `init`. -/
def getUint32 (number : ℕ) (init : UInt32) (fields : List Field) : UInt32 :=
  UInt32.ofNat (getVarint number init.toNat fields)

/-- The fields of a `ServerInfo` message. -/
def ServerInfo.toFields (m : ServerInfo) : List Field :=
  uint32Fields 1 m.id ++ stringFields 2 m.ip ++ uint32Fields 3 m.port

/-- Read a `ServerInfo` message, merging into `m`. -/
def ServerInfo.ofFields (m : ServerInfo) (fields : List Field) : Option ServerInfo := do
  let ip ← getString 2 m.ip fields
  return { id := getUint32 1 m.id fields, ip, port := getUint32 3 m.port fields }

def LookUpResult.toFields (m : LookUpResult) : List Field :=
  uint32Fields 1 m.key ++ stringFields 2 m.value ++ packedFields 3 m.serverIds ++
    uint32Fields 4 m.id

def LookUpResult.ofFields (m : LookUpResult) (fields : List Field) : Option LookUpResult := do
  let value ← getString 2 m.value fields
  let serverIds ← getUint32s 3 m.serverIds fields
  return { key := getUint32 1 m.key fields, value, serverIds, id := getUint32 4 m.id fields }

def InsertResult.toFields (m : InsertResult) : List Field :=
  uint32Fields 1 m.key ++ stringFields 2 m.value ++ uint32Fields 3 m.id ++
    packedFields 4 m.serverIds

def InsertResult.ofFields (m : InsertResult) (fields : List Field) : Option InsertResult := do
  let value ← getString 2 m.value fields
  let serverIds ← getUint32s 4 m.serverIds fields
  return { key := getUint32 1 m.key fields, value, id := getUint32 3 m.id fields, serverIds }

def DeleteResult.toFields (m : DeleteResult) : List Field :=
  uint32Fields 1 m.key ++ boolFields 2 m.deleteSuccess ++ packedFields 3 m.serverIds

def DeleteResult.ofFields (m : DeleteResult) (fields : List Field) : Option DeleteResult := do
  let serverIds ← getUint32s 3 m.serverIds fields
  return { key := getUint32 1 m.key fields
           deleteSuccess := getVarint 2 m.deleteSuccess.toNat fields != 0
           serverIds }

def EntranceRequest.toFields (m : EntranceRequest) : List Field := uint32Fields 1 m.id

def EntranceRequest.ofFields (m : EntranceRequest) (fields : List Field) : EntranceRequest where
  id := getUint32 1 m.id fields

def EntranceInformation.toFields (m : EntranceInformation) : List Field :=
  uint32Fields 1 m.id ++ messageFields 2 ServerInfo.toFields m.successorInfo ++
    messageFields 3 ServerInfo.toFields m.predecessorInfo

def EntranceInformation.ofFields (m : EntranceInformation) (fields : List Field) :
    Option EntranceInformation := do
  let successorInfo ← getMessage 2 ServerInfo.ofFields {} m.successorInfo fields
  let predecessorInfo ← getMessage 3 ServerInfo.ofFields {} m.predecessorInfo fields
  return { id := getUint32 1 m.id fields, successorInfo, predecessorInfo }

def UpdatePredecessorRequest.toFields (m : UpdatePredecessorRequest) : List Field :=
  messageFields 1 ServerInfo.toFields m.predecessorInfo

def UpdatePredecessorRequest.ofFields (m : UpdatePredecessorRequest) (fields : List Field) :
    Option UpdatePredecessorRequest := do
  let predecessorInfo ← getMessage 1 ServerInfo.ofFields {} m.predecessorInfo fields
  return { predecessorInfo }

def ExitInformation.toFields (m : ExitInformation) : List Field :=
  uint32Fields 1 m.lowerBounds ++ uint32Fields 2 m.upperBounds ++ packedFields 3 m.keys ++
    stringsFields 4 m.values ++ messageFields 5 ServerInfo.toFields m.predecessorInfo

def ExitInformation.ofFields (m : ExitInformation) (fields : List Field) :
    Option ExitInformation := do
  let keys ← getUint32s 3 m.keys fields
  let values ← getStrings 4 m.values fields
  let predecessorInfo ← getMessage 5 ServerInfo.ofFields {} m.predecessorInfo fields
  return { lowerBounds := getUint32 1 m.lowerBounds fields
           upperBounds := getUint32 2 m.upperBounds fields
           keys, values, predecessorInfo }

def UpdatePredecessorResponse.toFields (m : UpdatePredecessorResponse) : List Field :=
  uint32Fields 1 m.lowerBounds ++ uint32Fields 2 m.upperBounds ++ packedFields 3 m.keys ++
    stringsFields 4 m.values

def UpdatePredecessorResponse.ofFields (m : UpdatePredecessorResponse) (fields : List Field) :
    Option UpdatePredecessorResponse := do
  let keys ← getUint32s 3 m.keys fields
  let values ← getStrings 4 m.values fields
  return { lowerBounds := getUint32 1 m.lowerBounds fields
           upperBounds := getUint32 2 m.upperBounds fields
           keys, values }

def UpdateSuccessorRequest.toFields (m : UpdateSuccessorRequest) : List Field :=
  messageFields 1 ServerInfo.toFields m.successorInfo

def UpdateSuccessorRequest.ofFields (m : UpdateSuccessorRequest) (fields : List Field) :
    Option UpdateSuccessorRequest := do
  let successorInfo ← getMessage 1 ServerInfo.ofFields {} m.successorInfo fields
  return { successorInfo }

/-- The number of the `oneof` member that is set, and its fields. -/
def NameServerMessage.member : NameServerMessage → Option (ℕ × List Field)
  | .entranceInfo m => some (1, m.toFields)
  | .exitInfo m => some (2, m.toFields)
  | .updatePredReq m => some (3, m.toFields)
  | .updateSuccReq m => some (4, m.toFields)
  | .updatePredRes m => some (5, m.toFields)
  | .lookUpResult m => some (6, m.toFields)
  | .insertResult m => some (7, m.toFields)
  | .deleteResult m => some (8, m.toFields)
  | .notSet => none

/-- Read one member of the `oneof`. A second occurrence of the member that is set is merged into
it; any other member replaces it. -/
def NameServerMessage.readMember (u : NameServerMessage) (number : ℕ) (fields : List Field) :
    Option NameServerMessage :=
  match number with
  | 1 => (EntranceInformation.ofFields (match u with | .entranceInfo m => m | _ => {})
      fields).map .entranceInfo
  | 2 => (ExitInformation.ofFields (match u with | .exitInfo m => m | _ => {})
      fields).map .exitInfo
  | 3 => (UpdatePredecessorRequest.ofFields (match u with | .updatePredReq m => m | _ => {})
      fields).map .updatePredReq
  | 4 => (UpdateSuccessorRequest.ofFields (match u with | .updateSuccReq m => m | _ => {})
      fields).map .updateSuccReq
  | 5 => (UpdatePredecessorResponse.ofFields (match u with | .updatePredRes m => m | _ => {})
      fields).map .updatePredRes
  | 6 => (LookUpResult.ofFields (match u with | .lookUpResult m => m | _ => {})
      fields).map .lookUpResult
  | 7 => (InsertResult.ofFields (match u with | .insertResult m => m | _ => {})
      fields).map .insertResult
  | 8 => (DeleteResult.ofFields (match u with | .deleteResult m => m | _ => {})
      fields).map .deleteResult
  | _ => some u

/-- The fields of a `NameServerMessage`. -/
def NameServerMessage.toFields (u : NameServerMessage) : List Field := unionFields u.member

/-- Read a `NameServerMessage`, merging into `u`. -/
def NameServerMessage.ofFields (u : NameServerMessage) (fields : List Field) :
    Option NameServerMessage :=
  readOneof NameServerMessage.readMember 8 u fields

/-- `NameServerMessage` in the proto3 wire format. -/
def nameServerMessageProto : Protobuf NameServerMessage :=
  wireProto NameServerMessage.toFields (NameServerMessage.ofFields .notSet)

/-- The number of the `oneof` member that is set, and its fields. -/
def BootstrapMessage.member : BootstrapMessage → Option (ℕ × List Field)
  | .nameServerMessage m => some (1, m.toFields)
  | .entranceRequest m => some (2, m.toFields)
  | .notSet => none

/-- Read one member of the `oneof`. -/
def BootstrapMessage.readMember (u : BootstrapMessage) (number : ℕ) (fields : List Field) :
    Option BootstrapMessage :=
  match number with
  | 1 => (NameServerMessage.ofFields (match u with | .nameServerMessage m => m | _ => .notSet)
      fields).map .nameServerMessage
  | 2 => some (.entranceRequest (EntranceRequest.ofFields
      (match u with | .entranceRequest m => m | _ => {}) fields))
  | _ => some u

/-- `BootstrapMessage` in the proto3 wire format. -/
def bootstrapMessageProto : Protobuf BootstrapMessage :=
  wireProto (fun u => unionFields u.member) (readOneof BootstrapMessage.readMember 2 .notSet)

/-! ### Round trips -/

section RoundTrips

theorem ServerInfo.plain_toFields (m : ServerInfo) : Plain m.toFields :=
  ((plain_uint32Fields (by omega) (by omega) _).append
    (plain_stringFields (by omega) (by omega) _)).append
    (plain_uint32Fields (by omega) (by omega) _)

theorem ServerInfo.ofFields_toFields (m : ServerInfo) :
    ServerInfo.ofFields {} m.toFields = some m := by
  have hid : getUint32 1 0 m.toFields = m.id := getVarint_eq (by simp [toFields])
  have hip : getString 2 "" m.toFields = some m.ip := getString_eq (by simp [toFields])
  have hport : getUint32 3 0 m.toFields = m.port := getVarint_eq (by simp [toFields])
  simp [ofFields, hid, hip, hport]

/-- What a `ServerInfo` member reads as. -/
theorem getServerInfo_eq (number : ℕ) (m : Option ServerInfo) {fields : List Field}
    (hsize : (encodeFields fields).length < 2 ^ 31)
    (h : only number fields = messageFields number ServerInfo.toFields m) :
    getMessage number ServerInfo.ofFields {} none fields = some m :=
  getMessage_eq ServerInfo.plain_toFields (fun m _ => m.ofFields_toFields) hsize h

theorem LookUpResult.plain_toFields (m : LookUpResult) : Plain m.toFields :=
  (((plain_uint32Fields (by omega) (by omega) _).append
    (plain_stringFields (by omega) (by omega) _)).append
    (plain_packedFields (by omega) (by omega) _)).append
    (plain_uint32Fields (by omega) (by omega) _)

theorem LookUpResult.ofFields_toFields (m : LookUpResult) :
    LookUpResult.ofFields {} m.toFields = some m := by
  have hkey : getUint32 1 0 m.toFields = m.key := getVarint_eq (by simp [toFields])
  have hvalue : getString 2 "" m.toFields = some m.value := getString_eq (by simp [toFields])
  have hids : getUint32s 3 [] m.toFields = some m.serverIds := getUint32s_eq (by simp [toFields])
  have hid : getUint32 4 0 m.toFields = m.id := getVarint_eq (by simp [toFields])
  simp [ofFields, hkey, hvalue, hids, hid]

theorem InsertResult.plain_toFields (m : InsertResult) : Plain m.toFields :=
  (((plain_uint32Fields (by omega) (by omega) _).append
    (plain_stringFields (by omega) (by omega) _)).append
    (plain_uint32Fields (by omega) (by omega) _)).append
    (plain_packedFields (by omega) (by omega) _)

theorem InsertResult.ofFields_toFields (m : InsertResult) :
    InsertResult.ofFields {} m.toFields = some m := by
  have hkey : getUint32 1 0 m.toFields = m.key := getVarint_eq (by simp [toFields])
  have hvalue : getString 2 "" m.toFields = some m.value := getString_eq (by simp [toFields])
  have hid : getUint32 3 0 m.toFields = m.id := getVarint_eq (by simp [toFields])
  have hids : getUint32s 4 [] m.toFields = some m.serverIds := getUint32s_eq (by simp [toFields])
  simp [ofFields, hkey, hvalue, hids, hid]

theorem DeleteResult.plain_toFields (m : DeleteResult) : Plain m.toFields :=
  ((plain_uint32Fields (by omega) (by omega) _).append
    (plain_boolFields (by omega) (by omega) _)).append
    (plain_packedFields (by omega) (by omega) _)

theorem DeleteResult.ofFields_toFields (m : DeleteResult) :
    DeleteResult.ofFields {} m.toFields = some m := by
  have hkey : getUint32 1 0 m.toFields = m.key := getVarint_eq (by simp [toFields])
  have hsuccess : (getVarint 2 0 m.toFields != 0) = m.deleteSuccess :=
    getVarint_bool_eq (by simp [toFields])
  have hids : getUint32s 3 [] m.toFields = some m.serverIds := getUint32s_eq (by simp [toFields])
  simp [ofFields, hkey, hsuccess, hids]

theorem EntranceRequest.plain_toFields (m : EntranceRequest) : Plain m.toFields :=
  plain_uint32Fields (by omega) (by omega) _

theorem EntranceRequest.ofFields_toFields (m : EntranceRequest) :
    EntranceRequest.ofFields {} m.toFields = m := by
  have hid : getUint32 1 0 m.toFields = m.id := getVarint_eq (by simp [toFields])
  simp [ofFields, hid]

theorem EntranceInformation.plain_toFields (m : EntranceInformation) : Plain m.toFields :=
  ((plain_uint32Fields (by omega) (by omega) _).append
    (plain_messageFields (by omega) (by omega) _ _)).append
    (plain_messageFields (by omega) (by omega) _ _)

theorem EntranceInformation.ofFields_toFields (m : EntranceInformation)
    (hsize : (encodeFields m.toFields).length < 2 ^ 31) :
    EntranceInformation.ofFields {} m.toFields = some m := by
  have hid : getUint32 1 0 m.toFields = m.id := getVarint_eq (by simp [toFields])
  have hsucc := getServerInfo_eq 2 m.successorInfo hsize (by simp [toFields])
  have hpred := getServerInfo_eq 3 m.predecessorInfo hsize (by simp [toFields])
  simp [ofFields, hid, hsucc, hpred]

theorem UpdatePredecessorRequest.plain_toFields (m : UpdatePredecessorRequest) :
    Plain m.toFields :=
  plain_messageFields (by omega) (by omega) _ _

theorem UpdatePredecessorRequest.ofFields_toFields (m : UpdatePredecessorRequest)
    (hsize : (encodeFields m.toFields).length < 2 ^ 31) :
    UpdatePredecessorRequest.ofFields {} m.toFields = some m := by
  have hpred := getServerInfo_eq 1 m.predecessorInfo hsize (by simp [toFields])
  simp [ofFields, hpred]

theorem ExitInformation.plain_toFields (m : ExitInformation) : Plain m.toFields :=
  ((((plain_uint32Fields (by omega) (by omega) _).append
    (plain_uint32Fields (by omega) (by omega) _)).append
    (plain_packedFields (by omega) (by omega) _)).append
    (plain_stringsFields (by omega) (by omega) _)).append
    (plain_messageFields (by omega) (by omega) _ _)

theorem ExitInformation.ofFields_toFields (m : ExitInformation)
    (hsize : (encodeFields m.toFields).length < 2 ^ 31) :
    ExitInformation.ofFields {} m.toFields = some m := by
  have hlower : getUint32 1 0 m.toFields = m.lowerBounds := getVarint_eq (by simp [toFields])
  have hupper : getUint32 2 0 m.toFields = m.upperBounds := getVarint_eq (by simp [toFields])
  have hkeys : getUint32s 3 [] m.toFields = some m.keys := getUint32s_eq (by simp [toFields])
  have hvalues : getStrings 4 [] m.toFields = some m.values := getStrings_eq (by simp [toFields])
  have hpred := getServerInfo_eq 5 m.predecessorInfo hsize (by simp [toFields])
  simp [ofFields, hlower, hupper, hkeys, hvalues, hpred]

theorem UpdatePredecessorResponse.plain_toFields (m : UpdatePredecessorResponse) :
    Plain m.toFields :=
  (((plain_uint32Fields (by omega) (by omega) _).append
    (plain_uint32Fields (by omega) (by omega) _)).append
    (plain_packedFields (by omega) (by omega) _)).append
    (plain_stringsFields (by omega) (by omega) _)

theorem UpdatePredecessorResponse.ofFields_toFields (m : UpdatePredecessorResponse) :
    UpdatePredecessorResponse.ofFields {} m.toFields = some m := by
  have hlower : getUint32 1 0 m.toFields = m.lowerBounds := getVarint_eq (by simp [toFields])
  have hupper : getUint32 2 0 m.toFields = m.upperBounds := getVarint_eq (by simp [toFields])
  have hkeys : getUint32s 3 [] m.toFields = some m.keys := getUint32s_eq (by simp [toFields])
  have hvalues : getStrings 4 [] m.toFields = some m.values := getStrings_eq (by simp [toFields])
  simp [ofFields, hlower, hupper, hkeys, hvalues]

theorem UpdateSuccessorRequest.plain_toFields (m : UpdateSuccessorRequest) : Plain m.toFields :=
  plain_messageFields (by omega) (by omega) _ _

theorem UpdateSuccessorRequest.ofFields_toFields (m : UpdateSuccessorRequest)
    (hsize : (encodeFields m.toFields).length < 2 ^ 31) :
    UpdateSuccessorRequest.ofFields {} m.toFields = some m := by
  have hsucc := getServerInfo_eq 1 m.successorInfo hsize (by simp [toFields])
  simp [ofFields, hsucc]

end RoundTrips

/-- A member of a `NameServerMessage` reads back. -/
theorem NameServerMessage.readMember_member {u : NameServerMessage} {number : ℕ}
    {fields : List Field} (h : u.member = some (number, fields)) :
    0 < number ∧ number ≤ 8 ∧ Plain fields ∧ ((encodeFields fields).length < 2 ^ 31 →
      NameServerMessage.readMember .notSet number fields = some u) := by
  cases u with
  | entranceInfo m =>
      obtain ⟨rfl, rfl⟩ := Prod.mk.inj (Option.some.inj h)
      refine ⟨by omega, by omega, m.plain_toFields, fun hsize => ?_⟩
      exact congrArg (Option.map entranceInfo) (m.ofFields_toFields hsize)
  | exitInfo m =>
      obtain ⟨rfl, rfl⟩ := Prod.mk.inj (Option.some.inj h)
      refine ⟨by omega, by omega, m.plain_toFields, fun hsize => ?_⟩
      exact congrArg (Option.map exitInfo) (m.ofFields_toFields hsize)
  | updatePredReq m =>
      obtain ⟨rfl, rfl⟩ := Prod.mk.inj (Option.some.inj h)
      refine ⟨by omega, by omega, m.plain_toFields, fun hsize => ?_⟩
      exact congrArg (Option.map updatePredReq) (m.ofFields_toFields hsize)
  | updateSuccReq m =>
      obtain ⟨rfl, rfl⟩ := Prod.mk.inj (Option.some.inj h)
      refine ⟨by omega, by omega, m.plain_toFields, fun hsize => ?_⟩
      exact congrArg (Option.map updateSuccReq) (m.ofFields_toFields hsize)
  | updatePredRes m =>
      obtain ⟨rfl, rfl⟩ := Prod.mk.inj (Option.some.inj h)
      refine ⟨by omega, by omega, m.plain_toFields, fun _ => ?_⟩
      exact congrArg (Option.map updatePredRes) m.ofFields_toFields
  | lookUpResult m =>
      obtain ⟨rfl, rfl⟩ := Prod.mk.inj (Option.some.inj h)
      refine ⟨by omega, by omega, m.plain_toFields, fun _ => ?_⟩
      exact congrArg (Option.map lookUpResult) m.ofFields_toFields
  | insertResult m =>
      obtain ⟨rfl, rfl⟩ := Prod.mk.inj (Option.some.inj h)
      refine ⟨by omega, by omega, m.plain_toFields, fun _ => ?_⟩
      exact congrArg (Option.map insertResult) m.ofFields_toFields
  | deleteResult m =>
      obtain ⟨rfl, rfl⟩ := Prod.mk.inj (Option.some.inj h)
      refine ⟨by omega, by omega, m.plain_toFields, fun _ => ?_⟩
      exact congrArg (Option.map deleteResult) m.ofFields_toFields
  | notSet => cases h

theorem NameServerMessage.member_eq_none {u : NameServerMessage} (h : u.member = none) :
    u = .notSet := by
  cases u <;> simp [member] at h ⊢

theorem NameServerMessage.plain_toFields (u : NameServerMessage) : Plain u.toFields := by
  rw [toFields, unionFields]
  cases hm : u.member with
  | none => exact plain_nil
  | some nf =>
      obtain ⟨number, fields⟩ := nf
      obtain ⟨hpos, hle, -, -⟩ := readMember_member hm
      exact plain_messageField hpos (by omega) fields

theorem NameServerMessage.ofFields_toFields (u : NameServerMessage)
    (hsize : (encodeFields u.toFields).length < 2 ^ 31) :
    NameServerMessage.ofFields .notSet u.toFields = some u := by
  rw [toFields] at hsize ⊢
  cases hm : u.member with
  | none =>
      rw [member_eq_none hm]
      rfl
  | some nf =>
      obtain ⟨number, fields⟩ := nf
      obtain ⟨hpos, hle, hplain, hread⟩ := readMember_member hm
      rw [hm] at hsize
      have hlen : (encodeFields fields).length < 2 ^ 31 :=
        length_lt_of_mem (List.mem_singleton.mpr rfl) hsize
      exact (readOneof_messageField readMember hpos hle .notSet hplain hsize).trans (hread hlen)

/-- **The wire format of `NameServerMessage` is lawful.** -/
theorem nameServerMessageProto_lawful : nameServerMessageProto.Lawful :=
  wireProto_lawful (fun u hsize => u.plain_toFields.wellFormed hsize)
    fun u hsize => u.ofFields_toFields hsize

/-- **The wire format of `BootstrapMessage` is lawful.** -/
theorem bootstrapMessageProto_lawful : bootstrapMessageProto.Lawful := by
  refine unionProto_lawful ?_ (by omega) ?_
  · intro u hu
    cases u <;> simp [BootstrapMessage.member] at hu ⊢
  · intro u number fields hu
    cases u with
    | nameServerMessage m =>
        obtain ⟨rfl, rfl⟩ := Prod.mk.inj (Option.some.inj hu)
        refine ⟨by omega, by omega, m.plain_toFields, fun hsize => ?_⟩
        exact congrArg (Option.map BootstrapMessage.nameServerMessage) (m.ofFields_toFields hsize)
    | entranceRequest m =>
        obtain ⟨rfl, rfl⟩ := Prod.mk.inj (Option.some.inj hu)
        refine ⟨by omega, by omega, m.plain_toFields, fun _ => ?_⟩
        exact congrArg (fun m => some (BootstrapMessage.entranceRequest m)) m.ofFields_toFields
    | notSet => cases hu

end Csci6780.HashRing
