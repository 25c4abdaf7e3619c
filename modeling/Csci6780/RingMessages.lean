import Mathlib.Tactic.IntervalCases
import Csci6780.ConsistentHashMsgs

/-!
# What the Servers of the Ring Understand

`Nameserver::ReceiveAndHandle` parses what it receives as a `NameServerMessage`, and
`Bootstrap::ReceiveAndHandle` as a `BootstrapMessage`; which handler is called is decided by the
`oneof` of these unions. The messages are sent bare, as what they are, and not as a member of the
union.

In the wire format a bare message parses as a union all the same, with the fields that happen to
have the number and the type of a member. No message has a length-delimited field with the number
of its own member, so that none is taken for what it is.

## Main results

* `wrapped_message_understood`: a message that is sent as a member of the union is understood.
* `ring_message_not_understood`: a bare one never is.
-/

namespace Csci6780.HashRing

open Proto3

/-- What the servers of the ring send to each other's listening ports. -/
inductive RingMessage
  | entranceRequest (m : EntranceRequest)
  | entranceInformation (m : EntranceInformation)
  | exitInformation (m : ExitInformation)
  | updatePredecessorRequest (m : UpdatePredecessorRequest)
  | updateSuccessorRequest (m : UpdateSuccessorRequest)
  | lookUpResult (m : LookUpResult)
  | insertResult (m : InsertResult)
  | deleteResult (m : DeleteResult)
  deriving DecidableEq, Repr

/-- The fields of the message. -/
def RingMessage.toFields : RingMessage → List Field
  | .entranceRequest m => m.toFields
  | .entranceInformation m => m.toFields
  | .exitInformation m => m.toFields
  | .updatePredecessorRequest m => m.toFields
  | .updateSuccessorRequest m => m.toFields
  | .lookUpResult m => m.toFields
  | .insertResult m => m.toFields
  | .deleteResult m => m.toFields

/-- The bytes of the message, which has to fit a C `int`. -/
def RingMessage.serialize (m : RingMessage) : Option (List UInt8) :=
  if (encodeFields m.toFields).length < 2 ^ 31 then some (encodeFields m.toFields) else none

/-! ### Dispatch -/

/-- `Nameserver::HandleRequest(NameServerMessage)`: the message for which a handler is called. -/
def nameserverDispatch : NameServerMessage → Option RingMessage
  | .updateSuccReq m => some (.updateSuccessorRequest m)
  | .deleteResult m => some (.deleteResult m)
  | .lookUpResult m => some (.lookUpResult m)
  | .insertResult m => some (.insertResult m)
  | .entranceInfo m => some (.entranceInformation m)
  | .exitInfo m => some (.exitInformation m)
  | .updatePredReq m => some (.updatePredecessorRequest m)
  | .updatePredRes _ => none
  | .notSet => none

/-- `Bootstrap::HandleRequest(BootstrapMessage)`. The bootstrap server has handlers of its own for
four messages and leaves the others to `Nameserver`. -/
def bootstrapDispatch : BootstrapMessage → Option RingMessage
  | .entranceRequest m => some (.entranceRequest m)
  | .nameServerMessage (.deleteResult m) => some (.deleteResult m)
  | .nameServerMessage (.insertResult m) => some (.insertResult m)
  | .nameServerMessage (.lookUpResult m) => some (.lookUpResult m)
  | .nameServerMessage (.entranceInfo m) => some (.entranceInformation m)
  | .nameServerMessage m => nameserverDispatch m
  | .notSet => none

/-- The two kinds of server. -/
inductive Receiver
  | nameserver
  | bootstrap
  deriving DecidableEq, Repr

/-- `ReceiveAndHandle`: the message for which a handler is called when bytes are received. -/
def Receiver.receiveAndHandle (r : Receiver) (bytes : List UInt8) : Option RingMessage :=
  match r with
  | .nameserver =>
      (nameServerMessageProto.parseFromArray bytes bytes.length).bind nameserverDispatch
  | .bootstrap =>
      (bootstrapMessageProto.parseFromArray bytes bytes.length).bind bootstrapDispatch

/-- A message is sent, and the receiver calls the handler for that very message. -/
def Understood (r : Receiver) (m : RingMessage) : Prop :=
  ∃ bytes, m.serialize = some bytes ∧ r.receiveAndHandle bytes = some m

/-! ### Messages in a union -/

/-- The union with a message as its member, if it has such a member. -/
def RingMessage.wrap : RingMessage → Option NameServerMessage
  | .entranceRequest _ => none
  | .entranceInformation m => some (.entranceInfo m)
  | .exitInformation m => some (.exitInfo m)
  | .updatePredecessorRequest m => some (.updatePredReq m)
  | .updateSuccessorRequest m => some (.updateSuccReq m)
  | .lookUpResult m => some (.lookUpResult m)
  | .insertResult m => some (.insertResult m)
  | .deleteResult m => some (.deleteResult m)

theorem dispatch_wrap {m : RingMessage} {u : NameServerMessage} (h : m.wrap = some u) :
    nameserverDispatch u = some m ∧ bootstrapDispatch (.nameServerMessage u) = some m := by
  cases m <;> cases h <;> exact ⟨rfl, rfl⟩

/-- **A message that is sent in the receiver's union is understood.** -/
theorem wrapped_message_understood {m : RingMessage} {u : NameServerMessage}
    (hwrap : m.wrap = some u) :
    (nameServerMessageProto.byteSizeLong u < 2 ^ 31 →
      Receiver.nameserver.receiveAndHandle (nameServerMessageProto.encoding u) = some m) ∧
    (bootstrapMessageProto.byteSizeLong (.nameServerMessage u) < 2 ^ 31 →
      Receiver.bootstrap.receiveAndHandle
        (bootstrapMessageProto.encoding (.nameServerMessage u)) = some m) := by
  obtain ⟨hns, hbs⟩ := dispatch_wrap hwrap
  refine ⟨fun hsize => ?_, fun hsize => ?_⟩
  · rw [Receiver.receiveAndHandle, nameServerMessageProto_lawful.length_encoding hsize,
      nameServerMessageProto_lawful.parses u hsize, Option.bind_some, hns]
  · rw [Receiver.receiveAndHandle, bootstrapMessageProto_lawful.length_encoding hsize,
      bootstrapMessageProto_lawful.parses _ hsize, Option.bind_some, hbs]

/-! ### Bare messages -/

/-- The number of the union's member that is set, zero for none. -/
def NameServerMessage.case (u : NameServerMessage) : ℕ := (u.member.map Prod.fst).getD 0

/-- The number of the union's member that is set, zero for none. -/
def BootstrapMessage.case (u : BootstrapMessage) : ℕ := (u.member.map Prod.fst).getD 0

/-- The number of the member of `NameServerMessage` that a message is. -/
def RingMessage.number (m : RingMessage) : ℕ := (m.wrap.map NameServerMessage.case).getD 0

theorem RingMessage.plain_toFields (m : RingMessage) : Plain m.toFields := by
  cases m with
  | entranceRequest m => exact m.plain_toFields
  | entranceInformation m => exact m.plain_toFields
  | exitInformation m => exact m.plain_toFields
  | updatePredecessorRequest m => exact m.plain_toFields
  | updateSuccessorRequest m => exact m.plain_toFields
  | lookUpResult m => exact m.plain_toFields
  | insertResult m => exact m.plain_toFields
  | deleteResult m => exact m.plain_toFields

theorem NameServerMessage.case_readMember (u : NameServerMessage) (k : ℕ) (fields : List Field)
    (u' : NameServerMessage) (hpos : 1 ≤ k) (hle : k ≤ 8)
    (h : NameServerMessage.readMember u k fields = some u') : u'.case = k := by
  interval_cases k <;>
    (obtain ⟨m, -, rfl⟩ := Option.map_eq_some_iff.mp h; rfl)

theorem BootstrapMessage.case_readMember (u : BootstrapMessage) (k : ℕ) (fields : List Field)
    (u' : BootstrapMessage) (hpos : 1 ≤ k) (hle : k ≤ 2)
    (h : BootstrapMessage.readMember u k fields = some u') : u'.case = k := by
  interval_cases k
  · obtain ⟨m, -, rfl⟩ := Option.map_eq_some_iff.mp h
    rfl
  · obtain rfl := Option.some.inj h
    rfl

theorem not_len_of_only_nil {number : ℕ} {fields : List Field} (h : only number fields = []) :
    ∀ f ∈ only number fields, ∀ bytes, f.value ≠ .len bytes :=
  fun _ hf => absurd (h ▸ hf) List.not_mem_nil

theorem not_len_of_only_uint32 {number : ℕ} {fields : List Field} {n : UInt32}
    (h : only number fields = uint32Fields number n) :
    ∀ f ∈ only number fields, ∀ bytes, f.value ≠ .len bytes :=
  fun _ hf bytes => not_len_of_mem_uint32Fields (h ▸ hf) bytes

/-- **No message has a length-delimited field with the number of its own member.** -/
theorem not_len_of_mem_only (m : RingMessage) :
    ∀ f ∈ only m.number m.toFields, ∀ bytes, f.value ≠ .len bytes := by
  cases m with
  | entranceRequest m =>
      have honly : only 0 m.toFields = [] := by simp [EntranceRequest.toFields]
      exact not_len_of_only_nil honly
  | entranceInformation m =>
      have honly : only 1 m.toFields = uint32Fields 1 m.id := by
        simp [EntranceInformation.toFields]
      exact not_len_of_only_uint32 honly
  | exitInformation m =>
      have honly : only 2 m.toFields = uint32Fields 2 m.upperBounds := by
        simp [ExitInformation.toFields]
      exact not_len_of_only_uint32 honly
  | updatePredecessorRequest m =>
      have honly : only 3 m.toFields = [] := by simp [UpdatePredecessorRequest.toFields]
      exact not_len_of_only_nil honly
  | updateSuccessorRequest m =>
      have honly : only 4 m.toFields = [] := by simp [UpdateSuccessorRequest.toFields]
      exact not_len_of_only_nil honly
  | lookUpResult m =>
      have honly : only 6 m.toFields = [] := by simp [LookUpResult.toFields]
      exact not_len_of_only_nil honly
  | insertResult m =>
      have honly : only 7 m.toFields = [] := by simp [InsertResult.toFields]
      exact not_len_of_only_nil honly
  | deleteResult m =>
      have honly : only 8 m.toFields = [] := by simp [DeleteResult.toFields]
      exact not_len_of_only_nil honly

theorem dispatch_case {u : NameServerMessage} {m : RingMessage}
    (h : nameserverDispatch u = some m) : 0 < m.number ∧ u.case = m.number := by
  cases u <;> cases h <;> exact ⟨Nat.succ_pos _, rfl⟩

/-- Fields in which the number of a message's member is not length-delimited do not read as a
union that holds the message. -/
theorem dispatch_ne {fields : List Field} {u : NameServerMessage} {m : RingMessage}
    (hfields : ∀ f ∈ only m.number fields, ∀ bytes, f.value ≠ .len bytes)
    (hu : NameServerMessage.ofFields .notSet fields = some u) : nameserverDispatch u ≠ some m := by
  intro h
  obtain ⟨hpos, hcase⟩ := dispatch_case h
  refine case_ne_of_readOneof NameServerMessage.case NameServerMessage.case_readMember hfields ?_ hu
    hcase
  exact Nat.ne_of_lt hpos

theorem serialize_eq_some {m : RingMessage} {bytes : List UInt8} (h : m.serialize = some bytes) :
    (encodeFields m.toFields).length < 2 ^ 31 ∧ encodeFields m.toFields = bytes := by
  rw [RingMessage.serialize] at h
  split at h
  · next hsize => exact ⟨hsize, Option.some.inj h⟩
  · cases h

/-- A bare message parses as the union of its fields. -/
theorem parse_serialize {Msg : Type} {toFields : Msg → List Field}
    {ofFields : List Field → Option Msg} {m : RingMessage} {bytes : List UInt8}
    (h : m.serialize = some bytes) :
    (wireProto toFields ofFields).parseFromArray bytes bytes.length = ofFields m.toFields := by
  obtain ⟨hsize, rfl⟩ := serialize_eq_some h
  have htake : (encodeFields m.toFields).take
      (Int.toNat ((encodeFields m.toFields).length : ℤ)) = encodeFields m.toFields :=
    List.take_of_length_le (Nat.le_refl _)
  simp only [wireProto]
  rw [htake, parseFields_encodeFields (m.plain_toFields.wellFormed hsize), Option.bind_some]

/-- A name server does not understand a bare message. -/
theorem nameserver_not_understood (m : RingMessage) : ¬Understood .nameserver m := by
  rintro ⟨bytes, hbytes, hhandled⟩
  rw [Receiver.receiveAndHandle, nameServerMessageProto, parse_serialize hbytes,
    Option.bind_eq_some_iff] at hhandled
  obtain ⟨u, hu, hdispatch⟩ := hhandled
  exact dispatch_ne (not_len_of_mem_only m) hu hdispatch

/-- A `ServerInfo` does not parse as a union that holds a request. -/
theorem serverInfo_not_request {i : ServerInfo} {u : NameServerMessage} {m : RingMessage}
    (hm : m.number = 3 ∨ m.number = 4)
    (hu : NameServerMessage.ofFields .notSet i.toFields = some u) :
    nameserverDispatch u ≠ some m := by
  refine dispatch_ne ?_ hu
  rcases hm with hm | hm
  · have honly : only 3 i.toFields = uint32Fields 3 i.port := by simp [ServerInfo.toFields]
    exact hm ▸ not_len_of_only_uint32 honly
  · have honly : only 4 i.toFields = [] := by simp [ServerInfo.toFields]
    exact hm ▸ not_len_of_only_nil honly

/-- A bare message of which no field can be the member 1 of a `BootstrapMessage` does not parse as
one that holds it. -/
theorem bootstrapDispatch_ne {u : BootstrapMessage} {m : RingMessage}
    (hfirst : ∀ f ∈ only 1 m.toFields, ∀ bytes, f.value ≠ .len bytes)
    (hsecond : ∀ r, m = .entranceRequest r → only 2 m.toFields = [])
    (hu : readOneof BootstrapMessage.readMember 2 .notSet m.toFields = some u) :
    bootstrapDispatch u ≠ some m := by
  intro h
  cases u with
  | nameServerMessage v =>
      have hcase := case_ne_of_readOneof BootstrapMessage.case BootstrapMessage.case_readMember
        hfirst (by decide) hu
      exact hcase rfl
  | entranceRequest r =>
      have hnone : ∀ f ∈ only 2 m.toFields, ∀ bytes, f.value ≠ .len bytes :=
        not_len_of_only_nil (hsecond r (Option.some.inj h).symm)
      have hcase := case_ne_of_readOneof BootstrapMessage.case BootstrapMessage.case_readMember
        hnone (by decide) hu
      exact hcase rfl
  | notSet => cases h

theorem bootstrapDispatch_nameServerMessage (v : NameServerMessage) :
    bootstrapDispatch (.nameServerMessage v) = nameserverDispatch v := by
  cases v <;> rfl

/-- A `ServerInfo` in the place of a `NameServerMessage` does not hold a request. -/
theorem bootstrap_request_ne {info : Option ServerInfo} {u : BootstrapMessage} {m : RingMessage}
    (hm : m.number = 3 ∨ m.number = 4)
    (hfields : m.toFields = messageFields 1 ServerInfo.toFields info)
    (hsize : (encodeFields m.toFields).length < 2 ^ 31)
    (hu : readOneof BootstrapMessage.readMember 2 .notSet m.toFields = some u) :
    bootstrapDispatch u ≠ some m := by
  cases info with
  | none =>
      rw [hfields] at hu
      obtain rfl : BootstrapMessage.notSet = u := Option.some.inj hu
      exact fun h => by cases h
  | some i =>
      have hone : m.toFields = [messageField 1 i.toFields] := hfields
      rw [hone] at hu hsize
      rw [readOneof_messageField _ (by omega) (by omega) _ i.plain_toFields hsize] at hu
      obtain ⟨v, hv, rfl⟩ := Option.map_eq_some_iff.mp hu
      rw [bootstrapDispatch_nameServerMessage]
      exact serverInfo_not_request hm hv

/-- The bootstrap server does not understand a bare message. -/
theorem bootstrap_not_understood (m : RingMessage) : ¬Understood .bootstrap m := by
  rintro ⟨bytes, hbytes, hhandled⟩
  rw [Receiver.receiveAndHandle, bootstrapMessageProto, parse_serialize hbytes,
    Option.bind_eq_some_iff] at hhandled
  obtain ⟨u, hu, hdispatch⟩ := hhandled
  have hsize : (encodeFields m.toFields).length < 2 ^ 31 := (serialize_eq_some hbytes).1
  have hother : ∀ {n : UInt32}, only 1 m.toFields = uint32Fields 1 n →
      (∀ r, m ≠ .entranceRequest r) → False := by
    intro n honly hne
    exact bootstrapDispatch_ne (not_len_of_only_uint32 honly) (fun r hr => absurd hr (hne r)) hu
      hdispatch
  cases m with
  | entranceRequest r =>
      have honly : only 1 (RingMessage.entranceRequest r).toFields = uint32Fields 1 r.id := by
        simp [RingMessage.toFields, EntranceRequest.toFields]
      refine bootstrapDispatch_ne (not_len_of_only_uint32 honly) (fun r' hr => ?_) hu hdispatch
      simp [RingMessage.toFields, EntranceRequest.toFields]
  | updatePredecessorRequest r => exact bootstrap_request_ne (.inl rfl) rfl hsize hu hdispatch
  | updateSuccessorRequest r => exact bootstrap_request_ne (.inr rfl) rfl hsize hu hdispatch
  | entranceInformation r =>
      exact hother (n := r.id) (by simp [RingMessage.toFields, EntranceInformation.toFields])
        (by simp)
  | exitInformation r =>
      exact hother (n := r.lowerBounds) (by simp [RingMessage.toFields, ExitInformation.toFields])
        (by simp)
  | lookUpResult r =>
      exact hother (n := r.key) (by simp [RingMessage.toFields, LookUpResult.toFields]) (by simp)
  | insertResult r =>
      exact hother (n := r.key) (by simp [RingMessage.toFields, InsertResult.toFields]) (by simp)
  | deleteResult r =>
      exact hother (n := r.key) (by simp [RingMessage.toFields, DeleteResult.toFields]) (by simp)

/-- **No bare message is understood**, by either kind of server, whatever its fields are. -/
theorem ring_message_not_understood (r : Receiver) (m : RingMessage) : ¬Understood r m := by
  cases r with
  | nameserver => exact nameserver_not_understood m
  | bootstrap => exact bootstrap_not_understood m

/-- A look-up is taken for an empty message. -/
theorem look_up_not_understood : ¬∀ r m, Understood r m := by
  intro h
  obtain ⟨bytes, hbytes, hhandled⟩ := h .nameserver (.lookUpResult { key := 7 })
  obtain rfl : [8, 7] = bytes := Option.some.inj (Eq.trans (by decide) hbytes)
  revert hhandled
  decide

end Csci6780.HashRing
