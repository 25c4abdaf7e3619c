import Csci6780.Coordinator
import Csci6780.WireFormat

/-!
# The Messages to the Coordinator

The messages of `project3/proto/pub_sub_messages.proto` that a participant and the coordinator
exchange on a connection of the participant: the union `CoordinatorMessage` and
`RegistrationResponse`, in the wire format.

## Main results

* `coordinatorMessageProto_lawful`, `registrationResponseProto_lawful`: what is written is read
  back.
-/

namespace Csci6780.PubSub

open Proto3

/-! ### CoordinatorMessage -/

/-- The number of the `oneof` member that is set, and its fields. -/
def CoordinatorMessage.member : CoordinatorMessage → Option (ℕ × List Field)
  | .register portNumber => some (1, uint32Fields 1 portNumber)
  | .deregister participantId => some (2, uint32Fields 1 participantId)
  | .disconnect participantId => some (3, uint32Fields 1 participantId)
  | .reconnect portNumber participantId =>
      some (4, uint32Fields 1 portNumber ++ uint32Fields 2 participantId)
  | .sendMulticast message participantId =>
      some (5, stringFields 1 message ++ uint32Fields 2 participantId)
  | .notSet => none

/-- Read one member of the `oneof`. A second occurrence of the member that is set is merged into
it; any other member replaces it. -/
def CoordinatorMessage.readMember (r : CoordinatorMessage) (number : ℕ) (fields : List Field) :
    Option CoordinatorMessage :=
  let readId (number : ℕ) (old : UInt32) := UInt32.ofNat (getVarint number old.toNat fields)
  match number with
  | 1 => some (.register (readId 1 (match r with | .register n => n | _ => 0)))
  | 2 => some (.deregister (readId 1 (match r with | .deregister n => n | _ => 0)))
  | 3 => some (.disconnect (readId 1 (match r with | .disconnect n => n | _ => 0)))
  | 4 =>
      let old : UInt32 × UInt32 := match r with | .reconnect p n => (p, n) | _ => (0, 0)
      some (.reconnect (readId 1 old.1) (readId 2 old.2))
  | 5 =>
      let old : String × UInt32 := match r with | .sendMulticast s n => (s, n) | _ => ("", 0)
      (getString 1 old.1 fields).map fun message => .sendMulticast message (readId 2 old.2)
  | _ => some r

/-- `CoordinatorMessage` in the proto3 wire format. -/
def coordinatorMessageProto : Protobuf CoordinatorMessage :=
  wireProto (fun r => unionFields r.member) (readOneof CoordinatorMessage.readMember 5 .notSet)

/-- **The wire format of `CoordinatorMessage` is lawful.** -/
theorem coordinatorMessageProto_lawful : coordinatorMessageProto.Lawful := by
  refine unionProto_lawful ?_ (by omega) ?_
  · intro r hr
    cases r <;> simp [CoordinatorMessage.member] at hr ⊢
  · intro r number fields hr
    cases r with
    | register n | deregister n | disconnect n =>
        simp only [CoordinatorMessage.member, Option.some.injEq, Prod.mk.injEq] at hr
        obtain ⟨rfl, rfl⟩ := hr
        refine ⟨by omega, by omega, plain_uint32Fields (by omega) (by omega) n, ?_⟩
        intro _
        simp only [CoordinatorMessage.readMember, UInt32.toNat_zero, getVarint_uint32Fields]
    | reconnect p n =>
        simp only [CoordinatorMessage.member, Option.some.injEq, Prod.mk.injEq] at hr
        obtain ⟨rfl, rfl⟩ := hr
        refine ⟨by omega, by omega, (plain_uint32Fields (by omega) (by omega) p).append
          (plain_uint32Fields (by omega) (by omega) n), ?_⟩
        intro _
        have hport : UInt32.ofNat (getVarint 1 0 (uint32Fields 1 p ++ uint32Fields 2 n)) = p :=
          getVarint_eq (by simp)
        have hid : UInt32.ofNat (getVarint 2 0 (uint32Fields 1 p ++ uint32Fields 2 n)) = n :=
          getVarint_eq (by simp)
        simp only [CoordinatorMessage.readMember, UInt32.toNat_zero, hport, hid]
    | sendMulticast s n =>
        simp only [CoordinatorMessage.member, Option.some.injEq, Prod.mk.injEq] at hr
        obtain ⟨rfl, rfl⟩ := hr
        refine ⟨by omega, by omega, (plain_stringFields (by omega) (by omega) s).append
          (plain_uint32Fields (by omega) (by omega) n), ?_⟩
        intro _
        have hmessage : getString 1 "" (stringFields 1 s ++ uint32Fields 2 n) = some s :=
          getString_eq (by simp)
        have hid : UInt32.ofNat (getVarint 2 0 (stringFields 1 s ++ uint32Fields 2 n)) = n :=
          getVarint_eq (by simp)
        simp only [CoordinatorMessage.readMember, UInt32.toNat_zero, hmessage, hid, Option.map_some]
    | notSet => simp [CoordinatorMessage.member] at hr

/-! ### RegistrationResponse -/

/-- `RegistrationResponse`. -/
structure RegistrationResponse where
  participantId : UInt32 := 0
  deriving DecidableEq, Repr

/-- `RegistrationResponse` in the proto3 wire format. -/
def registrationResponseProto : Protobuf RegistrationResponse :=
  wireProto (fun m => uint32Fields 1 m.participantId)
    fun fields => some ⟨UInt32.ofNat (getVarint 1 0 fields)⟩

/-- **The wire format of `RegistrationResponse` is lawful.** -/
theorem registrationResponseProto_lawful : registrationResponseProto.Lawful := by
  refine wireProto_lawful (fun m hsize => ?_) fun m _ => ?_
  · exact (plain_uint32Fields (by omega) (by omega) m.participantId).wellFormed hsize
  · rw [getVarint_uint32Fields]

/-- A response is short. -/
theorem byteSizeLong_registrationResponse (m : RegistrationResponse) :
    registrationResponseProto.byteSizeLong m < 2 ^ 31 := by
  have hvarint := length_varint_le m.participantId.toNat
  have htag := length_varint_le (1 * 8 + 0)
  have hsize : (encodeFields (uint32Fields 1 m.participantId)).length ≤ 20 := by
    rw [uint32Fields]
    split
    · exact Nat.zero_le _
    · simp only [encodeFields, List.flatMap_cons, List.flatMap_nil, List.append_nil, Field.encode,
        WireValue.encode, WireValue.wireType, List.length_append]
      omega
  exact Nat.lt_of_le_of_lt hsize (by omega)

end Csci6780.PubSub
