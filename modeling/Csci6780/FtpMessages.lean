import Csci6780.WireFormat

/-!
# The FTP Messages

The messages of `project1_2/proto/ftp_messages.proto`: `FileContents`, and the two unions
`Request` and `Response`, whose `oneof` is an inductive type with one constructor for each
member and one for the union that is not set. Their classes are those of the proto3 wire format,
`Csci6780.WireFormat`.

## Main results

* `fileContentsProto_lawful`, `requestProto_lawful`, `responseProto_lawful`: the proto3
  format meets the assumption under which everything else is proved.
* `fileContentsProto_sized`: a chunk costs a few bytes more than its contents.
-/

namespace Csci6780

open Proto3

/-! ### The messages -/

/-- `FileContents`: a chunk of a file, and whether it is the last one. -/
structure FileContents where
  contents : List UInt8 := []
  isLast : Bool := false
  deriving DecidableEq, Repr

/-- `Request`. -/
inductive Request
  | get (filename : String)
  | put (filename : String)
  | delete (filename : String)
  | list
  | changeDir (goUp : Bool) (dirName : String)
  | makeDir (dirName : String)
  | pwd
  | quit
  | terminate (commandId : UInt32)
  | fileContents (message : FileContents)
  | notSet
  deriving DecidableEq, Repr

/-- `Response`. -/
inductive Response
  | get (commandId : UInt32)
  | list (filenames : List String)
  | pwd (dirName : String)
  | put (commandId : UInt32)
  | notSet
  deriving DecidableEq, Repr

/-- The size of an encoded chunk: the bytes of the contents are in the encoding, and the
tags, the length and the flag add at most sixteen. -/
def FileContentsSized (pb : Protobuf FileContents) : Prop :=
  ∀ m : FileContents, m.contents.length ≤ pb.byteSizeLong m ∧
    pb.byteSizeLong m ≤ m.contents.length + 16

/-! ### FileContents -/

/-- The fields of a `FileContents` message. -/
def FileContents.toFields (m : FileContents) : List Field :=
  bytesFields 1 m.contents ++ boolFields 2 m.isLast

/-- Read a `FileContents` message, merging into `init`. -/
def FileContents.ofFields (init : FileContents) (fields : List Field) : FileContents where
  contents := getBytes 1 init.contents fields
  isLast := getVarint 2 init.isLast.toNat fields != 0

/-- `FileContents` in the proto3 wire format. -/
def fileContentsProto : Protobuf FileContents :=
  wireProto FileContents.toFields fun fields => some (FileContents.ofFields {} fields)

theorem FileContents.ofFields_toFields (m : FileContents) :
    FileContents.ofFields {} m.toFields = m := by
  obtain ⟨contents, isLast⟩ := m
  by_cases hc : contents = [] <;> cases isLast <;>
    simp [ofFields, toFields, bytesFields, boolFields, getBytes, getVarint, hc]

theorem FileContents.plain_toFields (m : FileContents) : Plain m.toFields :=
  (plain_bytesFields (by omega) (by omega) _).append
    (plain_boolFields (by omega) (by omega) _)

/-- **The wire format of `FileContents` is lawful.** -/
theorem fileContentsProto_lawful : fileContentsProto.Lawful :=
  wireProto_lawful (fun m hsize => m.plain_toFields.wellFormed hsize)
    fun m _ => congrArg some m.ofFields_toFields

/-- **A chunk costs a few bytes more than its contents.** -/
theorem fileContentsProto_sized : FileContentsSized fileContentsProto := by
  rintro ⟨contents, isLast⟩
  have hflag : (encodeFields (boolFields 2 isLast)).length ≤ 2 := by
    cases isLast <;> decide
  have happ : encodeFields (FileContents.toFields ⟨contents, isLast⟩) =
      encodeFields (bytesFields 1 contents) ++ encodeFields (boolFields 2 isLast) := by
    simp [FileContents.toFields, encodeFields]
  have hlen : fileContentsProto.byteSizeLong ⟨contents, isLast⟩ =
      (encodeFields (bytesFields 1 contents)).length +
        (encodeFields (boolFields 2 isLast)).length := by
    rw [← List.length_append, ← happ]
    rfl
  rw [hlen]
  by_cases hc : contents = []
  · simp only [bytesFields, hc, if_true, encodeFields, List.flatMap_nil, List.length_nil]
    rw [encodeFields] at hflag
    omega
  · have hone : encodeFields (bytesFields 1 contents) =
        Field.encode ⟨1, .len contents⟩ := by
      simp [bytesFields, hc, encodeFields]
    have hge := length_le_length_encodeField_len 1 contents
    have hle := length_encodeField_len_le (show 1 < 15 by omega) contents
    rw [hone]
    exact ⟨by show contents.length ≤ _; omega, by show _ ≤ contents.length + 16; omega⟩

/-! ### Request -/

/-- The number of the `oneof` member that is set, and its fields. -/
def Request.member : Request → Option (ℕ × List Field)
  | .get filename => some (1, stringFields 1 filename)
  | .put filename => some (2, stringFields 1 filename)
  | .delete filename => some (3, stringFields 1 filename)
  | .list => some (4, [])
  | .changeDir goUp dirName => some (5, boolFields 1 goUp ++ stringFields 2 dirName)
  | .makeDir dirName => some (6, stringFields 1 dirName)
  | .pwd => some (7, [])
  | .quit => some (8, [])
  | .terminate commandId => some (9, uint32Fields 1 commandId)
  | .fileContents message => some (10, message.toFields)
  | .notSet => none

/-- Read one member of the `oneof`. A second occurrence of the member that is set is
merged into it; any other member replaces it. -/
def Request.readMember (r : Request) (number : ℕ) (fields : List Field) : Option Request :=
  match number with
  | 1 => (getString 1 (match r with | .get s => s | _ => "") fields).map .get
  | 2 => (getString 1 (match r with | .put s => s | _ => "") fields).map .put
  | 3 => (getString 1 (match r with | .delete s => s | _ => "") fields).map .delete
  | 4 => some .list
  | 5 =>
      let old : Bool × String := match r with | .changeDir b s => (b, s) | _ => (false, "")
      (getString 2 old.2 fields).map
        (.changeDir (getVarint 1 old.1.toNat fields != 0))
  | 6 => (getString 1 (match r with | .makeDir s => s | _ => "") fields).map .makeDir
  | 7 => some .pwd
  | 8 => some .quit
  | 9 => some (.terminate (UInt32.ofNat
      (getVarint 1 (match r with | .terminate n => n.toNat | _ => 0) fields)))
  | 10 => some (.fileContents (FileContents.ofFields
      (match r with | .fileContents m => m | _ => {}) fields))
  | _ => some r

/-- `Request` in the proto3 wire format. -/
def requestProto : Protobuf Request :=
  wireProto (fun r => unionFields r.member) (readOneof Request.readMember 10 .notSet)

/-- **The wire format of `Request` is lawful.** -/
theorem requestProto_lawful : requestProto.Lawful := by
  refine unionProto_lawful ?_ (by omega) ?_
  · intro r hr
    cases r <;> simp [Request.member] at hr ⊢
  · intro r number fields hr
    cases r with
    | get s | put s | delete s | makeDir s =>
        simp only [Request.member, Option.some.injEq, Prod.mk.injEq] at hr
        obtain ⟨rfl, rfl⟩ := hr
        refine ⟨by omega, by omega, plain_stringFields (by omega) (by omega) s, ?_⟩
        intro _
        simp only [Request.readMember, getString_stringFields, Option.map_some]
    | list | pwd | quit =>
        simp only [Request.member, Option.some.injEq, Prod.mk.injEq] at hr
        obtain ⟨rfl, rfl⟩ := hr
        exact ⟨by omega, by omega, plain_nil, fun _ => rfl⟩
    | changeDir goUp s =>
        simp only [Request.member, Option.some.injEq, Prod.mk.injEq] at hr
        obtain ⟨rfl, rfl⟩ := hr
        refine ⟨by omega, by omega, (plain_boolFields (by omega) (by omega) goUp).append
          (plain_stringFields (by omega) (by omega) s), ?_⟩
        intro _
        by_cases hs : s = "" <;> cases goUp <;>
          simp [Request.readMember, boolFields, stringFields, getString, getVarint, hs,
            fromUTF8?_toByteArray]
    | terminate n =>
        simp only [Request.member, Option.some.injEq, Prod.mk.injEq] at hr
        obtain ⟨rfl, rfl⟩ := hr
        refine ⟨by omega, by omega, plain_uint32Fields (by omega) (by omega) n, ?_⟩
        intro _
        simp only [Request.readMember, getVarint_uint32Fields]
    | fileContents m =>
        simp only [Request.member, Option.some.injEq, Prod.mk.injEq] at hr
        obtain ⟨rfl, rfl⟩ := hr
        refine ⟨by omega, by omega, m.plain_toFields, ?_⟩
        intro _
        simp only [Request.readMember, m.ofFields_toFields]
    | notSet => simp [Request.member] at hr

/-! ### Response -/

/-- The number of the `oneof` member that is set, and its fields. -/
def Response.member : Response → Option (ℕ × List Field)
  | .get commandId => some (1, uint32Fields 1 commandId)
  | .list filenames => some (2, stringsFields 1 filenames)
  | .pwd dirName => some (3, stringFields 1 dirName)
  | .put commandId => some (4, uint32Fields 1 commandId)
  | .notSet => none

/-- Read one member of the `oneof`, as `Request.readMember`. -/
def Response.readMember (r : Response) (number : ℕ) (fields : List Field) : Option Response :=
  match number with
  | 1 => some (.get (UInt32.ofNat
      (getVarint 1 (match r with | .get n => n.toNat | _ => 0) fields)))
  | 2 => (getStrings 1 (match r with | .list l => l | _ => []) fields).map .list
  | 3 => (getString 1 (match r with | .pwd s => s | _ => "") fields).map .pwd
  | 4 => some (.put (UInt32.ofNat
      (getVarint 1 (match r with | .put n => n.toNat | _ => 0) fields)))
  | _ => some r

/-- `Response` in the proto3 wire format. -/
def responseProto : Protobuf Response :=
  wireProto (fun r => unionFields r.member) (readOneof Response.readMember 4 .notSet)

/-- **The wire format of `Response` is lawful.** -/
theorem responseProto_lawful : responseProto.Lawful := by
  refine unionProto_lawful ?_ (by omega) ?_
  · intro r hr
    cases r <;> simp [Response.member] at hr ⊢
  · intro r number fields hr
    cases r with
    | get n | put n =>
        simp only [Response.member, Option.some.injEq, Prod.mk.injEq] at hr
        obtain ⟨rfl, rfl⟩ := hr
        refine ⟨by omega, by omega, plain_uint32Fields (by omega) (by omega) n, ?_⟩
        intro _
        simp only [Response.readMember, getVarint_uint32Fields]
    | list l =>
        simp only [Response.member, Option.some.injEq, Prod.mk.injEq] at hr
        obtain ⟨rfl, rfl⟩ := hr
        refine ⟨by omega, by omega, plain_stringsFields (by omega) (by omega) l, ?_⟩
        intro _
        simp only [Response.readMember, getStrings_stringsFields, List.nil_append,
          Option.map_some]
    | pwd s =>
        simp only [Response.member, Option.some.injEq, Prod.mk.injEq] at hr
        obtain ⟨rfl, rfl⟩ := hr
        refine ⟨by omega, by omega, plain_stringFields (by omega) (by omega) s, ?_⟩
        intro _
        simp only [Response.readMember, getString_stringFields, Option.map_some]
    | notSet => simp [Response.member] at hr

/-! ### The three classes -/

/-- The three protobuf classes of the FTP protocol. -/
structure FtpProtobuf where
  fileContents : Protobuf FileContents
  request : Protobuf Request
  response : Protobuf Response

/-- What the programs rely on. -/
structure FtpProtobuf.Lawful (pb : FtpProtobuf) : Prop where
  fileContents : pb.fileContents.Lawful
  sized : FileContentsSized pb.fileContents
  request : pb.request.Lawful
  response : pb.response.Lawful

/-- The proto3 classes. -/
def ftpProto : FtpProtobuf := ⟨fileContentsProto, requestProto, responseProto⟩

theorem ftpProto_lawful : ftpProto.Lawful where
  fileContents := fileContentsProto_lawful
  sized := fileContentsProto_sized
  request := requestProto_lawful
  response := responseProto_lawful

end Csci6780
