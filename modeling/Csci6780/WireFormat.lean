import Csci6780.WireProtocol
import Csci6780.Lib.Proto3

/-!
# Message Classes in the Wire Format

The programs that exchange protobuf messages are verified for any implementation that is
`Protobuf.Lawful`. The one the repository uses is the proto3 wire format of
`Csci6780.Lib.Proto3`: members at their default value are not written, the member of a `oneof`
that is set is written even when it is empty, unknown or mistyped fields are skipped, and the last
occurrence of a field wins.

This module has the members a message class is put together from: scalars, repeated strings, and
the unions (`oneof`) of message members.

## Main results

* `wireProto_lawful`: a class whose fields are well formed and read back is lawful.
* `unionProto_lawful`: so is a union whose members are.
-/

namespace Csci6780

open Proto3

/-! ### Messages in the wire format -/

/-- The message class that writes and reads the given fields. `SerializeToArray` fails
where the message does not fit the buffer or a C `int`. -/
def wireProto {Msg : Type} (toFields : Msg → List Field)
    (ofFields : List Field → Option Msg) : Protobuf Msg where
  byteSizeLong m := (encodeFields (toFields m)).length
  serializeToArray m size :=
    if ((encodeFields (toFields m)).length : ℤ) ≤ size ∧
        (encodeFields (toFields m)).length < 2 ^ 31 then
      some (encodeFields (toFields m))
    else none
  parseFromArray data size := (parseFields (data.take size.toNat)).bind ofFields

theorem wireProto_lawful {Msg : Type} {toFields : Msg → List Field}
    {ofFields : List Field → Option Msg}
    (hwf : ∀ m, (encodeFields (toFields m)).length < 2 ^ 31 →
      ∀ f ∈ toFields m, f.WellFormed)
    (hof : ∀ m, (encodeFields (toFields m)).length < 2 ^ 31 →
      ofFields (toFields m) = some m) :
    (wireProto toFields ofFields).Lawful := by
  have hser : ∀ m, (encodeFields (toFields m)).length < 2 ^ 31 →
      (wireProto toFields ofFields).serializeToArray m
        ((wireProto toFields ofFields).byteSizeLong m) = some (encodeFields (toFields m)) := by
    intro m hsize
    exact if_pos ⟨Int.le_refl _, hsize⟩
  refine ⟨?_, ?_⟩
  · intro m hsize
    exact ⟨_, hser m hsize, rfl⟩
  · intro m hsize
    have henc : (wireProto toFields ofFields).encoding m = encodeFields (toFields m) := by
      rw [Protobuf.encoding, hser m hsize, Option.getD_some]
    have htake : (encodeFields (toFields m)).take
        (Int.toNat ((wireProto toFields ofFields).byteSizeLong m)) =
          encodeFields (toFields m) :=
      List.take_of_length_le (Nat.le_refl _)
    rw [henc]
    simp only [wireProto] at htake ⊢
    rw [htake, parseFields_encodeFields (hwf m hsize), Option.bind_some, hof m hsize]

/-- A field of a list is no longer than the encoding of the list. -/
theorem length_encode_le_of_mem {f : Field} {fields : List Field} (h : f ∈ fields) :
    f.encode.length ≤ (encodeFields fields).length := by
  induction fields with
  | nil => cases h
  | cons g fields ih =>
      have hcons : encodeFields (g :: fields) = g.encode ++ encodeFields fields := rfl
      rw [hcons, List.length_append]
      rcases List.mem_cons.mp h with rfl | h
      · omega
      · have := ih h
        omega

/-- In an encoding that fits a C `int`, the contents of a length-delimited field do. -/
theorem length_lt_of_mem {number : ℕ} {bytes : List UInt8} {fields : List Field}
    (h : (⟨number, .len bytes⟩ : Field) ∈ fields)
    (hsize : (encodeFields fields).length < 2 ^ 31) : bytes.length < 2 ^ 31 := by
  have h1 := length_encode_le_of_mem h
  have h2 := length_le_length_encodeField_len number bytes
  omega

/-! ### Scalar members -/

/-- A `string` member. -/
def stringFields (number : ℕ) (s : String) : List Field :=
  if s = "" then [] else [⟨number, .len s.toByteArray.data.toList⟩]

/-- A `bytes` member. -/
def bytesFields (number : ℕ) (bytes : List UInt8) : List Field :=
  if bytes = [] then [] else [⟨number, .len bytes⟩]

/-- A `uint32` member. -/
def uint32Fields (number : ℕ) (n : UInt32) : List Field :=
  if n = 0 then [] else [⟨number, .varint n.toNat⟩]

/-- A `bool` member. -/
def boolFields (number : ℕ) (b : Bool) : List Field :=
  if b then [⟨number, .varint 1⟩] else []

/-- Read a `string` member; text that is not UTF-8 makes the parse fail. -/
def getString (number : ℕ) (init : String) (fields : List Field) : Option String :=
  fields.foldlM (fun s f =>
    if f.number = number then
      match f.value with
      | .len bytes => String.fromUTF8? ⟨bytes.toArray⟩
      | _ => some s
    else some s) init

/-- Read a `bytes` member. -/
def getBytes (number : ℕ) (init : List UInt8) (fields : List Field) : List UInt8 :=
  fields.foldl (fun s f =>
    if f.number = number then
      match f.value with
      | .len bytes => bytes
      | _ => s
    else s) init

/-- Read a varint member. -/
def getVarint (number : ℕ) (init : ℕ) (fields : List Field) : ℕ :=
  fields.foldl (fun s f =>
    if f.number = number then
      match f.value with
      | .varint n => n
      | _ => s
    else s) init

theorem fromUTF8?_toByteArray (s : String) :
    String.fromUTF8? ⟨s.toByteArray.data⟩ = some s := by
  rw [String.fromUTF8?, dif_pos s.isValidUTF8]
  rfl

theorem getString_stringFields (number : ℕ) (s : String) :
    getString number "" (stringFields number s) = some s := by
  by_cases hs : s = ""
  · simp [getString, stringFields, hs]
  · simp [getString, stringFields, hs, fromUTF8?_toByteArray]

theorem getVarint_boolFields (number : ℕ) (b : Bool) :
    (getVarint number 0 (boolFields number b) != 0) = b := by
  cases b <;> simp [getVarint, boolFields]

theorem getVarint_uint32Fields (number : ℕ) (n : UInt32) :
    UInt32.ofNat (getVarint number 0 (uint32Fields number n)) = n := by
  by_cases hn : n = 0
  · simp [getVarint, uint32Fields, hn]
  · simp [getVarint, uint32Fields, hn]

/-- A list of fields with legal numbers and 64-bit varints, and no fixed-width values: all
that these messages write. -/
def Plain (fields : List Field) : Prop :=
  ∀ f ∈ fields, 0 < f.number ∧ f.number < 2 ^ 29 ∧
    match f.value with
    | .varint n => n < 2 ^ 64
    | .len _ => True
    | _ => False

/-- In a list whose encoding fits a C `int`, plain fields are well formed. -/
theorem Plain.wellFormed {fields : List Field} (h : Plain fields)
    (hsize : (encodeFields fields).length < 2 ^ 31) : ∀ f ∈ fields, f.WellFormed := by
  rintro ⟨number, value⟩ hf
  obtain ⟨hpos, hlt, hval⟩ := h _ hf
  refine ⟨hpos, hlt, ?_⟩
  cases value with
  | varint n => exact hval
  | i64 bytes => exact absurd hval id
  | len bytes => exact Nat.lt_trans (length_lt_of_mem hf hsize) (by decide)
  | i32 bytes => exact absurd hval id

theorem Plain.append {as bs : List Field} (ha : Plain as) (hb : Plain bs) :
    Plain (as ++ bs) := by
  intro f hf
  rcases List.mem_append.mp hf with h | h
  · exact ha f h
  · exact hb f h

theorem plain_nil : Plain [] := fun _ h => absurd h List.not_mem_nil

theorem plain_singleton {f : Field} (hpos : 0 < f.number) (hlt : f.number < 2 ^ 29)
    (hval : match f.value with
      | .varint n => n < 2 ^ 64
      | .len _ => True
      | _ => False) : Plain [f] := by
  intro g hg
  obtain rfl := List.mem_singleton.mp hg
  exact ⟨hpos, hlt, hval⟩

section PlainMembers

variable {number : ℕ} (hpos : 0 < number) (hlt : number < 2 ^ 29)

include hpos hlt

theorem plain_stringFields (s : String) : Plain (stringFields number s) := by
  rw [stringFields]
  split
  · exact plain_nil
  · exact plain_singleton hpos hlt trivial

theorem plain_bytesFields (bytes : List UInt8) : Plain (bytesFields number bytes) := by
  rw [bytesFields]
  split
  · exact plain_nil
  · exact plain_singleton hpos hlt trivial

theorem plain_uint32Fields (n : UInt32) : Plain (uint32Fields number n) := by
  rw [uint32Fields]
  split
  · exact plain_nil
  · exact plain_singleton hpos hlt (Nat.lt_trans n.toNat_lt (by decide))

theorem plain_boolFields (b : Bool) : Plain (boolFields number b) := by
  rw [boolFields]
  split
  · exact plain_singleton hpos hlt (show 1 < 2 ^ 64 by omega)
  · exact plain_nil

end PlainMembers

/-! ### Repeated members -/

/-- A `repeated string` member: every element is written, also an empty one. -/
def stringsFields (number : ℕ) (strings : List String) : List Field :=
  strings.map fun s => ⟨number, .len s.toByteArray.data.toList⟩

/-- Read a `repeated string` member. -/
def getStrings (number : ℕ) (init : List String) (fields : List Field) :
    Option (List String) :=
  fields.foldlM (fun strings f =>
    if f.number = number then
      match f.value with
      | .len bytes => (String.fromUTF8? ⟨bytes.toArray⟩).map fun s => strings ++ [s]
      | _ => some strings
    else some strings) init

theorem getStrings_stringsFields (number : ℕ) (init strings : List String) :
    getStrings number init (stringsFields number strings) = some (init ++ strings) := by
  induction strings generalizing init with
  | nil => simp [getStrings, stringsFields]
  | cons s strings ih =>
      have hrest := ih (init ++ [s])
      rw [getStrings, stringsFields] at hrest
      rw [getStrings, stringsFields, List.map_cons, List.foldlM_cons]
      simp only [if_true, Array.toArray_toList, fromUTF8?_toByteArray, Option.map_some]
      rw [List.append_assoc] at hrest
      exact hrest

theorem plain_stringsFields {number : ℕ} (hpos : 0 < number) (hlt : number < 2 ^ 29)
    (strings : List String) : Plain (stringsFields number strings) := by
  intro f hf
  obtain ⟨s, -, rfl⟩ := List.mem_map.mp hf
  exact ⟨hpos, hlt, trivial⟩

/-- A `repeated uint32` member: all elements in one field, if there are any. -/
def packedFields (number : ℕ) (ns : List UInt32) : List Field :=
  if ns = [] then [] else [⟨number, .len (ns.flatMap fun n => Proto3.varint n.toNat)⟩]

/-- Read at most `k` varints, up to the end of the bytes. -/
def readVarints : ℕ → List UInt8 → Option (List ℕ)
  | _, [] => some []
  | 0, _ :: _ => none
  | k + 1, b :: bytes =>
      (readVarint (b :: bytes)).bind fun r => (readVarints k r.2).map fun ns => r.1 :: ns

/-- Read a `repeated uint32` member, packed or not. -/
def getUint32s (number : ℕ) (init : List UInt32) (fields : List Field) :
    Option (List UInt32) :=
  fields.foldlM (fun ns f =>
    if f.number = number then
      match f.value with
      | .len bytes => (readVarints bytes.length bytes).map fun read => ns ++ read.map UInt32.ofNat
      | .varint n => some (ns ++ [UInt32.ofNat n])
      | _ => some ns
    else some ns) init

/-- Varints read back when there is room for all of them. -/
theorem readVarints_flatMap (ns : List UInt32) {k : ℕ} (hk : ns.length ≤ k) :
    readVarints k (ns.flatMap fun n => Proto3.varint n.toNat) = some (ns.map UInt32.toNat) := by
  induction ns generalizing k with
  | nil => simp [readVarints]
  | cons n ns ih =>
      obtain ⟨k, rfl⟩ : ∃ k', k = k' + 1 := ⟨k - 1, by rw [List.length_cons] at hk; omega⟩
      have hn : n.toNat < 2 ^ 64 := Nat.lt_trans n.toNat_lt (by decide)
      have hrest := ih (Nat.le_of_succ_le_succ hk)
      rw [List.flatMap_cons]
      obtain ⟨b, bytes, hb⟩ := List.exists_cons_of_ne_nil (varint_ne_nil n.toNat)
      have hread := readVarint_varint_append hn (ns.flatMap fun n => Proto3.varint n.toNat)
      rw [hb, List.cons_append] at hread ⊢
      rw [readVarints, hread, Option.bind_some, hrest, Option.map_some, List.map_cons]

theorem length_le_length_flatMap_varint (ns : List UInt32) :
    ns.length ≤ (ns.flatMap fun n => Proto3.varint n.toNat).length := by
  induction ns with
  | nil => simp
  | cons n ns ih =>
      have hpos := List.length_pos_iff.mpr (varint_ne_nil n.toNat)
      rw [List.flatMap_cons, List.length_append, List.length_cons]
      omega

theorem getUint32s_packedFields (number : ℕ) (ns : List UInt32) :
    getUint32s number [] (packedFields number ns) = some ns := by
  by_cases hns : ns = []
  · simp [getUint32s, packedFields, hns]
  · have hread := readVarints_flatMap ns (length_le_length_flatMap_varint ns)
    have hback : (ns.map UInt32.toNat).map UInt32.ofNat = ns := by
      simp [List.map_map, Function.comp_def]
    rw [getUint32s, packedFields, if_neg hns, List.foldlM_cons]
    simp only [if_true, hread, Option.map_some, hback, List.nil_append]
    rfl

theorem plain_packedFields {number : ℕ} (hpos : 0 < number) (hlt : number < 2 ^ 29)
    (ns : List UInt32) : Plain (packedFields number ns) := by
  rw [packedFields]
  split
  · exact plain_nil
  · exact plain_singleton hpos hlt trivial

/-! ### Message members -/

/-- A message member: its own fields, encoded. -/
def messageField (number : ℕ) (fields : List Field) : Field :=
  ⟨number, .len (encodeFields fields)⟩

theorem plain_messageField {number : ℕ} (hpos : 0 < number) (hlt : number < 2 ^ 29)
    (fields : List Field) : Plain [messageField number fields] :=
  plain_singleton hpos hlt trivial

section MessageMembers

variable {Msg : Type}

/-- A message member that may be absent. -/
def messageFields (number : ℕ) (toFields : Msg → List Field) (m : Option Msg) : List Field :=
  (m.map fun m => messageField number (toFields m)).toList

/-- Read a message member, given how fields are read into the message as it stands. A second
occurrence is merged into the first. -/
def getMessage (number : ℕ) (ofFields : Msg → List Field → Option Msg) (unset : Msg)
    (init : Option Msg) (fields : List Field) : Option (Option Msg) :=
  fields.foldlM (fun m f =>
    if f.number = number then
      match f.value with
      | .len bytes =>
          (parseFields bytes).bind fun fields => (ofFields (m.getD unset) fields).map some
      | _ => some m
    else some m) init

theorem getMessage_messageFields {toFields : Msg → List Field}
    {ofFields : Msg → List Field → Option Msg} {unset : Msg} (number : ℕ) (m : Option Msg)
    (hplain : ∀ m, Plain (toFields m))
    (hof : ∀ m, (encodeFields (toFields m)).length < 2 ^ 31 →
      ofFields unset (toFields m) = some m)
    (hsize : (encodeFields (messageFields number toFields m)).length < 2 ^ 31) :
    getMessage number ofFields unset none (messageFields number toFields m) = some m := by
  cases m with
  | none => rfl
  | some m =>
      have hlen : (encodeFields (toFields m)).length < 2 ^ 31 :=
        length_lt_of_mem (List.mem_singleton.mpr rfl) hsize
      simp [getMessage, messageFields, messageField,
        parseFields_encodeFields ((hplain m).wellFormed hlen), hof m hlen]

theorem plain_messageFields {number : ℕ} (hpos : 0 < number) (hlt : number < 2 ^ 29)
    (toFields : Msg → List Field) (m : Option Msg) :
    Plain (messageFields number toFields m) := by
  cases m with
  | none => exact plain_nil
  | some m => exact plain_messageField hpos hlt (toFields m)

end MessageMembers

/-! ### Members side by side

A message has one member for each field number, and reading a member looks at the fields of its
number only. -/

/-- The fields of one number. -/
def only (number : ℕ) (fields : List Field) : List Field := fields.filter (·.number = number)

/-- All fields have the number. -/
def Numbered (number : ℕ) (fields : List Field) : Prop := ∀ f ∈ fields, f.number = number

@[simp] theorem only_append (number : ℕ) (as bs : List Field) :
    only number (as ++ bs) = only number as ++ only number bs :=
  List.filter_append as bs

/-- Of fields that all have one number, those of a number are all or none. -/
theorem Numbered.only {number : ℕ} {fields : List Field} (h : Numbered number fields)
    (other : ℕ) : only other fields = if number = other then fields else [] := by
  split
  · rename_i heq
    exact List.filter_eq_self.mpr fun f hf => decide_eq_true ((h f hf).trans heq)
  · rename_i hne
    exact List.filter_eq_nil_iff.mpr fun f hf => by simp [h f hf, hne]

theorem length_encodeFields_only_le (number : ℕ) (fields : List Field) :
    (encodeFields (Csci6780.only number fields)).length ≤ (encodeFields fields).length := by
  induction fields with
  | nil => exact Nat.le_refl _
  | cons f fields ih =>
      have hcons : ∀ fs, encodeFields (f :: fs) = f.encode ++ encodeFields fs := fun _ => rfl
      rw [Csci6780.only, List.filter_cons]
      split
      · rw [hcons, hcons, List.length_append, List.length_append]
        exact Nat.add_le_add_left ih _
      · rw [hcons, List.length_append]
        exact Nat.le_trans ih (Nat.le_add_left _ _)

/-- Steps that do nothing to fields of another number can be left out. -/
theorem foldlM_only {β : Type} (number : ℕ) {step : β → Field → Option β}
    (hskip : ∀ b f, f.number ≠ number → step b f = some b) (init : β) (fields : List Field) :
    (only number fields).foldlM step init = fields.foldlM step init := by
  induction fields generalizing init with
  | nil => rfl
  | cons f fields ih =>
      rw [only, List.filter_cons]
      by_cases hf : f.number = number
      · rw [if_pos (by simpa using hf), List.foldlM_cons, List.foldlM_cons]
        congr 1
        funext b
        exact ih b
      · rw [if_neg (by simpa using hf), List.foldlM_cons, hskip init f hf]
        exact ih init

theorem getVarint_only (number : ℕ) (init : ℕ) (fields : List Field) :
    getVarint number init (only number fields) = getVarint number init fields := by
  induction fields generalizing init with
  | nil => rfl
  | cons f fields ih =>
      rw [only, List.filter_cons]
      by_cases hf : f.number = number
      · rw [if_pos (by simpa using hf), getVarint, List.foldl_cons, getVarint, List.foldl_cons]
        exact ih _
      · rw [if_neg (by simpa using hf), getVarint.eq_1 _ _ (f :: fields), List.foldl_cons,
          if_neg hf]
        exact ih init

section Members

variable {number : ℕ} {fields : List Field}

/-- What a `uint32` member reads as. -/
theorem getVarint_eq {n : UInt32} (h : only number fields = uint32Fields number n) :
    UInt32.ofNat (getVarint number 0 fields) = n := by
  rw [← getVarint_only, h, getVarint_uint32Fields]

/-- What a `bool` member reads as. -/
theorem getVarint_bool_eq {b : Bool} (h : only number fields = boolFields number b) :
    (getVarint number 0 fields != 0) = b := by
  rw [← getVarint_only, h, getVarint_boolFields]

/-- What a `string` member reads as. -/
theorem getString_eq {s : String} (h : only number fields = stringFields number s) :
    getString number "" fields = some s := by
  rw [← getString_stringFields number s, ← h]
  exact (foldlM_only number (fun _ _ hf => if_neg hf) "" fields).symm

/-- What a `repeated string` member reads as. -/
theorem getStrings_eq {strings : List String}
    (h : only number fields = stringsFields number strings) :
    getStrings number [] fields = some strings := by
  have hread := getStrings_stringsFields number [] strings
  rw [List.nil_append, ← h] at hread
  rw [← hread]
  exact (foldlM_only number (fun _ _ hf => if_neg hf) [] fields).symm

/-- What a `repeated uint32` member reads as. -/
theorem getUint32s_eq {ns : List UInt32} (h : only number fields = packedFields number ns) :
    getUint32s number [] fields = some ns := by
  rw [← getUint32s_packedFields number ns, ← h]
  exact (foldlM_only number (fun _ _ hf => if_neg hf) [] fields).symm

/-- What a message member reads as. -/
theorem getMessage_eq {Msg : Type} {toFields : Msg → List Field}
    {ofFields : Msg → List Field → Option Msg} {unset : Msg} {m : Option Msg}
    (hplain : ∀ m, Plain (toFields m))
    (hof : ∀ m, (encodeFields (toFields m)).length < 2 ^ 31 →
      ofFields unset (toFields m) = some m)
    (hsize : (encodeFields fields).length < 2 ^ 31)
    (h : only number fields = messageFields number toFields m) :
    getMessage number ofFields unset none fields = some m := by
  have hlen : (encodeFields (messageFields number toFields m)).length < 2 ^ 31 :=
    Nat.lt_of_le_of_lt (h ▸ length_encodeFields_only_le number fields) hsize
  rw [← getMessage_messageFields number m hplain hof hlen, ← h]
  exact (foldlM_only number (fun _ _ hf => if_neg hf) none fields).symm

end Members

/-! What each writer writes has the writer's number. -/

@[simp] theorem only_uint32Fields (other number : ℕ) (n : UInt32) :
    only other (uint32Fields number n) = if number = other then uint32Fields number n else [] := by
  refine Numbered.only ?_ other
  intro f hf
  rw [uint32Fields] at hf
  split at hf
  · cases hf
  · rw [List.mem_singleton.mp hf]

@[simp] theorem only_stringFields (other number : ℕ) (s : String) :
    only other (stringFields number s) = if number = other then stringFields number s else [] := by
  refine Numbered.only ?_ other
  intro f hf
  rw [stringFields] at hf
  split at hf
  · cases hf
  · rw [List.mem_singleton.mp hf]

@[simp] theorem only_boolFields (other number : ℕ) (b : Bool) :
    only other (boolFields number b) = if number = other then boolFields number b else [] := by
  refine Numbered.only ?_ other
  intro f hf
  rw [boolFields] at hf
  split at hf
  · rw [List.mem_singleton.mp hf]
  · cases hf

@[simp] theorem only_stringsFields (other number : ℕ) (strings : List String) :
    only other (stringsFields number strings) =
      if number = other then stringsFields number strings else [] := by
  refine Numbered.only ?_ other
  intro f hf
  obtain ⟨s, -, rfl⟩ := List.mem_map.mp hf
  rfl

@[simp] theorem only_packedFields (other number : ℕ) (ns : List UInt32) :
    only other (packedFields number ns) =
      if number = other then packedFields number ns else [] := by
  refine Numbered.only ?_ other
  intro f hf
  rw [packedFields] at hf
  split at hf
  · cases hf
  · rw [List.mem_singleton.mp hf]

@[simp] theorem only_messageFields {Msg : Type} (other number : ℕ) (toFields : Msg → List Field)
    (m : Option Msg) : only other (messageFields number toFields m) =
      if number = other then messageFields number toFields m else [] := by
  refine Numbered.only ?_ other
  intro f hf
  cases m with
  | none => cases hf
  | some m =>
      obtain rfl := List.mem_singleton.mp hf
      rfl

/-! ### Unions -/

/-- Read a message that is a `oneof` of message members `1` to `members`, given how one
member is read into the union as it stands. -/
def readOneof {Msg : Type} (readMember : Msg → ℕ → List Field → Option Msg) (members : ℕ)
    (init : Msg) (fields : List Field) : Option Msg :=
  fields.foldlM (fun m f =>
    match f.value with
    | .len bytes =>
        if 1 ≤ f.number ∧ f.number ≤ members then
          (parseFields bytes).bind (readMember m f.number)
        else some m
    | _ => some m) init

/-- A union in which one member is set is read by reading that member. -/
theorem readOneof_messageField {Msg : Type} (readMember : Msg → ℕ → List Field → Option Msg)
    {members number : ℕ} (hpos : 0 < number) (hle : number ≤ members) (init : Msg)
    {fields : List Field} (hplain : Plain fields)
    (hsize : (encodeFields [messageField number fields]).length < 2 ^ 31) :
    readOneof readMember members init [messageField number fields] =
      readMember init number fields := by
  have hlen : (encodeFields fields).length < 2 ^ 31 :=
    length_lt_of_mem (List.mem_singleton.mpr rfl) hsize
  rw [readOneof, messageField, List.foldlM_cons]
  simp only [if_pos (show 1 ≤ number ∧ number ≤ members from ⟨hpos, hle⟩),
    parseFields_encodeFields (hplain.wellFormed hlen), Option.bind_some]
  cases readMember init number fields <;> rfl

/-- A member of a union is not set by fields of its number that are not length-delimited: in `case`
the number of the member that is set. -/
theorem case_ne_of_readOneof {Msg : Type} {readMember : Msg → ℕ → List Field → Option Msg}
    {members number : ℕ} (case : Msg → ℕ)
    (hread : ∀ m k fields m', 1 ≤ k → k ≤ members → readMember m k fields = some m' → case m' = k)
    {fields : List Field} (hfields : ∀ f ∈ only number fields, ∀ bytes, f.value ≠ .len bytes)
    {init m : Msg} (hinit : case init ≠ number)
    (h : readOneof readMember members init fields = some m) : case m ≠ number := by
  induction fields generalizing init with
  | nil => exact Option.some.inj h ▸ hinit
  | cons f fields ih =>
      have hrest : ∀ g ∈ only number fields, ∀ bytes, g.value ≠ .len bytes := by
        intro g hg
        refine hfields g ?_
        rw [only, List.mem_filter] at hg ⊢
        exact ⟨List.mem_cons_of_mem f hg.1, hg.2⟩
      rw [readOneof, List.foldlM_cons, Option.bind_eq_bind, Option.bind_eq_some_iff] at h
      obtain ⟨m', hm', h⟩ := h
      refine ih hrest ?_ h
      cases hvalue : f.value with
      | len bytes =>
          rw [hvalue] at hm'
          by_cases hmember : 1 ≤ f.number ∧ f.number ≤ members
          · simp only [if_pos hmember] at hm'
            obtain ⟨fs, -, hm'⟩ := Option.bind_eq_some_iff.mp hm'
            rw [hread init f.number fs m' hmember.1 hmember.2 hm']
            rintro rfl
            exact hfields f (by simp [only]) bytes hvalue
          · simp only [if_neg hmember] at hm'
            exact Option.some.inj hm' ▸ hinit
      | varint n =>
          rw [hvalue] at hm'
          exact Option.some.inj hm' ▸ hinit
      | i64 bytes =>
          rw [hvalue] at hm'
          exact Option.some.inj hm' ▸ hinit
      | i32 bytes =>
          rw [hvalue] at hm'
          exact Option.some.inj hm' ▸ hinit

theorem not_len_of_mem_uint32Fields {number : ℕ} {n : UInt32} {f : Field}
    (h : f ∈ uint32Fields number n) (bytes : List UInt8) : f.value ≠ .len bytes := by
  rw [uint32Fields] at h
  split at h
  · cases h
  · rw [List.mem_singleton.mp h]
    simp

/-- The fields of a union: the member that is set, if one is. -/
def unionFields (member : Option (ℕ × List Field)) : List Field :=
  (member.map fun m => messageField m.1 m.2).toList

/-- A union in the wire format is lawful when every member has a legal number and plain
fields, and reads back. -/
theorem unionProto_lawful {Msg : Type} {member : Msg → Option (ℕ × List Field)}
    {readMember : Msg → ℕ → List Field → Option Msg} {members : ℕ} {unset : Msg}
    (hunset : ∀ m, member m = none → m = unset) (hmembers : members < 2 ^ 29)
    (hset : ∀ m number fields, member m = some (number, fields) →
      0 < number ∧ number ≤ members ∧ Plain fields ∧
        ((encodeFields fields).length < 2 ^ 31 → readMember unset number fields = some m)) :
    (wireProto (fun m => unionFields (member m))
      (readOneof readMember members unset)).Lawful := by
  refine wireProto_lawful ?_ ?_
  · intro m hsize
    refine Plain.wellFormed ?_ hsize
    cases hm : member m with
    | none => exact plain_nil
    | some nf =>
        obtain ⟨number, fields⟩ := nf
        obtain ⟨hpos, hle, -, -⟩ := hset m number fields hm
        exact plain_messageField hpos (by omega) fields
  · intro m hsize
    cases hm : member m with
    | none =>
        rw [hunset m hm]
        rfl
    | some nf =>
        obtain ⟨number, fields⟩ := nf
        obtain ⟨hpos, hle, hplain, hread⟩ := hset m number fields hm
        rw [hm] at hsize
        have hlen : (encodeFields fields).length < 2 ^ 31 :=
          length_lt_of_mem (List.mem_singleton.mpr rfl) hsize
        exact (readOneof_messageField readMember hpos hle unset hplain hsize).trans (hread hlen)

end Csci6780
