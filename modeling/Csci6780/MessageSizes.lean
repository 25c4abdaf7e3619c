import Csci6780.FtpMessages

/-!
# The Sizes of the FTP Messages

`ByteSizeLong` is the size of the encoding that protobuf writes. This module shows that in
the proto3 wire format no other encoding of an FTP message is shorter: every field that
counts towards a member was read from at least as many bytes as it is written with.

A reader that folds over the fields is measured by `weight`, the bytes of the fields with
one number: members with different numbers are paid for by different fields.

## Main results

* `requestProto_compact`, `fileContentsProto_compact`: no encoding is shorter than
  `ByteSizeLong`.
* `fileContentsProto_additive`: one chunk is written in no more bytes than two.
-/

namespace Csci6780

open Proto3

/-- No encoding of a message is shorter than the one that is written. -/
def Protobuf.Compact {Msg : Type} (pb : Protobuf Msg) : Prop :=
  ∀ body m, pb.parseBody body = some m → pb.byteSizeLong m ≤ body.length

theorem wireProto_compact {Msg : Type} {toFields : Msg → List Field}
    {ofFields : List Field → Option Msg}
    (h : ∀ fields m, ofFields fields = some m →
      (encodeFields (toFields m)).length ≤ (encodeFields fields).length) :
    (wireProto toFields ofFields).Compact := by
  intro body m hparse
  simp only [Protobuf.parseBody, wireProto, Option.bind_eq_some_iff] at hparse ⊢
  obtain ⟨fields, hfields, hm⟩ := hparse
  have hlen := length_encodeFields_of_parseFields hfields
  rw [List.length_take] at hlen
  have hle := h fields m hm
  omega

/-! ### Folds over fields -/

/-- The bytes of a field that counts for a member. -/
def weight (number : ℕ) (f : Field) : ℕ := if f.number = number then f.encode.length else 0

theorem length_encodeFields (fields : List Field) :
    (encodeFields fields).length = (fields.map fun f => f.encode.length).sum := by
  rw [encodeFields, List.length_flatMap]

/-- Members with different numbers are paid for by different fields. -/
theorem sum_weight_add_le {a b : ℕ} (hne : a ≠ b) (fields : List Field) :
    (fields.map (weight a)).sum + (fields.map (weight b)).sum ≤
      (encodeFields fields).length := by
  rw [length_encodeFields]
  induction fields with
  | nil => exact Nat.le_refl _
  | cons f fields ih =>
      simp only [List.map_cons, List.sum_cons]
      have hf : weight a f + weight b f ≤ f.encode.length := by
        rw [weight, weight]
        split <;> split <;> omega
      omega

theorem sum_weight_le (number : ℕ) (fields : List Field) :
    (fields.map (weight number)).sum ≤ (encodeFields fields).length :=
  Nat.le_trans (Nat.le_add_right _ _) (sum_weight_add_le (Nat.ne_of_lt number.lt_succ_self) fields)

section Folds

variable {α : Type} (size : α → ℕ) (w : Field → ℕ)

/-- A fold whose steps add at most the weight of the field adds at most the weights. -/
theorem size_foldl_le {step : α → Field → α} (hstep : ∀ a f, size (step a f) ≤ size a + w f)
    (fields : List Field) (a : α) :
    size (fields.foldl step a) ≤ size a + (fields.map w).sum := by
  induction fields generalizing a with
  | nil => exact Nat.le_refl _
  | cons f fields ih =>
      have hf := hstep a f
      have hrest := ih (step a f)
      rw [List.foldl_cons, List.map_cons, List.sum_cons]
      omega

/-- So does a fold that may fail. -/
theorem size_foldlM_le {step : α → Field → Option α}
    (hstep : ∀ a f b, step a f = some b → size b ≤ size a + w f) {fields : List Field}
    {a b : α} (h : fields.foldlM step a = some b) :
    size b ≤ size a + (fields.map w).sum := by
  induction fields generalizing a with
  | nil =>
      obtain rfl : a = b := by simpa using h
      exact Nat.le_refl _
  | cons f fields ih =>
      rw [List.foldlM_cons, Option.bind_eq_bind, Option.bind_eq_some_iff] at h
      obtain ⟨c, hc, h⟩ := h
      have hf := hstep a f c hc
      have hrest := ih h
      rw [List.map_cons, List.sum_cons]
      omega

end Folds

/-! ### Members -/

theorem toByteArray_of_fromUTF8? {bytes : List UInt8} {s : String}
    (h : String.fromUTF8? ⟨bytes.toArray⟩ = some s) : s.toByteArray.data.toList = bytes := by
  rw [String.fromUTF8?] at h
  split at h
  · obtain rfl := Option.some.inj h
    rfl
  · cases h

theorem length_stringFields_le (number : ℕ) (s : String) :
    (encodeFields (stringFields number s)).length ≤
      (Field.encode ⟨number, .len s.toByteArray.data.toList⟩).length := by
  rw [stringFields]
  split
  · exact Nat.zero_le _
  · simp [encodeFields]

theorem length_getString_le {number : ℕ} {init s : String} {fields : List Field}
    (h : getString number init fields = some s) :
    (encodeFields (stringFields number s)).length ≤
      (encodeFields (stringFields number init)).length +
        (fields.map (weight number)).sum := by
  refine size_foldlM_le (fun s => (encodeFields (stringFields number s)).length)
    (weight number) ?_ h
  rintro s ⟨n, value⟩ s' hstep
  by_cases hn : n = number
  · subst hn
    simp only [if_true] at hstep
    split at hstep
    · have hle := length_stringFields_le n s'
      rw [toByteArray_of_fromUTF8? hstep] at hle
      rw [weight, if_pos rfl]
      omega
    · obtain rfl := Option.some.inj hstep
      exact Nat.le_add_right _ _
  · simp only [if_neg hn] at hstep
    obtain rfl := Option.some.inj hstep
    exact Nat.le_add_right _ _

theorem length_getBytes_le (number : ℕ) (init : List UInt8) (fields : List Field) :
    (encodeFields (bytesFields number (getBytes number init fields))).length ≤
      (encodeFields (bytesFields number init)).length + (fields.map (weight number)).sum := by
  refine size_foldl_le (fun s => (encodeFields (bytesFields number s)).length)
    (weight number) ?_ fields init
  rintro s ⟨n, value⟩
  by_cases hn : n = number
  · subst hn
    simp only [if_true]
    split
    · next bytes =>
        have hle : (encodeFields (bytesFields n bytes)).length ≤
            (Field.encode ⟨n, .len bytes⟩).length := by
          rw [bytesFields]
          split
          · exact Nat.zero_le _
          · simp [encodeFields]
        rw [weight, if_pos rfl]
        omega
    · exact Nat.le_add_right _ _
  · simp only [if_neg hn]
    exact Nat.le_add_right _ _

/-- The bytes of a varint member that is written unless it is zero. -/
def varintSize (number n : ℕ) : ℕ :=
  if n = 0 then 0 else (Field.encode ⟨number, .varint n⟩).length

theorem varintSize_getVarint_le (number init : ℕ) (fields : List Field) :
    varintSize number (getVarint number init fields) ≤
      varintSize number init + (fields.map (weight number)).sum := by
  refine size_foldl_le (varintSize number) (weight number) ?_ fields init
  rintro s ⟨n, value⟩
  by_cases hn : n = number
  · subst hn
    simp only [if_true]
    split
    · next k =>
        rw [weight, if_pos rfl, varintSize]
        split <;> omega
    · exact Nat.le_add_right _ _
  · simp only [if_neg hn]
    exact Nat.le_add_right _ _

theorem varintSize_mono {number m n : ℕ} (h : m ≤ n) :
    varintSize number m ≤ varintSize number n := by
  rw [varintSize, varintSize]
  have hmono := length_varint_mono h
  simp only [Field.encode, WireValue.encode, WireValue.wireType, List.length_append]
  split
  · exact Nat.zero_le _
  · rw [if_neg (by omega)]
    omega

theorem length_boolFields (number : ℕ) (b : Bool) :
    (encodeFields (boolFields number b)).length = varintSize number b.toNat := by
  cases b
  · rfl
  · simp [encodeFields, boolFields, varintSize]

theorem length_boolFields_le (number n : ℕ) :
    (encodeFields (boolFields number (n != 0))).length ≤ varintSize number n := by
  rw [length_boolFields]
  refine varintSize_mono ?_
  by_cases hn : n = 0
  · simp [hn]
  · exact Nat.le_trans (Bool.toNat_le _) (Nat.pos_of_ne_zero hn)

theorem length_uint32Fields (number : ℕ) (n : UInt32) :
    (encodeFields (uint32Fields number n)).length = varintSize number n.toNat := by
  rw [uint32Fields, varintSize]
  by_cases hn : n = 0
  · simp [hn, encodeFields]
  · have hne : n.toNat ≠ 0 := fun h => hn (UInt32.toNat_inj.mp h)
    simp [hn, hne, encodeFields]

theorem length_uint32Fields_le (number n : ℕ) :
    (encodeFields (uint32Fields number (UInt32.ofNat n))).length ≤ varintSize number n := by
  rw [length_uint32Fields, UInt32.toNat_ofNat']
  exact varintSize_mono (Nat.mod_le _ _)

/-! ### FileContents -/

theorem length_ofFields_le (init : FileContents) (fields : List Field) :
    (encodeFields (FileContents.ofFields init fields).toFields).length ≤
      (encodeFields init.toFields).length + (encodeFields fields).length := by
  have happ : ∀ m : FileContents, (encodeFields m.toFields).length =
      (encodeFields (bytesFields 1 m.contents)).length +
        (encodeFields (boolFields 2 m.isLast)).length := by
    intro m
    simp [FileContents.toFields, encodeFields]
  have hbytes := length_getBytes_le 1 init.contents fields
  have hbool := varintSize_getVarint_le 2 init.isLast.toNat fields
  have hle := length_boolFields_le 2 (getVarint 2 init.isLast.toNat fields)
  have hsum := sum_weight_add_le (show 1 ≠ 2 by decide) fields
  rw [← length_boolFields] at hbool
  rw [happ, happ, FileContents.ofFields]
  simp only [] at hle ⊢
  omega

/-- **No encoding of a chunk is shorter than the one that is written.** -/
theorem fileContentsProto_compact : fileContentsProto.Compact := by
  refine wireProto_compact fun fields m h => ?_
  obtain rfl := Option.some.inj h
  have hle := length_ofFields_le {} fields
  have hnil : (encodeFields (FileContents.toFields {})).length = 0 := rfl
  omega

/-- Writing a chunk in one message takes no more bytes than in two, and an empty one takes
none. -/
structure FileContentsAdditive (pb : Protobuf FileContents) : Prop where
  empty : pb.byteSizeLong {} = 0
  append : ∀ as bs isLast, pb.byteSizeLong ⟨as ++ bs, isLast⟩ ≤
    pb.byteSizeLong ⟨as, false⟩ + pb.byteSizeLong ⟨bs, isLast⟩

theorem fileContentsProto_additive : FileContentsAdditive fileContentsProto := by
  refine ⟨rfl, fun as bs isLast => ?_⟩
  have happ : ∀ m : FileContents, fileContentsProto.byteSizeLong m =
      (encodeFields (bytesFields 1 m.contents)).length +
        (encodeFields (boolFields 2 m.isLast)).length := by
    intro m
    simp [fileContentsProto, wireProto, FileContents.toFields, encodeFields]
  have hbytes : ∀ bytes : List UInt8, bytes ≠ [] →
      (encodeFields (bytesFields 1 bytes)).length =
        (varint bytes.length).length + bytes.length + 1 := by
    intro bytes hne
    simp [bytesFields, hne, encodeFields, Field.encode, WireValue.encode, WireValue.wireType,
      varint_of_lt]
  rw [happ, happ, happ]
  by_cases has : as = []
  · subst has
    rw [List.nil_append]
    omega
  · by_cases hbs : bs = []
    · subst hbs
      rw [List.append_nil]
      simp only []
      omega
    · have hadd := length_varint_add_le as.length bs.length
      simp only []
      rw [hbytes _ has, hbytes _ hbs, hbytes _ (List.append_ne_nil_of_left_ne_nil has bs),
        List.length_append]
      omega

/-! ### Unions -/

section Unions

variable {Msg : Type} {member : Msg → Option (ℕ × List Field)}
  {readMember : Msg → ℕ → List Field → Option Msg} {members : ℕ}

/-- The bytes of one member of a union: none unless it is the one that is set. -/
def memberSize (member : Option (ℕ × List Field)) (number : ℕ) : ℕ :=
  match member with
  | some (n, fields) => if n = number then (encodeFields fields).length else 0
  | none => 0

theorem length_messageField (number : ℕ) (fields : List Field) :
    (messageField number fields).encode.length =
      (varint (number * 8 + 2)).length +
        ((varint (encodeFields fields).length).length + (encodeFields fields).length) := by
  simp [messageField, Field.encode, WireValue.encode, WireValue.wireType]

theorem length_unionFields (number : ℕ) (fields : List Field) :
    (encodeFields (unionFields (some (number, fields)))).length =
      (messageField number fields).encode.length := by
  simp [unionFields, encodeFields]

/-- Reading a member into a union adds at most the bytes of its field. -/
theorem length_unionFields_le_of_readMember {m m' : Msg} {number : ℕ} {bytes : List UInt8}
    {fields' : List Field} (hset : member m' = some (number, fields'))
    (hle : (encodeFields fields').length ≤ memberSize (member m) number + bytes.length) :
    (encodeFields (unionFields (member m'))).length ≤
      (encodeFields (unionFields (member m))).length +
        (Field.encode ⟨number, .len bytes⟩).length := by
  have hfield : (Field.encode ⟨number, .len bytes⟩).length =
      (varint (number * 8 + 2)).length + ((varint bytes.length).length + bytes.length) := by
    simp [Field.encode, WireValue.encode, WireValue.wireType]
  rw [hset, length_unionFields, length_messageField, hfield]
  have hmono := length_varint_mono hle
  have hadd := length_varint_add_le (memberSize (member m) number) bytes.length
  -- the member that was set before either is this one, or counts for nothing
  have hbefore : memberSize (member m) number = 0 ∨
      (encodeFields (unionFields (member m))).length =
        (varint (number * 8 + 2)).length +
          ((varint (memberSize (member m) number)).length + memberSize (member m) number) := by
    rcases hm : member m with - | ⟨n, fields⟩
    · exact .inl rfl
    · by_cases hn : n = number
      · subst hn
        right
        rw [length_unionFields, length_messageField, memberSize, if_pos rfl]
      · exact .inl (if_neg hn)
  rcases hbefore with hzero | hbefore
  · rw [hzero, Nat.zero_add] at hmono hle
    omega
  · omega

/-- A union is written in no more bytes than its members were read from, when reading a
member adds no more than its fields. -/
theorem unionProto_compact {unset : Msg} (hunset : member unset = none)
    (hread : ∀ m m' number fields, 1 ≤ number → number ≤ members →
      readMember m number fields = some m' →
      ∃ fields', member m' = some (number, fields') ∧
        (encodeFields fields').length ≤
          memberSize (member m) number + (encodeFields fields).length) :
    (wireProto (fun m => unionFields (member m))
      (readOneof readMember members unset)).Compact := by
  refine wireProto_compact fun fields m h => ?_
  have hfold := size_foldlM_le (fun m => (encodeFields (unionFields (member m))).length)
    (fun f => f.encode.length) ?_ h
  · rw [hunset] at hfold
    rw [length_encodeFields fields]
    simpa [unionFields, encodeFields] using hfold
  · rintro m ⟨number, value⟩ m' hstep
    simp only [] at hstep
    split at hstep
    · next bytes _ =>
        split at hstep
        · next hnumber =>
            rw [Option.bind_eq_some_iff] at hstep
            obtain ⟨fields', hfields, hmember⟩ := hstep
            have hlen := length_encodeFields_of_parseFields hfields
            obtain ⟨fields'', hset, hle⟩ := hread m m' number fields' hnumber.1 hnumber.2 hmember
            exact length_unionFields_le_of_readMember hset (by omega)
        · obtain rfl := Option.some.inj hstep
          exact Nat.le_add_right _ _
    · obtain rfl := Option.some.inj hstep
      exact Nat.le_add_right _ _

end Unions

/-! ### Request

The members of a request, each read over what the union held before. -/

section Members

variable {fields : List Field} {before : ℕ}

theorem length_stringFields_of_getString {old s : String}
    (h : getString 1 old fields = some s)
    (hold : (encodeFields (stringFields 1 old)).length ≤ before) :
    (encodeFields (stringFields 1 s)).length ≤ before + (encodeFields fields).length := by
  have hlen := length_getString_le h
  have hsum := sum_weight_le 1 fields
  omega

theorem length_uint32Fields_of_getVarint {old : ℕ} (hold : varintSize 1 old ≤ before) :
    (encodeFields (uint32Fields 1 (UInt32.ofNat (getVarint 1 old fields)))).length ≤
      before + (encodeFields fields).length := by
  have hle := length_uint32Fields_le 1 (getVarint 1 old fields)
  have hvarint := varintSize_getVarint_le 1 old fields
  have hsum := sum_weight_le 1 fields
  omega

theorem length_changeDirFields_of_getString {old : Bool × String} {s : String}
    (h : getString 2 old.2 fields = some s)
    (hold : (encodeFields (boolFields 1 old.1 ++ stringFields 2 old.2)).length ≤ before) :
    (encodeFields (boolFields 1 (getVarint 1 old.1.toNat fields != 0) ++
      stringFields 2 s)).length ≤ before + (encodeFields fields).length := by
  have happ : ∀ as bs : List Field, (encodeFields (as ++ bs)).length =
      (encodeFields as).length + (encodeFields bs).length := by
    intro as bs
    simp [encodeFields]
  have hle := length_boolFields_le 1 (getVarint 1 old.1.toNat fields)
  have hvarint := varintSize_getVarint_le 1 old.1.toNat fields
  have hstring := length_getString_le h
  have hsum := sum_weight_add_le (show 1 ≠ 2 by decide) fields
  rw [← length_boolFields] at hvarint
  rw [happ] at hold ⊢
  omega

theorem length_contentsFields_of_ofFields {old : FileContents}
    (hold : (encodeFields old.toFields).length ≤ before) :
    (encodeFields (FileContents.ofFields old fields).toFields).length ≤
      before + (encodeFields fields).length :=
  Nat.le_trans (length_ofFields_le old fields) (Nat.add_le_add_right hold _)

end Members

/-- Reading one member of a request adds no more than its fields. -/
theorem Request.readMember_size (r r' : Request) (number : ℕ) (fields : List Field)
    (hpos : 1 ≤ number) (hle : number ≤ 10) (h : r.readMember number fields = some r') :
    ∃ fields', r'.member = some (number, fields') ∧
      (encodeFields fields').length ≤
        memberSize r.member number + (encodeFields fields).length := by
  obtain rfl | rfl | rfl | rfl | rfl | rfl | rfl | rfl | rfl | rfl : number = 1 ∨ number = 2 ∨
      number = 3 ∨ number = 4 ∨ number = 5 ∨ number = 6 ∨ number = 7 ∨ number = 8 ∨
      number = 9 ∨ number = 10 := by omega
  · obtain ⟨s, hs, rfl⟩ := Option.map_eq_some_iff.mp h
    refine ⟨_, rfl, length_stringFields_of_getString hs ?_⟩
    cases r <;> simp [memberSize, Request.member, stringFields, encodeFields]
  · obtain ⟨s, hs, rfl⟩ := Option.map_eq_some_iff.mp h
    refine ⟨_, rfl, length_stringFields_of_getString hs ?_⟩
    cases r <;> simp [memberSize, Request.member, stringFields, encodeFields]
  · obtain ⟨s, hs, rfl⟩ := Option.map_eq_some_iff.mp h
    refine ⟨_, rfl, length_stringFields_of_getString hs ?_⟩
    cases r <;> simp [memberSize, Request.member, stringFields, encodeFields]
  · obtain rfl := Option.some.inj h
    exact ⟨[], rfl, Nat.zero_le _⟩
  · obtain ⟨s, hs, rfl⟩ := Option.map_eq_some_iff.mp h
    refine ⟨_, rfl, length_changeDirFields_of_getString hs ?_⟩
    cases r <;> simp [memberSize, Request.member, boolFields, stringFields, encodeFields]
  · obtain ⟨s, hs, rfl⟩ := Option.map_eq_some_iff.mp h
    refine ⟨_, rfl, length_stringFields_of_getString hs ?_⟩
    cases r <;> simp [memberSize, Request.member, stringFields, encodeFields]
  · obtain rfl := Option.some.inj h
    exact ⟨[], rfl, Nat.zero_le _⟩
  · obtain rfl := Option.some.inj h
    exact ⟨[], rfl, Nat.zero_le _⟩
  · obtain rfl := Option.some.inj h
    refine ⟨_, rfl, length_uint32Fields_of_getVarint ?_⟩
    cases r <;> simp [memberSize, Request.member, varintSize, length_uint32Fields]
  · obtain rfl := Option.some.inj h
    refine ⟨_, rfl, length_contentsFields_of_ofFields ?_⟩
    cases r <;> simp [memberSize, Request.member, FileContents.toFields, bytesFields,
      boolFields, encodeFields]

/-- **No encoding of a request is shorter than the one that is written.** -/
theorem requestProto_compact : requestProto.Compact :=
  unionProto_compact rfl Request.readMember_size

end Csci6780
