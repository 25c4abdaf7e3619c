import Mathlib.Algebra.Ring.Nat
import Mathlib.Data.List.Basic
import Mathlib.Tactic.Common

/-!
# The Protocol Buffers Wire Format

A message in the proto3 wire format is a sequence of **fields**, each a varint tag that
packs a field number with a wire type, followed by a value of that type. This module
defines fields, their encoding and the reader that splits a byte string back into
fields; how a message class maps its members to fields is left to the user.

Varints carry at most 64 bits in at most ten bytes. The reader drops the bits beyond the
64th, rejects a field number of zero and a tag that does not fit 32 bits, and rejects the
two group wire types, which proto3 does not have.

## Main results

* `readVarint_varint_append`: a varint reads back and leaves what follows it.
* `readField_encodeField_append`: so does a field.
* `parseFields_encodeFields`: a list of well-formed fields reads back from its encoding.
* `length_encodeFields_of_parseFields`: no byte string is shorter than the encoding of the
  fields it reads as.
* `length_encodeField_len_le`: a length-delimited field costs at most eleven bytes more
  than its contents.
-/

namespace Csci6780

namespace Proto3

/-! ### Varints -/

/-- The base-128 digits of `n`, least significant first, at most `k` of them; every digit
but the last has the continuation bit set. -/
def varintDigits : ℕ → ℕ → List UInt8
  | 0, _ => []
  | k + 1, n =>
      if n < 128 then [UInt8.ofNat n]
      else UInt8.ofNat (n % 128 + 128) :: varintDigits k (n / 128)

/-- The varint of a 64-bit number. -/
def varint (n : ℕ) : List UInt8 := varintDigits 10 n

/-- Read at most `k` base-128 digits. -/
def readDigits : ℕ → List UInt8 → Option (ℕ × List UInt8)
  | 0, _ => none
  | _ + 1, [] => none
  | k + 1, b :: bytes =>
      if b.toNat < 128 then some (b.toNat, bytes)
      else (readDigits k bytes).map fun r => (b.toNat - 128 + 128 * r.1, r.2)

/-- Read a varint: ten digits at most, and 64 bits of their value. -/
def readVarint (bytes : List UInt8) : Option (ℕ × List UInt8) :=
  (readDigits 10 bytes).map fun r => (r.1 % 2 ^ 64, r.2)

/-- The digits of a number read back. -/
theorem readDigits_varintDigits_append {k : ℕ} {n : ℕ} (hn : n < 128 ^ k) (hk : 0 < k)
    (rest : List UInt8) : readDigits k (varintDigits k n ++ rest) = some (n, rest) := by
  induction k generalizing n with
  | zero => omega
  | succ k ih =>
      rw [varintDigits]
      by_cases hlt : n < 128
      · have hb : (UInt8.ofNat n).toNat = n := by
          rw [UInt8.toNat_ofNat']
          omega
        rw [if_pos hlt, List.singleton_append, readDigits, hb, if_pos hlt]
      · have hb : (UInt8.ofNat (n % 128 + 128)).toNat = n % 128 + 128 := by
          rw [UInt8.toNat_ofNat']
          omega
        have hdiv : n / 128 < 128 ^ k := by
          rw [Nat.pow_succ] at hn
          exact Nat.div_lt_of_lt_mul (by omega)
        have hk' : 0 < k := by
          rcases Nat.eq_zero_or_pos k with rfl | h
          · omega
          · exact h
        rw [if_neg hlt, List.cons_append, readDigits, hb, if_neg (by omega), ih hdiv hk']
        simp only [Option.map_some, Option.some.injEq, Prod.mk.injEq, and_true]
        omega

/-- A varint reads back and leaves what follows it. -/
theorem readVarint_varint_append {n : ℕ} (hn : n < 2 ^ 64) (rest : List UInt8) :
    readVarint (varint n ++ rest) = some (n, rest) := by
  have hdigits : n < 128 ^ 10 := Nat.lt_of_lt_of_le hn (by decide)
  rw [readVarint, varint, readDigits_varintDigits_append hdigits (by decide), Option.map_some,
    Nat.mod_eq_of_lt hn]

theorem length_varintDigits_le (k n : ℕ) : (varintDigits k n).length ≤ k := by
  induction k generalizing n with
  | zero => simp [varintDigits]
  | succ k ih =>
      rw [varintDigits]
      split
      · simp
      · rw [List.length_cons]
        have := ih (n / 128)
        omega

theorem length_varint_le (n : ℕ) : (varint n).length ≤ 10 := length_varintDigits_le 10 n

/-- A number below 128 is one byte. -/
theorem varint_of_lt {n : ℕ} (h : n < 128) : varint n = [UInt8.ofNat n] := by
  rw [varint, varintDigits, if_pos h]

theorem varint_ne_nil (n : ℕ) : varint n ≠ [] := by
  rw [varint, varintDigits]
  split <;> simp

/-! ### Fields -/

/-- The value of a field, by wire type. -/
inductive WireValue
  | varint (n : ℕ)
  | i64 (bytes : List UInt8)
  | len (bytes : List UInt8)
  | i32 (bytes : List UInt8)
  deriving DecidableEq, Repr

/-- A field number and a value. -/
structure Field where
  number : ℕ
  value : WireValue
  deriving DecidableEq, Repr

/-- The wire type of a value. -/
def WireValue.wireType : WireValue → ℕ
  | .varint _ => 0
  | .i64 _ => 1
  | .len _ => 2
  | .i32 _ => 5

/-- The bytes of a value. -/
def WireValue.encode : WireValue → List UInt8
  | .varint n => Proto3.varint n
  | .i64 bytes => bytes
  | .len bytes => Proto3.varint bytes.length ++ bytes
  | .i32 bytes => bytes

/-- The bytes of a field: its tag and its value. -/
def Field.encode (f : Field) : List UInt8 :=
  Proto3.varint (f.number * 8 + f.value.wireType) ++ f.value.encode

/-- A value its wire type can carry. -/
def WireValue.WellFormed : WireValue → Prop
  | .varint n => n < 2 ^ 64
  | .i64 bytes => bytes.length = 8
  | .len bytes => bytes.length < 2 ^ 64
  | .i32 bytes => bytes.length = 4

/-- A field with a legal number and a value its wire type can carry. -/
def Field.WellFormed (f : Field) : Prop :=
  0 < f.number ∧ f.number < 2 ^ 29 ∧ f.value.WellFormed

/-- Read exactly `n` bytes. -/
def readExactly (n : ℕ) (bytes : List UInt8) : Option (List UInt8 × List UInt8) :=
  if n ≤ bytes.length then some (bytes.take n, bytes.drop n) else none

theorem readExactly_append (bytes rest : List UInt8) :
    readExactly bytes.length (bytes ++ rest) = some (bytes, rest) := by
  rw [readExactly, if_pos (by simp), List.take_left, List.drop_left]

/-- Read a value of the given wire type. -/
def readValue : ℕ → List UInt8 → Option (WireValue × List UInt8)
  | 0, bytes => (readVarint bytes).map fun r => (.varint r.1, r.2)
  | 1, bytes => (readExactly 8 bytes).map fun r => (.i64 r.1, r.2)
  | 2, bytes => (readVarint bytes).bind fun r =>
      (readExactly r.1 r.2).map fun s => (.len s.1, s.2)
  | 5, bytes => (readExactly 4 bytes).map fun r => (.i32 r.1, r.2)
  | _, _ => none

/-- Read one field. -/
def readField (bytes : List UInt8) : Option (Field × List UInt8) :=
  (readVarint bytes).bind fun tag =>
    if tag.1 / 8 = 0 ∨ 2 ^ 32 ≤ tag.1 then none
    else (readValue (tag.1 % 8) tag.2).map fun v => (⟨tag.1 / 8, v.1⟩, v.2)

/-- Read at most `k` fields, up to the end of the bytes. -/
def readFields : ℕ → List UInt8 → Option (List Field)
  | _, [] => some []
  | 0, _ :: _ => none
  | k + 1, b :: bytes =>
      (readField (b :: bytes)).bind fun f => (readFields k f.2).map fun fs => f.1 :: fs

/-- Split a byte string into fields. Every field takes at least a byte, so the length of
the string bounds their number. -/
def parseFields (bytes : List UInt8) : Option (List Field) := readFields bytes.length bytes

/-- The encoding of a list of fields. -/
def encodeFields (fields : List Field) : List UInt8 := fields.flatMap Field.encode

theorem readValue_encode_append {v : WireValue} (hv : v.WellFormed) (rest : List UInt8) :
    readValue v.wireType (v.encode ++ rest) = some (v, rest) := by
  cases v with
  | varint n =>
      simp only [WireValue.wireType, WireValue.encode, readValue,
        readVarint_varint_append hv, Option.map_some]
  | i64 bytes =>
      have h := readExactly_append bytes rest
      rw [show bytes.length = 8 from hv] at h
      simp only [WireValue.wireType, WireValue.encode, readValue, h, Option.map_some]
  | len bytes =>
      simp only [WireValue.wireType, WireValue.encode, readValue, List.append_assoc,
        readVarint_varint_append hv, Option.bind_some, readExactly_append, Option.map_some]
  | i32 bytes =>
      have h := readExactly_append bytes rest
      rw [show bytes.length = 4 from hv] at h
      simp only [WireValue.wireType, WireValue.encode, readValue, h, Option.map_some]

theorem WireValue.wireType_lt (v : WireValue) : v.wireType < 8 := by
  cases v <;> simp [WireValue.wireType]

/-- A field reads back and leaves what follows it. -/
theorem readField_encodeField_append {f : Field} (hf : f.WellFormed) (rest : List UInt8) :
    readField (f.encode ++ rest) = some (f, rest) := by
  obtain ⟨hpos, hlt, hv⟩ := hf
  have htype := f.value.wireType_lt
  have hdiv : (f.number * 8 + f.value.wireType) / 8 = f.number := by omega
  have hmod : (f.number * 8 + f.value.wireType) % 8 = f.value.wireType := by omega
  rw [readField, Field.encode, List.append_assoc, readVarint_varint_append (by omega),
    Option.bind_some]
  simp only [hdiv, hmod]
  rw [if_neg (by omega), readValue_encode_append hv, Option.map_some]

theorem Field.encode_ne_nil (f : Field) : f.encode ≠ [] := by
  rw [Field.encode]
  exact List.append_ne_nil_of_left_ne_nil (varint_ne_nil _) _

/-- Fields read back when there is room for all of them. -/
theorem readFields_encodeFields {fields : List Field} (h : ∀ f ∈ fields, f.WellFormed)
    {k : ℕ} (hk : fields.length ≤ k) : readFields k (encodeFields fields) = some fields := by
  induction fields generalizing k with
  | nil => simp [encodeFields, readFields]
  | cons f fields ih =>
      obtain ⟨k, rfl⟩ : ∃ k', k = k' + 1 := ⟨k - 1, by simp at hk; omega⟩
      have hcons : encodeFields (f :: fields) = f.encode ++ encodeFields fields := rfl
      obtain ⟨b, bytes, hb⟩ : ∃ b bytes, encodeFields (f :: fields) = b :: bytes := by
        refine List.exists_cons_of_ne_nil ?_
        rw [hcons]
        exact List.append_ne_nil_of_left_ne_nil f.encode_ne_nil _
      rw [hb, readFields, ← hb, hcons,
        readField_encodeField_append (h f List.mem_cons_self), Option.bind_some,
        ih (fun g hg => h g (List.mem_cons_of_mem _ hg)) (by simp at hk; omega),
        Option.map_some]

theorem length_le_length_encodeFields (fields : List Field) :
    fields.length ≤ (encodeFields fields).length := by
  induction fields with
  | nil => simp
  | cons f fields ih =>
      have hpos : 0 < f.encode.length := List.length_pos_iff.mpr f.encode_ne_nil
      have hcons : encodeFields (f :: fields) = f.encode ++ encodeFields fields := rfl
      rw [hcons, List.length_append, List.length_cons]
      omega

/-- **Fields read back from their encoding.** -/
theorem parseFields_encodeFields {fields : List Field} (h : ∀ f ∈ fields, f.WellFormed) :
    parseFields (encodeFields fields) = some fields :=
  readFields_encodeFields h (length_le_length_encodeFields fields)

/-! ### Sizes -/

/-- A length-delimited field holds its contents. -/
theorem length_le_length_encodeField_len (number : ℕ) (bytes : List UInt8) :
    bytes.length ≤ (Field.encode ⟨number, .len bytes⟩).length := by
  simp only [Field.encode, WireValue.encode, List.length_append]
  omega

/-- A length-delimited field with a small number costs at most eleven bytes more than its
contents. -/
theorem length_encodeField_len_le {number : ℕ} (h : number < 15) (bytes : List UInt8) :
    (Field.encode ⟨number, .len bytes⟩).length ≤ bytes.length + 11 := by
  have hlen := length_varint_le bytes.length
  simp only [Field.encode, WireValue.encode, WireValue.wireType, List.length_append]
  rw [varint_of_lt (by omega), List.length_singleton]
  omega

/-! ### Minimality -/

theorem length_varintDigits_mono {k m n : ℕ} (h : m ≤ n) :
    (varintDigits k m).length ≤ (varintDigits k n).length := by
  induction k generalizing m n with
  | zero => exact Nat.le_refl _
  | succ k ih =>
      rw [varintDigits, varintDigits]
      by_cases hn : n < 128
      · rw [if_pos (by omega), if_pos hn]
        exact Nat.le_refl _
      · rw [if_neg hn]
        by_cases hm : m < 128
        · rw [if_pos hm, List.length_singleton, List.length_cons]
          omega
        · rw [if_neg hm, List.length_cons, List.length_cons]
          exact Nat.succ_le_succ (ih (Nat.div_le_div_right h))

/-- A greater number has no shorter varint. -/
theorem length_varint_mono {m n : ℕ} (h : m ≤ n) : (varint m).length ≤ (varint n).length :=
  length_varintDigits_mono h

theorem length_varintDigits_le_succ (k n : ℕ) :
    (varintDigits k n).length ≤ (varintDigits (k + 1) n).length := by
  induction k generalizing n with
  | zero => exact Nat.zero_le _
  | succ k ih =>
      rw [varintDigits, varintDigits]
      by_cases hn : n < 128
      · exact Nat.le_of_eq (by rw [if_pos hn, if_pos hn])
      · rw [if_neg hn, if_neg hn, List.length_cons, List.length_cons]
        exact Nat.succ_le_succ (ih _)

/-- A varint has at most one digit more than the one of a 128th of the number. -/
theorem length_varint_le_div (n : ℕ) : (varint n).length ≤ (varint (n / 128)).length + 1 := by
  rw [varint, varintDigits]
  by_cases hn : n < 128
  · rw [if_pos hn, List.length_singleton]
    omega
  · rw [if_neg hn, List.length_cons]
    exact Nat.succ_le_succ (length_varintDigits_le_succ 9 _)

theorem length_varint_add_le (m n : ℕ) :
    (varint (m + n)).length ≤ (varint m).length + (varint n).length := by
  have hm := List.length_pos_iff.mpr (varint_ne_nil m)
  have hn := List.length_pos_iff.mpr (varint_ne_nil n)
  have hdiv := length_varint_le_div (m + n)
  rcases Nat.le_total m n with h | h
  · have hmono : (varint ((m + n) / 128)).length ≤ (varint n).length :=
      length_varint_mono (by omega)
    omega
  · have hmono : (varint ((m + n) / 128)).length ≤ (varint m).length :=
      length_varint_mono (by omega)
    omega

/-- A number that is read from digits has no more digits than were read. -/
theorem length_varintDigits_of_readDigits {k n : ℕ} {bytes rest : List UInt8}
    (h : readDigits k bytes = some (n, rest)) :
    (varintDigits k n).length + rest.length ≤ bytes.length := by
  induction k generalizing n bytes with
  | zero => cases h
  | succ k ih =>
      cases bytes with
      | nil => cases h
      | cons b bytes =>
          rw [readDigits] at h
          by_cases hb : b.toNat < 128
          · rw [if_pos hb, Option.some.injEq, Prod.mk.injEq] at h
            obtain ⟨rfl, rfl⟩ := h
            rw [varintDigits, if_pos hb, List.length_singleton, List.length_cons]
            omega
          · rw [if_neg hb, Option.map_eq_some_iff] at h
            obtain ⟨⟨m, rest'⟩, hread, heq⟩ := h
            obtain ⟨rfl, rfl⟩ := Prod.mk.injEq .. ▸ heq
            have hlt := b.toNat_lt
            have hdiv : (b.toNat - 128 + 128 * m) / 128 = m := by omega
            have hlen := ih hread
            rw [varintDigits, List.length_cons]
            split
            · rw [List.length_singleton]
              omega
            · rw [hdiv, List.length_cons]
              omega

theorem length_varint_of_readVarint {n : ℕ} {bytes rest : List UInt8}
    (h : readVarint bytes = some (n, rest)) :
    (varint n).length + rest.length ≤ bytes.length := by
  rw [readVarint, Option.map_eq_some_iff] at h
  obtain ⟨⟨m, rest'⟩, hread, heq⟩ := h
  obtain ⟨rfl, rfl⟩ := Prod.mk.injEq .. ▸ heq
  have hlen := length_varintDigits_of_readDigits hread
  have hmono := length_varint_mono (Nat.mod_le m (2 ^ 64))
  rw [varint, varint] at hmono
  simp only [varint] at hlen ⊢
  omega

theorem readExactly_eq_some {n : ℕ} {bytes value rest : List UInt8}
    (h : readExactly n bytes = some (value, rest)) :
    value.length = n ∧ value ++ rest = bytes := by
  rw [readExactly] at h
  split at h
  · rw [Option.some.injEq, Prod.mk.injEq] at h
    obtain ⟨rfl, rfl⟩ := h
    exact ⟨by rw [List.length_take]; omega, List.take_append_drop n bytes⟩
  · cases h

theorem length_encode_of_readValue {t : ℕ} {v : WireValue} {bytes rest : List UInt8}
    (h : readValue t bytes = some (v, rest)) :
    v.wireType = t ∧ v.encode.length + rest.length ≤ bytes.length := by
  rw [readValue.eq_def] at h
  split at h
  · rw [Option.map_eq_some_iff] at h
    obtain ⟨⟨n, rest'⟩, hread, heq⟩ := h
    obtain ⟨rfl, rfl⟩ := Prod.mk.injEq .. ▸ heq
    exact ⟨rfl, length_varint_of_readVarint hread⟩
  · rw [Option.map_eq_some_iff] at h
    obtain ⟨⟨value, rest'⟩, hread, heq⟩ := h
    obtain ⟨rfl, rfl⟩ := Prod.mk.injEq .. ▸ heq
    obtain ⟨-, rfl⟩ := readExactly_eq_some hread
    exact ⟨rfl, Nat.le_of_eq List.length_append.symm⟩
  · rw [Option.bind_eq_some_iff] at h
    obtain ⟨⟨n, bytes'⟩, hlen, h⟩ := h
    rw [Option.map_eq_some_iff] at h
    obtain ⟨⟨value, rest'⟩, hread, heq⟩ := h
    obtain ⟨rfl, rfl⟩ := Prod.mk.injEq .. ▸ heq
    obtain ⟨rfl, rfl⟩ := readExactly_eq_some hread
    have hvarint := length_varint_of_readVarint hlen
    rw [List.length_append] at hvarint
    refine ⟨rfl, ?_⟩
    simp only [WireValue.encode, List.length_append]
    omega
  · rw [Option.map_eq_some_iff] at h
    obtain ⟨⟨value, rest'⟩, hread, heq⟩ := h
    obtain ⟨rfl, rfl⟩ := Prod.mk.injEq .. ▸ heq
    obtain ⟨-, rfl⟩ := readExactly_eq_some hread
    exact ⟨rfl, Nat.le_of_eq List.length_append.symm⟩
  · cases h

theorem length_encode_of_readField {f : Field} {bytes rest : List UInt8}
    (h : readField bytes = some (f, rest)) : f.encode.length + rest.length ≤ bytes.length := by
  rw [readField, Option.bind_eq_some_iff] at h
  obtain ⟨⟨tag, bytes'⟩, htag, h⟩ := h
  simp only [] at h
  split at h
  · cases h
  · rw [Option.map_eq_some_iff] at h
    obtain ⟨⟨v, rest'⟩, hvalue, heq⟩ := h
    obtain ⟨rfl, rfl⟩ := Prod.mk.injEq .. ▸ heq
    have hlen := length_varint_of_readVarint htag
    obtain ⟨htype, hvlen⟩ := length_encode_of_readValue hvalue
    have htag' : tag / 8 * 8 + v.wireType = tag := by
      rw [htype]
      omega
    simp only [Field.encode, htag', List.length_append]
    omega

theorem length_encodeFields_of_readFields {k : ℕ} {fields : List Field} {bytes : List UInt8}
    (h : readFields k bytes = some fields) :
    (encodeFields fields).length ≤ bytes.length := by
  induction k generalizing bytes fields with
  | zero =>
      cases bytes with
      | nil =>
          obtain rfl : [] = fields := by simpa [readFields] using h
          exact Nat.le_refl _
      | cons b bytes => cases h
  | succ k ih =>
      cases bytes with
      | nil =>
          obtain rfl : [] = fields := by simpa [readFields] using h
          exact Nat.le_refl _
      | cons b bytes =>
          rw [readFields, Option.bind_eq_some_iff] at h
          obtain ⟨⟨f, rest⟩, hread, h⟩ := h
          rw [Option.map_eq_some_iff] at h
          obtain ⟨fields', hfields, rfl⟩ := h
          have hf := length_encode_of_readField hread
          have hrest := ih hfields
          have hcons : encodeFields (f :: fields') = f.encode ++ encodeFields fields' := rfl
          rw [hcons, List.length_append]
          simp only [] at hrest ⊢
          omega

/-- **Encoding is minimal**: no byte string is shorter than the encoding of the fields it
reads as. -/
theorem length_encodeFields_of_parseFields {fields : List Field} {bytes : List UInt8}
    (h : parseFields bytes = some fields) : (encodeFields fields).length ≤ bytes.length :=
  length_encodeFields_of_readFields h

end Proto3

end Csci6780
