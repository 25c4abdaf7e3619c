import Mathlib.Data.Int.Notation
import Csci6780.Lib.Framing

/-!
# The Wire Protocol

This module embeds `common/wire_protocol`: `Serialize`, which writes a protobuf message
behind a 32-bit big-endian length, and `MessageParser`, the three-state machine that
reads such messages back from data that arrives in arbitrary pieces.

The parser's 32-bit quantities are `UInt32` and its arithmetic wraps as the source's
does; `data.size() - start_offset`, a 64-bit subtraction stored in 32 bits, is the same
subtraction taken modulo `2 ^ 32`. Byte vectors are lists, changed only through `resize`
and `copyInto`, the two operations the source changes them with.

Protobuf itself is not part of the repository. `Protobuf Msg` collects the three members
of a generated message class that the wire protocol calls, and `Protobuf.Lawful` what the
code relies on: a message of fewer than `2 ^ 31` bytes can be written, `ByteSizeLong` is
the number of bytes written, and parsing those bytes gives the message back.

## Main results

* `serialize_eq_frame`: `Serialize` writes the frame of the message's encoding, whatever
  the output buffer held before.
* `parseLength_spec`, `parseMessage_spec`, `saveOverflow_spec`: what each of the three
  stages of `AddNewData` does to a parser in its own state.
-/

namespace Csci6780

/-! ### Protobuf -/

/-- The members of a protobuf message class that the wire protocol calls. A serializer or
parser that returns `false` is `none`; the size arguments are C `int`s. -/
structure Protobuf (Msg : Type) where
  byteSizeLong : Msg → ℕ
  serializeToArray : Msg → ℤ → Option (List UInt8)
  parseFromArray : List UInt8 → ℤ → Option Msg

namespace Protobuf

variable {Msg : Type}

/-- The bytes a message is written as. -/
def encoding (pb : Protobuf Msg) (message : Msg) : List UInt8 :=
  (pb.serializeToArray message (pb.byteSizeLong message)).getD []

/-- **What the wire protocol relies on.** A message that fits a C `int` is written in
exactly `ByteSizeLong` bytes, and parsing these gives it back. -/
structure Lawful (pb : Protobuf Msg) : Prop where
  serializes : ∀ message, pb.byteSizeLong message < 2 ^ 31 →
    ∃ bytes, pb.serializeToArray message (pb.byteSizeLong message) = some bytes ∧
      bytes.length = pb.byteSizeLong message
  parses : ∀ message, pb.byteSizeLong message < 2 ^ 31 →
    pb.parseFromArray (pb.encoding message) (pb.byteSizeLong message) = some message

theorem Lawful.serializeToArray_eq {pb : Protobuf Msg} (h : pb.Lawful) {message : Msg}
    (hsize : pb.byteSizeLong message < 2 ^ 31) :
    pb.serializeToArray message (pb.byteSizeLong message) = some (pb.encoding message) := by
  obtain ⟨bytes, hbytes, -⟩ := h.serializes message hsize
  rw [encoding, hbytes, Option.getD_some]

theorem Lawful.length_encoding {pb : Protobuf Msg} (h : pb.Lawful) {message : Msg}
    (hsize : pb.byteSizeLong message < 2 ^ 31) :
    (pb.encoding message).length = pb.byteSizeLong message := by
  obtain ⟨bytes, hbytes, hlen⟩ := h.serializes message hsize
  rw [encoding, hbytes, Option.getD_some, hlen]

end Protobuf

/-! ### Serialize -/

/-- `wire_protocol::Serialize`. The output buffer is passed in because the source resizes
the caller's vector in place: bytes it held before survive where nothing overwrites
them. -/
def serialize {Msg : Type} (pb : Protobuf Msg) (message : Msg) (serialized : List UInt8) :
    Bool × List UInt8 :=
  let kMessageSize := UInt32.ofNat (pb.byteSizeLong message)
  let sized := resize serialized (4 + kMessageSize.toNat)
  let packed := copyInto (toBigEndian kMessageSize) sized 0
  match pb.serializeToArray message kMessageSize.toInt32.toInt with
  | some bytes => (true, copyInto bytes packed 4)
  | none => (false, packed)

/-- A 32-bit word below `2 ^ 31` is the same number as a C `int`. -/
theorem toInt_toInt32_of_lt {n : UInt32} (h : n.toNat < 2 ^ 31) :
    n.toInt32.toInt = n.toNat := by
  have hbit : n.toInt32.toInt = n.toBitVec.toInt := rfl
  rw [hbit, BitVec.toInt_eq_toNat_of_lt]
  · rfl
  · have hn : n.toBitVec.toNat = n.toNat := rfl
    omega

/-- `static_cast<int>` of a size. -/
def sizeToInt (n : ℕ) : ℤ := (UInt32.ofNat n).toInt32.toInt

theorem sizeToInt_of_lt {n : ℕ} (h : n < 2 ^ 31) : sizeToInt n = n := by
  have hnat : (UInt32.ofNat n).toNat = n :=
    UInt32.toNat_ofNat_of_lt' (by rw [UInt32.size]; omega)
  rw [sizeToInt, toInt_toInt32_of_lt (by omega), hnat]

/-- What `ParseFromArray` makes of the body of a frame. -/
def Protobuf.parseBody {Msg : Type} (pb : Protobuf Msg) (body : List UInt8) : Option Msg :=
  pb.parseFromArray body (sizeToInt body.length)

theorem Protobuf.Lawful.parseBody_encoding {Msg : Type} {pb : Protobuf Msg} (h : pb.Lawful)
    {message : Msg} (hsize : pb.byteSizeLong message < 2 ^ 31) :
    pb.parseBody (pb.encoding message) = some message := by
  rw [Protobuf.parseBody, h.length_encoding hsize, sizeToInt_of_lt hsize,
    h.parses message hsize]

theorem length_resize (buffer : List UInt8) (n : ℕ) : (resize buffer n).length = n := by
  simp only [resize, List.length_append, List.length_take, List.length_replicate]
  omega

/-- **`Serialize` writes the frame of the encoding**, independently of what the output
buffer held. -/
theorem serialize_eq_frame {Msg : Type} {pb : Protobuf Msg} (h : pb.Lawful) {message : Msg}
    (hsize : pb.byteSizeLong message < 2 ^ 31) (serialized : List UInt8) :
    serialize pb message serialized = (true, frame (pb.encoding message)) := by
  have hnat : (UInt32.ofNat (pb.byteSizeLong message)).toNat = pb.byteSizeLong message :=
    UInt32.toNat_ofNat_of_lt' (by rw [UInt32.size]; omega)
  have hlen := h.length_encoding hsize
  have hint : (UInt32.ofNat (pb.byteSizeLong message)).toInt32.toInt =
      pb.byteSizeLong message := sizeToInt_of_lt hsize
  have hsized := length_resize serialized (4 + pb.byteSizeLong message)
  simp only [serialize, hint, hnat, h.serializeToArray_eq hsize]
  -- both copies fill the buffer exactly, so nothing of the old contents is left
  have hpacked : (copyInto (toBigEndian (UInt32.ofNat (pb.byteSizeLong message)))
      (resize serialized (4 + pb.byteSizeLong message)) 0).take 4 =
        toBigEndian (UInt32.ofNat (pb.byteSizeLong message)) := by
    have htake := take_copyInto (toBigEndian (UInt32.ofNat (pb.byteSizeLong message)))
      (Nat.zero_le (resize serialized (4 + pb.byteSizeLong message)).length)
    simpa only [length_toBigEndian, Nat.zero_add, List.take_zero, List.nil_append] using htake
  have hplen : (copyInto (toBigEndian (UInt32.ofNat (pb.byteSizeLong message)))
      (resize serialized (4 + pb.byteSizeLong message)) 0).length =
        4 + pb.byteSizeLong message := by
    rw [length_copyInto (by rw [hsized, length_toBigEndian]; omega), hsized]
  rw [copyInto, hpacked, frame, hlen,
    List.drop_of_length_le (Nat.le_of_eq hplen), List.append_nil]

/-! ### The parser -/

/-- `MessageParser::ParserState`. -/
inductive ParserState
  | parsingLength
  | parsingMessage
  | parsingDone
  deriving DecidableEq, Repr

/-- `wire_protocol::MessageParser`: the fields of the source and their initial values. -/
structure MessageParser where
  state : ParserState := .parsingLength
  partialLength : List UInt8 := [0, 0, 0, 0]
  gotLengthBytes : UInt32 := 0
  partialMessage : List UInt8 := []
  expectedLength : UInt32 := 4294967295
  overflowMessageData : List UInt8 := []
  deriving DecidableEq, Repr

namespace MessageParser

/-- `kNumLengthBytes`. -/
def kNumLengthBytes : UInt32 := 4

/-- `MessageParser::ParseLength`: the number of bytes consumed and the new parser. -/
def parseLength (p : MessageParser) (data : List UInt8) : UInt32 × MessageParser :=
  if p.state ≠ .parsingLength then (0, p)
  else
    let kLengthBytesToCopy :=
      min (UInt32.ofNat data.length) (kNumLengthBytes - p.gotLengthBytes)
    let copied : MessageParser :=
      { p with
        partialLength := copyInto (data.take kLengthBytesToCopy.toNat) p.partialLength
          p.gotLengthBytes.toNat
        gotLengthBytes := p.gotLengthBytes + kLengthBytesToCopy }
    if copied.gotLengthBytes = kNumLengthBytes then
      (kLengthBytesToCopy,
        { copied with
          state := .parsingMessage
          expectedLength := fromBigEndian copied.partialLength })
    else (kLengthBytesToCopy, copied)

/-- `MessageParser::ParseMessage`: the number of bytes consumed and the new parser. -/
def parseMessage (p : MessageParser) (data : List UInt8) (startOffset : UInt32) :
    UInt32 × MessageParser :=
  if p.state ≠ .parsingMessage then (0, p)
  else
    let kRemainingData := UInt32.ofNat data.length - startOffset
    let kCurrentLength := UInt32.ofNat p.partialMessage.length
    let kNumBytesToCopy := min kRemainingData (p.expectedLength - kCurrentLength)
    let copied : MessageParser :=
      { p with
        partialMessage :=
          copyInto ((data.drop startOffset.toNat).take kNumBytesToCopy.toNat)
            (resize p.partialMessage (kCurrentLength + kNumBytesToCopy).toNat)
            kCurrentLength.toNat }
    if copied.partialMessage.length = p.expectedLength.toNat then
      (kNumBytesToCopy, { copied with state := .parsingDone })
    else (kNumBytesToCopy, copied)

/-- `MessageParser::SaveOverflow`. -/
def saveOverflow (p : MessageParser) (data : List UInt8) (startOffset : UInt32) :
    MessageParser :=
  if p.state ≠ .parsingDone then p
  else
    let kRemainingData := UInt32.ofNat data.length - startOffset
    let kCurrentOverflowSize := UInt32.ofNat p.overflowMessageData.length
    { p with
      overflowMessageData :=
        copyInto (data.drop startOffset.toNat)
          (resize p.overflowMessageData (kCurrentOverflowSize + kRemainingData).toNat)
          kCurrentOverflowSize.toNat }

/-- `MessageParser::AddNewData`. -/
def addNewData (p : MessageParser) (data : List UInt8) : MessageParser :=
  let length := p.parseLength data
  let message := length.2.parseMessage data length.1
  message.2.saveOverflow data (length.1 + message.1)

/-- `MessageParser::HasCompleteMessage`. -/
def hasCompleteMessage (p : MessageParser) : Bool := p.state = .parsingDone

/-- `MessageParser::ResetParser`. The partial length is left as it is. -/
def resetParser (p : MessageParser) : MessageParser :=
  { p with
    state := .parsingLength
    gotLengthBytes := 0
    partialMessage := []
    expectedLength := 4294967295
    overflowMessageData := [] }

/-- `MessageParser::HasOverflow`. -/
def hasOverflow (p : MessageParser) : Bool := !p.overflowMessageData.isEmpty

/-- `MessageParser::GetOverflow`. -/
def getOverflow (p : MessageParser) : List UInt8 := p.overflowMessageData

/-- `MessageParser::HasPartialMessage`. -/
def hasPartialMessage (p : MessageParser) : Bool :=
  !p.partialMessage.isEmpty || p.gotLengthBytes != 0

/-- What `GetMessage` does to the parser when a message is complete: reset, then parse
the start of the next message from the overflow data. -/
def nextMessage (p : MessageParser) : MessageParser :=
  p.resetParser.addNewData p.overflowMessageData

/-- The arguments of the `ParseFromArray` call of `GetMessage`, if it makes one. -/
def parseArguments (p : MessageParser) : Option (List UInt8 × ℤ) :=
  if p.hasCompleteMessage then some (p.partialMessage, p.expectedLength.toInt32.toInt)
  else none

/-- `MessageParser::GetMessage`: the message, or `none` where the source returns `false`,
and the new parser. -/
def getMessage {Msg : Type} (pb : Protobuf Msg) (p : MessageParser) :
    Option Msg × MessageParser :=
  match p.parseArguments with
  | none => (none, p)
  | some (data, size) => (pb.parseFromArray data size, p.nextMessage)

/-! ### The three stages of `AddNewData` -/

theorem parseLength_of_ne {p : MessageParser} (h : p.state ≠ .parsingLength)
    (data : List UInt8) : p.parseLength data = (0, p) := by
  rw [parseLength, if_pos h]

theorem parseMessage_of_ne {p : MessageParser} (h : p.state ≠ .parsingMessage)
    (data : List UInt8) (start : UInt32) : p.parseMessage data start = (0, p) := by
  rw [parseMessage, if_pos h]

theorem saveOverflow_of_ne {p : MessageParser} (h : p.state ≠ .parsingDone)
    (data : List UInt8) (start : UInt32) : p.saveOverflow data start = p := by
  rw [saveOverflow, if_pos h]

/-- `ParseLength` moves as many bytes as are missing of the prefix, or as many as there
are, and enters `PARSING_MESSAGE` exactly when the prefix is complete. -/
theorem parseLength_spec {p : MessageParser} (hstate : p.state = .parsingLength)
    (hgot : p.gotLengthBytes.toNat < 4) (hlen : p.partialLength.length = 4)
    {data : List UInt8} (hdata : data.length < 2 ^ 32) :
    ∃ k pl, k = min data.length (4 - p.gotLengthBytes.toNat) ∧
      pl.length = 4 ∧
      pl.take (p.gotLengthBytes.toNat + k) =
        p.partialLength.take p.gotLengthBytes.toNat ++ data.take k ∧
      (p.parseLength data).1.toNat = k ∧
      (p.parseLength data).2 =
        { p with
          partialLength := pl
          gotLengthBytes := UInt32.ofNat (p.gotLengthBytes.toNat + k)
          state :=
            if p.gotLengthBytes.toNat + k = 4 then .parsingMessage else .parsingLength
          expectedLength :=
            if p.gotLengthBytes.toNat + k = 4 then fromBigEndian pl
            else p.expectedLength } := by
  have hle : p.gotLengthBytes ≤ kNumLengthBytes := by
    rw [UInt32.le_iff_toNat_le, kNumLengthBytes]
    have : (4 : UInt32).toNat = 4 := rfl
    omega
  have hsub : (kNumLengthBytes - p.gotLengthBytes).toNat = 4 - p.gotLengthBytes.toNat :=
    UInt32.toNat_sub_of_le _ _ hle
  have hsize : (UInt32.ofNat data.length).toNat = data.length :=
    UInt32.toNat_ofNat_of_lt' hdata
  have hk : (min (UInt32.ofNat data.length) (kNumLengthBytes - p.gotLengthBytes)).toNat =
      min data.length (4 - p.gotLengthBytes.toNat) := by
    rw [UInt32.toNat_min, hsize, hsub]
  set k := min (UInt32.ofNat data.length) (kNumLengthBytes - p.gotLengthBytes) with hkdef
  have hadd : p.gotLengthBytes + k = UInt32.ofNat (p.gotLengthBytes.toNat + k.toNat) := by
    refine UInt32.toNat_inj.mp ?_
    rw [UInt32.toNat_add, UInt32.toNat_ofNat']
  have hfull : p.gotLengthBytes + k = kNumLengthBytes ↔
      p.gotLengthBytes.toNat + k.toNat = 4 := by
    rw [hadd, ← UInt32.toNat_inj, UInt32.toNat_ofNat_of_lt' (by rw [UInt32.size]; omega)]
    rfl
  have htake : (data.take k.toNat).length = k.toNat := by
    rw [List.length_take]
    omega
  refine ⟨k.toNat, copyInto (data.take k.toNat) p.partialLength p.gotLengthBytes.toNat,
    hk, ?_, ?_, ?_⟩
  · rw [length_copyInto (by omega), hlen]
  · have hoff : p.gotLengthBytes.toNat ≤ p.partialLength.length := by omega
    have h := take_copyInto (data.take k.toNat) hoff
    rwa [htake] at h
  · have hdef : p.parseLength data = (if p.gotLengthBytes + k = kNumLengthBytes then
        (k, { p with
          partialLength := copyInto (data.take k.toNat) p.partialLength
            p.gotLengthBytes.toNat
          gotLengthBytes := p.gotLengthBytes + k
          state := .parsingMessage
          expectedLength := fromBigEndian
            (copyInto (data.take k.toNat) p.partialLength p.gotLengthBytes.toNat) })
        else (k, { p with
          partialLength := copyInto (data.take k.toNat) p.partialLength
            p.gotLengthBytes.toNat
          gotLengthBytes := p.gotLengthBytes + k })) := by
      rw [parseLength, if_neg (by simp [hstate])]
    by_cases hc : p.gotLengthBytes.toNat + k.toNat = 4
    · rw [hdef, if_pos (hfull.mpr hc), if_pos hc, if_pos hc, hadd]
      exact ⟨rfl, rfl⟩
    · rw [hdef, if_neg (fun h => hc (hfull.mp h)), if_neg hc, if_neg hc, hadd, ← hstate]
      exact ⟨rfl, rfl⟩

/-- `ParseMessage` appends as many bytes as are missing of the message, or as many as
there are from the offset on, and enters `PARSING_DONE` exactly when none is missing. -/
theorem parseMessage_spec {p : MessageParser} (hstate : p.state = .parsingMessage)
    (hlen : p.partialMessage.length ≤ p.expectedLength.toNat)
    {data : List UInt8} (hdata : data.length < 2 ^ 32) {start : UInt32}
    (hstart : start.toNat ≤ data.length) :
    ∃ k, k = min (data.length - start.toNat)
        (p.expectedLength.toNat - p.partialMessage.length) ∧
      (p.parseMessage data start).1.toNat = k ∧
      (p.parseMessage data start).2 =
        { p with
          partialMessage := p.partialMessage ++ (data.drop start.toNat).take k
          state :=
            if p.partialMessage.length + k = p.expectedLength.toNat then .parsingDone
            else .parsingMessage } := by
  have hexp : p.expectedLength.toNat < 2 ^ 32 := p.expectedLength.toNat_lt
  have hsize : (UInt32.ofNat data.length).toNat = data.length :=
    UInt32.toNat_ofNat_of_lt' hdata
  have hcur : (UInt32.ofNat p.partialMessage.length).toNat = p.partialMessage.length :=
    UInt32.toNat_ofNat_of_lt' (by rw [UInt32.size]; omega)
  have hrem : (UInt32.ofNat data.length - start).toNat = data.length - start.toNat := by
    rw [UInt32.toNat_sub_of_le _ _ (by rw [UInt32.le_iff_toNat_le, hsize]; exact hstart),
      hsize]
  have hmiss : (p.expectedLength - UInt32.ofNat p.partialMessage.length).toNat =
      p.expectedLength.toNat - p.partialMessage.length := by
    rw [UInt32.toNat_sub_of_le _ _ (by rw [UInt32.le_iff_toNat_le, hcur]; exact hlen), hcur]
  set k := min (UInt32.ofNat data.length - start)
    (p.expectedLength - UInt32.ofNat p.partialMessage.length) with hkdef
  have hk : k.toNat = min (data.length - start.toNat)
      (p.expectedLength.toNat - p.partialMessage.length) := by
    rw [hkdef, UInt32.toNat_min, hrem, hmiss]
  have hsum : (UInt32.ofNat p.partialMessage.length + k).toNat =
      p.partialMessage.length + k.toNat := by
    rw [UInt32.toNat_add, hcur]
    exact Nat.mod_eq_of_lt (by omega)
  have htake : ((data.drop start.toNat).take k.toNat).length = k.toNat := by
    rw [List.length_take, List.length_drop]
    omega
  have hcopy : copyInto ((data.drop start.toNat).take k.toNat)
      (resize p.partialMessage (UInt32.ofNat p.partialMessage.length + k).toNat)
      (UInt32.ofNat p.partialMessage.length).toNat =
        p.partialMessage ++ (data.drop start.toNat).take k.toNat := by
    have h := copyInto_resize_add p.partialMessage ((data.drop start.toNat).take k.toNat)
    rw [htake] at h
    rw [hsum, hcur, h]
  refine ⟨k.toNat, hk, ?_⟩
  have hdef : p.parseMessage data start =
      (if (p.partialMessage ++ (data.drop start.toNat).take k.toNat).length =
          p.expectedLength.toNat then
        (k, { p with
          partialMessage := p.partialMessage ++ (data.drop start.toNat).take k.toNat
          state := .parsingDone })
      else (k, { p with
          partialMessage := p.partialMessage ++ (data.drop start.toNat).take k.toNat })) := by
    rw [parseMessage, if_neg (by simp [hstate])]
    simp only [← hkdef, hcopy]
  rw [hdef, List.length_append, htake]
  by_cases hc : p.partialMessage.length + k.toNat = p.expectedLength.toNat
  · rw [if_pos hc, if_pos hc]
    exact ⟨rfl, rfl⟩
  · rw [if_neg hc, if_neg hc, ← hstate]
    exact ⟨rfl, rfl⟩

/-- `SaveOverflow` appends everything from the offset on. -/
theorem saveOverflow_spec {p : MessageParser} (hstate : p.state = .parsingDone)
    (data : List UInt8) (start : UInt32) (hstart : start.toNat ≤ data.length)
    (hsum : p.overflowMessageData.length + data.length < 2 ^ 32) :
    p.saveOverflow data start =
      { p with
        overflowMessageData := p.overflowMessageData ++ data.drop start.toNat } := by
  have hsize : (UInt32.ofNat data.length).toNat = data.length :=
    UInt32.toNat_ofNat_of_lt' (by rw [UInt32.size]; omega)
  have hcur : (UInt32.ofNat p.overflowMessageData.length).toNat =
      p.overflowMessageData.length :=
    UInt32.toNat_ofNat_of_lt' (by rw [UInt32.size]; omega)
  have hrem : (UInt32.ofNat data.length - start).toNat = data.length - start.toNat := by
    rw [UInt32.toNat_sub_of_le _ _ (by rw [UInt32.le_iff_toNat_le, hsize]; exact hstart),
      hsize]
  have hadd : (UInt32.ofNat p.overflowMessageData.length +
      (UInt32.ofNat data.length - start)).toNat =
        p.overflowMessageData.length + (data.drop start.toNat).length := by
    rw [UInt32.toNat_add, hcur, hrem, List.length_drop]
    exact Nat.mod_eq_of_lt (by omega)
  rw [saveOverflow, if_neg (by simp [hstate])]
  simp only [hcur, hadd, copyInto_resize_add]

end MessageParser

end Csci6780
