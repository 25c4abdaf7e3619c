import Csci6780.WireProtocol

/-!
# The Parser Refines the Stream Decoder

The six fields of `MessageParser` hold one thing: the bytes that have been fed and not
yet handed out. `MessageParser.pending` reads that list off the fields, and
`MessageParser.WellFormed` is the representation invariant that makes the reading exact:
each state of the machine pins down which part of the list each field holds. With the
invariant, every observer of the parser is a function of `pending` in the terms of
`Csci6780.Lib.Framing`.

The only bound is arithmetical: the parser keeps sizes in 32 bits, so a feed must not
bring the data it adds, or the overflow buffer, to `2 ^ 32` bytes (`Fits`).

## Main results

* `hasCompleteMessage_iff`: a message is complete exactly when `HasFrame p.pending`.
* `getOverflow_eq`, `hasPartialMessage_iff`: the other two observers.
* `feeds`: feeding appends to `pending`.
* `nextMessage_spec`: `GetMessage` drops exactly the first frame.
-/

namespace Csci6780

namespace MessageParser

/-! ### The abstraction function and the representation invariant -/

/-- The bytes that have been fed to the parser and not yet handed out. -/
def pending (p : MessageParser) : List UInt8 :=
  p.partialLength.take p.gotLengthBytes.toNat ++ (p.partialMessage ++ p.overflowMessageData)

/-- The representation invariant between two calls. -/
structure WellFormed (p : MessageParser) : Prop where
  length_partialLength : p.partialLength.length = 4
  of_length : p.state = .parsingLength →
    p.gotLengthBytes.toNat < 4 ∧ p.partialMessage = [] ∧ p.overflowMessageData = []
  of_message : p.state = .parsingMessage →
    p.gotLengthBytes = 4 ∧ p.expectedLength = fromBigEndian p.partialLength ∧
      p.partialMessage.length < p.expectedLength.toNat ∧ p.overflowMessageData = []
  of_done : p.state = .parsingDone →
    p.gotLengthBytes = 4 ∧ p.expectedLength = fromBigEndian p.partialLength ∧
      p.partialMessage.length = p.expectedLength.toNat

/-- Feeding `data` keeps the parser's sizes within their 32 bits. -/
def Fits (p : MessageParser) (data : List UInt8) : Prop :=
  p.overflowMessageData.length + data.length < 2 ^ 32

/-- A parser as it is constructed is well formed. -/
theorem wellFormed_fresh : WellFormed {} where
  length_partialLength := rfl
  of_length := by simp
  of_message := by simp
  of_done := by simp

@[simp] theorem pending_fresh : pending {} = [] := rfl

/-- `ResetParser` leaves a well-formed parser with nothing pending. -/
theorem WellFormed.resetParser {p : MessageParser} (h : p.WellFormed) :
    p.resetParser.WellFormed where
  length_partialLength := h.length_partialLength
  of_length := by simp [MessageParser.resetParser]
  of_message := by simp [MessageParser.resetParser]
  of_done := by simp [MessageParser.resetParser]

@[simp] theorem pending_resetParser (p : MessageParser) : p.resetParser.pending = [] := by
  simp [MessageParser.resetParser, pending]

/-! ### Reading the observers off `pending` -/

/-- While the length is being read, `pending` is the part of the prefix that is there. -/
theorem WellFormed.pending_of_length {p : MessageParser} (h : p.WellFormed)
    (hstate : p.state = .parsingLength) :
    p.pending = p.partialLength.take p.gotLengthBytes.toNat ∧ p.pending.length < 4 := by
  obtain ⟨hgot, hmsg, hover⟩ := h.of_length hstate
  have hpend : p.pending = p.partialLength.take p.gotLengthBytes.toNat := by
    rw [pending, hmsg, hover, List.append_nil, List.append_nil]
  refine ⟨hpend, ?_⟩
  rw [hpend, List.length_take]
  omega

/-- Once the length is known, `pending` begins with the whole prefix. -/
theorem pending_eq_append {p : MessageParser} (hlen : p.partialLength.length = 4)
    (hgot : p.gotLengthBytes = 4) :
    p.pending = p.partialLength ++ (p.partialMessage ++ p.overflowMessageData) := by
  have hfour : (4 : UInt32).toNat = 4 := rfl
  rw [pending, hgot, hfour, List.take_of_length_le (by omega)]

/-- Once the length is known, it is the length the pending bytes announce. -/
theorem frameLength_pending {p : MessageParser} (hlen : p.partialLength.length = 4)
    (hgot : p.gotLengthBytes = 4) (hexp : p.expectedLength = fromBigEndian p.partialLength) :
    frameLength p.pending = p.expectedLength.toNat := by
  rw [pending_eq_append hlen hgot, frameLength, List.take_left' hlen, hexp]

/-- **A message is complete exactly when the pending bytes begin with a whole frame.** -/
theorem WellFormed.hasCompleteMessage_iff {p : MessageParser} (h : p.WellFormed) :
    p.hasCompleteMessage = true ↔ HasFrame p.pending := by
  have hlen := h.length_partialLength
  simp only [hasCompleteMessage, decide_eq_true_eq]
  cases hstate : p.state with
  | parsingLength =>
      obtain ⟨-, hlt⟩ := h.pending_of_length hstate
      simp only [reduceCtorEq, false_iff]
      rintro ⟨hle, -⟩
      omega
  | parsingMessage =>
      obtain ⟨hgot, hexp, hmsg, hover⟩ := h.of_message hstate
      simp only [reduceCtorEq, false_iff]
      rintro ⟨-, hle⟩
      rw [frameLength_pending hlen hgot hexp, pending_eq_append hlen hgot, hover,
        List.append_nil, List.length_append] at hle
      omega
  | parsingDone =>
      obtain ⟨hgot, hexp, hmsg⟩ := h.of_done hstate
      simp only [true_iff]
      refine ⟨?_, ?_⟩
      · rw [pending_eq_append hlen hgot, List.length_append]
        omega
      · rw [frameLength_pending hlen hgot hexp, pending_eq_append hlen hgot,
          List.length_append, List.length_append]
        omega

/-- With a complete message, the message buffer is the body of the first pending frame,
the overflow buffer what follows it, and the expected length the body's length. -/
theorem WellFormed.fields_of_hasFrame {p : MessageParser} (h : p.WellFormed)
    (hf : HasFrame p.pending) :
    p.state = .parsingDone ∧ p.partialMessage = frameBody p.pending ∧
      p.overflowMessageData = afterFrame p.pending ∧
      p.expectedLength.toNat = (frameBody p.pending).length := by
  have hstate : p.state = .parsingDone := by
    simpa [hasCompleteMessage] using h.hasCompleteMessage_iff.mpr hf
  obtain ⟨hgot, hexp, hmsg⟩ := h.of_done hstate
  have hlen := h.length_partialLength
  have hfl := frameLength_pending hlen hgot hexp
  have hdrop : p.pending.drop 4 = p.partialMessage ++ p.overflowMessageData := by
    rw [pending_eq_append hlen hgot, List.drop_left' hlen]
  refine ⟨hstate, ?_, ?_, ?_⟩
  · rw [frameBody, hfl, hdrop, List.take_left' hmsg]
  · rw [afterFrame, hfl, ← List.drop_drop, hdrop, List.drop_left' hmsg]
  · rw [hf.length_frameBody, hfl]

/-- Without a complete message there is no overflow data. -/
theorem WellFormed.overflow_of_not_hasFrame {p : MessageParser} (h : p.WellFormed)
    (hf : ¬ HasFrame p.pending) : p.overflowMessageData = [] := by
  cases hstate : p.state with
  | parsingLength => exact (h.of_length hstate).2.2
  | parsingMessage => exact (h.of_message hstate).2.2.2
  | parsingDone =>
      have hdone : p.hasCompleteMessage = true := by simp [hasCompleteMessage, hstate]
      exact absurd (h.hasCompleteMessage_iff.mp hdone) hf

/-- The overflow buffer never holds more than is pending. -/
theorem length_overflow_le (p : MessageParser) :
    p.overflowMessageData.length ≤ p.pending.length := by
  rw [pending, List.length_append, List.length_append]
  omega

/-- The overflow data is what follows the first pending frame, if it is complete. -/
theorem WellFormed.getOverflow_eq {p : MessageParser} (h : p.WellFormed) :
    p.getOverflow = if HasFrame p.pending then afterFrame p.pending else [] := by
  by_cases hf : HasFrame p.pending
  · rw [if_pos hf, getOverflow, (h.fields_of_hasFrame hf).2.2.1]
  · rw [if_neg hf, getOverflow, h.overflow_of_not_hasFrame hf]

/-- There is a partial message exactly when something is pending. -/
theorem WellFormed.hasPartialMessage_iff {p : MessageParser} (h : p.WellFormed) :
    p.hasPartialMessage = true ↔ p.pending ≠ [] := by
  have hlen := h.length_partialLength
  have hfour : ∀ n : UInt32, n = 4 → n ≠ 0 ∧ p.partialLength.take n.toNat ≠ [] := by
    rintro n rfl
    refine ⟨by decide, ?_⟩
    have hfour : (4 : UInt32).toNat = 4 := rfl
    rw [hfour, ne_eq, List.take_eq_nil_iff]
    rintro (h0 | h0)
    · omega
    · rw [h0] at hlen
      exact absurd hlen (by decide)
  cases hstate : p.state with
  | parsingLength =>
      obtain ⟨hgot, hmsg, hover⟩ := h.of_length hstate
      obtain ⟨hpend, -⟩ := h.pending_of_length hstate
      have hzero : p.gotLengthBytes = 0 ↔ p.pending = [] := by
        rw [hpend, List.take_eq_nil_iff, ← UInt32.toNat_inj]
        have h0 : (0 : UInt32).toNat = 0 := rfl
        constructor
        · intro hg
          exact Or.inl (by omega)
        · rintro (hg | hnil)
          · omega
          · rw [hnil] at hlen
            exact absurd hlen (by decide)
      simp [hasPartialMessage, hmsg, hzero]
  | parsingMessage =>
      obtain ⟨hgot, -⟩ := h.of_message hstate
      obtain ⟨hne, htake⟩ := hfour _ hgot
      simp [hasPartialMessage, pending, hne, htake]
  | parsingDone =>
      obtain ⟨hgot, -⟩ := h.of_done hstate
      obtain ⟨hne, htake⟩ := hfour _ hgot
      simp [hasPartialMessage, pending, hne, htake]

/-! ### The 32-bit subtractions

One call of `AddNewData` evaluates up to four subtractions in 32 bits. They are listed
here, minuend first, under the guards the source evaluates them under. -/

/-- `kNumLengthBytes - got_length_bytes_`. -/
def lengthSubtractions (p : MessageParser) : List (ℕ × ℕ) :=
  if p.state = .parsingLength then [(4, p.gotLengthBytes.toNat)] else []

/-- `data.size() - start_offset` and `expected_length_ - kCurrentLength`. -/
def messageSubtractions (p : MessageParser) (data : List UInt8) (start : UInt32) :
    List (ℕ × ℕ) :=
  if p.state = .parsingMessage then
    [(data.length, start.toNat), (p.expectedLength.toNat, p.partialMessage.length)]
  else []

/-- `data.size() - start_offset` of `SaveOverflow`. -/
def overflowSubtractions (p : MessageParser) (data : List UInt8) (start : UInt32) :
    List (ℕ × ℕ) :=
  if p.state = .parsingDone then [(data.length, start.toNat)] else []

/-- Every subtraction of one `AddNewData` call. -/
def addSubtractions (p : MessageParser) (data : List UInt8) : List (ℕ × ℕ) :=
  let length := p.parseLength data
  let message := length.2.parseMessage data length.1
  p.lengthSubtractions ++ length.2.messageSubtractions data length.1 ++
    message.2.overflowSubtractions data (length.1 + message.1)

/-- No subtraction of the list wraps: the subtrahend is at most the minuend, and the
minuend is a 32-bit number. -/
def NoWrap (subtractions : List (ℕ × ℕ)) : Prop :=
  ∀ s ∈ subtractions, s.2 ≤ s.1 ∧ s.1 < 2 ^ 32

theorem NoWrap.append {as bs : List (ℕ × ℕ)} (ha : NoWrap as) (hb : NoWrap bs) :
    NoWrap (as ++ bs) := by
  intro s hs
  rcases List.mem_append.mp hs with h | h
  · exact ha s h
  · exact hb s h

/-! ### Feeding -/

/-- The last two stages of `AddNewData` in a parser that knows its length: everything
from the offset on is appended to the pending bytes. -/
theorem parseMessage_saveOverflow_spec {p : MessageParser} (hlen : p.partialLength.length = 4)
    (hstate : p.state = .parsingMessage) (hgot : p.gotLengthBytes = 4)
    (hexp : p.expectedLength = fromBigEndian p.partialLength)
    (hmsg : p.partialMessage.length ≤ p.expectedLength.toNat)
    (hover : p.overflowMessageData = []) {data : List UInt8} (hdata : data.length < 2 ^ 32)
    (start : UInt32) (hstart : start.toNat ≤ data.length) :
    let message := p.parseMessage data start
    let final := message.2.saveOverflow data (start + message.1)
    final.WellFormed ∧ final.pending = p.pending ++ data.drop start.toNat ∧
      NoWrap (p.messageSubtractions data start ++
        message.2.overflowSubtractions data (start + message.1)) := by
  obtain ⟨k, hk, hfst, hsnd⟩ := parseMessage_spec hstate hmsg hdata hstart
  have hadd : (start + (p.parseMessage data start).1).toNat = start.toNat + k := by
    rw [UInt32.toNat_add, hfst]
    exact Nat.mod_eq_of_lt (by omega)
  have hexp32 : p.expectedLength.toNat < 2 ^ 32 := p.expectedLength.toNat_lt
  have htake : ((data.drop start.toNat).take k).length = k := by
    rw [List.length_take, List.length_drop]
    omega
  have hsubs : NoWrap (p.messageSubtractions data start) := by
    rw [messageSubtractions, if_pos hstate]
    rintro s (_ | ⟨_, _ | ⟨_, hs⟩⟩)
    · exact ⟨hstart, hdata⟩
    · exact ⟨hmsg, hexp32⟩
    · cases hs
  have hoversubs : NoWrap ((p.parseMessage data start).2.overflowSubtractions data
      (start + (p.parseMessage data start).1)) := by
    rw [overflowSubtractions]
    split
    · rintro s (_ | ⟨_, hs⟩)
      · exact ⟨by rw [hadd]; omega, hdata⟩
      · cases hs
    · rintro s hs
      cases hs
  have hpend := pending_eq_append hlen hgot
  by_cases hc : p.partialMessage.length + k = p.expectedLength.toNat
  · -- the message is complete: what is left of the data becomes overflow
    rw [if_pos hc] at hsnd
    have hdone : (p.parseMessage data start).2.state = .parsingDone := by rw [hsnd]
    have hsave := saveOverflow_spec hdone data (start + (p.parseMessage data start).1)
      (by omega) (by rw [hsnd, hover]; simpa using hdata)
    have hfinal : (p.parseMessage data start).2.saveOverflow data
        (start + (p.parseMessage data start).1) =
          { p with
            partialMessage := p.partialMessage ++ (data.drop start.toNat).take k
            state := .parsingDone
            overflowMessageData := data.drop (start.toNat + k) } := by
      rw [hsave, hadd, hsnd, hover, List.nil_append]
    refine ⟨?_, ?_, hsubs.append hoversubs⟩
    · rw [hfinal]
      exact {
        length_partialLength := hlen
        of_length := by simp
        of_message := by simp
        of_done := fun _ => ⟨hgot, hexp, by rw [List.length_append, htake]; exact hc⟩ }
    · have hsplit : (data.drop start.toNat).take k ++ data.drop (start.toNat + k) =
          data.drop start.toNat := by
        rw [← List.drop_drop, List.take_append_drop]
      rw [hfinal, pending_eq_append (p := { p with
            partialMessage := p.partialMessage ++ (data.drop start.toNat).take k
            state := .parsingDone
            overflowMessageData := data.drop (start.toNat + k) }) hlen hgot, hpend, hover]
      simp only [List.append_nil, List.append_assoc, hsplit]
  · -- the data was used up
    rw [if_neg hc] at hsnd
    have hall : (data.drop start.toNat).take k = data.drop start.toNat := by
      refine List.take_of_length_le ?_
      rw [List.length_drop]
      omega
    have hfinal : (p.parseMessage data start).2.saveOverflow data
        (start + (p.parseMessage data start).1) =
          { p with
            partialMessage := p.partialMessage ++ data.drop start.toNat
            state := .parsingMessage } := by
      rw [saveOverflow_of_ne (by rw [hsnd]; simp), hsnd, hall]
    refine ⟨?_, ?_, hsubs.append hoversubs⟩
    · rw [hfinal]
      exact {
        length_partialLength := hlen
        of_length := by simp
        of_message := fun _ => ⟨hgot, hexp, by
          rw [← hall, List.length_append, htake]
          show p.partialMessage.length + k < p.expectedLength.toNat
          omega, hover⟩
        of_done := by simp }
    · rw [hfinal, pending_eq_append (p := { p with
            partialMessage := p.partialMessage ++ data.drop start.toNat
            state := .parsingMessage }) hlen hgot, hpend, hover]
      simp only [List.append_nil, List.append_assoc]

/-- What one `AddNewData` call has to do. -/
structure Feeds (p : MessageParser) (data : List UInt8) : Prop where
  wellFormed : (p.addNewData data).WellFormed
  pending_eq : (p.addNewData data).pending = p.pending ++ data
  noWrap : NoWrap (p.addSubtractions data)

theorem WellFormed.noWrap_lengthSubtractions {p : MessageParser} (h : p.WellFormed) :
    NoWrap p.lengthSubtractions := by
  rw [lengthSubtractions]
  split
  · rename_i hstate
    have hgot := (h.of_length hstate).1
    rintro s (_ | ⟨_, hs⟩)
    · exact ⟨by omega, by omega⟩
    · cases hs
  · rintro s hs
    cases hs

/-- Feeding while the length is being read, with enough data to complete it: the
remaining stages run in `PARSING_MESSAGE`. -/
theorem WellFormed.feeds_of_prefix_complete {p : MessageParser} (h : p.WellFormed)
    {data : List UInt8} (hdata : data.length < 2 ^ 32) (hstate : p.state = .parsingLength)
    (hc : 4 ≤ p.gotLengthBytes.toNat + data.length) : p.Feeds data := by
  have hlen := h.length_partialLength
  obtain ⟨hgot, hmsg, hover⟩ := h.of_length hstate
  obtain ⟨k, pl, hk, hpl, htake, hfst, hsnd⟩ := parseLength_spec hstate hgot hlen hdata
  have hfull : p.gotLengthBytes.toNat + k = 4 := by omega
  rw [if_pos hfull, if_pos hfull, hfull] at hsnd
  have hfour : UInt32.ofNat 4 = 4 := rfl
  have hpl4 : pl = p.partialLength.take p.gotLengthBytes.toNat ++ data.take k := by
    rw [← htake, hfull, List.take_of_length_le (by omega)]
  obtain ⟨hwf, hpend, hsubs⟩ := parseMessage_saveOverflow_spec
    (p := (p.parseLength data).2) (by rw [hsnd]; exact hpl) (by rw [hsnd])
    (by rw [hsnd, hfour]) (by rw [hsnd]) (by rw [hsnd, hmsg]; exact Nat.zero_le _)
    (by rw [hsnd, hover]) hdata (p.parseLength data).1 (by omega)
  refine ⟨hwf, ?_, ?_⟩
  · have hlpend : (p.parseLength data).2.pending =
        p.partialLength.take p.gotLengthBytes.toNat ++ data.take k := by
      rw [pending_eq_append (by rw [hsnd]; exact hpl) (by rw [hsnd, hfour]), hsnd, hmsg,
        hover, ← hpl4]
      simp
    have hmain : (p.addNewData data).pending =
        (p.parseLength data).2.pending ++ data.drop (p.parseLength data).1.toNat := hpend
    rw [hmain, hlpend, hfst, (h.pending_of_length hstate).1, List.append_assoc,
      List.take_append_drop]
  · have hmain := h.noWrap_lengthSubtractions.append hsubs
    rw [← List.append_assoc] at hmain
    exact hmain

/-- Feeding while the length is being read, with data that ends inside the prefix. -/
theorem WellFormed.feeds_of_prefix_partial {p : MessageParser} (h : p.WellFormed)
    {data : List UInt8} (hdata : data.length < 2 ^ 32) (hstate : p.state = .parsingLength)
    (hc : p.gotLengthBytes.toNat + data.length < 4) : p.Feeds data := by
  obtain ⟨hgot, hmsg, hover⟩ := h.of_length hstate
  obtain ⟨k, pl, hk, hpl, htake, hfst, hsnd⟩ :=
    parseLength_spec hstate hgot h.length_partialLength hdata
  have hshort : p.gotLengthBytes.toNat + k ≠ 4 := by omega
  rw [if_neg hshort, if_neg hshort] at hsnd
  have hall : data.take k = data := List.take_of_length_le (by omega)
  have hnat : (UInt32.ofNat (p.gotLengthBytes.toNat + k)).toNat =
      p.gotLengthBytes.toNat + k :=
    UInt32.toNat_ofNat_of_lt' (by rw [UInt32.size]; omega)
  have hm := parseMessage_of_ne (p := (p.parseLength data).2) (by rw [hsnd]; simp) data
    (p.parseLength data).1
  have hfinal : p.addNewData data = (p.parseLength data).2 := by
    simp only [addNewData, hm]
    exact saveOverflow_of_ne (by rw [hsnd]; simp) _ _
  refine ⟨?_, ?_, ?_⟩
  · rw [hfinal, hsnd]
    exact {
      length_partialLength := hpl
      of_length := fun _ => ⟨by
        show (UInt32.ofNat (p.gotLengthBytes.toNat + k)).toNat < 4
        omega, hmsg, hover⟩
      of_message := by simp
      of_done := by simp }
  · rw [hfinal, (h.pending_of_length hstate).1, pending, hsnd]
    simp only [hnat, htake, hmsg, hover, hall, List.append_nil]
  · have hmsubs : (p.parseLength data).2.messageSubtractions data (p.parseLength data).1 =
        [] := by
      rw [messageSubtractions, hsnd]
      simp
    have hosubs : (p.parseLength data).2.overflowSubtractions data
        ((p.parseLength data).1 + 0) = [] := by
      rw [overflowSubtractions, hsnd]
      simp
    simp only [addSubtractions, hm, hmsubs, hosubs, List.append_nil]
    exact h.noWrap_lengthSubtractions

/-- Feeding while the message is being read. -/
theorem WellFormed.feeds_of_message {p : MessageParser} (h : p.WellFormed)
    {data : List UInt8} (hdata : data.length < 2 ^ 32) (hstate : p.state = .parsingMessage) :
    p.Feeds data := by
  obtain ⟨hgot, hexp, hmsg, hover⟩ := h.of_message hstate
  have hl := parseLength_of_ne (p := p) (by rw [hstate]; simp) data
  have hspec := parseMessage_saveOverflow_spec h.length_partialLength hstate hgot hexp
    (by omega) hover hdata 0 (Nat.zero_le _)
  have hlsubs : p.lengthSubtractions = [] := by
    rw [lengthSubtractions, hstate]
    simp
  obtain ⟨hwf, hpend, hsubs⟩ := hspec
  refine ⟨?_, ?_, ?_⟩
  · simpa only [addNewData, hl] using hwf
  · simpa only [addNewData, hl, UInt32.toNat_zero, List.drop_zero] using hpend
  · simpa only [addSubtractions, hl, hlsubs, List.nil_append] using hsubs

/-- Feeding while a complete message waits: everything is overflow. -/
theorem WellFormed.feeds_of_done {p : MessageParser} (h : p.WellFormed) {data : List UInt8}
    (hfits : p.Fits data) (hstate : p.state = .parsingDone) : p.Feeds data := by
  have hlen := h.length_partialLength
  obtain ⟨hgot, hexp, hmsg⟩ := h.of_done hstate
  have hl := parseLength_of_ne (p := p) (by rw [hstate]; simp) data
  have hm := parseMessage_of_ne (p := p) (by rw [hstate]; simp) data 0
  have hsave := saveOverflow_spec hstate data 0 (Nat.zero_le _) hfits
  have hfinal : p.addNewData data =
      { p with overflowMessageData := p.overflowMessageData ++ data } := by
    simpa only [addNewData, hl, hm, UInt32.add_zero, UInt32.toNat_zero,
      List.drop_zero] using hsave
  refine ⟨?_, ?_, ?_⟩
  · rw [hfinal]
    exact {
      length_partialLength := hlen
      of_length := by simp [hstate]
      of_message := by simp [hstate]
      of_done := fun _ => ⟨hgot, hexp, hmsg⟩ }
  · rw [hfinal, pending_eq_append hlen hgot, pending_eq_append (p := { p with
        overflowMessageData := p.overflowMessageData ++ data }) hlen hgot]
    simp only [List.append_assoc]
  · simp only [addSubtractions, hl, hm, lengthSubtractions, messageSubtractions,
      overflowSubtractions, hstate, reduceCtorEq, if_false, if_true, List.nil_append]
    rw [Fits] at hfits
    rintro s (_ | ⟨_, hs⟩)
    · exact ⟨Nat.zero_le _, show data.length < 2 ^ 32 by omega⟩
    · cases hs

/-- **Feeding appends.** `AddNewData` keeps the invariant, appends the data to the pending
bytes and wraps no subtraction. -/
theorem WellFormed.feeds {p : MessageParser} (h : p.WellFormed) {data : List UInt8}
    (hfits : p.Fits data) : p.Feeds data := by
  have hdata : data.length < 2 ^ 32 := by
    rw [Fits] at hfits
    omega
  cases hstate : p.state with
  | parsingLength =>
      rcases Nat.lt_or_ge (p.gotLengthBytes.toNat + data.length) 4 with hc | hc
      · exact h.feeds_of_prefix_partial hdata hstate hc
      · exact h.feeds_of_prefix_complete hdata hstate hc
  | parsingMessage => exact h.feeds_of_message hdata hstate
  | parsingDone => exact h.feeds_of_done hfits hstate

/-! ### Taking a message -/

/-- The overflow of a parser can always be fed to the parser that has been reset. -/
theorem fits_resetParser {p : MessageParser} (h : p.overflowMessageData.length < 2 ^ 32) :
    p.resetParser.Fits p.overflowMessageData := by
  rw [Fits]
  show 0 + p.overflowMessageData.length < 2 ^ 32
  omega

/-- **`GetMessage` drops exactly the first frame**, whatever `ParseFromArray` says. -/
theorem WellFormed.nextMessage_spec {p : MessageParser} (h : p.WellFormed)
    (hf : HasFrame p.pending) (hover : p.overflowMessageData.length < 2 ^ 32) :
    p.nextMessage.WellFormed ∧ p.nextMessage.pending = afterFrame p.pending ∧
      NoWrap (p.resetParser.addSubtractions p.overflowMessageData) := by
  have hfeeds := h.resetParser.feeds (fits_resetParser hover)
  refine ⟨hfeeds.wellFormed, ?_, hfeeds.noWrap⟩
  have hpend := hfeeds.pending_eq
  rw [pending_resetParser, List.nil_append] at hpend
  rw [nextMessage, hpend, (h.fields_of_hasFrame hf).2.2.1]

/-- Without a complete message `GetMessage` calls nothing and changes nothing. -/
theorem WellFormed.getMessage_of_not_hasFrame {Msg : Type} (pb : Protobuf Msg)
    {p : MessageParser} (h : p.WellFormed) (hf : ¬ HasFrame p.pending) :
    p.parseArguments = none ∧ p.getMessage pb = (none, p) := by
  have hno : ¬ p.hasCompleteMessage = true := fun hc => hf (h.hasCompleteMessage_iff.mp hc)
  have hargs : p.parseArguments = none := by rw [parseArguments, if_neg hno]
  refine ⟨hargs, ?_⟩
  rw [getMessage, hargs]

/-- With a complete message, `GetMessage` hands `ParseFromArray` the body of the first
frame and its length as a C `int`. -/
theorem WellFormed.getMessage_of_hasFrame {Msg : Type} (pb : Protobuf Msg)
    {p : MessageParser} (h : p.WellFormed) (hf : HasFrame p.pending) :
    p.parseArguments = some (frameBody p.pending, sizeToInt (frameBody p.pending).length) ∧
      p.getMessage pb = (pb.parseBody (frameBody p.pending), p.nextMessage) := by
  obtain ⟨-, hmsg, -, hexp⟩ := h.fields_of_hasFrame hf
  have hargs : p.parseArguments =
      some (frameBody p.pending, sizeToInt (frameBody p.pending).length) := by
    rw [parseArguments, if_pos (h.hasCompleteMessage_iff.mpr hf), hmsg, sizeToInt, ← hexp,
      UInt32.ofNat_toNat]
  refine ⟨hargs, ?_⟩
  rw [getMessage, hargs]
  rfl

end MessageParser

end Csci6780
