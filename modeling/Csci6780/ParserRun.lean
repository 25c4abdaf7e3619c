import Csci6780.Parser
import Csci6780.FtpMessages

/-!
# Runs of the Parser

A user of `MessageParser` interleaves two calls, `AddNewData` and `GetMessage`. This module
follows whole sequences of them from a fresh parser and compares them with the **pure
stream decoder** `specRun`, whose state is nothing but the list of bytes that have been
fed and not been handed out.

## Main results

* `run_refines`: a run keeps the parser well formed and its pending bytes equal to the
  decoder's state, for any bytes at all.
* `parser_refines_decoder`: hence every observer of the parser, the arguments of its
  `ParseFromArray` call and the effect of `GetMessage` are the decoder's, and no 32-bit
  subtraction wraps.
* `run_of_frames`: on a stream of serialised messages a run returns the messages it has
  handed out, and the parser is left with the frames of the others.
* `framing_round_trip`: draining the parser then returns these, and leaves it empty.
-/

namespace Csci6780

/-- A call a user makes on a parser. -/
inductive ParserCall
  | addNewData (data : List UInt8)
  | getMessage
  deriving DecidableEq, Repr

namespace ParserCall

/-- The bytes a call feeds. -/
def data : ParserCall → List UInt8
  | addNewData data => data
  | getMessage => []

/-- All bytes a sequence of calls feeds, in order. -/
def fed (calls : List ParserCall) : List UInt8 := calls.flatMap data

@[simp] theorem fed_nil : fed [] = [] := rfl

@[simp] theorem fed_cons (c : ParserCall) (calls : List ParserCall) :
    fed (c :: calls) = c.data ++ fed calls := rfl

@[simp] theorem fed_append (as bs : List ParserCall) : fed (as ++ bs) = fed as ++ fed bs := by
  simp [fed]

/-- The **pure stream decoder**: one call on the list of bytes not yet handed out. -/
def spec (U : List UInt8) : ParserCall → List UInt8
  | addNewData data => U ++ data
  | getMessage => if HasFrame U then afterFrame U else U

/-- The pure stream decoder on a sequence of calls. -/
def specRun (U : List UInt8) (calls : List ParserCall) : List UInt8 := calls.foldl spec U

end ParserCall

open ParserCall

namespace MessageParser

variable {Msg : Type}

/-- One call: the message it returns, if it returns one, and the new parser. -/
def call (pb : Protobuf Msg) (p : MessageParser) : ParserCall → List Msg × MessageParser
  | .addNewData data => ([], p.addNewData data)
  | .getMessage => ((p.getMessage pb).1.toList, (p.getMessage pb).2)

/-- A sequence of calls: the messages the successful `GetMessage` calls return, in order,
and the parser afterwards. -/
def run (pb : Protobuf Msg) (p : MessageParser) : List ParserCall → List Msg × MessageParser
  | [] => ([], p)
  | c :: calls =>
      let r := p.call pb c
      let rest := run pb r.2 calls
      (r.1 ++ rest.1, rest.2)

/-- `while (parser.HasCompleteMessage()) parser.GetMessage(&message);` with a bound on the
number of rounds. -/
def drain (pb : Protobuf Msg) : ℕ → MessageParser → List Msg × MessageParser
  | 0, p => ([], p)
  | fuel + 1, p =>
      if p.hasCompleteMessage then
        let r := p.getMessage pb
        let rest := drain pb fuel r.2
        (r.1.toList ++ rest.1, rest.2)
      else ([], p)

/-- The 32-bit subtractions one call evaluates. -/
def callSubtractions (p : MessageParser) : ParserCall → List (ℕ × ℕ)
  | .addNewData data => p.addSubtractions data
  | .getMessage =>
      if p.hasCompleteMessage then p.resetParser.addSubtractions p.overflowMessageData else []

/-! ### The refinement -/

/-- A call never leaves the decoder with more bytes than it had and was fed. -/
theorem length_spec_le (U : List UInt8) (c : ParserCall) :
    (c.spec U).length ≤ U.length + c.data.length := by
  cases c with
  | addNewData data => simp [ParserCall.spec, ParserCall.data]
  | getMessage =>
      rw [ParserCall.spec]
      split
      · rw [afterFrame, List.length_drop]
        omega
      · omega

/-- **The step lemma.** One call keeps the invariant, moves the pending bytes as the
decoder does, and wraps no subtraction. -/
theorem WellFormed.call_spec (pb : Protobuf Msg) {p : MessageParser} (h : p.WellFormed)
    (c : ParserCall) (hbound : p.pending.length + c.data.length < 2 ^ 32) :
    (p.call pb c).2.WellFormed ∧ (p.call pb c).2.pending = c.spec p.pending ∧
      NoWrap (p.callSubtractions c) := by
  have hover := length_overflow_le p
  cases c with
  | addNewData data =>
      have hfits : p.Fits data := by
        rw [Fits]
        rw [ParserCall.data] at hbound
        omega
      have hfeeds := h.feeds hfits
      exact ⟨hfeeds.wellFormed, hfeeds.pending_eq, hfeeds.noWrap⟩
  | getMessage =>
      by_cases hf : HasFrame p.pending
      · obtain ⟨hwf, hpend, hsubs⟩ := h.nextMessage_spec hf (by omega)
        have hcomplete := h.hasCompleteMessage_iff.mpr hf
        have hstate : (p.call pb .getMessage).2 = p.nextMessage := by
          rw [call, getMessage, parseArguments, if_pos hcomplete]
        rw [hstate, ParserCall.spec, if_pos hf, callSubtractions, if_pos hcomplete]
        exact ⟨hwf, hpend, hsubs⟩
      · have hcomplete : ¬ p.hasCompleteMessage = true :=
          fun hc => hf (h.hasCompleteMessage_iff.mp hc)
        have hstate : (p.call pb .getMessage).2 = p := by
          rw [call, (h.getMessage_of_not_hasFrame pb hf).2]
        rw [hstate, ParserCall.spec, if_neg hf, callSubtractions, if_neg hcomplete]
        exact ⟨h, rfl, fun s hs => absurd hs List.not_mem_nil⟩

/-- **The run lemma.** Any sequence of calls keeps the parser in step with the decoder. -/
theorem WellFormed.run_refines (pb : Protobuf Msg) {p : MessageParser} (h : p.WellFormed)
    (calls : List ParserCall) (hbound : p.pending.length + (fed calls).length < 2 ^ 32) :
    (p.run pb calls).2.WellFormed ∧ (p.run pb calls).2.pending = specRun p.pending calls ∧
      (specRun p.pending calls).length ≤ p.pending.length + (fed calls).length := by
  induction calls generalizing p with
  | nil => exact ⟨h, rfl, Nat.le_refl _⟩
  | cons c calls ih =>
      rw [fed_cons, List.length_append] at hbound
      obtain ⟨hwf, hpend, -⟩ := h.call_spec pb c (by omega)
      have hle := length_spec_le p.pending c
      obtain ⟨hwf', hpend', hlen'⟩ := ih hwf (by rw [hpend]; omega)
      rw [hpend] at hpend' hlen'
      refine ⟨hwf', hpend', ?_⟩
      rw [fed_cons, List.length_append]
      exact Nat.le_trans hlen' (by omega)

/-- **Every observer is read off the pending bytes**, and `GetMessage` hands protobuf the
first frame and removes it. -/
theorem WellFormed.observers (pb : Protobuf Msg) {p : MessageParser} (h : p.WellFormed)
    (hlen : p.pending.length < 2 ^ 31) :
    (p.hasCompleteMessage = true ↔ HasFrame p.pending) ∧
    p.getOverflow = (if HasFrame p.pending then afterFrame p.pending else []) ∧
    (p.hasPartialMessage = true ↔ p.pending ≠ []) ∧
    (p.hasCompleteMessage = true →
      p.parseArguments = some (frameBody p.pending, (frameLength p.pending : ℤ)) ∧
      (p.getMessage pb).1 = pb.parseFromArray (frameBody p.pending) (frameLength p.pending) ∧
      (p.getMessage pb).2.pending = afterFrame p.pending) := by
  refine ⟨h.hasCompleteMessage_iff, h.getOverflow_eq, h.hasPartialMessage_iff, ?_⟩
  intro hcomplete
  have hf : HasFrame p.pending := h.hasCompleteMessage_iff.mp hcomplete
  have hsmall : (frameBody p.pending).length < 2 ^ 31 := by
    have hafter := hf.length_afterFrame
    rw [hf.length_frameBody] at hafter ⊢
    omega
  obtain ⟨hargs, hget⟩ := h.getMessage_of_hasFrame pb hf
  rw [Protobuf.parseBody] at hget
  rw [sizeToInt_of_lt hsmall, hf.length_frameBody] at hargs hget
  have hover := length_overflow_le p
  obtain ⟨-, hrest, -⟩ := h.nextMessage_spec hf (by omega)
  exact ⟨hargs, congrArg Prod.fst hget, by rw [hget]; exact hrest⟩

end MessageParser

open MessageParser

/-- **The parser refines the pure stream decoder on arbitrary bytes.** Take any calls on a
fresh parser, and any next call, with fewer than `2 ^ 31` bytes fed in all; let `U` be the
decoder's list of bytes fed and not removed. Then every observer of the parser is read off
`U`, the next `GetMessage` hands `ParseFromArray` exactly the body of the first frame and
removes that frame whatever the parse returns, and no 32-bit subtraction of the next call
wraps. -/
theorem parser_refines_decoder {Msg : Type} (pb : Protobuf Msg) (calls : List ParserCall)
    (next : ParserCall) (hfed : (fed (calls ++ [next])).length < 2 ^ 31) :
    let p := (run pb {} calls).2
    let U := specRun [] calls
    let n := frameLength U
    (p.hasCompleteMessage = true ↔ 4 ≤ U.length ∧ 4 + n ≤ U.length) ∧
    p.getOverflow = (if 4 ≤ U.length ∧ 4 + n ≤ U.length then U.drop (4 + n) else []) ∧
    (p.hasPartialMessage = true ↔ U ≠ []) ∧
    (p.hasCompleteMessage = true →
      p.parseArguments = some ((U.drop 4).take n, (n : ℤ)) ∧
      (p.getMessage pb).1 = pb.parseFromArray ((U.drop 4).take n) n ∧
      ((p.getMessage pb).2).pending = U.drop (4 + n)) ∧
    (p.call pb next).2.pending = next.spec U ∧
    NoWrap (p.callSubtractions next) := by
  intro p U n
  rw [fed_append, List.length_append, fed_cons, fed_nil, List.append_nil] at hfed
  obtain ⟨hwf, hpend, hlen⟩ := wellFormed_fresh.run_refines pb calls
    (by simp only [pending_fresh, List.length_nil]; omega)
  rw [pending_fresh, List.length_nil, Nat.zero_add] at hlen
  rw [pending_fresh] at hpend
  obtain ⟨-, hnext, hsubs⟩ := hwf.call_spec pb next (by rw [hpend]; omega)
  obtain ⟨hcomplete, hover, hpartial, hmessage⟩ := hwf.observers pb (by rw [hpend]; omega)
  rw [hpend] at hcomplete hover hpartial hmessage hnext
  exact ⟨hcomplete, hover, hpartial, hmessage, hnext, hsubs⟩

/-- Four bytes of a prefix that announces one byte, fed in two pieces with a `GetMessage`
in between, then the body and the start of another frame. -/
theorem parser_refines_decoder_in_two_pieces :
    (fed [.addNewData [0, 0], .getMessage, .addNewData [0, 1, 9, 0], .getMessage]).length <
        2 ^ 31 ∧
      (run fileContentsProto {}
        [.addNewData [0, 0], .getMessage, .addNewData [0, 1, 9, 0]]).2.getOverflow = [0] :=
  ⟨by decide, (parser_refines_decoder fileContentsProto
    [.addNewData [0, 0], .getMessage, .addNewData [0, 1, 9, 0]] .getMessage
    (by decide)).2.1.trans (by decide)⟩

/-! ### Streams of serialised messages -/

section Serialized

variable {Msg : Type} (pb : Protobuf Msg)

/-- The bytes `Serialize` writes for a list of messages, one after another. -/
def serializeAll (messages : List Msg) : List UInt8 :=
  messages.flatMap fun m => (serialize pb m []).2

/-- Every message of a list encodes to fewer than `2 ^ 31` bytes. -/
def Small (messages : List Msg) : Prop := ∀ m ∈ messages, pb.byteSizeLong m < 2 ^ 31

variable {pb}

theorem Small.head {m : Msg} {messages : List Msg} (h : Small pb (m :: messages)) :
    pb.byteSizeLong m < 2 ^ 31 :=
  h m List.mem_cons_self

theorem Small.tail {m : Msg} {messages : List Msg} (h : Small pb (m :: messages)) :
    Small pb messages :=
  fun x hx => h x (List.mem_cons_of_mem _ hx)

/-- The serialised stream is the stream of the frames of the encodings. -/
theorem serializeAll_eq_frames (hpb : pb.Lawful) {messages : List Msg}
    (hsmall : Small pb messages) :
    serializeAll pb messages = frames (messages.map pb.encoding) := by
  induction messages with
  | nil => rfl
  | cons m messages ih =>
      rw [serializeAll, List.flatMap_cons, serialize_eq_frame hpb hsmall.head, List.map_cons,
        frames_cons, ← ih hsmall.tail]
      rfl

theorem Small.framable (hpb : pb.Lawful) {messages : List Msg} (h : Small pb messages) :
    Framable (messages.map pb.encoding) := by
  intro body hbody
  obtain ⟨m, hm, rfl⟩ := List.mem_map.mp hbody
  rw [hpb.length_encoding (h m hm)]
  exact Nat.lt_trans (h m hm) (by decide)

/-- Taking a message off a parser whose pending bytes are part of a serialised stream
returns the first message of the stream. -/
theorem MessageParser.WellFormed.getMessage_of_frames (hpb : pb.Lawful) {p : MessageParser}
    (h : p.WellFormed) (hf : HasFrame p.pending) {messages : List Msg} {V : List UInt8}
    (hsmall : Small pb messages)
    (hstream : p.pending ++ V = frames (messages.map pb.encoding)) :
    ∃ m rest, messages = m :: rest ∧ p.getMessage pb = (some m, p.nextMessage) ∧
      afterFrame p.pending ++ V = frames (rest.map pb.encoding) := by
  obtain ⟨bodies, hbodies, hafter⟩ := hf.eq_cons_of_append_eq (hsmall.framable hpb) hstream
  cases messages with
  | nil => cases hbodies
  | cons m rest =>
      rw [List.map_cons, List.cons.injEq] at hbodies
      obtain ⟨hbody, rfl⟩ := hbodies
      obtain ⟨-, hget⟩ := h.getMessage_of_hasFrame pb hf
      refine ⟨m, rest, rfl, ?_, hafter⟩
      rw [hget, ← hbody, hpb.parseBody_encoding hsmall.head]

/-- **The run lemma for serialised streams.** When the pending bytes and what is still to
be fed are the stream of some messages, the run returns the first few of them and leaves
the frames of the others pending. -/
theorem MessageParser.WellFormed.run_of_frames (hpb : pb.Lawful) {p : MessageParser}
    (h : p.WellFormed) (calls : List ParserCall) {messages : List Msg}
    (hsmall : Small pb messages)
    (hstream : p.pending ++ fed calls = frames (messages.map pb.encoding))
    (hbound : p.pending.length + (fed calls).length < 2 ^ 32) :
    ∃ done rest, messages = done ++ rest ∧ (p.run pb calls).1 = done ∧
      (p.run pb calls).2.WellFormed ∧
      (p.run pb calls).2.pending = frames (rest.map pb.encoding) := by
  induction calls generalizing p messages with
  | nil =>
      rw [fed_nil, List.append_nil] at hstream
      exact ⟨[], messages, rfl, rfl, h, hstream⟩
  | cons c calls ih =>
      rw [fed_cons, List.length_append] at hbound
      obtain ⟨hwf, hpend, -⟩ := h.call_spec pb c (by omega)
      have hle := length_spec_le p.pending c
      have hbound' : (p.call pb c).2.pending.length + (fed calls).length < 2 ^ 32 := by
        rw [hpend]
        omega
      cases c with
      | addNewData data =>
          rw [fed_cons, ← List.append_assoc] at hstream
          exact ih hwf hsmall (by rw [hpend]; exact hstream) hbound'
      | getMessage =>
          rw [fed_cons, ParserCall.data, List.nil_append] at hstream
          by_cases hf : HasFrame p.pending
          · obtain ⟨m, rest, rfl, hget, hafter⟩ := h.getMessage_of_frames hpb hf hsmall hstream
            rw [ParserCall.spec, if_pos hf] at hpend
            obtain ⟨done, rest', rfl, hdone, hwf', hpend'⟩ :=
              ih hwf hsmall.tail (by rw [hpend]; exact hafter) hbound'
            refine ⟨m :: done, rest', rfl, ?_, hwf', hpend'⟩
            rw [MessageParser.run, hdone, call, hget]
            rfl
          · obtain ⟨-, hget⟩ := h.getMessage_of_not_hasFrame pb hf
            have hcall : p.call pb .getMessage = ([], p) := by
              rw [call, hget]
              rfl
            obtain ⟨done, rest, rfl, hdone, hwf', hpend'⟩ :=
              ih (p := p) h hsmall hstream (by omega)
            refine ⟨done, rest, rfl, ?_, ?_, ?_⟩
            · rw [MessageParser.run, hcall, hdone]
              rfl
            · rw [MessageParser.run, hcall]
              exact hwf'
            · rw [MessageParser.run, hcall]
              exact hpend'

/-- Draining a parser that holds whole frames returns all their messages. -/
theorem MessageParser.WellFormed.drain_of_frames (hpb : pb.Lawful) {p : MessageParser}
    (h : p.WellFormed) {messages : List Msg} (hsmall : Small pb messages)
    (hpend : p.pending = frames (messages.map pb.encoding))
    (hbound : p.pending.length < 2 ^ 32) {fuel : ℕ} (hfuel : messages.length ≤ fuel) :
    (p.drain pb fuel).1 = messages ∧ (p.drain pb fuel).2.WellFormed ∧
      (p.drain pb fuel).2.pending = [] := by
  induction messages generalizing p fuel with
  | nil =>
      have hnil : p.pending = [] := hpend
      have hno : ¬ p.hasCompleteMessage = true := by
        intro hc
        have hf := h.hasCompleteMessage_iff.mp hc
        rw [hnil] at hf
        exact absurd hf not_hasFrame_nil
      cases fuel with
      | zero => exact ⟨rfl, h, hnil⟩
      | succ fuel =>
          rw [drain, if_neg hno]
          exact ⟨rfl, h, hnil⟩
  | cons m messages ih =>
      obtain ⟨fuel, rfl⟩ : ∃ k, fuel = k + 1 := ⟨fuel - 1, by simp at hfuel; omega⟩
      have hf : HasFrame p.pending := by
        rw [hpend]
        exact hasFrame_frames_cons (hsmall.framable hpb)
      obtain ⟨m', rest, heq, hget, hafter⟩ :=
        h.getMessage_of_frames hpb hf hsmall (by rw [List.append_nil]; exact hpend)
      obtain ⟨rfl, rfl⟩ : m = m' ∧ messages = rest := by
        injection heq with h1 h2
        exact ⟨h1, h2⟩
      have hover := length_overflow_le p
      obtain ⟨hwf, hnext, -⟩ := h.nextMessage_spec hf (by omega)
      have hshort := hf.length_afterFrame
      rw [List.append_nil] at hafter
      obtain ⟨hmsgs, hwf', hempty⟩ := ih hwf hsmall.tail (by rw [hnext, hafter])
        (by rw [hnext]; omega) (by simp at hfuel; omega)
      rw [drain, if_pos (h.hasCompleteMessage_iff.mpr hf)]
      simp only [hget]
      exact ⟨by rw [hmsgs]; rfl, hwf', hempty⟩

end Serialized

/-- **Framing round trip under any segmentation and any drain schedule.** Serialise any
messages, each of fewer than `2 ^ 31` bytes and fewer than `2 ^ 32` together, cut the
stream into any pieces, and feed these to a fresh parser with `GetMessage` calls anywhere
in between. With a final drain, the successful `GetMessage` calls return exactly the
messages, in order, and the parser ends empty; a `GetMessage` call made when no message is
complete returns nothing and changes nothing. -/
theorem framing_round_trip {Msg : Type} {pb : Protobuf Msg} (hpb : pb.Lawful)
    (messages : List Msg) (hsmall : ∀ m ∈ messages, pb.byteSizeLong m < 2 ^ 31)
    (hstream : (serializeAll pb messages).length < 2 ^ 32) (calls : List ParserCall)
    (hfed : fed calls = serializeAll pb messages) :
    (∀ fuel, messages.length ≤ fuel →
      let fedParser := run pb {} calls
      let drained := fedParser.2.drain pb fuel
      fedParser.1 ++ drained.1 = messages ∧
        drained.2.hasCompleteMessage = false ∧ drained.2.hasPartialMessage = false ∧
        drained.2.hasOverflow = false) ∧
    (∀ before after, calls = before ++ .getMessage :: after →
      (run pb {} before).2.hasCompleteMessage = false →
      ((run pb {} before).2).getMessage pb = (none, (run pb {} before).2)) := by
  have hfr := serializeAll_eq_frames hpb hsmall
  constructor
  · intro fuel hfuel
    obtain ⟨done, rest, rfl, hdone, hwf, hpend⟩ := wellFormed_fresh.run_of_frames hpb calls
      hsmall (by rw [pending_fresh, List.nil_append, hfed, hfr])
      (by rw [pending_fresh, hfed, List.length_nil]; omega)
    have hrest : Small pb rest := fun m hm => hsmall m (List.mem_append_right _ hm)
    have hlen : (run pb {} calls).2.pending.length < 2 ^ 32 := by
      rw [hfr, List.map_append, frames_append, List.length_append] at hstream
      rw [hpend]
      omega
    have hfuel' : rest.length ≤ fuel := by
      rw [List.length_append] at hfuel
      omega
    obtain ⟨hmsgs, hwf', hempty⟩ := hwf.drain_of_frames hpb hrest hpend hlen hfuel'
    have hnof : ¬ HasFrame ((run pb {} calls).2.drain pb fuel).2.pending := by
      rw [hempty]
      exact not_hasFrame_nil
    refine ⟨by rw [hdone, hmsgs], ?_, ?_, ?_⟩
    · rw [Bool.eq_false_iff]
      exact fun hc => hnof (hwf'.hasCompleteMessage_iff.mp hc)
    · rw [Bool.eq_false_iff]
      exact fun hc => hwf'.hasPartialMessage_iff.mp hc hempty
    · rw [hasOverflow, hwf'.overflow_of_not_hasFrame hnof]
      rfl
  · intro before after _ hno
    rw [MessageParser.getMessage, parseArguments, if_neg (by simp [hno])]

/-- Two messages, one of them empty on the wire, cut inside the first prefix and inside
the second frame. -/
theorem framing_round_trip_two_messages :
    fed [.addNewData [0, 0], .getMessage, .addNewData [0, 3, 10, 1, 7, 0, 0], .getMessage,
        .addNewData [0, 0]] =
      serializeAll fileContentsProto [⟨[7], false⟩, ⟨[], false⟩] ∧
    (run fileContentsProto {} [.addNewData [0, 0], .getMessage,
        .addNewData [0, 3, 10, 1, 7, 0, 0], .getMessage, .addNewData [0, 0]]).1 ++
      ((run fileContentsProto {} [.addNewData [0, 0], .getMessage,
        .addNewData [0, 3, 10, 1, 7, 0, 0], .getMessage,
        .addNewData [0, 0]]).2.drain fileContentsProto 2).1 =
      [⟨[7], false⟩, ⟨[], false⟩] :=
  ⟨by decide, ((framing_round_trip fileContentsProto_lawful [⟨[7], false⟩, ⟨[], false⟩]
    (by decide) (by decide) _ (by decide)).1 2 (by decide)).1⟩

end Csci6780
