import Mathlib.Data.List.Induction
import Csci6780.ParserRun

/-!
# Sockets

The programs meet the network only through `recv` and `send`. A `Socket` is a script of
what the coming calls will do: each `recv` takes the next `RecvResult` off the list and
each `send` the next `SendResult`; where a list ends, the call blocks for ever. The bytes
that `send` accepted are kept in `sent`, and `errno` is the last error.

A `recv` result is whatever the call returned, so a script already respects the size of the
buffer that was offered; nothing below depends on that size except that no single result
reaches `2 ^ 32` bytes.

The loop around `recv` that feeds a message parser until it has a complete message occurs
three times in the source (`ReceiveNextChunk`, `ReadNextMessage` and `WaitForMessage`); it
is `recvLoop` here, and the one result every proof about segmentation uses is

* `recvLoop_of_hasFrame`: when the bytes at hand and the data that arrives next hold a
  complete frame, the loop ends with just enough of that data consumed.

## Main results

* `recvLoop_of_hasFrame`, `recvLoop_of_not_hasFrame`: what the receive loop consumes.
* `sendLoop_of_accepting`: a send loop whose calls all accept something sends its buffer.
-/

namespace Csci6780

/-! ### The system calls -/

/-- What a `recv` call returns: some bytes, 0 because the peer has closed the connection,
or -1 with `errno` set to a timeout or to another error. -/
inductive RecvResult
  | data (bytes : List UInt8)
  | closed
  | timedOut
  | failed
  deriving DecidableEq, Repr

/-- What a `send` call returns: the number of bytes accepted, or -1 with `errno` set to a
timeout or to another error. -/
inductive SendResult
  | accepted (n : ℕ)
  | timedOut
  | failed
  deriving DecidableEq, Repr

/-- The values of `errno` that the source tells apart: `again` is `EAGAIN` or
`EWOULDBLOCK`. -/
inductive Errno
  | ok
  | again
  | other
  deriving DecidableEq, Repr

/-- One connected socket. -/
structure Socket where
  incoming : List RecvResult := []
  sends : List SendResult := []
  sent : List UInt8 := []
  errno : Errno := .ok
  deriving DecidableEq, Repr

/-- `send` of a non-empty buffer: the result and the socket, or `none` if it blocks. -/
def Socket.send (socket : Socket) (buffer : List UInt8) : Option (ℤ × Socket) :=
  match socket.sends with
  | [] => none
  | .accepted n :: sends =>
      some ((buffer.take n).length,
        { socket with sends := sends, sent := socket.sent ++ buffer.take n })
  | .timedOut :: sends => some (-1, { socket with sends := sends, errno := .again })
  | .failed :: sends => some (-1, { socket with sends := sends, errno := .other })

/-! ### Receiving -/

/-- How a receive loop ends. -/
inductive RecvEnd
  | complete
  | closed
  | timedOut
  | failed
  | blocked
  deriving DecidableEq, Repr

/-- Call `recv` and feed the parser until it has a complete message. With `forever`, a call
that times out is repeated, as `ReceiveForever` does. -/
def recvLoop (forever : Bool) :
    List RecvResult → MessageParser → RecvEnd × MessageParser × List RecvResult
  | [], parser => (if parser.hasCompleteMessage then .complete else .blocked, parser, [])
  | result :: incoming, parser =>
      if parser.hasCompleteMessage then (.complete, parser, result :: incoming)
      else
        match result with
        | .data bytes => recvLoop forever incoming (parser.addNewData bytes)
        | .closed => (.closed, parser, incoming)
        | .timedOut =>
            if forever then recvLoop forever incoming parser
            else (.timedOut, parser, incoming)
        | .failed => (.failed, parser, incoming)

/-- The value of `errno` after a receive loop. -/
def RecvEnd.errno : RecvEnd → Errno → Errno
  | .timedOut, _ => .again
  | .failed, _ => .other
  | _, errno => errno

/-- The receive loop on a socket. -/
def Socket.recvLoop (socket : Socket) (forever : Bool) (parser : MessageParser) :
    RecvEnd × MessageParser × Socket :=
  let (last, parser, incoming) := Csci6780.recvLoop forever socket.incoming parser
  (last, parser, { socket with incoming := incoming, errno := last.errno socket.errno })

/-- The recv results of some segments of a byte stream. -/
def arriving (segments : List (List UInt8)) : List RecvResult := segments.map .data

@[simp] theorem arriving_append (as bs : List (List UInt8)) :
    arriving (as ++ bs) = arriving as ++ arriving bs :=
  List.map_append

/-- What is left of a script of segments is some of the segments. -/
theorem exists_of_suffix_arriving {incoming : List RecvResult} {segments : List (List UInt8)}
    (h : incoming <:+ arriving segments) :
    ∃ taken left, segments = taken ++ left ∧ incoming = arriving left := by
  obtain ⟨before, happ⟩ := h
  obtain ⟨taken, left, rfl, -, rfl⟩ := List.map_eq_append_iff.mp happ.symm
  exact ⟨taken, left, rfl, rfl⟩

/-- The bytes that arrive by a script of recv results. -/
def arrived (incoming : List RecvResult) : List UInt8 :=
  incoming.flatMap fun result =>
    match result with
    | .data bytes => bytes
    | _ => []

@[simp] theorem arrived_append (as bs : List RecvResult) :
    arrived (as ++ bs) = arrived as ++ arrived bs := by
  simp [arrived]

@[simp] theorem arrived_arriving (segments : List (List UInt8)) :
    arrived (arriving segments) = segments.flatten := by
  induction segments with
  | nil => rfl
  | cons segment segments ih =>
      rw [List.flatten_cons, ← ih]
      rfl

/-- Every script is some segments, and then the end or a result that is no data. -/
theorem exists_arriving (incoming : List RecvResult) :
    ∃ segments tail, incoming = arriving segments ++ tail ∧
      ∀ bytes rest, tail ≠ .data bytes :: rest := by
  induction incoming with
  | nil => exact ⟨[], [], rfl, fun _ _ h => nomatch h⟩
  | cons result incoming ih =>
      cases result with
      | data bytes =>
          obtain ⟨segments, tail, rfl, htail⟩ := ih
          exact ⟨bytes :: segments, tail, rfl, htail⟩
      | closed => exact ⟨[], _, rfl, fun _ _ h => nomatch h⟩
      | timedOut => exact ⟨[], _, rfl, fun _ _ h => nomatch h⟩
      | failed => exact ⟨[], _, rfl, fun _ _ h => nomatch h⟩

/-- Segments as `recv` returns them: no call returns an empty one, and none fills more than
a 32-bit length. -/
def Segments (segments : List (List UInt8)) : Prop :=
  ∀ segment ∈ segments, segment ≠ [] ∧ segment.length < 2 ^ 32

instance (segments : List (List UInt8)) : Decidable (Segments segments) :=
  inferInstanceAs (Decidable (∀ segment ∈ segments, _))

/-- The segments are cut where the given bytes end. -/
def CutAt (segments : List (List UInt8)) (bytes : List UInt8) : Prop :=
  ∃ before after, segments = before ++ after ∧ before.flatten = bytes

theorem Segments.left {as bs : List (List UInt8)} (h : Segments (as ++ bs)) : Segments as :=
  fun s hs => h s (List.mem_append_left _ hs)

theorem Segments.right {as bs : List (List UInt8)} (h : Segments (as ++ bs)) : Segments bs :=
  fun s hs => h s (List.mem_append_right _ hs)

/-- A reader that stops with the segment in which the given bytes end has read nothing
beyond them exactly when the segments are cut there. -/
theorem cutAt_iff_lost_eq_nil {taken left : List (List UInt8)} {bytes lost : List UInt8}
    (htaken : taken.flatten = bytes ++ lost)
    (hmin : taken = [] ∨ taken.dropLast.flatten.length < bytes.length) :
    CutAt (taken ++ left) bytes ↔ lost = [] := by
  constructor
  · rintro ⟨before, after, hsplit, rfl⟩
    rcases List.append_eq_append_iff.mp hsplit with ⟨between, rfl, -⟩ | ⟨between, rfl, -⟩
    · rw [List.flatten_append, List.append_assoc] at htaken
      have hlen := congrArg List.length htaken
      simp only [List.length_append] at hlen
      exact List.length_eq_zero_iff.mp (by omega)
    · rcases List.eq_nil_or_concat' between with rfl | ⟨init, last, rfl⟩
      · rw [List.append_nil] at htaken
        exact (List.append_right_eq_self.mp htaken.symm)
      · -- the reader would have gone on past the cut
        rcases hmin with hnil | hmin
        · exact absurd hnil (by simp)
        · rw [← List.append_assoc, List.dropLast_concat, List.flatten_append,
            List.length_append] at hmin
          omega
  · rintro rfl
    exact ⟨taken, left, rfl, by rw [htaken, List.append_nil]⟩

/-- Bytes that hold no complete frame hold none without their last segment. -/
theorem not_hasFrame_flatten_dropLast {U : List UInt8} {segments : List (List UInt8)}
    (h : ¬ HasFrame (U ++ segments.flatten)) :
    ¬ HasFrame (U ++ segments.dropLast.flatten) := by
  intro hf
  obtain ⟨last, hlast⟩ := List.dropLast_prefix segments
  refine h ?_
  rw [← hlast, List.flatten_append, ← List.append_assoc]
  exact (hf.append _).1

/-- What has arrived without the last segment is shorter than a frame that it does not
complete. -/
theorem length_dropLast_lt_of_not_hasFrame {U later body rest : List UInt8}
    {segments : List (List UInt8)} (hno : ¬ HasFrame (U ++ segments.dropLast.flatten))
    (hbody : body.length < 2 ^ 32)
    (hstream : U ++ segments.flatten ++ later = frame body ++ rest) :
    (U ++ segments.dropLast.flatten).length < (frame body).length := by
  obtain ⟨last, hlast⟩ := List.dropLast_prefix segments
  have hsplit : U ++ segments.dropLast.flatten ++ (last.flatten ++ later) =
      frame body ++ rest := by
    rw [← hstream, ← List.append_assoc, List.append_assoc U, ← List.flatten_append, hlast]
  exact lt_length_of_not_hasFrame hno hbody hsplit

/-- A parser as the receive loops keep it between messages: its overflow still fits a 32-bit
length, so that the next message can be started from it. -/
structure MessageParser.Ready (parser : MessageParser) : Prop where
  wellFormed : parser.WellFormed
  overflow_lt : parser.overflowMessageData.length < 2 ^ 32

theorem MessageParser.ready_fresh : MessageParser.Ready {} :=
  ⟨MessageParser.wellFormed_fresh, by decide⟩

/-- Without a complete frame there is no overflow to fit. -/
theorem MessageParser.WellFormed.ready_of_not_hasFrame {parser : MessageParser}
    (h : parser.WellFormed) (hno : ¬ HasFrame parser.pending) : parser.Ready := by
  refine ⟨h, ?_⟩
  rw [h.overflow_of_not_hasFrame hno]
  decide

/-- Without a complete message, a parser can be fed what one `recv` returned. -/
theorem MessageParser.WellFormed.ready_addNewData {parser : MessageParser}
    (h : parser.WellFormed) (hno : ¬ HasFrame parser.pending) {data : List UInt8}
    (hdata : data.length < 2 ^ 32) :
    (parser.addNewData data).Ready ∧
      (parser.addNewData data).pending = parser.pending ++ data := by
  have hfits : parser.Fits data := by
    rw [MessageParser.Fits, h.overflow_of_not_hasFrame hno, List.length_nil, Nat.zero_add]
    exact hdata
  have hfeeds := h.feeds hfits
  refine ⟨?_, hfeeds.pending_eq⟩
  by_cases hf : HasFrame (parser.addNewData data).pending
  · refine ⟨hfeeds.wellFormed, ?_⟩
    -- what overflows came with the data
    rw [(hfeeds.wellFormed.fields_of_hasFrame hf).2.2.1]
    rw [hfeeds.pending_eq] at hf ⊢
    exact Nat.lt_trans (hf.length_afterFrame_lt hno) hdata
  · exact hfeeds.wellFormed.ready_of_not_hasFrame hf

/-- Taking a message off a ready parser leaves a ready parser with the bytes that follow
the message. -/
theorem MessageParser.Ready.nextMessage {parser : MessageParser} (h : parser.Ready)
    (hf : HasFrame parser.pending) :
    parser.nextMessage.Ready ∧ parser.nextMessage.pending = afterFrame parser.pending := by
  obtain ⟨hwf, hpend, -⟩ := h.wellFormed.nextMessage_spec hf h.overflow_lt
  refine ⟨⟨hwf, ?_⟩, hpend⟩
  have hle := MessageParser.length_overflow_le parser.nextMessage
  have hover := h.overflow_lt
  rw [(h.wellFormed.fields_of_hasFrame hf).2.2.1, ← hpend] at hover
  omega

section RecvLoop

variable (forever : Bool)

/-- A complete message ends the loop without another `recv`. -/
theorem recvLoop_of_complete {parser : MessageParser} (hwf : parser.WellFormed)
    (h : HasFrame parser.pending) (incoming : List RecvResult) :
    recvLoop forever incoming parser = (.complete, parser, incoming) := by
  have hc := hwf.hasCompleteMessage_iff.mpr h
  cases incoming with
  | nil => rw [recvLoop, if_pos hc]
  | cons result incoming =>
      rw [recvLoop.eq_def]
      exact if_pos hc

/-- **The run lemma of the receive loop.** As long as the segments before the last one
complete no frame, the loop takes them all. -/
theorem recvLoop_arriving {parser : MessageParser} (hwf : parser.WellFormed)
    {segments : List (List UInt8)} (hseg : Segments segments)
    (hno : segments = [] ∨ ¬ HasFrame (parser.pending ++ segments.dropLast.flatten)) :
    ∃ parser' : MessageParser, parser'.WellFormed ∧
      parser'.pending = parser.pending ++ segments.flatten ∧
      ∀ incoming, recvLoop forever (arriving segments ++ incoming) parser =
        recvLoop forever incoming parser' := by
  induction segments using List.reverseRecOn with
  | nil => exact ⟨parser, hwf, by rw [List.flatten_nil, List.append_nil], fun _ => rfl⟩
  | append_singleton segments last ih =>
      have hno' : ¬ HasFrame (parser.pending ++ segments.flatten) := by
        rcases hno with hnil | hno
        · exact absurd hnil (by simp)
        · rwa [List.dropLast_concat] at hno
      obtain ⟨p, hp, hpend, hrun⟩ :=
        ih hseg.left (.inr (not_hasFrame_flatten_dropLast hno'))
      have hnop : ¬ HasFrame p.pending := by rwa [hpend]
      have hfits : p.Fits last := by
        rw [MessageParser.Fits, hp.overflow_of_not_hasFrame hnop]
        have hlast := (hseg.right last (by simp)).2
        simp only [List.length_nil]
        omega
      have hfeeds := hp.feeds hfits
      refine ⟨p.addNewData last, hfeeds.wellFormed, ?_, fun incoming => ?_⟩
      · rw [hfeeds.pending_eq, hpend, List.flatten_append, List.append_assoc,
          List.flatten_singleton]
      · have hnot : ¬ p.hasCompleteMessage = true :=
          fun hc => hnop (hp.hasCompleteMessage_iff.mp hc)
        rw [arriving_append, List.append_assoc, hrun, arriving, List.map_singleton,
          List.singleton_append, recvLoop, if_neg hnot]

/-- Segments that complete a frame have a shortest part that does. -/
theorem exists_completing {U : List UInt8} {segments : List (List UInt8)}
    (h : HasFrame (U ++ segments.flatten)) :
    ∃ taken left, segments = taken ++ left ∧ HasFrame (U ++ taken.flatten) ∧
      (taken = [] ∨ ¬ HasFrame (U ++ taken.dropLast.flatten)) := by
  induction segments using List.reverseRecOn with
  | nil => exact ⟨[], [], rfl, h, .inl rfl⟩
  | append_singleton segments last ih =>
      by_cases hf : HasFrame (U ++ segments.flatten)
      · obtain ⟨taken, left, rfl, htaken, hmin⟩ := ih hf
        exact ⟨taken, left ++ [last], by rw [List.append_assoc], htaken, hmin⟩
      · refine ⟨segments ++ [last], [], by rw [List.append_nil], h, .inr ?_⟩
        rwa [List.dropLast_concat]

/-- **When a complete frame is about to arrive**, the loop takes just enough segments to
complete it. -/
theorem recvLoop_of_hasFrame {parser : MessageParser} (hready : parser.Ready)
    {segments : List (List UInt8)} (hseg : Segments segments)
    (h : HasFrame (parser.pending ++ segments.flatten)) :
    ∃ taken left, ∃ parser' : MessageParser, segments = taken ++ left ∧ parser'.Ready ∧
      parser'.pending = parser.pending ++ taken.flatten ∧ HasFrame parser'.pending ∧
      (taken = [] ∨ ¬ HasFrame (parser.pending ++ taken.dropLast.flatten)) ∧
      ∀ incoming, recvLoop forever (arriving segments ++ incoming) parser =
        (.complete, parser', arriving left ++ incoming) := by
  obtain ⟨taken, left, rfl, hf, hmin⟩ := exists_completing h
  obtain ⟨p, hp, hpend, hrun⟩ := recvLoop_arriving forever hready.wellFormed hseg.left hmin
  rw [← hpend] at hf
  -- what overflows came with the last segment, or was there before
  have hover : p.overflowMessageData.length < 2 ^ 32 := by
    rw [(hp.fields_of_hasFrame hf).2.2.1]
    rcases List.eq_nil_or_concat' taken with rfl | ⟨before, last, rfl⟩
    · rw [List.flatten_nil, List.append_nil] at hpend
      rw [hpend] at hf ⊢
      rw [← (hready.wellFormed.fields_of_hasFrame hf).2.2.1]
      exact hready.overflow_lt
    · rcases hmin with hnil | hmin
      · exact absurd hnil (by simp)
      · rw [List.dropLast_concat] at hmin
        rw [List.flatten_append, List.flatten_singleton, ← List.append_assoc] at hpend
        rw [hpend] at hf ⊢
        have hlt := hf.length_afterFrame_lt hmin
        have hlast := (hseg.left last (by simp)).2
        omega
  refine ⟨taken, left, p, rfl, ⟨hp, hover⟩, hpend, hf, hmin, fun incoming => ?_⟩
  rw [arriving_append, List.append_assoc, hrun, recvLoop_of_complete forever hp hf]

/-- **When no complete frame is about to arrive**, the loop takes all the segments. -/
theorem recvLoop_of_not_hasFrame {parser : MessageParser} (hready : parser.Ready)
    {segments : List (List UInt8)} (hseg : Segments segments)
    (h : ¬ HasFrame (parser.pending ++ segments.flatten)) :
    ∃ parser' : MessageParser, parser'.Ready ∧
      parser'.pending = parser.pending ++ segments.flatten ∧
      parser'.hasCompleteMessage = false ∧
      ∀ incoming, recvLoop forever (arriving segments ++ incoming) parser =
        recvLoop forever incoming parser' := by
  obtain ⟨p, hp, hpend, hrun⟩ := recvLoop_arriving forever hready.wellFormed hseg
    (.inr (not_hasFrame_flatten_dropLast h))
  rw [← hpend] at h
  refine ⟨p, hp.ready_of_not_hasFrame h, hpend, ?_, hrun⟩
  rw [Bool.eq_false_iff]
  exact fun hc => h (hp.hasCompleteMessage_iff.mp hc)

end RecvLoop

/-- The receive loop only takes results off the script. -/
theorem recvLoop_incoming (forever : Bool) (incoming : List RecvResult)
    (parser : MessageParser) : (recvLoop forever incoming parser).2.2 <:+ incoming := by
  induction incoming generalizing parser with
  | nil => exact List.suffix_refl []
  | cons result incoming ih =>
      rw [recvLoop.eq_def]
      by_cases hc : parser.hasCompleteMessage = true
      · simp only [if_pos hc, List.suffix_refl]
      · simp only [if_neg hc]
        cases result with
        | data bytes => exact (ih _).trans (List.suffix_cons _ _)
        | closed => exact List.suffix_cons _ _
        | timedOut =>
            cases forever with
            | true => exact (ih _).trans (List.suffix_cons _ _)
            | false => exact List.suffix_cons _ _
        | failed => exact List.suffix_cons _ _

/-- Without a complete message at hand, the receive loop blocks or takes a result. -/
theorem recvLoop_takes (forever : Bool) (incoming : List RecvResult) {parser : MessageParser}
    (hnot : ¬ parser.hasCompleteMessage = true)
    (hend : (recvLoop forever incoming parser).1 ≠ .blocked) :
    (recvLoop forever incoming parser).2.2 ≠ incoming := by
  cases incoming with
  | nil => exact absurd (by rw [recvLoop, if_neg hnot]) hend
  | cons result incoming =>
      intro heq
      have hsuffix : (recvLoop forever (result :: incoming) parser).2.2 <:+ incoming := by
        rw [recvLoop.eq_def]
        simp only [if_neg hnot]
        cases result with
        | data bytes => exact recvLoop_incoming _ _ _
        | closed => exact List.suffix_refl _
        | timedOut =>
            cases forever with
            | true => exact recvLoop_incoming _ _ _
            | false => exact List.suffix_refl _
        | failed => exact List.suffix_refl _
      have hle := hsuffix.length_le
      rw [heq, List.length_cons] at hle
      omega

/-- The receive loop on a socket, when a complete frame is about to arrive. -/
theorem Socket.recvLoop_of_hasFrame {socket : Socket} (forever : Bool)
    {parser : MessageParser} (hready : parser.Ready) {segments : List (List UInt8)}
    (hseg : Segments segments) {tail : List RecvResult}
    (hin : socket.incoming = arriving segments ++ tail)
    (h : HasFrame (parser.pending ++ segments.flatten)) :
    ∃ taken left, ∃ parser' : MessageParser, segments = taken ++ left ∧ parser'.Ready ∧
      parser'.pending = parser.pending ++ taken.flatten ∧ HasFrame parser'.pending ∧
      (taken = [] ∨ ¬ HasFrame (parser.pending ++ taken.dropLast.flatten)) ∧
      socket.recvLoop forever parser =
        (.complete, parser', { socket with incoming := arriving left ++ tail }) := by
  obtain ⟨taken, left, p, rfl, hp, hpend, hfp, hmin, hrun⟩ :=
    Csci6780.recvLoop_of_hasFrame forever hready hseg h
  refine ⟨taken, left, p, rfl, hp, hpend, hfp, hmin, ?_⟩
  rw [Socket.recvLoop, hin, hrun]
  rfl

/-- How a receive loop that has no complete message ends on a script that begins with no
data. -/
def Socket.recvEnd (socket : Socket) (parser : MessageParser) :
    List RecvResult → RecvEnd × MessageParser × Socket
  | .closed :: rest => (.closed, parser, { socket with incoming := rest })
  | .timedOut :: rest =>
      (.timedOut, parser, { socket with incoming := rest, errno := .again })
  | .failed :: rest => (.failed, parser, { socket with incoming := rest, errno := .other })
  | _ => (.blocked, parser, { socket with incoming := [] })

/-- The receive loop on a socket, when no complete frame is about to arrive: it ends as the
result after the segments says. -/
theorem Socket.recvLoop_of_not_hasFrame {socket : Socket} {parser : MessageParser}
    (hready : parser.Ready) {segments : List (List UInt8)} (hseg : Segments segments)
    {tail : List RecvResult} (hin : socket.incoming = arriving segments ++ tail)
    (htail : ∀ bytes rest, tail ≠ .data bytes :: rest)
    (h : ¬ HasFrame (parser.pending ++ segments.flatten)) :
    ∃ parser' : MessageParser, parser'.Ready ∧
      parser'.pending = parser.pending ++ segments.flatten ∧
      socket.recvLoop false parser = socket.recvEnd parser' tail := by
  obtain ⟨p, hp, hpend, hnot, hrun⟩ := Csci6780.recvLoop_of_not_hasFrame false hready hseg h
  refine ⟨p, hp, hpend, ?_⟩
  rw [Socket.recvLoop, hin, hrun]
  rcases tail with - | ⟨result, rest⟩
  · simp [Csci6780.recvLoop, hnot, RecvEnd.errno, Socket.recvEnd]
  · cases result with
    | data bytes => exact absurd rfl (htail bytes rest)
    | closed => simp [Csci6780.recvLoop, hnot, RecvEnd.errno, Socket.recvEnd]
    | timedOut => simp [Csci6780.recvLoop, hnot, RecvEnd.errno, Socket.recvEnd]
    | failed => simp [Csci6780.recvLoop, hnot, RecvEnd.errno, Socket.recvEnd]

/-! ### Sending -/

/-- How a send loop ends. -/
inductive SendEnd
  | complete
  | closed
  | timedOut
  | failed
  | blocked
  deriving DecidableEq, Repr

/-- Call `send` until the whole buffer is accepted. The second argument is the part of the
buffer that is left; the result has the bytes accepted and the coming send results. -/
def sendLoop : List SendResult → List UInt8 → SendEnd × List UInt8 × List SendResult
  | [], buffer => (if buffer = [] then .complete else .blocked, [], [])
  | result :: sends, buffer =>
      if buffer = [] then (.complete, [], result :: sends)
      else
        match result with
        | .accepted n =>
            if n = 0 then (.closed, [], sends)
            else
              let (last, accepted, sends) := sendLoop sends (buffer.drop n)
              (last, buffer.take n ++ accepted, sends)
        | .timedOut => (.timedOut, [], sends)
        | .failed => (.failed, [], sends)

/-- The value of `errno` after a send loop. -/
def SendEnd.errno : SendEnd → Errno → Errno
  | .timedOut, _ => .again
  | .failed, _ => .other
  | _, errno => errno

/-- The send loop on a socket. -/
def Socket.sendLoop (socket : Socket) (buffer : List UInt8) : SendEnd × Socket :=
  let (last, accepted, sends) := Csci6780.sendLoop socket.sends buffer
  (last, { socket with
    sends := sends, sent := socket.sent ++ accepted, errno := last.errno socket.errno })

/-- Every coming `send` accepts some of the bytes it is offered. -/
def Accepting (sends : List SendResult) : Prop :=
  ∀ result ∈ sends, ∃ n, 0 < n ∧ result = .accepted n

theorem accepting_nil : Accepting [] := fun _ hmem => absurd hmem List.not_mem_nil

theorem accepting_singleton {n : ℕ} (hpos : 0 < n) : Accepting [.accepted n] := by
  intro result hmem
  exact ⟨n, hpos, List.mem_singleton.mp hmem⟩

theorem Accepting.cons {n : ℕ} {sends : List SendResult} (h : Accepting sends) (hpos : 0 < n) :
    Accepting (.accepted n :: sends) := by
  intro result hmem
  rcases List.mem_cons.mp hmem with rfl | hmem
  · exact ⟨n, hpos, rfl⟩
  · exact h result hmem

theorem Accepting.right {used left : List SendResult} (h : Accepting (used ++ left)) :
    Accepting left :=
  fun r hr => h r (List.mem_append_right _ hr)

theorem Accepting.tail {result : SendResult} {sends : List SendResult}
    (h : Accepting (result :: sends)) : Accepting sends :=
  fun r hr => h r (List.mem_cons_of_mem _ hr)

/-- The number of bytes that the calls are ready to accept. -/
def counted (sends : List SendResult) : ℕ :=
  (sends.map fun result =>
    match result with
    | .accepted n => n
    | _ => 0).sum

@[simp] theorem counted_nil : counted [] = 0 := rfl

@[simp] theorem counted_accepted (n : ℕ) (sends : List SendResult) :
    counted (.accepted n :: sends) = n + counted sends := by
  simp [counted]

theorem counted_append (as bs : List SendResult) :
    counted (as ++ bs) = counted as + counted bs := by
  simp [counted]

/-- **A send loop whose calls all accept something sends its buffer**, with at most as many
calls as the buffer has bytes, or blocks because there are fewer calls to come. -/
theorem sendLoop_of_accepting {sends : List SendResult} (hsends : Accepting sends)
    (buffer : List UInt8) :
    (∃ used left, sends = used ++ left ∧ used.length ≤ buffer.length ∧
      sendLoop sends buffer = (.complete, buffer, left)) ∨
    (sends.length < buffer.length ∧ (sendLoop sends buffer).1 = .blocked) := by
  induction sends generalizing buffer with
  | nil =>
      by_cases hnil : buffer = []
      · subst hnil
        exact .inl ⟨[], [], rfl, Nat.le_refl _, rfl⟩
      · refine .inr ⟨List.length_pos_iff.mpr hnil, ?_⟩
        rw [sendLoop, if_neg hnil]
  | cons result sends ih =>
      by_cases hnil : buffer = []
      · subst hnil
        refine .inl ⟨[], result :: sends, rfl, Nat.le_refl _, ?_⟩
        rw [sendLoop.eq_def]
        exact if_pos rfl
      · obtain ⟨n, hn, rfl⟩ := hsends result List.mem_cons_self
        have hpos := List.length_pos_iff.mpr hnil
        rcases ih hsends.tail (buffer.drop n) with ⟨used, left, rfl, hused, hrun⟩ | ⟨hlt, hrun⟩
        · refine .inl ⟨.accepted n :: used, left, rfl, ?_, ?_⟩
          · rw [List.length_drop] at hused
            rw [List.length_cons]
            omega
          · rw [sendLoop, if_neg hnil, if_neg (by omega)]
            simp only [hrun, List.take_append_drop]
        · refine .inr ⟨?_, ?_⟩
          · rw [List.length_drop] at hlt
            rw [List.length_cons]
            omega
          · rw [sendLoop, if_neg hnil, if_neg (by omega)]
            exact hrun

/-- **What a send loop accepts.** Behind the calls that accept something the loop is complete,
or it has accepted just what these counted, less than the buffer, and another call ended it. -/
theorem sendLoop_spec (sends : List SendResult) (buffer : List UInt8) :
    ∃ accepts rest, sends = accepts ++ rest ∧ Accepting accepts ∧
      (((sendLoop sends buffer).1 = .complete ∧ (sendLoop sends buffer).2.1 = buffer ∧
          buffer.length ≤ counted accepts) ∨
        ((sendLoop sends buffer).1 ≠ .complete ∧ (sendLoop sends buffer).2.1 <+: buffer ∧
          (sendLoop sends buffer).2.1.length = counted accepts ∧
          counted accepts < buffer.length ∧
          ((sendLoop sends buffer).1 = .timedOut → ∃ more, rest = .timedOut :: more))) := by
  induction sends generalizing buffer with
  | nil =>
      refine ⟨[], [], rfl, accepting_nil, ?_⟩
      rw [sendLoop]
      by_cases hnil : buffer = []
      · simp [hnil]
      · simp [hnil, List.length_pos_iff.mpr hnil]
  | cons result sends ih =>
      rw [sendLoop.eq_def]
      by_cases hnil : buffer = []
      · exact ⟨[], result :: sends, rfl, accepting_nil, by simp [hnil]⟩
      · have hpos := List.length_pos_iff.mpr hnil
        simp only [hnil, if_false]
        cases result with
        | accepted n =>
            by_cases hzero : n = 0
            · exact ⟨[], .accepted n :: sends, rfl, accepting_nil, by simp [hzero, hpos]⟩
            · obtain ⟨accepts, rest, rfl, hacc, hend⟩ := ih (buffer.drop n)
              simp only [hzero, if_false]
              rcases hrec : sendLoop (accepts ++ rest) (buffer.drop n) with ⟨last, accepted, left⟩
              rw [hrec, List.length_drop] at hend
              refine ⟨.accepted n :: accepts, rest, rfl, hacc.cons (Nat.pos_of_ne_zero hzero), ?_⟩
              rw [counted_accepted]
              simp only [] at hend ⊢
              rcases hend with ⟨hlast, haccepted, hle⟩ | ⟨hlast, hinit, hcount, hlt, htimedOut⟩
              · refine .inl ⟨hlast, ?_, by omega⟩
                rw [haccepted, List.take_append_drop]
              · refine .inr ⟨hlast, ?_, ?_, by omega, htimedOut⟩
                · obtain ⟨more, hmore⟩ := hinit
                  exact ⟨more, by rw [List.append_assoc, hmore, List.take_append_drop]⟩
                · rw [List.length_append, List.length_take, hcount]
                  omega
        | timedOut => exact ⟨[], .timedOut :: sends, rfl, accepting_nil, by simp [hpos]⟩
        | failed => exact ⟨[], .failed :: sends, rfl, accepting_nil, by simp [hpos]⟩

/-- What a send loop accepts, on a socket. -/
theorem Socket.sendLoop_spec (socket : Socket) (buffer : List UInt8) :
    ∃ last accepted left accepts rest,
      socket.sendLoop buffer = (last, { socket with
        sends := left, sent := socket.sent ++ accepted, errno := last.errno socket.errno }) ∧
      socket.sends = accepts ++ rest ∧ Accepting accepts ∧
      ((last = .complete ∧ accepted = buffer ∧ buffer.length ≤ counted accepts) ∨
        (last ≠ .complete ∧ accepted <+: buffer ∧ accepted.length = counted accepts ∧
          counted accepts < buffer.length ∧
          (last = .timedOut → ∃ more, rest = .timedOut :: more))) := by
  obtain ⟨accepts, rest, hsplit, hacc, hend⟩ := Csci6780.sendLoop_spec socket.sends buffer
  rcases hrun : Csci6780.sendLoop socket.sends buffer with ⟨last, accepted, left⟩
  rw [hrun] at hend
  refine ⟨last, accepted, left, accepts, rest, ?_, hsplit, hacc, hend⟩
  rw [Socket.sendLoop, hrun]

/-- The send loop on a socket whose calls all accept something. -/
theorem Socket.sendLoop_of_accepting {socket : Socket} (hsends : Accepting socket.sends)
    (buffer : List UInt8) :
    (∃ used left, socket.sends = used ++ left ∧ used.length ≤ buffer.length ∧
      socket.sendLoop buffer =
        (.complete, { socket with sends := left, sent := socket.sent ++ buffer })) ∨
    (socket.sends.length < buffer.length ∧ (socket.sendLoop buffer).1 = .blocked) := by
  rcases Csci6780.sendLoop_of_accepting hsends buffer with
    ⟨used, left, hsplit, hused, hrun⟩ | ⟨hlt, hrun⟩
  · refine .inl ⟨used, left, hsplit, hused, ?_⟩
    rw [Socket.sendLoop, hrun]
    rfl
  · exact .inr ⟨hlt, hrun⟩

end Csci6780
