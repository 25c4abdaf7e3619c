import Csci6780.ChunkedFiles

/-!
# CleanUp

`ChunkedFileReceiver::CleanUp` reads messages until the parser is empty, so that the next reader
of the socket starts with a frame. Its loop goes on unless `ReceiveNextChunk` returns a negative
value. But `ReceiveNextChunk` returns 0 when the peer has closed the connection, and then it keeps
returning 0: with a part of a frame in the parser the loop goes on for ever.

Both results are about the bytes in the parser and the script of `recv` results. One round takes
the first frame of these bytes off the stream, or skips a result that says the peer has closed the
connection, and neither changes whether the loop ends.

## Main results

* `ChunkedFileReceiver.cleanUpStep_spec`: what a round does.
* `cleanUp_returns_iff`: when `CleanUp` returns.
* `cleanUp_between_frames`: where the socket is when it returns true.
-/

namespace Csci6780

/-- A script of what `recv` can return: no result is empty data, and none fills more than a 32-bit
length. -/
def Received (incoming : List RecvResult) : Prop :=
  ∀ bytes, .data bytes ∈ incoming → bytes ≠ [] ∧ bytes.length < 2 ^ 32

theorem Received.segments {segments : List (List UInt8)} {tail : List RecvResult}
    (h : Received (arriving segments ++ tail)) : Segments segments :=
  fun _ hmem => h _ (List.mem_append_left _ (List.mem_map_of_mem hmem))

theorem Received.of_suffix {incoming left : List RecvResult} (h : Received incoming)
    (hleft : left <:+ incoming) : Received left :=
  fun bytes hmem => h bytes (hleft.subset hmem)

theorem received_nil : Received [] := fun _ hmem => absurd hmem List.not_mem_nil

/-- `ReceiveNextChunk` returns a negative value for a frame with this body: protobuf does not parse
it, or it holds more bytes than an `int` can count. -/
def Refused (pb : Protobuf FileContents) (body : List UInt8) : Prop :=
  ∀ m, pb.parseBody body = some m → sizeToInt m.contents.length < 0

/-- Some complete frame of the bytes is refused. -/
def HasRefused (pb : Protobuf FileContents) (V : List UInt8) : Prop :=
  ∃ bodies body rest, Framable (bodies ++ [body]) ∧ Refused pb body ∧
    V = frames (bodies ++ [body]) ++ rest

/-- `CleanUp` comes to an end with the given bytes in the parser: a `recv` fails, a frame is
refused, or at some point a whole number of frames has arrived. -/
def CleanUpEnds (pb : Protobuf FileContents) (U : List UInt8) (incoming : List RecvResult) : Prop :=
  (∃ result ∈ incoming, result = .timedOut ∨ result = .failed) ∨
  HasRefused pb (U ++ arrived incoming) ∨
  ∃ taken left, incoming = taken ++ left ∧ WholeFrames (U ++ arrived taken)

section Ends

variable {pb : Protobuf FileContents} {U V : List UInt8} {incoming : List RecvResult}

/-- Bytes that hold no complete frame hold none that is refused. -/
theorem not_hasRefused (hno : ¬ HasFrame V) : ¬ HasRefused pb V := by
  rintro ⟨bodies, body, rest, hb, -, rfl⟩
  refine hno ?_
  cases bodies with
  | nil => exact (hasFrame_frames_cons hb).append rest |>.1
  | cons first bodies => exact (hasFrame_frames_cons hb).append rest |>.1

/-- A frame in front that is not refused does not change whether one is. -/
theorem hasRefused_frame_append_iff {body : List UInt8} (hbody : body.length < 2 ^ 32)
    (hok : ¬ Refused pb body) : HasRefused pb (frame body ++ V) ↔ HasRefused pb V := by
  constructor
  · rintro ⟨bodies, last, rest, hb, href, heq⟩
    cases bodies with
    | nil =>
        rw [List.nil_append, frames_cons, List.append_assoc] at heq
        have hf := hasFrame_frame_append hbody V
        have hsame := (hf.eq_of_append_eq hb.head (by rw [List.append_nil, heq])).1
        rw [frameBody_frame_append hbody] at hsame
        exact absurd (hsame ▸ href) hok
    | cons first bodies =>
        rw [List.cons_append, frames_cons, List.append_assoc] at heq
        have hf := hasFrame_frame_append hbody V
        have hrest := (hf.eq_of_append_eq hb.head (by rw [List.append_nil, heq])).2
        rw [afterFrame_frame_append hbody, List.append_nil] at hrest
        exact ⟨bodies, last, rest, hb.tail, href, hrest⟩
  · rintro ⟨bodies, last, rest, hb, href, rfl⟩
    refine ⟨body :: bodies, last, rest, hb.cons hbody, href, ?_⟩
    rw [List.cons_append, frames_cons, List.append_assoc]

/-- With an empty parser there is nothing to clean up. -/
theorem CleanUpEnds.of_nil (pb : Protobuf FileContents) (incoming : List RecvResult) :
    CleanUpEnds pb [] incoming :=
  .inr (.inr ⟨[], incoming, rfl, wholeFrames_nil⟩)

/-- Data is not an error. -/
theorem exists_error_arriving_append (segments : List (List UInt8)) (tail : List RecvResult) :
    (∃ result ∈ arriving segments ++ tail, result = .timedOut ∨ result = .failed) ↔
      ∃ result ∈ tail, result = .timedOut ∨ result = .failed := by
  constructor
  · rintro ⟨result, hmem, herror⟩
    rcases List.mem_append.mp hmem with hmem | hmem
    · obtain ⟨bytes, -, rfl⟩ := List.mem_map.mp hmem
      simp at herror
    · exact ⟨result, hmem, herror⟩
  · rintro ⟨result, hmem, herror⟩
    exact ⟨result, List.mem_append_right _ hmem, herror⟩

/-- A script is cut before its first segments are over, or after them. -/
theorem append_eq_arriving_append {taken left tail : List RecvResult}
    {segments : List (List UInt8)} (h : arriving segments ++ tail = taken ++ left) :
    (∃ before after, after ≠ [] ∧ segments = before ++ after ∧ taken = arriving before) ∨
      ∃ more, taken = arriving segments ++ more ∧ tail = more ++ left := by
  rcases List.append_eq_append_iff.mp h with ⟨more, htaken, htail⟩ | ⟨more, hsplit, hleft⟩
  · exact .inr ⟨more, htaken, htail⟩
  · obtain ⟨before, after, rfl, rfl, rfl⟩ := List.map_eq_append_iff.mp hsplit
    cases after with
    | nil =>
        refine .inr ⟨[], ?_, ?_⟩
        · rw [List.append_nil, List.append_nil, arriving]
        · exact hleft.symm
    | cons first after => exact .inl ⟨before, first :: after, List.cons_ne_nil _ _, rfl, rfl⟩

/-- Whole frames are no beginning of bytes that hold no complete frame. -/
theorem WholeFrames.not_prefix_of_not_hasFrame (h : WholeFrames U) (hne : U ≠ [])
    (hno : ¬ HasFrame V) : ¬ U <+: V := by
  rintro ⟨rest, rfl⟩
  exact hne (h.eq_nil fun hf => hno (hf.append rest).1)

/-- What some of the segments hold is the beginning of what they all hold. -/
theorem prefix_append_flatten (U : List UInt8) {before segments : List (List UInt8)}
    (h : before <+: segments) : U ++ before.flatten <+: U ++ segments.flatten := by
  obtain ⟨after, rfl⟩ := h
  exact ⟨after.flatten, by rw [List.flatten_append, List.append_assoc]⟩

/-- **A frame that is taken off the stream** and not refused does not change whether `CleanUp`
comes to an end. -/
theorem cleanUpEnds_afterFrame_iff (hne : U ≠ []) {segments : List (List UInt8)}
    (hf : HasFrame (U ++ segments.flatten))
    (hmin : segments = [] ∨ ¬ HasFrame (U ++ segments.dropLast.flatten))
    (hok : ¬ Refused pb (frameBody (U ++ segments.flatten))) :
    CleanUpEnds pb (afterFrame (U ++ segments.flatten)) incoming ↔
      CleanUpEnds pb U (arriving segments ++ incoming) := by
  have hbody := hf.length_frameBody_lt
  have harrived : ∀ script, U ++ arrived (arriving segments ++ script) =
      frame (frameBody (U ++ segments.flatten)) ++
        (afterFrame (U ++ segments.flatten) ++ arrived script) := by
    intro script
    rw [arrived_append, arrived_arriving, ← List.append_assoc, ← List.append_assoc,
      ← hf.eq_frame_append]
  refine or_congr (exists_error_arriving_append segments incoming).symm (or_congr ?_ ?_)
  · rw [harrived, hasRefused_frame_append_iff hbody hok]
  · constructor
    · rintro ⟨taken, left, rfl, hwhole⟩
      refine ⟨arriving segments ++ taken, left, (List.append_assoc _ _ _).symm, ?_⟩
      rwa [harrived, wholeFrames_frame_append_iff hbody]
    · rintro ⟨taken, left, hsplit, hwhole⟩
      rcases append_eq_arriving_append hsplit with
        ⟨before, after, hafter, rfl, rfl⟩ | ⟨more, rfl, rfl⟩
      · -- fewer segments are whole frames, so the first of these was complete before
        rw [arrived_arriving] at hwhole
        rcases hmin with hnil | hno
        · exact absurd (List.append_eq_nil_iff.mp hnil).2 hafter
        · rw [List.dropLast_append_of_ne_nil hafter] at hno
          exact absurd (prefix_append_flatten U (List.prefix_append before _))
            (hwhole.not_prefix_of_not_hasFrame (List.append_ne_nil_of_left_ne_nil hne _) hno)
      · rw [harrived, wholeFrames_frame_append_iff hbody] at hwhole
        exact ⟨more, left, rfl, hwhole⟩

/-- **A result that says the connection is closed** does not change it either, when no complete
frame has arrived. -/
theorem cleanUpEnds_closed_iff (hne : U ≠ []) {segments : List (List UInt8)}
    (hno : ¬ HasFrame (U ++ segments.flatten)) :
    CleanUpEnds pb (U ++ segments.flatten) incoming ↔
      CleanUpEnds pb U (arriving segments ++ .closed :: incoming) := by
  have harrived : ∀ script, U ++ arrived (arriving segments ++ .closed :: script) =
      U ++ segments.flatten ++ arrived script := by
    intro script
    rw [arrived_append, arrived_arriving, List.append_assoc]
    rfl
  refine or_congr ?_ (or_congr ?_ ?_)
  · rw [exists_error_arriving_append]
    simp
  · rw [harrived]
  · constructor
    · rintro ⟨taken, left, rfl, hwhole⟩
      refine ⟨arriving segments ++ .closed :: taken, left, ?_, ?_⟩
      · rw [List.append_assoc, List.cons_append]
      · rwa [harrived]
    · rintro ⟨taken, left, hsplit, hwhole⟩
      rcases append_eq_arriving_append hsplit with
        ⟨before, after, -, rfl, rfl⟩ | ⟨more, rfl, hmore⟩
      · rw [arrived_arriving] at hwhole
        exact absurd (prefix_append_flatten U (List.prefix_append before after))
          (hwhole.not_prefix_of_not_hasFrame (List.append_ne_nil_of_left_ne_nil hne _) hno)
      · cases more with
        | nil =>
            rw [List.append_nil, arrived_arriving] at hwhole
            exact absurd (List.prefix_refl _)
              (hwhole.not_prefix_of_not_hasFrame (List.append_ne_nil_of_left_ne_nil hne _) hno)
        | cons result more =>
            injection hmore with hresult hmore
            subst hresult hmore
            rw [harrived] at hwhole
            exact ⟨more, left, rfl, hwhole⟩

/-- Data that completes no frame brings no end. -/
theorem not_cleanUpEnds_arriving (hne : U ≠ []) {segments : List (List UInt8)}
    (hno : ¬ HasFrame (U ++ segments.flatten)) : ¬ CleanUpEnds pb U (arriving segments) := by
  rintro (herror | href | ⟨taken, left, hsplit, hwhole⟩)
  · rw [← List.append_nil (arriving segments), exists_error_arriving_append] at herror
    obtain ⟨_, hmem, -⟩ := herror
    cases hmem
  · rw [arrived_arriving] at href
    exact not_hasRefused hno href
  · obtain ⟨before, after, rfl, rfl, -⟩ := List.map_eq_append_iff.mp hsplit
    have hbefore : arrived (before.map RecvResult.data) = before.flatten :=
      arrived_arriving before
    rw [hbefore] at hwhole
    exact absurd (prefix_append_flatten U (List.prefix_append before after))
      (hwhole.not_prefix_of_not_hasFrame (List.append_ne_nil_of_left_ne_nil hne _) hno)

end Ends

/-! ### One call -/

namespace ChunkedFileReceiver

variable {pb : Protobuf FileContents} {receiver : ChunkedFileReceiver} {socket : Socket}

/-- **One call of `ReceiveNextChunk`, on any script.** It takes a frame off the stream, or what has
arrived completes none and another result ends the call, or it waits for ever. -/
theorem receiveNextChunk_cases (pb : Protobuf FileContents) (hready : receiver.parser.Ready)
    (hrecv : Received socket.incoming) :
    (∃ (segments : List (List UInt8)) (n : ℤ) (receiver' : ChunkedFileReceiver) (socket' : Socket),
      socket.incoming = arriving segments ++ socket'.incoming ∧ receiver'.parser.Ready ∧
      HasFrame (receiver.parser.pending ++ segments.flatten) ∧
      (segments = [] ∨ ¬ HasFrame (receiver.parser.pending ++ segments.dropLast.flatten)) ∧
      receiver'.parser.pending = afterFrame (receiver.parser.pending ++ segments.flatten) ∧
      (n < 0 ↔ Refused pb (frameBody (receiver.parser.pending ++ segments.flatten))) ∧
      receiver.receiveNextChunk pb socket = some (n, receiver', socket')) ∨
    (∃ (segments : List (List UInt8)) (result : RecvResult) (n : ℤ)
        (receiver' : ChunkedFileReceiver) (socket' : Socket),
      socket.incoming = arriving segments ++ result :: socket'.incoming ∧
      receiver'.parser.Ready ∧ ¬ HasFrame (receiver.parser.pending ++ segments.flatten) ∧
      receiver'.parser.pending = receiver.parser.pending ++ segments.flatten ∧
      (result = .closed ∧ n = 0 ∨ (result = .timedOut ∨ result = .failed) ∧ n = -1) ∧
      receiver.receiveNextChunk pb socket = some (n, receiver', socket')) ∨
    ∃ segments : List (List UInt8), socket.incoming = arriving segments ∧
      ¬ HasFrame (receiver.parser.pending ++ segments.flatten) ∧
      receiver.receiveNextChunk pb socket = none := by
  obtain ⟨segments, tail, hin, htail⟩ := exists_arriving socket.incoming
  have hseg : Segments segments := Received.segments (hin ▸ hrecv)
  by_cases hf : HasFrame (receiver.parser.pending ++ segments.flatten)
  · obtain ⟨taken, left, parser, rfl, hready', hpend, hfp, hmin, hcall⟩ :=
      receiveNextChunk_of_hasFrame pb hready hseg hin hf
    rw [arriving_append, List.append_assoc] at hin
    cases hparse : pb.parseBody (frameBody (receiver.parser.pending ++ taken.flatten)) with
    | none =>
        rw [hparse] at hcall
        refine .inl ⟨taken, -1, _, _, hin, hready', hfp, hmin, hpend, ?_, hcall⟩
        simp [Refused, hparse]
    | some m =>
        rw [hparse] at hcall
        refine .inl ⟨taken, _, _, _, hin, hready', hfp, hmin, hpend, ?_, hcall⟩
        simp [Refused, hparse]
  · obtain ⟨parser, hready', hpend, hcall⟩ :=
      receiveNextChunk_of_not_hasFrame pb hready hseg hin htail hf
    refine .inr ?_
    cases tail with
    | nil => exact .inr ⟨segments, by rw [hin, List.append_nil], hf, hcall⟩
    | cons result rest =>
        cases result with
        | data bytes => exact absurd rfl (htail bytes rest)
        | closed =>
            exact .inl ⟨segments, .closed, 0, _, _, hin, hready', hf, hpend, .inl ⟨rfl, rfl⟩, hcall⟩
        | timedOut =>
            exact .inl ⟨segments, .timedOut, -1, _, _, hin, hready', hf, hpend,
              .inr ⟨.inl rfl, rfl⟩, hcall⟩
        | failed =>
            exact .inl ⟨segments, .failed, -1, _, _, hin, hready', hf, hpend,
              .inr ⟨.inr rfl, rfl⟩, hcall⟩

/-- A round of `CleanUp` with an empty parser. -/
theorem cleanUpStep_of_nil (hready : receiver.parser.Ready) (hnil : receiver.parser.pending = [])
    (socket : Socket) :
    cleanUpStep pb (receiver, socket) = some (.inr (true, receiver.reset, socket)) := by
  have hno : ¬ HasFrame receiver.parser.pending := hnil ▸ not_hasFrame_nil
  have hover : receiver.parser.hasOverflow = false := by
    rw [MessageParser.hasOverflow, hready.wellFormed.overflow_of_not_hasFrame hno]
    rfl
  have hpartial : receiver.parser.hasPartialMessage = false := by
    rw [Bool.eq_false_iff]
    exact fun h => hready.wellFormed.hasPartialMessage_iff.mp h hnil
  rw [cleanUpStep, hover, hpartial]
  rfl

/-- A round of `CleanUp` with something in the parser is a call of `ReceiveNextChunk`. -/
theorem cleanUpStep_of_ne (hready : receiver.parser.Ready) (hne : receiver.parser.pending ≠ [])
    (socket : Socket) :
    cleanUpStep pb (receiver, socket) =
      match receiver.receiveNextChunk pb socket with
      | none => none
      | some (n, receiver', socket') =>
          if n < 0 then some (.inr (false, receiver', socket'))
          else some (.inl (receiver', socket')) := by
  have hmore : (receiver.parser.hasOverflow || receiver.parser.hasPartialMessage) = true := by
    rw [hready.wellFormed.hasPartialMessage_iff.mpr hne, Bool.or_true]
  exact if_pos hmore

/-- **One round of `CleanUp`** with something in the parser: it returns, or goes on closer to the
end of the script, or waits for ever; whether the loop comes to an end does not change. -/
theorem cleanUpStep_spec (pb : Protobuf FileContents) (hready : receiver.parser.Ready)
    (hrecv : Received socket.incoming) (hne : receiver.parser.pending ≠ []) :
    (∃ r, cleanUpStep pb (receiver, socket) = some (.inr r) ∧
      CleanUpEnds pb receiver.parser.pending socket.incoming) ∨
    (∃ (receiver' : ChunkedFileReceiver) (socket' : Socket),
      cleanUpStep pb (receiver, socket) = some (.inl (receiver', socket')) ∧
      receiver'.parser.Ready ∧ Received socket'.incoming ∧
      (CleanUpEnds pb receiver'.parser.pending socket'.incoming ↔
        CleanUpEnds pb receiver.parser.pending socket.incoming) ∧
      (receiver'.parser.pending ++ arrived socket'.incoming).length + socket'.incoming.length <
        (receiver.parser.pending ++ arrived socket.incoming).length + socket.incoming.length) ∨
    (cleanUpStep pb (receiver, socket) = none ∧
      ¬ CleanUpEnds pb receiver.parser.pending socket.incoming) := by
  rw [cleanUpStep_of_ne hready hne]
  rcases receiveNextChunk_cases pb hready hrecv with
    ⟨segments, n, receiver', socket', hin, hready', hf, hmin, hpend, hneg, hcall⟩ |
    ⟨segments, result, n, receiver', socket', hin, hready', hno, hpend, hresult, hcall⟩ |
    ⟨segments, hin, hno, hcall⟩
  · have hbody : Framable [frameBody (receiver.parser.pending ++ segments.flatten)] :=
      framable_nil.cons hf.length_frameBody_lt
    have hbytes : receiver.parser.pending ++ arrived socket.incoming =
        frames [frameBody (receiver.parser.pending ++ segments.flatten)] ++
          (receiver'.parser.pending ++ arrived socket'.incoming) := by
      rw [hin, arrived_append, arrived_arriving, ← List.append_assoc, ← List.append_assoc, hpend,
        frames_cons, frames_nil, List.append_nil, ← hf.eq_frame_append]
    simp only [hcall]
    by_cases href : Refused pb (frameBody (receiver.parser.pending ++ segments.flatten))
    · rw [if_pos (hneg.mpr href)]
      exact .inl ⟨_, rfl, .inr (.inl ⟨[], _, _, hbody, href, hbytes⟩)⟩
    · rw [if_neg fun hlt => href (hneg.mp hlt)]
      refine .inr (.inl ⟨receiver', socket', rfl, hready',
        hrecv.of_suffix ⟨arriving segments, hin.symm⟩, ?_, ?_⟩)
      · rw [hpend, hin, cleanUpEnds_afterFrame_iff hne hf hmin href]
      · have hlen := congrArg List.length hin
        rw [hbytes]
        simp only [List.length_append, frames_cons, length_frame] at hlen ⊢
        omega
  · simp only [hcall]
    rcases hresult with ⟨rfl, rfl⟩ | ⟨herror, rfl⟩
    · rw [if_neg (Int.lt_irrefl 0)]
      refine .inr (.inl ⟨receiver', socket', rfl, hready',
        hrecv.of_suffix ⟨arriving segments ++ [.closed], ?_⟩, ?_, ?_⟩)
      · rw [hin, List.append_assoc, List.singleton_append]
      · rw [hpend, hin, cleanUpEnds_closed_iff hne hno]
      · have hbytes : receiver.parser.pending ++ arrived socket.incoming =
            receiver'.parser.pending ++ arrived socket'.incoming := by
          rw [hin, arrived_append, arrived_arriving, hpend, List.append_assoc]
          rfl
        have hlen := congrArg List.length hin
        rw [List.length_append, List.length_cons] at hlen
        rw [hbytes]
        omega
    · rw [if_pos (by omega), hin]
      exact .inl ⟨_, rfl, .inl ⟨result, by simp, herror⟩⟩
  · rw [hcall, hin]
    exact .inr (.inr ⟨rfl, not_cleanUpEnds_arriving hne hno⟩)

variable (receiver socket) in
/-- **When `CleanUp` returns**, on a script that blocks when it is over. -/
theorem cleanUp_returns_iff_ends (pb : Protobuf FileContents) (hready : receiver.parser.Ready)
    (hrecv : Received socket.incoming) :
    (∃ fuel r, receiver.cleanUp pb fuel socket = some r) ↔
      CleanUpEnds pb receiver.parser.pending socket.incoming := by
  refine whileLoop_returns_iff
    (fun s : ChunkedFileReceiver × Socket => s.1.parser.Ready ∧ Received s.2.incoming)
    (fun s => CleanUpEnds pb s.1.parser.pending s.2.incoming)
    (fun s => (s.1.parser.pending ++ arrived s.2.incoming).length + s.2.incoming.length) ?_
    ⟨hready, hrecv⟩
  rintro ⟨receiver, socket⟩ ⟨hready, hrecv⟩
  by_cases hnil : receiver.parser.pending = []
  · exact .inl ⟨_, cleanUpStep_of_nil hready hnil socket, hnil ▸ .of_nil pb socket.incoming⟩
  · rcases cleanUpStep_spec pb hready hrecv hnil with hreturns |
      ⟨receiver', socket', hround, hready', hrecv', hiff, hlt⟩ | hblocks
    · exact .inl hreturns
    · exact .inr (.inl ⟨(receiver', socket'), hround, ⟨hready', hrecv'⟩, hiff, hlt⟩)
    · exact .inr (.inr hblocks)

end ChunkedFileReceiver

/-! ### A result for ever -/

section Last

variable {pb : Protobuf FileContents} {U : List UInt8} {incoming : List RecvResult}
  {last : RecvResult} (hlast : ∀ bytes, last ≠ .data bytes)

include hlast

/-- No bytes arrive by a result that is no data, however often it is returned. -/
theorem arrived_replicate (m : ℕ) : arrived (List.replicate m last) = [] := by
  induction m with
  | zero => rfl
  | succ m ih =>
      rw [List.replicate_succ, ← List.singleton_append, arrived_append, ih, List.append_nil]
      cases last with
      | data bytes => exact absurd rfl (hlast bytes)
      | closed | timedOut | failed => rfl

theorem Received.append_replicate (h : Received incoming) (m : ℕ) :
    Received (incoming ++ List.replicate m last) := by
  intro bytes hmem
  rcases List.mem_append.mp hmem with hmem | hmem
  · exact h bytes hmem
  · exact absurd (List.eq_of_mem_replicate hmem).symm (hlast bytes)

/-- An error that is returned for ever brings `CleanUp` to an end; the end of the stream does not
help. -/
theorem exists_cleanUpEnds_replicate_iff :
    (∃ m, CleanUpEnds pb U (incoming ++ List.replicate m last)) ↔
      last ≠ .closed ∨ CleanUpEnds pb U incoming := by
  have harrived : ∀ m, arrived (incoming ++ List.replicate m last) = arrived incoming := by
    intro m
    rw [arrived_append, arrived_replicate hlast, List.append_nil]
  constructor
  · rintro ⟨m, ⟨result, hmem, herror⟩ | href | ⟨taken, left, hsplit, hwhole⟩⟩
    · rcases List.mem_append.mp hmem with hmem | hmem
      · exact .inr (.inl ⟨result, hmem, herror⟩)
      · refine .inl fun hclosed => ?_
        rw [List.eq_of_mem_replicate hmem, hclosed] at herror
        simp at herror
    · rw [harrived] at href
      exact .inr (.inr (.inl href))
    · refine .inr (.inr (.inr ?_))
      rcases List.append_eq_append_iff.mp hsplit with ⟨more, rfl, hmore⟩ | ⟨more, rfl, -⟩
      · -- nothing arrives after the script
        have hnone : arrived more = [] := by
          have hall := arrived_replicate hlast m
          rw [hmore, arrived_append, List.append_eq_nil_iff] at hall
          exact hall.1
        rw [arrived_append, hnone, List.append_nil] at hwhole
        exact ⟨incoming, [], (List.append_nil _).symm, hwhole⟩
      · exact ⟨taken, more, rfl, hwhole⟩
  · rintro (herror | hends)
    · refine ⟨1, .inl ⟨last, by simp, ?_⟩⟩
      cases last with
      | data bytes => exact absurd rfl (hlast bytes)
      | closed => exact absurd rfl herror
      | timedOut => exact .inl rfl
      | failed => exact .inr rfl
    · exact ⟨0, by rwa [List.replicate_zero, List.append_nil]⟩

end Last

/-- **When `CleanUp` returns.** From any state of the parser and for any `recv` results that are
followed for ever by the end of the stream or by an error, `CleanUp` returns after finitely many
calls if and only if what follows is an error, or one of the results before is, or a frame in them
is refused, or at some point they hold a whole number of frames. -/
theorem cleanUp_returns_iff (pb : Protobuf FileContents) (receiver : ChunkedFileReceiver)
    (hready : receiver.parser.Ready) (socket : Socket) {incoming : List RecvResult}
    (hrecv : Received incoming) {last : RecvResult} (hlast : ∀ bytes, last ≠ .data bytes) :
    (∃ m fuel r, receiver.cleanUp pb fuel
      { socket with incoming := incoming ++ List.replicate m last } = some r) ↔
      last ≠ .closed ∨ CleanUpEnds pb receiver.parser.pending incoming := by
  rw [← exists_cleanUpEnds_replicate_iff hlast]
  refine exists_congr fun m => ?_
  exact ChunkedFileReceiver.cleanUp_returns_iff_ends receiver
    { socket with incoming := incoming ++ List.replicate m last } pb hready
    (hrecv.append_replicate hlast m)

/-- The rest of a frame arrives before the peer closes the connection. -/
theorem cleanUp_returns_one_frame :
    ∃ m fuel r, ChunkedFileReceiver.cleanUp fileContentsProto fuel
      { parser := MessageParser.addNewData {} [0, 0, 0] }
      { incoming := [.data [5, 10, 1, 7, 16, 1]] ++ List.replicate m .closed } = some r := by
  have hready : (MessageParser.addNewData {} [0, 0, 0]).Ready :=
    (MessageParser.ready_fresh.wellFormed.ready_addNewData not_hasFrame_nil (by decide)).1
  have hrecv : Received [.data [5, 10, 1, 7, 16, 1]] := by
    intro bytes hmem
    obtain rfl := RecvResult.data.inj (List.mem_singleton.mp hmem)
    exact ⟨by simp, by decide⟩
  have hends : CleanUpEnds fileContentsProto (MessageParser.addNewData {} [0, 0, 0]).pending
      [.data [5, 10, 1, 7, 16, 1]] := by
    refine .inr (.inr ⟨_, [], (List.append_nil _).symm, [[10, 1, 7, 16, 1]], by decide, ?_⟩)
    decide
  have hlast : ∀ bytes, RecvResult.closed ≠ .data bytes := fun _ h => RecvResult.noConfusion h
  exact (cleanUp_returns_iff fileContentsProto
    { parser := MessageParser.addNewData {} [0, 0, 0] } hready {} hrecv hlast).mpr (.inr hends)

/-- The peer closes the connection after the first byte of a frame. -/
theorem cleanUp_never_returns :
    ¬ ∃ m fuel r, ChunkedFileReceiver.cleanUp fileContentsProto fuel
      { parser := MessageParser.addNewData {} [0] }
      { incoming := List.replicate m .closed } = some r := by
  rintro ⟨m, fuel, r, hrun⟩
  have hready : (MessageParser.addNewData {} [0]).Ready :=
    (MessageParser.ready_fresh.wellFormed.ready_addNewData not_hasFrame_nil (by decide)).1
  have hlast : ∀ bytes, RecvResult.closed ≠ .data bytes := fun _ h => RecvResult.noConfusion h
  have hends : CleanUpEnds fileContentsProto (MessageParser.addNewData {} [0]).pending
      ([] ++ List.replicate m .closed) :=
    (ChunkedFileReceiver.cleanUp_returns_iff_ends { parser := MessageParser.addNewData {} [0] }
      { incoming := List.replicate m .closed } fileContentsProto hready
      (received_nil.append_replicate hlast m)).mp ⟨fuel, r, hrun⟩
  rcases (exists_cleanUpEnds_replicate_iff hlast).mp ⟨m, hends⟩ with hclosed | hends
  · exact hclosed rfl
  · have hno : ¬ HasFrame ((MessageParser.addNewData {} [0]).pending ++ List.flatten []) := by
      decide
    have hnot : ¬ CleanUpEnds fileContentsProto (MessageParser.addNewData {} [0]).pending
        (arriving []) := not_cleanUpEnds_arriving (by decide) hno
    exact hnot hends

/-! ### Between frames -/

namespace ChunkedFileReceiver

/-- Call `ReceiveNextChunk` so many times, whatever the calls return; `none` if one blocks. -/
def receiveCalls (pb : Protobuf FileContents) :
    ℕ → ChunkedFileReceiver → Socket → Option (ChunkedFileReceiver × Socket)
  | 0, receiver, socket => some (receiver, socket)
  | k + 1, receiver, socket =>
      match receiver.receiveNextChunk pb socket with
      | none => none
      | some (_, receiver, socket) => receiveCalls pb k receiver socket

/-- What has been taken off a script since the receiver was created are whole frames and the bytes
in its parser. -/
structure Tracks (script : List RecvResult) (receiver : ChunkedFileReceiver) (socket : Socket) :
    Prop where
  ready : receiver.parser.Ready
  reads : ∃ taken bodies, script = taken ++ socket.incoming ∧ Framable bodies ∧
    arrived taken = frames bodies ++ receiver.parser.pending

variable {pb : Protobuf FileContents} {receiver receiver' : ChunkedFileReceiver}
  {socket socket' : Socket} {script : List RecvResult}

theorem tracks_fresh (socket : Socket) : Tracks socket.incoming {} socket where
  ready := MessageParser.ready_fresh
  reads := ⟨[], [], rfl, framable_nil, rfl⟩

/-- A call of `ReceiveNextChunk` keeps track. -/
theorem Tracks.receiveNextChunk (h : Tracks script receiver socket) (hrecv : Received script)
    {n : ℤ} (hcall : receiver.receiveNextChunk pb socket = some (n, receiver', socket')) :
    Tracks script receiver' socket' := by
  obtain ⟨taken, bodies, hscript, hb, hbytes⟩ := h.reads
  rcases receiveNextChunk_cases pb h.ready (hrecv.of_suffix ⟨taken, hscript.symm⟩) with
    ⟨segments, n₁, receiver₁, socket₁, hin, hready', hf, -, hpend, -, hcall₁⟩ |
    ⟨segments, result, n₁, receiver₁, socket₁, hin, hready', -, hpend, hresult, hcall₁⟩ |
    ⟨segments, -, -, hcall₁⟩
  · rw [hcall, Option.some.injEq, Prod.mk.injEq, Prod.mk.injEq] at hcall₁
    obtain ⟨rfl, rfl, rfl⟩ := hcall₁
    refine ⟨hready', taken ++ arriving segments,
      bodies ++ [frameBody (receiver.parser.pending ++ segments.flatten)], ?_,
      hb.concat hf.length_frameBody_lt, ?_⟩
    · rw [hscript, hin, List.append_assoc]
    · rw [arrived_append, arrived_arriving, hbytes, frames_append, frames_cons, frames_nil,
        List.append_nil, List.append_assoc, List.append_assoc, hpend, ← hf.eq_frame_append]
  · rw [hcall, Option.some.injEq, Prod.mk.injEq, Prod.mk.injEq] at hcall₁
    obtain ⟨rfl, rfl, rfl⟩ := hcall₁
    have hnone : arrived [result] = [] := by
      rcases hresult with ⟨rfl, -⟩ | ⟨rfl | rfl, -⟩ <;> rfl
    refine ⟨hready', taken ++ (arriving segments ++ [result]), bodies, ?_, hb, ?_⟩
    · rw [hscript, hin]
      simp only [List.append_assoc, List.singleton_append]
    · rw [arrived_append, arrived_append, arrived_arriving, hnone, List.append_nil, hbytes,
        List.append_assoc, hpend]
  · rw [hcall] at hcall₁
    cases hcall₁

/-- So does any number of calls. -/
theorem Tracks.receiveCalls (h : Tracks script receiver socket) (hrecv : Received script) {k : ℕ}
    (hcalls : receiveCalls pb k receiver socket = some (receiver', socket')) :
    Tracks script receiver' socket' := by
  induction k generalizing receiver socket with
  | zero =>
      obtain ⟨rfl, rfl⟩ := Prod.mk.inj (Option.some.inj hcalls)
      exact h
  | succ k ih =>
      rw [ChunkedFileReceiver.receiveCalls] at hcalls
      split at hcalls
      · cases hcalls
      · next hcall => exact ih (h.receiveNextChunk hrecv hcall) hcalls

/-- **`CleanUp` returns true between frames**, with the receiver reset. -/
theorem Tracks.cleanUp (h : Tracks script receiver socket) (hrecv : Received script) {fuel : ℕ}
    (hclean : receiver.cleanUp pb fuel socket = some (true, receiver', socket')) :
    (∃ taken, script = taken ++ socket'.incoming ∧ WholeFrames (arrived taken)) ∧
      ∃ receiver₁ : ChunkedFileReceiver, receiver' = receiver₁.reset := by
  refine whileLoop_inv (fun s => Tracks script s.1 s.2)
    (fun r => r.1 = true → (∃ taken, script = taken ++ r.2.2.incoming ∧
      WholeFrames (arrived taken)) ∧ ∃ receiver₁ : ChunkedFileReceiver, r.2.1 = receiver₁.reset)
    ?_ ?_ h hclean rfl
  · rintro ⟨receiver₁, socket₁⟩ s' h hstep
    rw [cleanUpStep] at hstep
    split at hstep
    · split at hstep
      · cases hstep
      · next hcall =>
          split at hstep
          · cases hstep
          · obtain rfl := Sum.inl.inj (Option.some.inj hstep)
            exact h.receiveNextChunk hrecv hcall
    · cases hstep
  · rintro ⟨receiver₁, socket₁⟩ r h hstep htrue
    by_cases hnil : receiver₁.parser.pending = []
    · rw [cleanUpStep_of_nil h.ready hnil] at hstep
      obtain rfl := Sum.inr.inj (Option.some.inj hstep)
      obtain ⟨taken, bodies, hscript, hb, hbytes⟩ := h.reads
      rw [hnil, List.append_nil] at hbytes
      exact ⟨⟨taken, hscript, bodies, hb, hbytes⟩, receiver₁, rfl⟩
    · rw [cleanUpStep_of_ne h.ready hnil] at hstep
      split at hstep
      · cases hstep
      · split at hstep
        · obtain rfl := Sum.inr.inj (Option.some.inj hstep)
          cases htrue
        · cases hstep

end ChunkedFileReceiver

/-- **`CleanUp` leaves the socket between frames.** However often `ReceiveNextChunk` has been called
since the receiver was created, and whatever `recv` returned, when `CleanUp` returns true a whole
number of frames has been taken off the socket (of a stream of frames, the first ones), and the
receiver is as it was created, but for the bytes in which the parser collects a length. -/
theorem cleanUp_between_frames (pb : Protobuf FileContents) (socket : Socket)
    (hrecv : Received socket.incoming) (k fuel : ℕ) {receiver receiver' : ChunkedFileReceiver}
    {socket' socket'' : Socket}
    (hcalls : ChunkedFileReceiver.receiveCalls pb k {} socket = some (receiver, socket'))
    (hclean : receiver.cleanUp pb fuel socket' = some (true, receiver', socket'')) :
    (∃ taken, socket.incoming = taken ++ socket''.incoming ∧ WholeFrames (arrived taken) ∧
      ∀ bodies, Framable bodies → arrived socket.incoming <+: frames bodies →
        ∃ i, arrived taken = frames (bodies.take i)) ∧
    receiver' = { parser := { partialLength := receiver'.parser.partialLength } } := by
  have htracks := (ChunkedFileReceiver.tracks_fresh socket).receiveCalls hrecv hcalls
  obtain ⟨⟨taken, hscript, hwhole⟩, receiver₁, rfl⟩ := htracks.cleanUp hrecv hclean
  refine ⟨⟨taken, hscript, hwhole, fun bodies hb hinit => ?_⟩, rfl⟩
  rw [hscript, arrived_append] at hinit
  exact hwhole.eq_frames_take hb ((List.prefix_append _ _).trans hinit)

/-- A frame that arrives in two segments, with a timeout between them. -/
theorem cleanUp_between_frames_one :
    ∃ taken, [RecvResult.data [0, 0, 0, 5, 10], .timedOut, .data [1, 7, 16, 1], .data [0]] =
      taken ++ [.data [0]] ∧ WholeFrames (arrived taken) := by
  have hrecv : Received [.data [0, 0, 0, 5, 10], .timedOut, .data [1, 7, 16, 1], .data [0]] := by
    intro bytes hmem
    simp only [List.mem_cons, RecvResult.data.injEq, reduceCtorEq, List.not_mem_nil, or_false,
      false_or] at hmem
    rcases hmem with rfl | rfl | rfl
    · exact ⟨by simp, by decide⟩
    · exact ⟨by simp, by decide⟩
    · exact ⟨by simp, by decide⟩
  obtain ⟨⟨taken, htaken, hwhole, -⟩, -⟩ := cleanUp_between_frames fileContentsProto
    { incoming := [.data [0, 0, 0, 5, 10], .timedOut, .data [1, 7, 16, 1], .data [0]] } hrecv 1 2
    rfl rfl
  exact ⟨taken, htaken, hwhole⟩

end Csci6780
