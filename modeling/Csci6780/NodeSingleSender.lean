import Csci6780.NodeDelivery

/-!
# Receiving from a Single Sender

A client is connected to one server, so its receive queue holds entries of one endpoint
only. Nothing is ever put aside then: between calls the stash is empty or holds the one
overflow entry of the last call, and it is always safe. What is left of the behaviour of
`Node::Receive` is the order of the frames, and what a timeout does to it.

A script of pops may say of any pop that it times out. Where the script ends, a blocking
call waits for ever and a timed call times out once more; both leave the node as it was.

## Main results

* `receive_one_sender`: one call takes one frame off the stream.
* `timed_receive_delivers_iff`: timed calls deliver every message exactly when every
  timeout falls between two frames.
* `client_receive_fifo`: blocking calls deliver every message in order, and fail once the
  connection does.
-/

namespace Csci6780

variable {Msg : Type}

/-! ### One sender -/

/-- All entries of a list are of one endpoint. -/
def OneSender (e : Endpoint) (l : List ReceiveQueueMessage) : Prop := ∀ m ∈ l, m.endpoint = e

section OneSender

variable {e : Endpoint} {l l' : List ReceiveQueueMessage}

theorem OneSender.left (h : OneSender e (l ++ l')) : OneSender e l :=
  fun m hm => h m (List.mem_append_left _ hm)

theorem OneSender.right (h : OneSender e (l ++ l')) : OneSender e l' :=
  fun m hm => h m (List.mem_append_right _ hm)

theorem OneSender.append (h : OneSender e l) (h' : OneSender e l') : OneSender e (l ++ l') := by
  intro m hm
  rcases List.mem_append.mp hm with hm | hm
  · exact h m hm
  · exact h' m hm

theorem OneSender.readingFrom (h : OneSender e l) (hl : l ≠ []) :
    readingFrom l = some e := by
  cases l with
  | nil => exact absurd rfl hl
  | cons x l => exact congrArg some (h x List.mem_cons_self)

theorem OneSender.mine_eq (h : OneSender e l) : mine l = bytesOf e l := by
  cases l with
  | nil => rfl
  | cons x l => exact mine_eq_bytesOf (h.readingFrom (List.cons_ne_nil x l))

/-- With one sender nothing is put aside. -/
theorem OneSender.others_eq (h : OneSender e l) : others l = [] := by
  cases l with
  | nil => rfl
  | cons x l =>
      refine List.filter_eq_nil_iff.mpr ?_
      intro m hm
      rw [h m (List.mem_cons_of_mem _ hm), h x List.mem_cons_self]
      simp

theorem OneSender.sourceOf_eq (h : OneSender e l) (hl : l ≠ []) : sourceOf l = e := by
  rw [sourceOf, h.readingFrom hl, Option.getD_some]

/-- With one sender the stash holds at most the overflow. -/
theorem OneSender.leftover_spec (h : OneSender e l) (hl : l ≠ []) :
    (leftover l).length ≤ 1 ∧ OneSender e (leftover l) := by
  rw [leftover, h.others_eq, List.nil_append, h.sourceOf_eq hl]
  split
  · exact ⟨Nat.zero_le _, fun m hm => absurd hm List.not_mem_nil⟩
  · refine ⟨Nat.le_refl _, fun m hm => ?_⟩
    rw [List.mem_singleton.mp hm]

/-- Good entries have bytes. -/
theorem OneSender.bytesOf_ne_nil (h : OneSender e l) (hgood : AllGood l) (hl : l ≠ []) :
    bytesOf e l ≠ [] := by
  cases l with
  | nil => exact absurd rfl hl
  | cons x l =>
      rw [bytesOf_cons, if_pos (h x List.mem_cons_self)]
      exact List.append_ne_nil_of_left_ne_nil (hgood x List.mem_cons_self).ne_nil _

end OneSender

/-- What a node with one sender may hold between calls: at most one entry in the stash, and
only good entries of the sender in the stash and before the next timeout or failure. -/
structure SingleSender (e : Endpoint) (s q : List ReceiveQueueMessage) : Prop where
  length_le : s.length ≤ 1
  good : AllGood (s ++ q)
  sender : OneSender e (s ++ q)

namespace Node

variable (pb : Protobuf Msg)

/-- **The step lemma for one sender.** When the stash and the entries ahead hold a complete
frame, a call pops just enough of them, returns the frame and keeps what follows it. -/
theorem receive_one_sender {e : Endpoint} {s q : List ReceiveQueueMessage}
    (h : SingleSender e s q) (hf : HasFrame (bytesOf e (s ++ q))) :
    ∃ q₁ q₂ s', q = q₁ ++ q₂ ∧ SingleSender e s' q₂ ∧ HasFrame (bytesOf e (s ++ q₁)) ∧
      bytesOf e s' = afterFrame (bytesOf e (s ++ q₁)) ∧ ∀ tail,
      receive pb ⟨s, q.map some ++ tail⟩ =
        (.returned (frameBody (bytesOf e (s ++ q₁)))
          (pb.parseBody (frameBody (bytesOf e (s ++ q₁)))) e, ⟨s', q₂.map some ++ tail⟩) := by
  have hsafe : ¬ HasFrame (mine s.dropLast) := by
    have hnil : s.dropLast = [] := by
      rw [← List.length_eq_zero_iff, List.length_dropLast]
      have := h.length_le
      omega
    rw [hnil]
    exact not_hasFrame_nil
  rw [← h.sender.mine_eq] at hf
  obtain ⟨q₁, q₂, rfl, hstops, hrec⟩ := receive_of_stashSafe pb h.good hsafe hf
  have hsender := h.sender
  have hgood := h.good
  rw [← List.append_assoc] at hsender hgood
  have hone := hsender.left
  have hmine := hone.mine_eq
  have hsource := hone.sourceOf_eq hstops.ne_nil
  obtain ⟨hlen, hone'⟩ := hone.leftover_spec hstops.ne_nil
  refine ⟨q₁, q₂, leftover (s ++ q₁), rfl,
    ⟨hlen, (hstops.allGood_leftover hgood.left).append hgood.right, hone'.append hsender.right⟩,
    ?_, ?_, ?_⟩
  · rw [← hmine]
    exact hstops.hasFrame
  · rw [bytesOf_leftover hstops.ne_nil, hsource, if_pos rfl]
  · intro tail
    rw [hrec, returnedFrom, hsource, hmine]

/-! ### Timeouts -/

/-- Whenever a pop times out, the bytes delivered by then are a whole number of frames. The
first argument is what was delivered before the script begins. -/
def TimeoutsBetweenFrames : List UInt8 → List (Option ReceiveQueueMessage) → Prop
  | _, [] => True
  | U, none :: pops => WholeFrames U ∧ TimeoutsBetweenFrames U pops
  | U, some m :: pops => TimeoutsBetweenFrames (U ++ m.message) pops

/-- Delivered entries only add to the bytes. -/
theorem timeoutsBetweenFrames_map_some {e : Endpoint} {q : List ReceiveQueueMessage}
    (h : OneSender e q) (U : List UInt8) (tail : List (Option ReceiveQueueMessage)) :
    TimeoutsBetweenFrames U (q.map some ++ tail) ↔
      TimeoutsBetweenFrames (U ++ bytesOf e q) tail := by
  induction q generalizing U with
  | nil => rw [bytesOf_nil, List.append_nil, List.map_nil, List.nil_append]
  | cons m q ih =>
      have hm := h m List.mem_cons_self
      rw [List.map_cons, List.cons_append, TimeoutsBetweenFrames,
        ih (fun x hx => h x (List.mem_cons_of_mem _ hx)), bytesOf_cons, if_pos hm,
        List.append_assoc]

/-- A frame that is delivered first makes no difference. -/
theorem timeoutsBetweenFrames_frame_append {body : List UInt8} (hbody : body.length < 2 ^ 32)
    (U : List UInt8) (pops : List (Option ReceiveQueueMessage)) :
    TimeoutsBetweenFrames (frame body ++ U) pops ↔ TimeoutsBetweenFrames U pops := by
  induction pops generalizing U with
  | nil => exact Iff.rfl
  | cons m pops ih =>
      cases m with
      | none =>
          rw [TimeoutsBetweenFrames, TimeoutsBetweenFrames, ih,
            wholeFrames_frame_append_iff hbody]
      | some m => rw [TimeoutsBetweenFrames, TimeoutsBetweenFrames, List.append_assoc, ih]

/-- What a call on a node with one sender can do, when the node holds the frames of
`bodies`: return the first frame, time out, or find the node empty. -/
inductive TimedStep (e : Endpoint) (s : List ReceiveQueueMessage)
    (pops : List (Option ReceiveQueueMessage)) (bodies : List (List UInt8)) : Prop
  | returned (body : List UInt8) (rest : List (List UInt8)) (s' : List ReceiveQueueMessage)
      (pops' : List (Option ReceiveQueueMessage)) (hbodies : bodies = body :: rest)
      (hcall : receive pb ⟨s, pops⟩ = (.returned body (pb.parseBody body) e, ⟨s', pops'⟩))
      (hsingle : SingleSender e s' pops'.reduceOption)
      (hstream : bytesOf e (s' ++ pops'.reduceOption) = frames rest)
      (hlen : pops'.length ≤ pops.length)
      (htimeouts : TimeoutsBetweenFrames (bytesOf e s) pops ↔
        TimeoutsBetweenFrames (bytesOf e s') pops')
  | timedOut (consumed : List ReceiveQueueMessage) (pops' : List (Option ReceiveQueueMessage))
      (hcall : receive pb ⟨s, pops⟩ = (.timedOut, ⟨[], pops'⟩))
      (hsplit : s ++ pops.reduceOption = consumed ++ pops'.reduceOption)
      (hno : ¬ HasFrame (bytesOf e consumed))
      (hlen : pops'.length < pops.length)
      (htimeouts : TimeoutsBetweenFrames (bytesOf e s) pops ↔
        WholeFrames (bytesOf e consumed) ∧
          TimeoutsBetweenFrames (bytesOf e consumed) pops')
  | empty (hbodies : bodies = []) (hcall : receive pb ⟨s, pops⟩ = (.blocked, {}))
      (htimeouts : TimeoutsBetweenFrames (bytesOf e s) pops)

/-- Every call on a node with one sender is one of these. -/
theorem timedStep {e : Endpoint} {s : List ReceiveQueueMessage}
    {pops : List (Option ReceiveQueueMessage)} (h : SingleSender e s pops.reduceOption)
    {bodies : List (List UInt8)} (hb : Framable bodies)
    (hstream : bytesOf e (s ++ pops.reduceOption) = frames bodies) :
    TimedStep pb e s pops bodies := by
  obtain ⟨q, tail, rfl, htail⟩ := exists_split pops
  have hentries : (q.map some ++ tail).reduceOption = q ++ tail.reduceOption := by
    rw [List.reduceOption_append, reduceOption_map_some]
  rw [hentries] at h hstream
  obtain ⟨hlen, hgood, hone⟩ := h
  rw [← List.append_assoc] at hgood hone hstream
  have hq : OneSender e q := hone.left.right
  by_cases hf : HasFrame (bytesOf e (s ++ q))
  · obtain ⟨q₁, q₂, s', rfl, hsingle, hf₁, hs', hrec⟩ :=
      receive_one_sender pb ⟨hlen, hgood.left, hone.left⟩ hf
    rw [← List.append_assoc, List.append_assoc, bytesOf_append] at hstream
    obtain ⟨rest, rfl, hrest⟩ := hf₁.eq_cons_of_append_eq hb hstream
    refine .returned _ rest s' (q₂.map some ++ tail) rfl (hrec tail) ?_ ?_ ?_ ?_
    · rw [List.reduceOption_append, reduceOption_map_some]
      have hgood' := hsingle.good
      have hone' := hsingle.sender
      refine ⟨hsingle.length_le, ?_, ?_⟩
      · rw [← List.append_assoc]
        exact hgood'.append hgood.right
      · rw [← List.append_assoc]
        exact hone'.append hone.right
    · rw [List.reduceOption_append, reduceOption_map_some, bytesOf_append, hs', hrest]
    · simp only [List.length_append, List.length_map]
      omega
    · have hframe := hf₁.eq_frame_append
      have hone₁ : OneSender e q₁ := hq.left
      rw [List.map_append, List.append_assoc, timeoutsBetweenFrames_map_some hone₁,
        ← bytesOf_append, hframe, timeoutsBetweenFrames_frame_append hb.head, ← hs']
  · have hno : ¬ HasFrame (mine (s ++ q)) := by rwa [hone.left.mine_eq]
    rcases htail with rfl | ⟨t, rfl⟩
    · refine .empty ?_ ?_ ?_
      · rw [List.reduceOption_nil, List.append_nil] at hstream
        rw [hstream] at hf
        exact eq_nil_of_not_hasFrame hb hf
      · rw [List.append_nil, receive_of_end pb hgood.left hno, hone.left.others_eq]
      · rw [timeoutsBetweenFrames_map_some hq]
        trivial
    · refine .timedOut (s ++ q) t ?_ ?_ hf ?_ ?_
      · rw [receive_of_timeout pb hgood.left hno, hone.left.others_eq]
      · rw [hentries, List.reduceOption_cons_of_none, List.append_assoc]
      · simp only [List.length_append, List.length_map, List.length_cons]
        omega
      · rw [timeoutsBetweenFrames_map_some hq, ← bytesOf_append]
        exact Iff.rfl

/-- The calls return a part of what was sent, in order, and in the end all of it. -/
def TimedDelivers (e : Endpoint) (sent : List (List UInt8 × Option Msg)) (node : Node) : Prop :=
  (∀ n, received e (receiveCalls pb n node).1 <+: sent) ∧
    ∃ n, ∀ k, n ≤ k → received e (receiveCalls pb k node).1 = sent

/-- Calls on an empty node return nothing. -/
theorem received_empty (e : Endpoint) (n : ℕ) :
    received e (receiveCalls pb n {}).1 = [] := by
  induction n with
  | zero => rfl
  | succ n ih => exact ih

/-- **Timeouts between frames lose nothing.** -/
theorem timedDelivers_of_timeoutsBetweenFrames {e : Endpoint} {s : List ReceiveQueueMessage}
    {pops : List (Option ReceiveQueueMessage)} (h : SingleSender e s pops.reduceOption)
    {bodies : List (List UInt8)} (hb : Framable bodies)
    (hstream : bytesOf e (s ++ pops.reduceOption) = frames bodies)
    (htimeouts : TimeoutsBetweenFrames (bytesOf e s) pops) :
    TimedDelivers pb e (bodies.map fun body => (body, pb.parseBody body)) ⟨s, pops⟩ := by
  -- every call takes a frame off the stream or a timeout off the script
  induction hN : bodies.length + pops.length using Nat.strongRecOn generalizing s pops bodies with
  | ind N ih =>
  cases timedStep pb h hb hstream with
  | returned body rest s' pops' hbodies hcall hsingle hstream' hlen hiff =>
      subst hbodies
      rw [List.length_cons] at hN
      obtain ⟨hpart, n, hall⟩ :=
        ih _ (by omega) hsingle hb.tail hstream' (hiff.mp htimeouts) rfl
      have hsucc : ∀ k, received e (receiveCalls pb (k + 1) ⟨s, pops⟩).1 =
          (body, pb.parseBody body) :: received e (receiveCalls pb k ⟨s', pops'⟩).1 := by
        intro k
        simp only [receiveCalls, hcall, received, if_pos]
      constructor
      · intro k
        cases k with
        | zero => exact List.nil_prefix
        | succ k =>
            rw [hsucc, List.map_cons]
            exact List.cons_prefix_cons.mpr ⟨rfl, hpart k⟩
      · refine ⟨n + 1, fun k hk => ?_⟩
        obtain ⟨k, rfl⟩ : ∃ j, k = j + 1 := ⟨k - 1, by omega⟩
        rw [hsucc, List.map_cons, hall k (by omega)]
  | timedOut consumed pops' hcall hsplit hno hlen hiff =>
      obtain ⟨hwhole, hlater⟩ := hiff.mp htimeouts
      have hnil : consumed = [] := by
        by_contra hne
        refine OneSender.bytesOf_ne_nil ?_ ?_ hne (hwhole.eq_nil hno)
        · have hone := h.sender
          rw [hsplit] at hone
          exact hone.left
        · have hgood := h.good
          rw [hsplit] at hgood
          exact hgood.left
      subst hnil
      rw [List.nil_append] at hsplit
      obtain ⟨hlen', hgood, hone⟩ := h
      rw [hsplit] at hgood hone hstream
      obtain ⟨hpart, n, hall⟩ :=
        ih _ (by omega) ⟨Nat.zero_le _, hgood, hone⟩ hb hstream hlater rfl
      constructor
      · intro k
        cases k with
        | zero => exact List.nil_prefix
        | succ k =>
            simp only [receiveCalls, hcall, received]
            exact hpart k
      · refine ⟨n + 1, fun k hk => ?_⟩
        obtain ⟨k, rfl⟩ : ∃ j, k = j + 1 := ⟨k - 1, by omega⟩
        simp only [receiveCalls, hcall, received]
        exact hall k (by omega)
  | empty hbodies hcall =>
      subst hbodies
      have hnone : ∀ k, received e (receiveCalls pb k ⟨s, pops⟩).1 = [] := by
        intro k
        cases k with
        | zero => rfl
        | succ k =>
            simp only [receiveCalls, hcall, received]
            exact received_empty pb e k
      constructor
      · intro k
        rw [hnone]
        exact List.nil_prefix
      · exact ⟨0, fun k _ => hnone k⟩

/-- **Lossless runs time out only between frames**: the bytes of a part of a frame that a
timeout drops are missing from what is returned. -/
theorem timeoutsBetweenFrames_of_received {e : Endpoint} {s : List ReceiveQueueMessage}
    {pops : List (Option ReceiveQueueMessage)} (h : SingleSender e s pops.reduceOption)
    {bodies : List (List UInt8)} (hb : Framable bodies)
    (hstream : bytesOf e (s ++ pops.reduceOption) = frames bodies) {n : ℕ}
    (hall : received e (receiveCalls pb n ⟨s, pops⟩).1 =
      bodies.map fun body => (body, pb.parseBody body)) :
    TimeoutsBetweenFrames (bytesOf e s) pops := by
  induction hN : bodies.length + pops.length using Nat.strongRecOn
    generalizing s pops bodies n with
  | ind N ih =>
  cases timedStep pb h hb hstream with
  | returned body rest s' pops' hbodies hcall hsingle hstream' hlen hiff =>
      subst hbodies
      rw [List.length_cons] at hN
      cases n with
      | zero => cases hall
      | succ n =>
          simp only [receiveCalls, hcall, received, if_pos, List.map_cons,
            List.cons.injEq] at hall
          exact hiff.mpr (ih _ (by omega) hsingle hb.tail hstream' hall.2 rfl)
  | timedOut consumed pops' hcall hsplit hno hlen hiff =>
      obtain ⟨-, hgood, hone⟩ := h
      rw [hsplit] at hgood hone hstream
      -- what the later calls can return is what is still on the queue
      have hle : receivedSize e (receiveCalls pb n ⟨s, pops⟩).1 ≤
          (bytesOf e pops'.reduceOption).length := by
        cases n with
        | zero => exact Nat.zero_le _
        | succ n =>
            have hgood' : AllGood (entries ⟨[], pops'⟩) := hgood.right
            have hacc := (accounts pb n hgood').2 e
            simp only [receiveCalls, hcall, receivedSize, received] at hacc ⊢
            exact Nat.le_trans (Nat.le_add_right _ _) hacc
      have hnil : consumed = [] := by
        by_contra hne
        have hpos := List.length_pos_iff.mpr (hone.left.bytesOf_ne_nil hgood.left hne)
        have hsize := congrArg List.length hstream
        rw [receivedSize_of_sent pb hall] at hle
        rw [bytesOf_append, List.length_append] at hsize
        omega
      subst hnil
      refine hiff.mpr ⟨wholeFrames_nil, ?_⟩
      cases n with
      | zero => exact ih _ (by omega) (n := 0) ⟨Nat.zero_le _, hgood, hone⟩ hb hstream hall rfl
      | succ n =>
          simp only [receiveCalls, hcall, received] at hall
          exact ih _ (by omega) ⟨Nat.zero_le _, hgood, hone⟩ hb hstream hall rfl
  | empty _ _ htimeouts => exact htimeouts

/-- **Timed receives from one sender.** Let the script of pops deliver the chunks of any
messages of one endpoint, with timeouts anywhere in between. The calls return the messages
in order, and in the end all of them, exactly when the bytes delivered before each timeout
are a whole number of frames. -/
theorem timed_receive_delivers_iff {Msg : Type} {pb : Protobuf Msg} (hpb : pb.Lawful)
    (messages : List Msg) (hsmall : Small pb messages) (e : Endpoint)
    (pops : List (Option ReceiveQueueMessage))
    (hpops : ∀ m ∈ pops.reduceOption, m.Good ∧ m.endpoint = e)
    (hstream : bytesOf e pops.reduceOption = serializeAll pb messages) :
    TimedDelivers pb e (messages.map fun m => (pb.encoding m, some m)) ⟨[], pops⟩ ↔
      TimeoutsBetweenFrames [] pops := by
  have hsingle : SingleSender e [] pops.reduceOption :=
    ⟨Nat.zero_le _, fun m hm => (hpops m hm).1, fun m hm => (hpops m hm).2⟩
  have hb := hsmall.framable hpb
  rw [serializeAll_eq_frames hpb hsmall] at hstream
  have hsent : messages.map (fun m => (pb.encoding m, some m)) =
      (messages.map pb.encoding).map fun body => (body, pb.parseBody body) := by
    rw [List.map_map]
    refine List.map_congr_left ?_
    intro m hm
    rw [Function.comp_apply, hpb.parseBody_encoding (hsmall m hm)]
  rw [hsent]
  constructor
  · rintro ⟨-, n, hall⟩
    exact timeoutsBetweenFrames_of_received pb hsingle hb hstream (hall n (Nat.le_refl n))
  · exact timedDelivers_of_timeoutsBetweenFrames pb hsingle hb hstream

/-- A timeout, a whole frame, another timeout. -/
theorem timed_receive_one_frame :
    bytesOf clientA [⟨[0, 0, 0, 0], clientA, 4⟩] =
        serializeAll fileContentsProto [⟨[], false⟩] ∧
      TimedDelivers fileContentsProto clientA [([], some ⟨[], false⟩)]
        ⟨[], [none, some ⟨[0, 0, 0, 0], clientA, 4⟩, none]⟩ := by
  refine ⟨by decide, (timed_receive_delivers_iff fileContentsProto_lawful [⟨[], false⟩]
    (by unfold Small; decide) clientA _ (by decide) (by decide)).mpr ?_⟩
  exact ⟨wholeFrames_nil, ⟨[[]], by unfold Framable; decide, rfl⟩, trivial⟩

/-- One frame in two chunks with a timeout in between: the message never arrives. -/
theorem timed_receive_loses_frame :
    bytesOf clientA [⟨[0, 0], clientA, 2⟩, ⟨[0, 0], clientA, 2⟩] =
        serializeAll fileContentsProto [⟨[], false⟩] ∧
      ¬ TimedDelivers fileContentsProto clientA [([], some ⟨[], false⟩)]
        ⟨[], [some ⟨[0, 0], clientA, 2⟩, none, some ⟨[0, 0], clientA, 2⟩]⟩ := by
  refine ⟨by decide, ?_⟩
  rintro ⟨-, n, hall⟩
  have hsingle : SingleSender clientA [] (List.reduceOption
      [some ⟨[0, 0], clientA, 2⟩, none, some ⟨[0, 0], clientA, 2⟩]) :=
    ⟨by decide, by unfold AllGood; decide, by unfold OneSender; decide⟩
  have hframable : Framable [[]] := by unfold Framable; decide
  have htimeouts := timeoutsBetweenFrames_of_received fileContentsProto hsingle hframable
    (by decide) ((hall n (Nat.le_refl n)).trans (by decide))
  exact absurd (htimeouts.1.eq_nil (by decide)) (List.cons_ne_nil _ _)

/-! ### Clients -/

/-- The entry a receiver task pushes for a chunk of bytes. -/
def entry (e : Endpoint) (chunk : List UInt8) : ReceiveQueueMessage :=
  ⟨chunk, e, chunk.length⟩

/-- The stash of a client that has popped `rest` more than it has returned. -/
def stashOf (e : Endpoint) (rest : List UInt8) : List ReceiveQueueMessage :=
  if rest = [] then [] else [entry e rest]

/-- A stash of at most one good entry is determined by its bytes. -/
theorem eq_stashOf {e : Endpoint} {s q : List ReceiveQueueMessage} (h : SingleSender e s q) :
    s = stashOf e (bytesOf e s) := by
  obtain ⟨hlen, hgood, hone⟩ := h
  match s, hlen with
  | [], _ => rfl
  | [m], _ =>
      have hm := hgood m (by simp)
      have he := hone m (by simp)
      rw [bytesOf_cons, if_pos he, bytesOf_nil, List.append_nil, stashOf, if_neg hm.ne_nil,
        entry, ← he, ← hm.status_eq]

/-- Before the first call nothing is popped and the stash holds its own bytes. -/
theorem before_calls {e : Endpoint} {s q : List ReceiveQueueMessage} (h : SingleSender e s q)
    (last : ReceiveQueueMessage) :
    ∃ q₁ q₂ rest, q = q₁ ++ q₂ ∧ bytesOf e (s ++ q₁) = frames [] ++ rest ∧
      (⟨s, q.map some ++ [some last]⟩ : Node) =
        ⟨stashOf e rest, q₂.map some ++ [some last]⟩ := by
  refine ⟨[], q, bytesOf e s, rfl, ?_, ?_⟩
  · rw [List.append_nil, frames_nil, List.nil_append]
  · rw [← eq_stashOf h]

/-- **The run lemma for clients.** On a node that holds the frames of some messages and
then a failed receive, the calls return the messages in order and then fail; after `j`
calls the stash holds what was popped beyond the first `j` frames. -/
theorem receiveCalls_one_sender {pb : Protobuf Msg} (hpb : pb.Lawful) {e : Endpoint}
    {s q : List ReceiveQueueMessage} (h : SingleSender e s q) {messages : List Msg}
    (hsmall : Small pb messages)
    (hstream : bytesOf e (s ++ q) = frames (messages.map pb.encoding))
    {last : ReceiveQueueMessage} (hlast : last.status ≤ 0) :
    (receiveCalls pb (messages.length + 1) ⟨s, q.map some ++ [some last]⟩).1 =
        messages.map (fun m => .returned (pb.encoding m) (some m) e) ++ [.failed] ∧
      ∀ j, j ≤ messages.length → ∃ q₁ q₂ rest, q = q₁ ++ q₂ ∧
        bytesOf e (s ++ q₁) = frames ((messages.take j).map pb.encoding) ++ rest ∧
        (receiveCalls pb j ⟨s, q.map some ++ [some last]⟩).2 =
          ⟨stashOf e rest, q₂.map some ++ [some last]⟩ := by
  induction messages generalizing s q with
  | nil =>
      have hempty : s ++ q = [] := by
        by_contra hne
        exact h.sender.bytesOf_ne_nil h.good hne hstream
      constructor
      · have hno : ¬ HasFrame (mine (s ++ q)) := by
          rw [hempty]
          exact not_hasFrame_nil
        have hfail := receive_of_failure pb h.good hno hlast
          (fun e' he' => by rw [hempty] at he'; cases he') []
        simp only [List.length_nil, receiveCalls, hfail]
        rfl
      · intro j hj
        obtain rfl : j = 0 := Nat.le_zero.mp hj
        exact before_calls h last
  | cons m messages ih =>
      have hb := hsmall.framable hpb
      have hf : HasFrame (bytesOf e (s ++ q)) := by
        rw [hstream, List.map_cons]
        exact hasFrame_frames_cons hb
      obtain ⟨q₁, q₂, s', rfl, hsingle, hf₁, hs', hrec⟩ := receive_one_sender pb h hf
      rw [← List.append_assoc, bytesOf_append] at hstream
      obtain ⟨rest, hcons, hrest⟩ := hf₁.eq_cons_of_append_eq hb hstream
      rw [List.map_cons, List.cons.injEq] at hcons
      obtain ⟨hbody, rfl⟩ := hcons
      rw [← hs', ← bytesOf_append] at hrest
      have hcall := hrec [some last]
      rw [← hbody, hpb.parseBody_encoding hsmall.head] at hcall
      obtain ⟨houts, hstates⟩ := ih hsingle hsmall.tail hrest
      constructor
      · rw [List.length_cons, receiveCalls]
        simp only [hcall, houts]
        rfl
      · intro j hj
        cases j with
        | zero => exact before_calls h last
        | succ j =>
            obtain ⟨q₃, q₄, rest, rfl, hbytes, hnode⟩ :=
              hstates j (by rw [List.length_cons] at hj; omega)
            refine ⟨q₁ ++ q₃, q₄, rest, by rw [List.append_assoc], ?_, ?_⟩
            · rw [← List.append_assoc, bytesOf_append, hf₁.eq_frame_append, ← hbody, ← hs',
                List.append_assoc, ← bytesOf_append, hbytes, List.take_succ_cons,
                List.map_cons, frames_cons, List.append_assoc]
            · simp only [receiveCalls, hcall]
              exact hnode

/-- The bytes of the entries of some chunks. -/
theorem bytesOf_map_entry (e : Endpoint) (chunks : List (List UInt8)) :
    bytesOf e (chunks.map (entry e)) = chunks.flatten := by
  induction chunks with
  | nil => rfl
  | cons c chunks ih =>
      have he : (entry e c).endpoint = e := rfl
      rw [List.map_cons, bytesOf_cons, ih, List.flatten_cons, if_pos he]
      rfl

/-- **A client receives an exact FIFO of frames.** Let the queue hold the serialised
messages in chunks of 1 to 1024 bytes and then a failed receive. The calls return the
messages in order, each with the right source, and then fail. After `j` calls some chunks
are popped, and the stash is exactly what they hold beyond the first `j` messages: empty,
or one entry. -/
theorem client_receive_fifo {Msg : Type} {pb : Protobuf Msg} (hpb : pb.Lawful)
    (messages : List Msg) (hsmall : ∀ m ∈ messages, pb.byteSizeLong m < 2 ^ 31)
    (e : Endpoint) (chunks : List (List UInt8))
    (hchunks : ∀ c ∈ chunks, 1 ≤ c.length ∧ c.length ≤ 1024)
    (hstream : chunks.flatten = serializeAll pb messages)
    (last : ReceiveQueueMessage) (hlast : last.status ≤ 0) :
    let node : Node := ⟨[], chunks.map (fun c => some (entry e c)) ++ [some last]⟩
    (receiveCalls pb (messages.length + 1) node).1 =
        messages.map (fun m => .returned (pb.encoding m) (some m) e) ++ [.failed] ∧
      ∀ j, j ≤ messages.length → ∃ popped left rest, chunks = popped ++ left ∧
        popped.flatten = serializeAll pb (messages.take j) ++ rest ∧
        (receiveCalls pb j node).2 =
          ⟨stashOf e rest, left.map (fun c => some (entry e c)) ++ [some last]⟩ := by
  have hentries : ∀ l : List (List UInt8),
      l.map (fun c => some (entry e c)) = (l.map (entry e)).map some := by
    intro l
    rw [List.map_map]
    rfl
  have hsingle : SingleSender e [] (chunks.map (entry e)) := by
    refine ⟨Nat.zero_le _, ?_, ?_⟩
    · intro m hm
      obtain ⟨c, hc, rfl⟩ := List.mem_map.mp hm
      obtain ⟨hpos, hle⟩ := hchunks c hc
      exact ⟨rfl, List.length_pos_iff.mp hpos, Nat.lt_of_le_of_lt hle (by decide)⟩
    · intro m hm
      obtain ⟨c, -, rfl⟩ := List.mem_map.mp hm
      rfl
  have hbytes : bytesOf e ([] ++ chunks.map (entry e)) = frames (messages.map pb.encoding) := by
    rw [List.nil_append, bytesOf_map_entry, hstream, serializeAll_eq_frames hpb hsmall]
  obtain ⟨houts, hstates⟩ := receiveCalls_one_sender hpb hsingle hsmall hbytes hlast
  simp only [hentries]
  refine ⟨houts, fun j hj => ?_⟩
  obtain ⟨q₁, q₂, rest, hq, hpopped, hnode⟩ := hstates j hj
  obtain ⟨popped, left, rfl, rfl, rfl⟩ := List.map_eq_append_iff.mp hq
  refine ⟨popped, left, rest, rfl, ?_, hnode⟩
  have hsmall' : Small pb (messages.take j) := fun m hm => hsmall m (List.mem_of_mem_take hm)
  rw [serializeAll_eq_frames hpb hsmall', ← hpopped, List.nil_append, bytesOf_map_entry]

/-- Two messages, the second of them empty on the wire, cut inside the first prefix and
inside the second frame. -/
theorem client_receive_fifo_two_messages :
    (receiveCalls fileContentsProto 3 ⟨[], [some (entry clientA [0, 0]),
        some (entry clientA [0, 3, 10, 1, 7, 0, 0]), some (entry clientA [0, 0]),
        some ⟨[], clientA, 0⟩]⟩).1 =
      [.returned [10, 1, 7] (some ⟨[7], false⟩) clientA,
        .returned [] (some ⟨[], false⟩) clientA, .failed] :=
  (client_receive_fifo fileContentsProto_lawful [⟨[7], false⟩, ⟨[], false⟩] (by decide)
    clientA [[0, 0], [0, 3, 10, 1, 7, 0, 0], [0, 0]] (by decide) (by decide)
    ⟨[], clientA, 0⟩ (by decide)).1.trans (by decide)

end Node

end Csci6780
