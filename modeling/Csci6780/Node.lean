import Mathlib.Data.List.Induction
import Csci6780.ParserRun

/-!
# Receiving Messages on a Node

This module embeds `message_passing::Node::DoReceive`, the receive path that clients and
servers share. Receiver tasks push what each `recv` returned on one queue; `Receive`
reads entries until one endpoint's bytes hold a complete message. Entries of other
endpoints met on the way, and bytes beyond the message, are kept in the member
`un_processed_messages_` for the next call.

The queue enters as the list of outcomes its pops will have: `some m` when the pop
delivers the entry `m`, `none` when it times out. A blocking `Receive` is one whose pops
never time out; where the list ends, a pop blocks.

One call works on its own copy of `un_processed_messages_`, the **stash**, before it pops
anything. What it does is determined by the list of entries it consumes, so the module
describes it through two readings of such a list: `mine l`, the bytes of the endpoint of
the first entry, and `others l`, the entries of all other endpoints.

## Main results

* `process_spec`: one round of the loop extends the consumed list by one entry.
* `receive_of_stash`: a call whose message is complete inside the stash drops the rest of
  the stash.
* `receive_of_queue`: a call that has to pop keeps everything.
* `receive_of_timeout`, `receive_of_end`: what a call that does not complete keeps.
-/

namespace Csci6780

/-! ### The embedding -/

/-- `message_passing::Endpoint`. -/
structure Endpoint where
  hostname : String := ""
  port : UInt16 := 0
  deriving DecidableEq, Repr

/-- `ReceiverTask::ReceiveQueueMessage`: the bytes a `recv` call returned, the endpoint
they came from and the call's result. -/
structure ReceiveQueueMessage where
  message : List UInt8
  endpoint : Endpoint
  status : ℤ
  deriving DecidableEq, Repr

/-- The part of `Node` that receiving uses: the member `un_processed_messages_` and the
outcomes of the coming pops of the receive queue. -/
structure Node where
  unProcessedMessages : List ReceiveQueueMessage := []
  pops : List (Option ReceiveQueueMessage) := []
  deriving DecidableEq, Repr

/-- The local state of one `DoReceive` call: its parser, the endpoint it is reading from
once that is set, and the member `un_processed_messages_`, which the call empties first
and refills as it goes. -/
structure Receiving where
  parser : MessageParser := {}
  readingEndpoint : Option Endpoint := none
  unProcessedMessages : List ReceiveQueueMessage := []
  deriving DecidableEq, Repr

/-- The end of the loop body: give up on a failed receive, else feed the parser. -/
def Receiving.feed (r : Receiving) (response : ReceiveQueueMessage) : Bool × Receiving :=
  if response.status ≤ 0 then (false, r)
  else (true, { r with parser := r.parser.addNewData response.message })

/-- The loop body of `DoReceive` on one entry. `false` is the source's `return false`. -/
def Receiving.process (r : Receiving) (response : ReceiveQueueMessage) : Bool × Receiving :=
  match r.readingEndpoint with
  | none => Receiving.feed { r with readingEndpoint := some response.endpoint } response
  | some endpoint =>
      if response.endpoint ≠ endpoint then
        (true, { r with unProcessedMessages := r.unProcessedMessages ++ [response] })
      else r.feed response

/-- The rounds of the loop that read the call's copy of `un_processed_messages_`. When the
message is complete, the entries that are left in the copy are gone with it. -/
def Receiving.fromStash : List ReceiveQueueMessage → Receiving → Bool × Receiving
  | [], r => (true, r)
  | response :: rest, r =>
      if r.parser.hasCompleteMessage then (true, r)
      else
        match r.process response with
        | (false, r') => (false, r')
        | (true, r') => Receiving.fromStash rest r'

/-- How the loop ends. -/
inductive LoopEnd
  | complete
  | failed
  | timedOut
  | blocked
  deriving DecidableEq, Repr

/-- The rounds of the loop that pop the receive queue, with the pops that are left. -/
def Receiving.fromQueue : List (Option ReceiveQueueMessage) → Receiving →
    LoopEnd × Receiving × List (Option ReceiveQueueMessage)
  | [], r => (if r.parser.hasCompleteMessage then .complete else .blocked, r, [])
  | none :: pops, r =>
      if r.parser.hasCompleteMessage then (.complete, r, none :: pops)
      else (.timedOut, r, pops)
  | some response :: pops, r =>
      if r.parser.hasCompleteMessage then (.complete, r, some response :: pops)
      else
        match r.process response with
        | (false, r') => (.failed, r', pops)
        | (true, r') => Receiving.fromQueue pops r'

/-- What a `Receive` call did. `returned` is a call that reached `ParseFromArray`: the
bytes it handed over, the message (`none` where the source returns `false`) and the
source endpoint. -/
inductive ReceiveOutcome (Msg : Type)
  | returned (body : List UInt8) (message : Option Msg) (source : Endpoint)
  | failed
  | timedOut
  | blocked
  deriving DecidableEq, Repr

/-- The end of `DoReceive`: save the overflow for the next call and parse the message. -/
def Receiving.finish {Msg : Type} (pb : Protobuf Msg) (r : Receiving)
    (pops : List (Option ReceiveQueueMessage)) : ReceiveOutcome Msg × Node :=
  let source := r.readingEndpoint.getD {}
  let overflow := r.parser.getOverflow
  let stash :=
    if r.parser.hasOverflow then
      r.unProcessedMessages ++ [⟨overflow, source, sizeToInt overflow.length⟩]
    else r.unProcessedMessages
  (.returned r.parser.partialMessage (r.parser.getMessage pb).1 source,
    { unProcessedMessages := stash, pops := pops })

/-- `Node::DoReceive`, given what `EnsureConnected` returns. -/
def Node.doReceive {Msg : Type} (pb : Protobuf Msg) (ensureConnected : Bool) (node : Node) :
    ReceiveOutcome Msg × Node :=
  if ensureConnected then
    match Receiving.fromStash node.unProcessedMessages {} with
    | (false, r) => (.failed, { node with unProcessedMessages := r.unProcessedMessages })
    | (true, r) =>
        match r.fromQueue node.pops with
        | (.complete, r', pops) => r'.finish pb pops
        | (.failed, r', pops) =>
            (.failed, { unProcessedMessages := r'.unProcessedMessages, pops := pops })
        | (.timedOut, r', pops) =>
            (.timedOut, { unProcessedMessages := r'.unProcessedMessages, pops := pops })
        | (.blocked, r', pops) =>
            (.blocked, { unProcessedMessages := r'.unProcessedMessages, pops := pops })
  else (.failed, node)

/-- `Node::Receive` on a connected node: the blocking form when no pop times out, the
timed form otherwise. -/
def Node.receive {Msg : Type} (pb : Protobuf Msg) (node : Node) : ReceiveOutcome Msg × Node :=
  node.doReceive pb true

/-- `n` calls of `Receive` one after another: their outcomes and the node afterwards. -/
def Node.receiveCalls {Msg : Type} (pb : Protobuf Msg) :
    ℕ → Node → List (ReceiveOutcome Msg) × Node
  | 0, node => ([], node)
  | n + 1, node =>
      let r := node.receive pb
      let rest := Node.receiveCalls pb n r.2
      (r.1 :: rest.1, rest.2)

/-! ### Reading a list of entries -/

/-- The bytes of one endpoint in a list of entries, in order. -/
def bytesOf (e : Endpoint) (l : List ReceiveQueueMessage) : List UInt8 :=
  (l.filter fun m => m.endpoint = e).flatMap ReceiveQueueMessage.message

@[simp] theorem bytesOf_nil (e : Endpoint) : bytesOf e [] = [] := rfl

@[simp] theorem bytesOf_append (e : Endpoint) (as bs : List ReceiveQueueMessage) :
    bytesOf e (as ++ bs) = bytesOf e as ++ bytesOf e bs := by
  simp [bytesOf]

theorem bytesOf_cons (e : Endpoint) (m : ReceiveQueueMessage)
    (l : List ReceiveQueueMessage) :
    bytesOf e (m :: l) = (if m.endpoint = e then m.message else []) ++ bytesOf e l := by
  by_cases h : m.endpoint = e
  · simp [bytesOf, h]
  · simp [bytesOf, h]

/-- The bytes of the endpoint that a call consuming `l` reads from: that of the first
entry. -/
def mine : List ReceiveQueueMessage → List UInt8
  | [] => []
  | m :: l => bytesOf m.endpoint (m :: l)

/-- The entries that a call consuming `l` puts aside. -/
def others : List ReceiveQueueMessage → List ReceiveQueueMessage
  | [] => []
  | m :: l => l.filter fun x => x.endpoint ≠ m.endpoint

/-- The endpoint that a call consuming `l` reads from. -/
def readingFrom (l : List ReceiveQueueMessage) : Option Endpoint :=
  l.head?.map ReceiveQueueMessage.endpoint

/-- An entry as receiver tasks push it for a successful `recv`: its status is the number
of bytes, which is positive and fits a C `int`. -/
structure ReceiveQueueMessage.Good (m : ReceiveQueueMessage) : Prop where
  status_eq : m.status = m.message.length
  ne_nil : m.message ≠ []
  length_lt : m.message.length < 2 ^ 31

instance (m : ReceiveQueueMessage) : Decidable m.Good :=
  decidable_of_iff
    (m.status = m.message.length ∧ m.message ≠ [] ∧ m.message.length < 2 ^ 31)
    ⟨fun h => ⟨h.1, h.2.1, h.2.2⟩, fun h => ⟨h.status_eq, h.ne_nil, h.length_lt⟩⟩

/-- Consuming one more entry adds its bytes, if it is of the endpoint being read. -/
theorem mine_append_singleton {l : List ReceiveQueueMessage} {e : Endpoint}
    (h : readingFrom l = some e) (m : ReceiveQueueMessage) :
    mine (l ++ [m]) = mine l ++ (if m.endpoint = e then m.message else []) := by
  cases l with
  | nil => cases h
  | cons x l =>
      obtain rfl : x.endpoint = e := Option.some.inj h
      rw [List.cons_append, mine, mine, ← List.cons_append, bytesOf_append, bytesOf_cons _ m,
        bytesOf_nil, List.append_nil]

/-- Consuming one more entry puts it aside, if it is of another endpoint. -/
theorem others_append_singleton {l : List ReceiveQueueMessage} {e : Endpoint}
    (h : readingFrom l = some e) (m : ReceiveQueueMessage) :
    others (l ++ [m]) = others l ++ (if m.endpoint = e then [] else [m]) := by
  cases l with
  | nil => cases h
  | cons x l =>
      obtain rfl : x.endpoint = e := Option.some.inj h
      by_cases hm : m.endpoint = x.endpoint
      · simp [others, hm]
      · simp [others, hm]

theorem readingFrom_append_singleton {l : List ReceiveQueueMessage} {e : Endpoint}
    (h : readingFrom l = some e) (l' : List ReceiveQueueMessage) :
    readingFrom (l ++ l') = some e := by
  cases l with
  | nil => cases h
  | cons x l => exact h

/-- The consumed bytes are those of the endpoint being read. -/
theorem mine_eq_bytesOf {l : List ReceiveQueueMessage} {e : Endpoint}
    (h : readingFrom l = some e) : mine l = bytesOf e l := by
  cases l with
  | nil => cases h
  | cons x l =>
      obtain rfl : x.endpoint = e := Option.some.inj h
      rfl

/-- Putting aside keeps the bytes of every other endpoint, and none of the endpoint being
read. -/
theorem bytesOf_others {l : List ReceiveQueueMessage} {e : Endpoint}
    (h : readingFrom l = some e) (f : Endpoint) :
    bytesOf f (others l) = if f = e then [] else bytesOf f l := by
  cases l with
  | nil => cases h
  | cons x l =>
      obtain rfl : x.endpoint = e := Option.some.inj h
      by_cases hf : f = x.endpoint
      · subst hf
        simp [others, bytesOf, List.filter_filter]
      · have hx : ¬ x.endpoint = f := fun h => hf h.symm
        rw [if_neg hf, bytesOf_cons, if_neg hx, List.nil_append]
        simp only [others, bytesOf, List.filter_filter]
        congr 1
        refine List.filter_congr ?_
        intro m _
        by_cases hm : m.endpoint = f
        · subst hm
          simp [hf]
        · simp [hm]

/-- Entries put aside are entries of the list. -/
theorem mem_of_mem_others {l : List ReceiveQueueMessage} {m : ReceiveQueueMessage}
    (h : m ∈ others l) : m ∈ l := by
  cases l with
  | nil => cases h
  | cons x l => exact List.mem_cons_of_mem _ (List.mem_of_mem_filter h)

/-! ### One round of the loop -/

/-- The local state of a call that has consumed the entries `l`. -/
structure Receiving.Consumed (r : Receiving) (l : List ReceiveQueueMessage) : Prop where
  wellFormed : r.parser.WellFormed
  reading : r.readingEndpoint = readingFrom l
  pending : r.parser.pending = mine l
  stash : r.unProcessedMessages = others l

theorem Receiving.consumed_nil : Receiving.Consumed {} [] where
  wellFormed := MessageParser.wellFormed_fresh
  reading := rfl
  pending := rfl
  stash := rfl

/-- The call's message is complete when the consumed bytes begin with a whole frame. -/
theorem Receiving.Consumed.hasCompleteMessage_iff {r : Receiving}
    {l : List ReceiveQueueMessage} (h : r.Consumed l) :
    r.parser.hasCompleteMessage = true ↔ HasFrame (mine l) := by
  rw [h.wellFormed.hasCompleteMessage_iff, h.pending]

/-- Feeding a good entry to a parser that is not complete. -/
theorem Receiving.feed_spec {r : Receiving} (hwf : r.parser.WellFormed)
    (hno : ¬ HasFrame r.parser.pending) {m : ReceiveQueueMessage} (hm : m.Good) :
    ∃ p : MessageParser, r.feed m = (true, { r with parser := p }) ∧ p.WellFormed ∧
      p.pending = r.parser.pending ++ m.message := by
  have hpos : 0 < m.message.length := List.length_pos_iff.mpr hm.ne_nil
  have hstatus : ¬ m.status ≤ 0 := by
    rw [hm.status_eq]
    omega
  have hfits : r.parser.Fits m.message := by
    rw [MessageParser.Fits, hwf.overflow_of_not_hasFrame hno]
    have := hm.length_lt
    simp only [List.length_nil]
    omega
  have hfeeds := hwf.feeds hfits
  exact ⟨_, by rw [Receiving.feed, if_neg hstatus], hfeeds.wellFormed, hfeeds.pending_eq⟩

/-- **The step lemma.** A round of the loop on a good entry goes on, and has consumed that
entry too. -/
theorem Receiving.Consumed.process_spec {r : Receiving} {l : List ReceiveQueueMessage}
    (h : r.Consumed l) (hno : ¬ HasFrame (mine l)) {m : ReceiveQueueMessage} (hm : m.Good) :
    ∃ r', r.process m = (true, r') ∧ r'.Consumed (l ++ [m]) := by
  have hno' : ¬ HasFrame r.parser.pending := by
    rw [h.pending]
    exact hno
  cases hread : r.readingEndpoint with
  | none =>
      have hl : l = [] := by
        have hnone := h.reading
        rw [hread] at hnone
        cases l with
        | nil => rfl
        | cons x l => cases hnone
      subst hl
      obtain ⟨p, hfeed, hwf, hpend⟩ := Receiving.feed_spec
        (r := { r with readingEndpoint := some m.endpoint }) h.wellFormed hno' hm
      refine ⟨_, by rw [Receiving.process, hread]; exact hfeed, ?_⟩
      refine ⟨hwf, rfl, ?_, h.stash⟩
      show p.pending = mine [m]
      have hnil : r.parser.pending = [] := h.pending
      rw [hpend, hnil, List.nil_append, mine, bytesOf_cons, if_pos rfl, bytesOf_nil,
        List.append_nil]
  | some e =>
      have hreading : readingFrom l = some e := by rw [← h.reading, hread]
      by_cases he : m.endpoint = e
      · obtain ⟨p, hfeed, hwf, hpend⟩ := Receiving.feed_spec h.wellFormed hno' hm
        have hprocess : r.process m = r.feed m := by
          rw [Receiving.process, hread]
          exact if_neg (not_not_intro he)
        refine ⟨_, hprocess.trans hfeed, hwf, ?_, ?_, ?_⟩
        · rw [readingFrom_append_singleton hreading]
          exact hread
        · rw [mine_append_singleton hreading, if_pos he, ← h.pending]
          exact hpend
        · rw [others_append_singleton hreading, if_pos he, List.append_nil]
          exact h.stash
      · refine ⟨_, by rw [Receiving.process, hread]; exact if_pos he, ?_⟩
        refine ⟨h.wellFormed, ?_, ?_, ?_⟩
        · rw [readingFrom_append_singleton hreading]
        · rw [mine_append_singleton hreading, if_neg he, List.append_nil]
          exact h.pending
        · rw [others_append_singleton hreading, if_neg he, ← h.stash]

/-! ### The loop -/

/-- The loop ends after exactly these entries: their bytes hold a complete message, and
without the last one they do not. -/
structure Stops (l : List ReceiveQueueMessage) : Prop where
  hasFrame : HasFrame (mine l)
  minimal : ¬ HasFrame (mine l.dropLast)

/-- More entries extend the consumed bytes. -/
theorem mine_append (l l' : List ReceiveQueueMessage) :
    ∃ bytes, mine (l ++ l') = mine l ++ bytes := by
  cases l with
  | nil => exact ⟨mine l', rfl⟩
  | cons x l =>
      refine ⟨bytesOf x.endpoint l', ?_⟩
      rw [List.cons_append, mine, mine, ← List.cons_append, bytesOf_append]

/-- A complete message stays complete. -/
theorem hasFrame_mine_append {l : List ReceiveQueueMessage} (h : HasFrame (mine l))
    (l' : List ReceiveQueueMessage) : HasFrame (mine (l ++ l')) := by
  obtain ⟨bytes, hbytes⟩ := mine_append l l'
  rw [hbytes]
  exact (h.append bytes).1

theorem not_hasFrame_dropLast {l s : List ReceiveQueueMessage}
    (h : ¬ HasFrame (mine (l ++ s))) : ¬ HasFrame (mine (l ++ s.dropLast)) := by
  intro hf
  obtain ⟨last, hlast⟩ := List.dropLast_prefix s
  refine h ?_
  rw [← hlast, ← List.append_assoc]
  exact hasFrame_mine_append hf last

theorem Stops.ne_nil {l : List ReceiveQueueMessage} (h : Stops l) : l ≠ [] := by
  rintro rfl
  exact h.minimal h.hasFrame

/-- A list of entries that holds a complete message has a shortest part that does. -/
theorem exists_stops {l : List ReceiveQueueMessage} (h : HasFrame (mine l)) :
    ∃ pre post, l = pre ++ post ∧ Stops pre := by
  induction l using List.reverseRecOn with
  | nil => exact absurd h not_hasFrame_nil
  | append_singleton l m ih =>
      by_cases hl : HasFrame (mine l)
      · obtain ⟨pre, post, rfl, hpre⟩ := ih hl
        exact ⟨pre, post ++ [m], by rw [List.append_assoc], hpre⟩
      · refine ⟨l ++ [m], [], by rw [List.append_nil], h, ?_⟩
        rw [List.dropLast_concat]
        exact hl

/-- All entries of a list are good. -/
def AllGood (l : List ReceiveQueueMessage) : Prop := ∀ m ∈ l, m.Good

theorem AllGood.append {l l' : List ReceiveQueueMessage} (h : AllGood l) (h' : AllGood l') :
    AllGood (l ++ l') := by
  intro m hm
  rcases List.mem_append.mp hm with hm | hm
  · exact h m hm
  · exact h' m hm

theorem AllGood.left {l l' : List ReceiveQueueMessage} (h : AllGood (l ++ l')) : AllGood l :=
  fun m hm => h m (List.mem_append_left _ hm)

theorem AllGood.right {l l' : List ReceiveQueueMessage} (h : AllGood (l ++ l')) : AllGood l' :=
  fun m hm => h m (List.mem_append_right _ hm)

namespace Receiving

/-- **The run lemma for the stash.** As long as the entries before the last one hold no
complete message, the loop consumes them all and goes on with what follows. -/
theorem Consumed.fromStash_append {r : Receiving} {l : List ReceiveQueueMessage}
    (h : r.Consumed l) {s : List ReceiveQueueMessage} (hgood : AllGood s)
    (hno : ¬ HasFrame (mine (l ++ s.dropLast))) :
    ∃ r', r'.Consumed (l ++ s) ∧ ∀ rest, fromStash (s ++ rest) r = fromStash rest r' := by
  induction s using List.reverseRecOn with
  | nil => exact ⟨r, by rwa [List.append_nil], fun rest => rfl⟩
  | append_singleton s m ih =>
      rw [List.dropLast_concat] at hno
      obtain ⟨r₁, hr₁, hrun⟩ := ih hgood.left (not_hasFrame_dropLast hno)
      obtain ⟨r₂, hstep, hr₂⟩ := hr₁.process_spec hno (hgood m (by simp))
      refine ⟨r₂, by rwa [← List.append_assoc], fun rest => ?_⟩
      have hnot : ¬ r₁.parser.hasCompleteMessage = true :=
        fun hc => hno (hr₁.hasCompleteMessage_iff.mp hc)
      rw [List.append_assoc, hrun, List.singleton_append, fromStash, if_neg hnot, hstep]

/-- A complete message ends the loop without another pop. -/
theorem fromQueue_of_complete {r : Receiving} (h : r.parser.hasCompleteMessage = true)
    (pops : List (Option ReceiveQueueMessage)) : r.fromQueue pops = (.complete, r, pops) := by
  rcases pops with - | ⟨- | m, pops⟩
  · rw [fromQueue, if_pos h]
  · rw [fromQueue, if_pos h]
  · rw [fromQueue, if_pos h]

/-- **The run lemma for the queue.** -/
theorem Consumed.fromQueue_append {r : Receiving} {l : List ReceiveQueueMessage}
    (h : r.Consumed l) {q : List ReceiveQueueMessage} (hgood : AllGood q)
    (hno : ¬ HasFrame (mine (l ++ q.dropLast))) :
    ∃ r', r'.Consumed (l ++ q) ∧
      ∀ pops, fromQueue (q.map some ++ pops) r = fromQueue pops r' := by
  induction q using List.reverseRecOn with
  | nil => exact ⟨r, by rwa [List.append_nil], fun rest => rfl⟩
  | append_singleton q m ih =>
      rw [List.dropLast_concat] at hno
      obtain ⟨r₁, hr₁, hrun⟩ := ih hgood.left (not_hasFrame_dropLast hno)
      obtain ⟨r₂, hstep, hr₂⟩ := hr₁.process_spec hno (hgood m (by simp))
      refine ⟨r₂, by rwa [← List.append_assoc], fun pops => ?_⟩
      have hnot : ¬ r₁.parser.hasCompleteMessage = true :=
        fun hc => hno (hr₁.hasCompleteMessage_iff.mp hc)
      rw [List.map_append, List.append_assoc, hrun, List.map_singleton, List.singleton_append,
        fromQueue, if_neg hnot, hstep]

end Receiving

/-! ### One call -/

/-- The source endpoint of a call that consumed `l`. -/
def sourceOf (l : List ReceiveQueueMessage) : Endpoint := (readingFrom l).getD {}

/-- What a call that returns after consuming `l` leaves in `un_processed_messages_`. -/
def leftover (l : List ReceiveQueueMessage) : List ReceiveQueueMessage :=
  others l ++
    if afterFrame (mine l) = [] then []
    else [⟨afterFrame (mine l), sourceOf l, sizeToInt (afterFrame (mine l)).length⟩]

/-- What a call that stops after consuming `l` returns. -/
def returnedFrom {Msg : Type} (pb : Protobuf Msg) (l : List ReceiveQueueMessage) :
    ReceiveOutcome Msg :=
  .returned (frameBody (mine l)) (pb.parseBody (frameBody (mine l))) (sourceOf l)

theorem readingFrom_of_ne_nil {l : List ReceiveQueueMessage} (h : l ≠ []) :
    readingFrom l = some (sourceOf l) := by
  cases l with
  | nil => exact absurd rfl h
  | cons x l => rfl

/-- The bytes that follow the message all came with the last entry, so they fit a C
`int`. -/
theorem Stops.length_afterFrame_lt {l : List ReceiveQueueMessage} (h : Stops l)
    (hgood : AllGood l) : (afterFrame (mine l)).length < 2 ^ 31 := by
  obtain ⟨hf, hmin⟩ := h
  rcases List.eq_nil_or_concat' l with rfl | ⟨l₀, m, rfl⟩
  · exact absurd hf not_hasFrame_nil
  · rw [List.dropLast_concat] at hmin
    have hm := (hgood m (by simp)).length_lt
    cases l₀ with
    | nil =>
        have hlen := hf.length_afterFrame
        have hone : mine [m] = m.message := by
          rw [mine, bytesOf_cons, if_pos rfl, bytesOf_nil, List.append_nil]
        rw [List.nil_append, hone] at hlen ⊢
        omega
    | cons x l₀ =>
        have happ := mine_append_singleton (l := x :: l₀) rfl m
        rw [happ] at hf ⊢
        have hlt := hf.length_afterFrame_lt hmin
        split at hlt
        · rw [if_pos ‹_›]
          omega
        · cases hlt

theorem Stops.allGood_leftover {l : List ReceiveQueueMessage} (h : Stops l)
    (hgood : AllGood l) : AllGood (leftover l) := by
  have hlt := h.length_afterFrame_lt hgood
  refine AllGood.append (fun m hm => hgood m (mem_of_mem_others hm)) ?_
  intro m hm
  split at hm
  · cases hm
  · obtain rfl := List.mem_singleton.mp hm
    exact ⟨sizeToInt_of_lt hlt, ‹_›, hlt⟩

/-- A returning call takes one frame off the stream of its source, and leaves the bytes of
the other endpoints alone. -/
theorem bytesOf_leftover {l : List ReceiveQueueMessage} (hl : l ≠ []) (e : Endpoint) :
    bytesOf e (leftover l) =
      if e = sourceOf l then afterFrame (bytesOf e l) else bytesOf e l := by
  have hread := readingFrom_of_ne_nil hl
  have hmine := mine_eq_bytesOf hread
  rw [leftover, bytesOf_append, bytesOf_others hread]
  by_cases he : e = sourceOf l
  · subst he
    rw [if_pos rfl, if_pos rfl, List.nil_append, ← hmine]
    split
    · rw [bytesOf_nil, ‹afterFrame (mine l) = []›]
    · rw [bytesOf_cons, if_pos rfl, bytesOf_nil, List.append_nil]
  · have he' : ¬ sourceOf l = e := fun h => he h.symm
    rw [if_neg he, if_neg he]
    split
    · rw [bytesOf_nil, List.append_nil]
    · rw [bytesOf_cons, if_neg he', bytesOf_nil, List.nil_append, List.append_nil]

/-- The end of a call whose loop consumed `l`. -/
theorem Receiving.Consumed.finish_spec {Msg : Type} (pb : Protobuf Msg) {r : Receiving}
    {l : List ReceiveQueueMessage} (h : r.Consumed l) (hf : HasFrame (mine l))
    (pops : List (Option ReceiveQueueMessage)) :
    r.finish pb pops = (returnedFrom pb l, ⟨leftover l, pops⟩) := by
  rw [← h.pending] at hf
  obtain ⟨-, hmsg, hover, -⟩ := h.wellFormed.fields_of_hasFrame hf
  obtain ⟨-, hget⟩ := h.wellFormed.getMessage_of_hasFrame pb hf
  rw [h.pending] at hmsg hover hget
  have hempty : r.parser.hasOverflow = true ↔ ¬ afterFrame (mine l) = [] := by
    rw [MessageParser.hasOverflow, hover]
    simp
  have hsource : r.readingEndpoint.getD {} = sourceOf l := by rw [h.reading, sourceOf]
  rw [Receiving.finish]
  simp only [hmsg, hget, hsource, MessageParser.getOverflow, hover, h.stash, returnedFrom,
    leftover, hempty]
  by_cases hafter : afterFrame (mine l) = []
  · rw [if_neg (not_not_intro hafter), if_pos hafter, List.append_nil]
  · rw [if_pos hafter, if_neg hafter]

namespace Node

variable {Msg : Type} (pb : Protobuf Msg)

/-- **A message that is complete inside the stash**: the rest of the stash is dropped. -/
theorem receive_of_stash {pre : List ReceiveQueueMessage} (hgood : AllGood pre)
    (h : Stops pre) (post : List ReceiveQueueMessage)
    (pops : List (Option ReceiveQueueMessage)) :
    receive pb ⟨pre ++ post, pops⟩ = (returnedFrom pb pre, ⟨leftover pre, pops⟩) := by
  obtain ⟨r, hr, hrun⟩ := Receiving.consumed_nil.fromStash_append hgood h.minimal
  have hc : r.parser.hasCompleteMessage = true := hr.hasCompleteMessage_iff.mpr h.hasFrame
  have hstash : Receiving.fromStash (pre ++ post) {} = (true, r) := by
    rw [hrun]
    cases post with
    | nil => rfl
    | cons x post => rw [Receiving.fromStash, if_pos hc]
  rw [receive, doReceive, if_pos rfl, hstash]
  simp only [Receiving.fromQueue_of_complete hc]
  exact hr.finish_spec pb h.hasFrame pops

/-- A call whose stash holds no complete message consumes it all and goes on to pop. -/
theorem exists_consumed {s q : List ReceiveQueueMessage} (hgood : AllGood (s ++ q))
    (hs : ¬ HasFrame (mine s)) (hq : ¬ HasFrame (mine (s ++ q.dropLast))) :
    ∃ r r' : Receiving, r'.Consumed (s ++ q) ∧ Receiving.fromStash s {} = (true, r) ∧
      ∀ pops, r.fromQueue (q.map some ++ pops) = r'.fromQueue pops := by
  obtain ⟨r, hr, hrun⟩ := Receiving.consumed_nil.fromStash_append hgood.left
    (not_hasFrame_dropLast (l := []) hs)
  obtain ⟨r', hr', hpop⟩ := hr.fromQueue_append hgood.right hq
  refine ⟨r, r', hr', ?_, hpop⟩
  rw [← List.append_nil s, hrun, Receiving.fromStash]

/-- **A message that is complete after some pops**: everything else is kept. -/
theorem receive_of_queue {s q : List ReceiveQueueMessage} (hgood : AllGood (s ++ q))
    (hs : ¬ HasFrame (mine s)) (h : Stops (s ++ q)) (pops : List (Option ReceiveQueueMessage)) :
    receive pb ⟨s, q.map some ++ pops⟩ =
      (returnedFrom pb (s ++ q), ⟨leftover (s ++ q), pops⟩) := by
  have hq : ¬ HasFrame (mine (s ++ q.dropLast)) := by
    cases q with
    | nil => rwa [List.dropLast_nil, List.append_nil]
    | cons x q =>
        have hmin := h.minimal
        rwa [List.dropLast_append_of_ne_nil (List.cons_ne_nil _ _)] at hmin
  obtain ⟨r, r', hr', hstash, hrun⟩ := exists_consumed hgood hs hq
  have hc : r'.parser.hasCompleteMessage = true := hr'.hasCompleteMessage_iff.mpr h.hasFrame
  rw [receive, doReceive, if_pos rfl, hstash]
  simp only [hrun, Receiving.fromQueue_of_complete hc]
  exact hr'.finish_spec pb h.hasFrame pops

section NoFrame

variable {s q : List ReceiveQueueMessage} (hgood : AllGood (s ++ q))
  (hno : ¬ HasFrame (mine (s ++ q)))

include hgood hno

/-- **A call that times out** keeps the entries of the other endpoints; the bytes it had
consumed are gone. -/
theorem receive_of_timeout (pops : List (Option ReceiveQueueMessage)) :
    receive pb ⟨s, q.map some ++ none :: pops⟩ =
      (.timedOut, ⟨others (s ++ q), pops⟩) := by
  obtain ⟨r, r', hr', hstash, hrun⟩ := exists_consumed hgood
    (fun hf => hno (hasFrame_mine_append hf q)) (not_hasFrame_dropLast hno)
  have hc : ¬ r'.parser.hasCompleteMessage = true :=
    fun hc => hno (hr'.hasCompleteMessage_iff.mp hc)
  rw [receive, doReceive, if_pos rfl, hstash]
  simp only [hrun, Receiving.fromQueue, if_neg hc, hr'.stash]

/-- **A call at the end of the queue** blocks, with everything consumed. -/
theorem receive_of_end :
    receive pb ⟨s, q.map some⟩ = (.blocked, ⟨others (s ++ q), []⟩) := by
  obtain ⟨r, r', hr', hstash, hrun⟩ := exists_consumed hgood
    (fun hf => hno (hasFrame_mine_append hf q)) (not_hasFrame_dropLast hno)
  have hc : ¬ r'.parser.hasCompleteMessage = true :=
    fun hc => hno (hr'.hasCompleteMessage_iff.mp hc)
  have hend := hrun []
  rw [List.append_nil] at hend
  rw [receive, doReceive, if_pos rfl, hstash]
  simp only [hend, Receiving.fromQueue, if_neg hc, hr'.stash]

/-- **A call that meets a failed receive** of the endpoint it reads from returns
`false`. -/
theorem receive_of_failure {m : ReceiveQueueMessage} (hm : m.status ≤ 0)
    (he : ∀ e, readingFrom (s ++ q) = some e → m.endpoint = e)
    (pops : List (Option ReceiveQueueMessage)) :
    receive pb ⟨s, q.map some ++ some m :: pops⟩ =
      (.failed, ⟨others (s ++ q), pops⟩) := by
  obtain ⟨r, r', hr', hstash, hrun⟩ := exists_consumed hgood
    (fun hf => hno (hasFrame_mine_append hf q)) (not_hasFrame_dropLast hno)
  have hc : ¬ r'.parser.hasCompleteMessage = true :=
    fun hc => hno (hr'.hasCompleteMessage_iff.mp hc)
  have hprocess : ∃ r'', r'.process m = (false, r'') ∧
      r''.unProcessedMessages = others (s ++ q) := by
    rw [Receiving.process, hr'.reading]
    cases hread : readingFrom (s ++ q) with
    | none => exact ⟨_, if_pos hm, hr'.stash⟩
    | some e =>
        have hne : ¬ m.endpoint ≠ e := not_not_intro (he e hread)
        simp only [if_neg hne]
        exact ⟨_, if_pos hm, hr'.stash⟩
  obtain ⟨r'', hstep, hrest⟩ := hprocess
  rw [receive, doReceive, if_pos rfl, hstash]
  simp only [hrun, Receiving.fromQueue, if_neg hc, hstep, hrest]

end NoFrame

end Node

end Csci6780
