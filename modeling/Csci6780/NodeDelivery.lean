import Mathlib.Data.List.ReduceOption
import Csci6780.Node

/-!
# What a Sequence of Receive Calls Delivers

`Csci6780.Node` says what one `Receive` call does. This module is about whole sequences of
calls: which frames they return, and which bytes are lost on the way.

The bytes of an endpoint that a node still holds, in its stash and on its queue, are
accounted for call by call. A call that returns takes a frame off the stream of its
source, and nothing else unless its message was complete before the end of the stash: the
call's copy of the stash is then dropped with the entries left in it. A call that times
out drops the bytes it had consumed. Both losses are read off the accounts, so the
conditions below are exact.

## Main results

* `accounts`: no call ever returns more than the node held.
* `receive_delivers_iff_stash_safe`: blocking calls deliver every sender's frames exactly
  when no call finds a complete message before the last entry of its stash.
-/

namespace Csci6780

variable {Msg : Type}

/-! ### Returned frames -/

/-- The frames that calls returned with source `e`: the bytes handed to `ParseFromArray`
and the message. -/
def received (e : Endpoint) : List (ReceiveOutcome Msg) → List (List UInt8 × Option Msg)
  | [] => []
  | .returned body message source :: outcomes =>
      if source = e then (body, message) :: received e outcomes else received e outcomes
  | _ :: outcomes => received e outcomes

/-- The call returned with a message frame. -/
def ReceiveOutcome.isReturned : ReceiveOutcome Msg → Bool
  | .returned _ _ _ => true
  | _ => false

theorem received_append (e : Endpoint) (as bs : List (ReceiveOutcome Msg)) :
    received e (as ++ bs) = received e as ++ received e bs := by
  induction as with
  | nil => rfl
  | cons a as ih =>
      cases a with
      | returned body message source =>
          simp only [List.cons_append, received, ih]
          split
          · rfl
          · rfl
      | failed => exact ih
      | timedOut => exact ih
      | blocked => exact ih

/-- The number of bytes the frames returned with source `e` had on the wire. -/
def receivedSize (e : Endpoint) (outcomes : List (ReceiveOutcome Msg)) : ℕ :=
  (frames ((received e outcomes).map Prod.fst)).length

theorem receivedSize_append (e : Endpoint) (as bs : List (ReceiveOutcome Msg)) :
    receivedSize e (as ++ bs) = receivedSize e as + receivedSize e bs := by
  rw [receivedSize, received_append, List.map_append, frames_append, List.length_append]
  rfl

/-- Calls that return all that was sent return as many bytes. -/
theorem receivedSize_of_sent (pb : Protobuf Msg) {e : Endpoint} {bodies : List (List UInt8)}
    {outcomes : List (ReceiveOutcome Msg)}
    (h : received e outcomes = bodies.map fun body => (body, pb.parseBody body)) :
    receivedSize e outcomes = (frames bodies).length := by
  have hid : (Prod.fst ∘ fun body => (body, pb.parseBody body)) = id := rfl
  rw [receivedSize, h, List.map_map, hid, List.map_id]

namespace Node

variable (pb : Protobuf Msg)

/-- The entries a node still holds, in the order its next call meets them. -/
def entries (node : Node) : List ReceiveQueueMessage :=
  node.unProcessedMessages ++ node.pops.reduceOption

/-- `n + k` calls are `n` calls and then `k` calls. -/
theorem receiveCalls_add (n k : ℕ) (node : Node) :
    receiveCalls pb (n + k) node =
      ((receiveCalls pb n node).1 ++ (receiveCalls pb k (receiveCalls pb n node).2).1,
        (receiveCalls pb k (receiveCalls pb n node).2).2) := by
  induction n generalizing node with
  | zero =>
      rw [Nat.zero_add]
      rfl
  | succ n ih =>
      rw [Nat.succ_add, receiveCalls, receiveCalls]
      simp only [ih]
      rfl

/-! ### What one call does -/

/-- Every list of pops is a run of delivered entries, then a timeout or the end. -/
theorem exists_split (pops : List (Option ReceiveQueueMessage)) :
    ∃ (q : List ReceiveQueueMessage) (tail : List (Option ReceiveQueueMessage)),
      pops = q.map some ++ tail ∧ (tail = [] ∨ ∃ rest, tail = none :: rest) := by
  induction pops with
  | nil => exact ⟨[], [], rfl, .inl rfl⟩
  | cons m pops ih =>
      cases m with
      | none => exact ⟨[], none :: pops, rfl, .inr ⟨pops, rfl⟩⟩
      | some m =>
          obtain ⟨q, tail, rfl, htail⟩ := ih
          exact ⟨m :: q, tail, rfl, htail⟩

@[simp] theorem reduceOption_map_some (q : List ReceiveQueueMessage) :
    (q.map some).reduceOption = q := by
  induction q with
  | nil => rfl
  | cons m q ih => rw [List.map_cons, List.reduceOption_cons_of_some, ih]

theorem entries_map_some (s q : List ReceiveQueueMessage)
    (tail : List (Option ReceiveQueueMessage)) :
    entries ⟨s, q.map some ++ tail⟩ = (s ++ q) ++ tail.reduceOption := by
  rw [entries, List.reduceOption_append, reduceOption_map_some, List.append_assoc]

/-- Before a call, no complete message of the endpoint it will read from ends before the
last entry of the stash. -/
def StashSafe (node : Node) : Prop := ¬ HasFrame (mine node.unProcessedMessages.dropLast)

instance (node : Node) : Decidable node.StashSafe :=
  inferInstanceAs (Decidable (¬ HasFrame (mine node.unProcessedMessages.dropLast)))

/-- A call with a safe stash that can complete a message from the next entries does so, and
keeps everything else. -/
theorem receive_of_stashSafe {s q : List ReceiveQueueMessage} (hgood : AllGood (s ++ q))
    (hsafe : ¬ HasFrame (mine s.dropLast)) (hf : HasFrame (mine (s ++ q))) :
    ∃ q₁ q₂, q = q₁ ++ q₂ ∧ Stops (s ++ q₁) ∧ ∀ tail,
      receive pb ⟨s, q.map some ++ tail⟩ =
        (returnedFrom pb (s ++ q₁), ⟨leftover (s ++ q₁), q₂.map some ++ tail⟩) := by
  by_cases hs : HasFrame (mine s)
  · have hstops : Stops s := ⟨hs, hsafe⟩
    refine ⟨[], q, rfl, by rwa [List.append_nil], fun tail => ?_⟩
    have hrec := receive_of_stash pb hgood.left hstops [] (q.map some ++ tail)
    rwa [List.append_nil] at hrec ⊢
  · obtain ⟨pre, post, hpre, hstops⟩ := exists_stops hf
    -- the shortest completing part is longer than the stash
    have hlong : s.length ≤ pre.length := by
      by_contra hlt
      have hpart : pre <+: s := by
        refine List.prefix_of_prefix_length_le (List.prefix_append pre post) ?_ (by omega)
        rw [← hpre]
        exact List.prefix_append s q
      obtain ⟨t, rfl⟩ := hpart
      exact hs (hasFrame_mine_append hstops.hasFrame t)
    obtain ⟨q₁, rfl⟩ : s <+: pre := by
      refine List.prefix_of_prefix_length_le (List.prefix_append s q) ?_ hlong
      rw [hpre]
      exact List.prefix_append pre post
    have hq : q = q₁ ++ post := by
      rw [List.append_assoc] at hpre
      exact List.append_cancel_left hpre
    subst hq
    refine ⟨q₁, post, rfl, hstops, fun tail => ?_⟩
    rw [← List.append_assoc] at hgood
    rw [List.map_append, List.append_assoc]
    exact receive_of_queue pb hgood.left hs hstops _

/-- A call that returns accounts for all the bytes it consumed. -/
theorem receivedSize_returnedFrom {l : List ReceiveQueueMessage} (h : Stops l)
    (e : Endpoint) :
    receivedSize e [returnedFrom pb l] + (bytesOf e (leftover l)).length =
      (bytesOf e l).length := by
  have hf := h.hasFrame
  have hmine := mine_eq_bytesOf (readingFrom_of_ne_nil h.ne_nil)
  rw [bytesOf_leftover h.ne_nil, receivedSize, returnedFrom, received]
  by_cases he : e = sourceOf l
  · subst he
    rw [if_pos rfl, if_pos rfl, ← hmine, received]
    have hlen := hf.length_afterFrame
    simp only [List.map_cons, List.map_nil, frames_cons, frames_nil, List.append_nil,
      length_frame]
    omega
  · rw [if_neg he, if_neg (fun h => he h.symm), received]
    exact Nat.zero_add _

/-- What a call puts aside is part of what it consumed. -/
theorem length_bytesOf_others_le (l : List ReceiveQueueMessage) (e : Endpoint) :
    (bytesOf e (others l)).length ≤ (bytesOf e l).length := by
  cases l with
  | nil => exact Nat.le_refl _
  | cons x l =>
      rw [bytesOf_others (readingFrom_of_ne_nil (List.cons_ne_nil x l))]
      split
      · exact Nat.zero_le _
      · exact Nat.le_refl _

/-- **The step lemma of the accounts.** A call on good entries leaves good entries, and
for every endpoint returns no more bytes than the node then misses. -/
theorem receive_accounts {node : Node} (hgood : AllGood node.entries) :
    AllGood (node.receive pb).2.entries ∧ ∀ e,
      receivedSize e [(node.receive pb).1] + (bytesOf e (node.receive pb).2.entries).length ≤
        (bytesOf e node.entries).length := by
  obtain ⟨s, pops⟩ := node
  by_cases hs : HasFrame (mine s)
  · obtain ⟨pre, post, rfl, hstops⟩ := exists_stops hs
    rw [receive_of_stash pb hgood.left.left hstops]
    refine ⟨(hstops.allGood_leftover hgood.left.left).append hgood.right, fun e => ?_⟩
    have hsize := receivedSize_returnedFrom pb hstops e
    simp only [entries, bytesOf_append, List.length_append]
    omega
  · obtain ⟨q, tail, rfl, htail⟩ := exists_split pops
    rw [entries_map_some] at hgood ⊢
    by_cases hf : HasFrame (mine (s ++ q))
    · obtain ⟨q₁, q₂, rfl, hstops, hrec⟩ := receive_of_stashSafe pb hgood.left
        (not_hasFrame_dropLast (l := []) hs) hf
      rw [← List.append_assoc] at hgood
      rw [hrec tail, entries_map_some, ← List.append_assoc]
      refine ⟨((hstops.allGood_leftover hgood.left.left).append hgood.left.right).append
        hgood.right, fun e => ?_⟩
      have hsize := receivedSize_returnedFrom pb hstops e
      simp only [bytesOf_append, List.length_append] at hsize ⊢
      omega
    · have hothers : AllGood (others (s ++ q)) :=
        fun m hm => hgood.left m (mem_of_mem_others hm)
      rcases htail with rfl | ⟨t, rfl⟩
      · rw [List.append_nil, receive_of_end pb hgood.left hf]
        refine ⟨hothers.append hgood.right, fun e => ?_⟩
        have hle := length_bytesOf_others_le (s ++ q) e
        simp only [entries, bytesOf_append, List.length_append] at hle ⊢
        have hzero : receivedSize e [(.blocked : ReceiveOutcome Msg)] = 0 := rfl
        omega
      · rw [receive_of_timeout pb hgood.left hf]
        refine ⟨hothers.append hgood.right, fun e => ?_⟩
        have hle := length_bytesOf_others_le (s ++ q) e
        have hzero : receivedSize e [(.timedOut : ReceiveOutcome Msg)] = 0 := rfl
        simp only [entries, List.reduceOption_cons_of_none, bytesOf_append,
          List.length_append] at hle ⊢
        omega

/-- **The accounts.** No sequence of calls returns more bytes of an endpoint than the node
then misses. -/
theorem accounts (n : ℕ) {node : Node} (hgood : AllGood node.entries) :
    AllGood (receiveCalls pb n node).2.entries ∧ ∀ e,
      receivedSize e (receiveCalls pb n node).1 +
          (bytesOf e (receiveCalls pb n node).2.entries).length ≤
        (bytesOf e node.entries).length := by
  induction n generalizing node with
  | zero => exact ⟨hgood, fun e => Nat.le_of_eq (Nat.zero_add _)⟩
  | succ n ih =>
      obtain ⟨hgood', hstep⟩ := receive_accounts pb hgood
      obtain ⟨hgood'', hrest⟩ := ih hgood'
      refine ⟨hgood'', fun e => ?_⟩
      have hfirst := hstep e
      have hlater := hrest e
      have hsplit := receivedSize_append e [(node.receive pb).1]
        (receiveCalls pb n (node.receive pb).2).1
      rw [List.singleton_append] at hsplit
      simp only [receiveCalls]
      omega

/-! ### Several senders -/

/-- **The loss.** A call that finds a complete message before the last entry of its stash
loses bytes of the endpoint of that last entry. -/
theorem receive_loses {node : Node} (hgood : AllGood node.entries)
    (hbroken : ¬ node.StashSafe) :
    ∃ e, receivedSize e [(node.receive pb).1] +
        (bytesOf e (node.receive pb).2.entries).length <
      (bytesOf e node.entries).length := by
  obtain ⟨s, pops⟩ := node
  have hf : HasFrame (mine s.dropLast) := not_not.mp hbroken
  rcases List.eq_nil_or_concat' s with rfl | ⟨s, last, rfl⟩
  · exact absurd hf not_hasFrame_nil
  · rw [List.dropLast_concat] at hf
    obtain ⟨pre, post, rfl, hstops⟩ := exists_stops hf
    rw [List.append_assoc] at hgood ⊢
    refine ⟨last.endpoint, ?_⟩
    rw [receive_of_stash pb hgood.left.left hstops]
    have hsize := receivedSize_returnedFrom pb hstops last.endpoint
    have hlast : 0 < last.message.length :=
      List.length_pos_iff.mpr (hgood.left.right last (by simp)).ne_nil
    simp only [entries, bytesOf_append, bytesOf_cons, List.length_append, if_pos]
    omega

/-- One call with an unsafe stash, and the accounts never balance again. -/
theorem receiveCalls_lose {n k : ℕ} (hk : k < n) {node : Node} (hgood : AllGood node.entries)
    (hbroken : ¬ (receiveCalls pb k node).2.StashSafe) :
    ∃ e, receivedSize e (receiveCalls pb n node).1 +
        (bytesOf e (receiveCalls pb n node).2.entries).length <
      (bytesOf e node.entries).length := by
  obtain ⟨m, rfl⟩ : ∃ m, n = k + (1 + m) := ⟨n - k - 1, by omega⟩
  obtain ⟨hgoodk, hbefore⟩ := accounts pb k hgood
  obtain ⟨e, hloss⟩ := receive_loses pb hgoodk hbroken
  obtain ⟨-, hafter⟩ := accounts pb m (receive_accounts pb hgoodk).1
  have hb := hbefore e
  have ha := hafter e
  refine ⟨e, ?_⟩
  rw [receiveCalls_add, receivedSize_append]
  rw [receiveCalls_add pb 1 m, receivedSize_append]
  simp only [receiveCalls] at hloss ha ⊢
  omega

/-- The calls, up to some point, all return, use up the stash and the queue, and return
for every endpoint exactly the frames it sent, in its order. -/
def DeliversAll (sent : Endpoint → List (List UInt8)) (node : Node) : Prop :=
  ∃ n, (receiveCalls pb n node).2 = {} ∧
    (∀ outcome ∈ (receiveCalls pb n node).1, outcome.isReturned = true) ∧
    ∀ e, received e (receiveCalls pb n node).1 =
      (sent e).map fun body => (body, pb.parseBody body)

/-- All bytes of a list of entries. -/
def totalBytes (l : List ReceiveQueueMessage) : ℕ := (l.map fun m => m.message.length).sum

theorem totalBytes_append (l l' : List ReceiveQueueMessage) :
    totalBytes (l ++ l') = totalBytes l + totalBytes l' := by
  rw [totalBytes, List.map_append, List.sum_append]
  rfl

/-- The bytes of one endpoint and the entries of the others make up the list. -/
theorem length_bytesOf_add (e : Endpoint) (l : List ReceiveQueueMessage) :
    (bytesOf e l).length + totalBytes (l.filter fun m => m.endpoint ≠ e) = totalBytes l := by
  induction l with
  | nil => rfl
  | cons m l ih =>
      rw [bytesOf_cons, List.length_append]
      by_cases hm : m.endpoint = e
      · rw [if_pos hm, List.filter_cons_of_neg (by simp [hm])]
        simp only [totalBytes, List.map_cons, List.sum_cons] at ih ⊢
        omega
      · rw [if_neg hm, List.filter_cons_of_pos (by simp [hm])]
        simp only [totalBytes, List.map_cons, List.sum_cons, List.length_nil] at ih ⊢
        omega

/-- A returning call shrinks what the node holds. -/
theorem totalBytes_leftover_lt {l : List ReceiveQueueMessage} (h : Stops l) :
    totalBytes (leftover l) < totalBytes l := by
  have hafter := h.hasFrame.length_afterFrame
  have hothers : (mine l).length + totalBytes (others l) = totalBytes l := by
    cases l with
    | nil => rfl
    | cons x l =>
        have hsum := length_bytesOf_add x.endpoint (x :: l)
        rw [List.filter_cons_of_neg (by simp)] at hsum
        exact hsum
  rw [leftover, totalBytes_append]
  split
  · have hnil : totalBytes [] = 0 := rfl
    omega
  · simp only [totalBytes, List.map_cons, List.map_nil, List.sum_cons, List.sum_nil] at hothers ⊢
    omega

/-- The frames an endpoint still has to deliver after a call returned one of `source`. -/
def afterReturn (source : Endpoint) (sent : Endpoint → List (List UInt8)) (e : Endpoint) :
    List (List UInt8) :=
  if e = source then (sent e).tail else sent e

/-- **The step lemma of delivery.** When the node holds whole frames of every endpoint and
its stash is safe, a call returns the next frame of some endpoint, and the node then holds
exactly the other frames. -/
theorem receive_delivers {s q : List ReceiveQueueMessage} (hgood : AllGood (s ++ q))
    (hsafe : ¬ HasFrame (mine s.dropLast)) (hne : s ++ q ≠ [])
    {sent : Endpoint → List (List UInt8)} (hsent : ∀ e, Framable (sent e))
    (hstream : ∀ e, bytesOf e (s ++ q) = frames (sent e)) :
    ∃ s' q' body rest source, AllGood (s' ++ q') ∧
      receive pb ⟨s, q.map some⟩ =
        (.returned body (pb.parseBody body) source, ⟨s', q'.map some⟩) ∧
      sent source = body :: rest ∧ totalBytes (s' ++ q') < totalBytes (s ++ q) ∧
      ∀ e, bytesOf e (s' ++ q') = frames (afterReturn source sent e) := by
  have hread := readingFrom_of_ne_nil hne
  have hmine := mine_eq_bytesOf hread
  have hfirst : sent (sourceOf (s ++ q)) ≠ [] := by
    intro hnil
    obtain ⟨x, l, hx⟩ := List.exists_cons_of_ne_nil hne
    have hbytes := hstream (sourceOf (s ++ q))
    rw [hnil, frames_nil, ← hmine, hx, mine, bytesOf_cons, if_pos rfl,
      List.append_eq_nil_iff] at hbytes
    exact (hgood x (by rw [hx]; exact List.mem_cons_self)).ne_nil hbytes.1
  obtain ⟨body, rest, hcons⟩ := List.exists_cons_of_ne_nil hfirst
  have hf : HasFrame (mine (s ++ q)) := by
    have hfr := hsent (sourceOf (s ++ q))
    rw [hmine, hstream, hcons]
    rw [hcons] at hfr
    exact hasFrame_frames_cons hfr
  obtain ⟨q₁, q₂, rfl, hstops, hrec⟩ := receive_of_stashSafe pb hgood hsafe hf
  have hcall := hrec []
  rw [List.append_nil, List.append_nil] at hcall
  rw [← List.append_assoc] at hgood hstream
  have hread₁ := readingFrom_of_ne_nil hstops.ne_nil
  have hstream₁ := hstream (sourceOf (s ++ q₁))
  rw [bytesOf_append, ← mine_eq_bytesOf hread₁] at hstream₁
  obtain ⟨rest, hsource, hafter⟩ :=
    hstops.hasFrame.eq_cons_of_append_eq (hsent _) hstream₁
  refine ⟨leftover (s ++ q₁), q₂, frameBody (mine (s ++ q₁)), rest, sourceOf (s ++ q₁),
    (hstops.allGood_leftover hgood.left).append hgood.right, hcall, hsource, ?_, ?_⟩
  · have hlt := totalBytes_leftover_lt hstops
    rw [← List.append_assoc, totalBytes_append, totalBytes_append (s ++ q₁)]
    omega
  · intro e
    have hse := hstream e
    rw [bytesOf_append] at hse ⊢
    rw [bytesOf_leftover hstops.ne_nil, afterReturn]
    by_cases he : e = sourceOf (s ++ q₁)
    · subst he
      rw [if_pos rfl, if_pos rfl, hsource, List.tail_cons, ← mine_eq_bytesOf hread₁, hafter]
    · rw [if_neg he, if_neg he, hse]

/-- Runs of calls whose stash is always safe deliver everything. -/
theorem deliversAll_of_stashSafe {s q : List ReceiveQueueMessage} (hgood : AllGood (s ++ q))
    {sent : Endpoint → List (List UInt8)} (hsent : ∀ e, Framable (sent e))
    (hstream : ∀ e, bytesOf e (s ++ q) = frames (sent e))
    (hsafe : ∀ n, (receiveCalls pb n ⟨s, q.map some⟩).2.StashSafe) :
    DeliversAll pb sent ⟨s, q.map some⟩ := by
  -- every returned frame shrinks the bytes the node holds
  induction hN : totalBytes (s ++ q) using Nat.strongRecOn generalizing s q sent with
  | ind N ih =>
  by_cases hne : s ++ q = []
  · obtain ⟨rfl, rfl⟩ := List.append_eq_nil_iff.mp hne
    refine ⟨0, rfl, fun outcome hmem => ?_, fun e => ?_⟩
    · cases hmem
    · have hnil : sent e = [] := frames_eq_nil_iff.mp (hstream e).symm
      rw [hnil]
      rfl
  · obtain ⟨s', q', body, rest, source, hgood', hcall, hsource, hlt, hstream'⟩ :=
      receive_delivers pb hgood (hsafe 0) hne hsent hstream
    have hsent' : ∀ e, Framable (afterReturn source sent e) := by
      intro e
      rw [afterReturn]
      split
      · exact fun b hb => hsent e b (List.mem_of_mem_tail hb)
      · exact hsent e
    have hsafe' : ∀ n, (receiveCalls pb n ⟨s', q'.map some⟩).2.StashSafe := by
      intro n
      have hnext := hsafe (n + 1)
      simp only [receiveCalls, hcall] at hnext
      exact hnext
    obtain ⟨n, hempty, hall, hrecv⟩ :=
      ih _ (by omega) hgood' hsent' hstream' hsafe' rfl
    refine ⟨n + 1, ?_, ?_, ?_⟩
    · simp only [receiveCalls, hcall]
      exact hempty
    · intro outcome hmem
      simp only [receiveCalls, hcall] at hmem
      rcases List.mem_cons.mp hmem with rfl | hmem
      · rfl
      · exact hall outcome hmem
    · intro e
      have hre := hrecv e
      simp only [receiveCalls, hcall, received, hre, afterReturn]
      by_cases he : source = e
      · subst he
        rw [if_pos rfl, if_pos rfl, hsource]
        rfl
      · rw [if_neg he, if_neg (fun h => he h.symm)]

/-- An empty node stays empty. -/
theorem receiveCalls_empty (n : ℕ) : (receiveCalls pb n {}).2 = {} := by
  induction n with
  | zero => rfl
  | succ n ih => exact ih

/-- Calls that deliver everything never met an unsafe stash. -/
theorem stashSafe_of_deliversAll {node : Node} (hgood : AllGood node.entries)
    {sent : Endpoint → List (List UInt8)}
    (hstream : ∀ e, bytesOf e node.entries = frames (sent e))
    (hall : DeliversAll pb sent node) (k : ℕ) : (receiveCalls pb k node).2.StashSafe := by
  obtain ⟨n, hempty, -, hrecv⟩ := hall
  by_contra hbroken
  rcases Nat.lt_or_ge k n with hk | hk
  · obtain ⟨e, hlt⟩ := receiveCalls_lose pb hk hgood hbroken
    rw [receivedSize_of_sent pb (hrecv e), hstream] at hlt
    omega
  · obtain ⟨m, rfl⟩ := Nat.exists_eq_add_of_le hk
    rw [receiveCalls_add, hempty, receiveCalls_empty] at hbroken
    exact hbroken not_hasFrame_nil

/-- **Blocking receives with several senders.** Let the queue hold the chunks of any
frames of any endpoints, interleaved in any way. The calls deliver every endpoint's frames
exactly when each of them starts with a safe stash. -/
theorem receive_delivers_iff_stash_safe {Msg : Type} (pb : Protobuf Msg)
    (sent : Endpoint → List (List UInt8)) (hsent : ∀ e, Framable (sent e))
    (queue : List ReceiveQueueMessage) (hgood : ∀ m ∈ queue, m.Good)
    (hstream : ∀ e, bytesOf e queue = frames (sent e)) :
    DeliversAll pb sent ⟨[], queue.map some⟩ ↔
      ∀ n, (receiveCalls pb n ⟨[], queue.map some⟩).2.StashSafe := by
  constructor
  · intro hall
    have hentries : entries ⟨[], queue.map some⟩ = queue := reduceOption_map_some queue
    refine stashSafe_of_deliversAll pb ?_ ?_ hall
    · rw [hentries]
      exact hgood
    · rw [hentries]
      exact hstream
  · exact deliversAll_of_stashSafe (s := []) pb hgood hsent hstream

/-- Two clients, and the frames they send. -/
def clientA : Endpoint := ⟨"a", 1⟩

@[inherit_doc clientA]
def clientB : Endpoint := ⟨"b", 2⟩

@[inherit_doc clientA]
def sentByClients (a b : List (List UInt8)) (e : Endpoint) : List (List UInt8) :=
  if e = clientA then a else if e = clientB then b else []

/-- What holds for the two clients and for the endpoints that send nothing holds for
all. -/
theorem forall_clients {P : Endpoint → Prop} (ha : P clientA) (hb : P clientB)
    (hother : ∀ e, e ≠ clientA → e ≠ clientB → P e) (e : Endpoint) : P e := by
  by_cases hea : e = clientA
  · rw [hea]
    exact ha
  · by_cases heb : e = clientB
    · rw [heb]
      exact hb
    · exact hother e hea heb

/-- A frame of client A in two chunks, with a frame of client B in between: both are
delivered, and no call starts with an unsafe stash. -/
theorem receive_delivers_two_clients :
    DeliversAll fileContentsProto (sentByClients [[]] [[9]]) ⟨[], [⟨[0, 0], clientA, 2⟩,
      ⟨[0, 0, 0, 1, 9], clientB, 5⟩, ⟨[0, 0], clientA, 2⟩].map some⟩ ∧
    ∀ n, (receiveCalls fileContentsProto n ⟨[], [⟨[0, 0], clientA, 2⟩,
      ⟨[0, 0, 0, 1, 9], clientB, 5⟩, ⟨[0, 0], clientA, 2⟩].map some⟩).2.StashSafe := by
  have hdelivers : DeliversAll fileContentsProto (sentByClients [[]] [[9]])
      ⟨[], [⟨[0, 0], clientA, 2⟩, ⟨[0, 0, 0, 1, 9], clientB, 5⟩,
        ⟨[0, 0], clientA, 2⟩].map some⟩ := by
    refine ⟨2, by decide, by decide, ?_⟩
    refine forall_clients (by decide) (by decide) ?_
    intro e ha hb
    have hcalls : (receiveCalls fileContentsProto 2 ⟨[], [⟨[0, 0], clientA, 2⟩,
        ⟨[0, 0, 0, 1, 9], clientB, 5⟩, ⟨[0, 0], clientA, 2⟩].map some⟩).1 =
        [.returned [] (some ⟨[], false⟩) clientA, .returned [9] none clientB] := by decide
    rw [hcalls]
    simp [sentByClients, received, ha, hb, Ne.symm ha, Ne.symm hb]
  refine ⟨hdelivers, (receive_delivers_iff_stash_safe fileContentsProto
    (sentByClients [[]] [[9]]) ?_ _ (by decide) ?_).mp hdelivers⟩
  · refine forall_clients (by unfold Framable; decide) (by unfold Framable; decide) ?_
    intro e ha hb
    simp [sentByClients, ha, hb, Framable]
  · refine forall_clients (by decide) (by decide) ?_
    intro e ha hb
    simp [sentByClients, bytesOf_cons, ha, hb, Ne.symm ha, Ne.symm hb]

/-- A frame of client A in two chunks, with two frames of client B in between: the second
frame of client B is lost. -/
theorem receive_loses_second_frame :
    (∀ m ∈ [⟨[0, 0], clientA, 2⟩, ⟨[0, 0, 0, 0], clientB, 4⟩, ⟨[0, 0, 0, 0], clientB, 4⟩,
      ⟨[0, 0], clientA, 2⟩], ReceiveQueueMessage.Good m) ∧
    (∀ e, bytesOf e [⟨[0, 0], clientA, 2⟩, ⟨[0, 0, 0, 0], clientB, 4⟩,
      ⟨[0, 0, 0, 0], clientB, 4⟩, ⟨[0, 0], clientA, 2⟩] =
        frames (sentByClients [[]] [[], []] e)) ∧
    ¬ DeliversAll fileContentsProto (sentByClients [[]] [[], []])
      ⟨[], [⟨[0, 0], clientA, 2⟩, ⟨[0, 0, 0, 0], clientB, 4⟩, ⟨[0, 0, 0, 0], clientB, 4⟩,
        ⟨[0, 0], clientA, 2⟩].map some⟩ := by
  have hgood : ∀ m ∈ [⟨[0, 0], clientA, 2⟩, ⟨[0, 0, 0, 0], clientB, 4⟩,
      ⟨[0, 0, 0, 0], clientB, 4⟩, ⟨[0, 0], clientA, 2⟩], ReceiveQueueMessage.Good m := by
    decide
  have hstream : ∀ e, bytesOf e [⟨[0, 0], clientA, 2⟩, ⟨[0, 0, 0, 0], clientB, 4⟩,
      ⟨[0, 0, 0, 0], clientB, 4⟩, ⟨[0, 0], clientA, 2⟩] =
        frames (sentByClients [[]] [[], []] e) := by
    refine forall_clients (by decide) (by decide) ?_
    intro e ha hb
    simp [sentByClients, bytesOf_cons, ha, hb, Ne.symm ha, Ne.symm hb]
  refine ⟨hgood, hstream, fun hall => ?_⟩
  refine absurd (stashSafe_of_deliversAll fileContentsProto ?_ ?_ hall 1) (by decide)
  · exact hgood
  · exact hstream

end Node

end Csci6780
