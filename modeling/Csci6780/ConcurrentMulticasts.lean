import Csci6780.Lib.Delivery
import Csci6780.Coordinator

/-!
# Multicasts at the Same Time

Every `SendMulticast` request has a handler of its own. It pushes its message on the queue, pops a
message, which may be that of another handler, and then walks through the messengers. Each of
these is a step of its own, and the handlers take their steps in any order; the messengers and the
connected participants stay as they are meanwhile.

The queue fixes an order, and nothing makes the handlers keep to it afterwards: of two handlers
that have popped their messages, the later one can be first at a participant.

A message goes by the handler that has pushed it. The participants are looked at through their
messengers, by their position in the iteration. The log is left out, since no handler of
`SendMulticast` reads it.

## Main results

* `Multicasts.Follows.step`: what the queue, the handlers and the participants have to do with each
  other, in every reachable state.
* `multicast_order_iff`: in a run, everybody receives the multicasts in the order of the queue
  exactly when every send meets `InTurn`.
-/

namespace Csci6780.PubSub

open scoped List

/-- Where a handler of `SendMulticast` stands: before `Push`, before `Pop`, in the loop of
`BroadcastMessage` before the `next`-th messenger, at its end. -/
inductive MulticastPc (ι : Type)
  | pushing
  | popping
  | broadcasting (msg : ι) (next : ℕ)
  | done
  deriving DecidableEq

/-- The queue that the handlers share, where they stand, and what has happened: the messages that
were pushed, who has popped which message, and what each messenger has sent. Nothing of the source
reads the last three. -/
structure Multicasts (ι : Type) where
  queue : List ι := []
  pc : ι → MulticastPc ι := fun _ => .pushing
  pushed : List ι := []
  pops : List (ι × ι) := []
  received : ℕ → List ι := fun _ => []

/-- The `k`-th messenger is that of a connected participant. -/
def writesTo (messengers : List Messenger) (pm : ParticipantManager) (k : ℕ) : Bool :=
  messengers[k]?.any fun m => pm.isConnected m.participant

namespace Multicasts

variable {ι : Type} [DecidableEq ι]

/-- Before any handler has taken a step. -/
def start : Multicasts ι := {}

/-- The handler goes on at `pc`. -/
def goTo (s : Multicasts ι) (i : ι) (pc : MulticastPc ι) : Multicasts ι :=
  { s with pc := Function.update s.pc i pc }

/-- One step of a handler of `HandleRequest(SendMulticast)`. `Pop` waits while the queue is
empty. -/
def step (messengers : List Messenger) (pm : ParticipantManager) (s : Multicasts ι) (i : ι) :
    Option (Multicasts ι) :=
  match s.pc i with
  | .pushing =>
      some ({ s with queue := s.queue ++ [i], pushed := s.pushed ++ [i] }.goTo i .popping)
  | .popping =>
      match s.queue with
      | [] => none
      | msg :: queue =>
          some ({ s with queue, pops := s.pops ++ [(i, msg)] }.goTo i (.broadcasting msg 0))
  | .broadcasting msg next =>
      match messengers[next]? with
      | none => some (s.goTo i .done)
      | some m =>
          let s := s.goTo i (.broadcasting msg (next + 1))
          if pm.isConnected m.participant then
            some { s with received := Function.update s.received next (s.received next ++ [msg]) }
          else some s
  | .done => none

/-- Every participant has received the first multicasts that were pushed, in that order. -/
def Ordered (s : Multicasts ι) : Prop := ∀ k, s.received k <+: s.pushed

/-- All requests have been handled. -/
def Complete (s : Multicasts ι) : Prop := ∀ i, s.pc i = .pushing ∨ s.pc i = .done

/-- Nobody who broadcasts the message still has the `k`-th messenger before it. -/
def Past (s : Multicasts ι) (msg : ι) (k : ℕ) : Prop :=
  ∀ i next, s.pc i = .broadcasting msg next → k < next

/-- What a send has to meet: no handler whose message was pushed earlier still has that messenger
before it. -/
def InTurn (messengers : List Messenger) (pm : ParticipantManager) (s : Multicasts ι) (i : ι) :
    Prop :=
  ∀ msg next, s.pc i = .broadcasting msg next → writesTo messengers pm next = true →
    ∀ earlier, Before s.pushed earlier msg → s.Past earlier next

/-- What holds in every reachable state. -/
structure Follows (messengers : List Messenger) (pm : ParticipantManager) (s : Multicasts ι) :
    Prop where
  split : s.pushed = s.pops.map Prod.snd ++ s.queue
  pushedNodup : s.pushed.Nodup
  popsNodup : (s.pops.map Prod.fst).Nodup
  started : ∀ i, i ∈ s.pushed ↔ s.pc i ≠ .pushing
  popped : ∀ i, i ∈ s.pops.map Prod.fst ↔ s.pc i ≠ .pushing ∧ s.pc i ≠ .popping
  held : ∀ i msg next, s.pc i = .broadcasting msg next → msg ∈ s.pops.map Prod.snd
  holder : ∀ i j msg k l, s.pc i = .broadcasting msg k → s.pc j = .broadcasting msg l → i = j
  received : ∀ k msg, msg ∈ s.received k ↔ writesTo messengers pm k = true ∧
    msg ∈ s.pops.map Prod.snd ∧ s.Past msg k
  receivedNodup : ∀ k, (s.received k).Nodup

variable {messengers : List Messenger} {pm : ParticipantManager} {s s' : Multicasts ι} {i : ι}

omit [DecidableEq ι] in
theorem follows_start : Follows messengers pm (start : Multicasts ι) where
  split := rfl
  pushedNodup := List.nodup_nil
  popsNodup := List.nodup_nil
  started _ := iff_of_false List.not_mem_nil fun h => h rfl
  popped _ := iff_of_false List.not_mem_nil fun h => h.1 rfl
  held _ _ _ h := nomatch h
  holder _ _ _ _ _ h := nomatch h
  received _ _ := iff_of_false List.not_mem_nil fun h => absurd h.2.1 List.not_mem_nil
  receivedNodup _ := List.nodup_nil

/-! ### One handler goes on -/

@[simp] theorem pc_goTo_self (s : Multicasts ι) (i : ι) (pc : MulticastPc ι) :
    (s.goTo i pc).pc i = pc := Function.update_self _ _ _

theorem pc_goTo_of_ne {j : ι} (h : j ≠ i) (s : Multicasts ι) (pc : MulticastPc ι) :
    (s.goTo i pc).pc j = s.pc j := Function.update_of_ne h _ _

/-- Who broadcasts after a handler has gone on: it itself, or another one as before. -/
theorem broadcasting_goTo {pc : MulticastPc ι} {j msg : ι} {next : ℕ}
    (h : (s.goTo i pc).pc j = .broadcasting msg next) :
    j = i ∧ pc = .broadcasting msg next ∨ j ≠ i ∧ s.pc j = .broadcasting msg next := by
  by_cases heq : j = i
  · subst heq
    rw [pc_goTo_self] at h
    exact .inl ⟨rfl, h⟩
  · rw [pc_goTo_of_ne heq] at h
    exact .inr ⟨heq, h⟩

/-- A handler that neither had the message nor gets it. -/
theorem past_goTo_of_ne {pc : MulticastPc ι} {msg : ι} {k : ℕ}
    (hold : ∀ next, s.pc i ≠ .broadcasting msg next)
    (hnew : ∀ next, pc ≠ .broadcasting msg next) :
    (s.goTo i pc).Past msg k ↔ s.Past msg k := by
  refine forall_congr' fun j => forall_congr' fun next => ?_
  by_cases heq : j = i
  · subst heq
    rw [pc_goTo_self]
    exact iff_of_true (fun h => absurd h (hnew next)) (fun h => absurd h (hold next))
  · rw [pc_goTo_of_ne heq]

/-- The only handler that has the message. -/
theorem past_goTo_self {pc : MulticastPc ι} {msg : ι} {k : ℕ}
    (hothers : ∀ j ≠ i, ∀ next, s.pc j ≠ .broadcasting msg next) :
    (s.goTo i pc).Past msg k ↔ ∀ next, pc = .broadcasting msg next → k < next := by
  constructor
  · intro h next hpc
    exact h i next (by rw [pc_goTo_self, hpc])
  · intro h j next hpc
    rcases broadcasting_goTo hpc with ⟨-, hpc⟩ | ⟨hne, hpc⟩
    · exact h next hpc
    · exact absurd hpc (hothers j hne next)

namespace Follows

variable {msg : ι} {next : ℕ}

omit [DecidableEq ι] in
theorem others (hf : Follows messengers pm s) (hpc : s.pc i = .broadcasting msg next) :
    ∀ j ≠ i, ∀ k, s.pc j ≠ .broadcasting msg k :=
  fun j hne k hj => hne (hf.holder j i msg k next hj hpc)

omit [DecidableEq ι] in
theorem past_iff (hf : Follows messengers pm s) (hpc : s.pc i = .broadcasting msg next) {k : ℕ} :
    s.Past msg k ↔ k < next := by
  constructor
  · exact fun h => h i next hpc
  · intro hk j next' hj
    obtain rfl : j = i := hf.holder j i msg next' next hj hpc
    rw [hpc] at hj
    obtain ⟨-, rfl⟩ := MulticastPc.broadcasting.inj hj
    exact hk

omit [DecidableEq ι] in
/-- A message in the queue has not been popped. -/
theorem not_popped (hf : Follows messengers pm s) (h : msg ∈ s.queue) :
    msg ∉ s.pops.map Prod.snd := by
  have hnodup := hf.pushedNodup
  rw [hf.split] at hnodup
  exact fun hpopped => (List.nodup_append.mp hnodup).2.2 msg hpopped msg h rfl

theorem push (hf : Follows messengers pm s) (hpc : s.pc i = .pushing) :
    Follows messengers pm
      ({ s with queue := s.queue ++ [i], pushed := s.pushed ++ [i] }.goTo i .popping) where
  split := by
    show s.pushed ++ [i] = s.pops.map Prod.snd ++ (s.queue ++ [i])
    rw [hf.split, List.append_assoc]
  pushedNodup := by
    have hnew : i ∉ s.pushed := fun h => (hf.started i).mp h hpc
    exact hf.pushedNodup.append (List.nodup_singleton i) (List.disjoint_singleton.mpr hnew)
  popsNodup := hf.popsNodup
  started j := by
    show j ∈ s.pushed ++ [i] ↔ _
    by_cases heq : j = i
    · subst heq
      simp
    · rw [pc_goTo_of_ne heq, List.mem_append, hf.started, List.mem_singleton, or_iff_left heq]
  popped j := by
    by_cases heq : j = i
    · subst heq
      rw [pc_goTo_self]
      exact iff_of_false (fun h => ((hf.popped j).mp h).1 hpc) fun h => h.2 rfl
    · rw [pc_goTo_of_ne heq]
      exact hf.popped j
  held j msg next h := by
    rcases broadcasting_goTo h with ⟨-, h⟩ | ⟨-, h⟩
    · cases h
    · exact hf.held j msg next h
  holder j j' msg k l h h' := by
    rcases broadcasting_goTo h with ⟨-, h⟩ | ⟨-, h⟩
    · cases h
    · rcases broadcasting_goTo h' with ⟨-, h'⟩ | ⟨-, h'⟩
      · cases h'
      · exact hf.holder j j' msg k l h h'
  received k msg := by
    rw [past_goTo_of_ne]
    · exact hf.received k msg
    · intro next h
      rw [show s.pc i = _ from h] at hpc
      cases hpc
    · exact fun next h => nomatch h
  receivedNodup := hf.receivedNodup

theorem pop (hf : Follows messengers pm s) (hpc : s.pc i = .popping) {queue : List ι}
    (hqueue : s.queue = msg :: queue) :
    Follows messengers pm
      ({ s with queue, pops := s.pops ++ [(i, msg)] }.goTo i (.broadcasting msg 0)) where
  split := by
    show s.pushed = (s.pops ++ [(i, msg)]).map Prod.snd ++ queue
    rw [hf.split, hqueue, List.map_append, List.append_assoc]
    rfl
  pushedNodup := hf.pushedNodup
  popsNodup := by
    show ((s.pops ++ [(i, msg)]).map Prod.fst).Nodup
    rw [List.map_append]
    have hnew : i ∉ s.pops.map Prod.fst := fun h => ((hf.popped i).mp h).2 hpc
    exact hf.popsNodup.append (List.nodup_singleton i) (List.disjoint_singleton.mpr hnew)
  started j := by
    by_cases heq : j = i
    · subst heq
      rw [pc_goTo_self]
      refine iff_of_true ((hf.started j).mpr ?_) fun h => nomatch h
      rw [hpc]
      exact fun h => nomatch h
    · rw [pc_goTo_of_ne heq]
      exact hf.started j
  popped j := by
    show j ∈ (s.pops ++ [(i, msg)]).map Prod.fst ↔ _
    rw [List.map_append, List.map_singleton, List.mem_append, List.mem_singleton]
    by_cases heq : j = i
    · subst heq
      rw [pc_goTo_self]
      simp
    · rw [pc_goTo_of_ne heq, or_iff_left heq]
      exact hf.popped j
  held j msg' next h := by
    show msg' ∈ (s.pops ++ [(i, msg)]).map Prod.snd
    rw [List.map_append, List.map_singleton, List.mem_append, List.mem_singleton]
    rcases broadcasting_goTo h with ⟨-, h⟩ | ⟨-, h⟩
    · exact .inr (MulticastPc.broadcasting.inj h).1.symm
    · exact .inl (hf.held j msg' next h)
  holder j j' msg' k l h h' := by
    -- nobody else has a message that was in the queue
    have hfree : ∀ j next, s.pc j ≠ .broadcasting msg next := by
      intro j next hj
      exact hf.not_popped (by rw [hqueue]; exact List.mem_cons_self) (hf.held j msg next hj)
    rcases broadcasting_goTo h with ⟨hj, hold⟩ | ⟨-, hold⟩ <;>
      rcases broadcasting_goTo h' with ⟨hj', hold'⟩ | ⟨-, hold'⟩
    · rw [hj, hj']
    · obtain ⟨rfl, -⟩ := MulticastPc.broadcasting.inj hold
      exact absurd hold' (hfree _ _)
    · obtain ⟨rfl, -⟩ := MulticastPc.broadcasting.inj hold'
      exact absurd hold (hfree _ _)
    · exact hf.holder j j' msg' k l hold hold'
  received k msg' := by
    have hnot := hf.not_popped (by rw [hqueue]; exact List.mem_cons_self : msg ∈ s.queue)
    show msg' ∈ s.received k ↔ _ ∧ msg' ∈ (s.pops ++ [(i, msg)]).map Prod.snd ∧ _
    rw [hf.received, List.map_append, List.map_singleton, List.mem_append, List.mem_singleton]
    by_cases heq : msg' = msg
    · subst heq
      refine iff_of_false (fun h => hnot h.2.1) fun h => ?_
      exact Nat.not_lt_zero k (h.2.2 i 0 (pc_goTo_self _ i _))
    · rw [or_iff_left heq, past_goTo_of_ne]
      · rfl
      · intro next h
        rw [show s.pc i = _ from h] at hpc
        cases hpc
      · intro next h
        exact heq (MulticastPc.broadcasting.inj h).1.symm
  receivedNodup := hf.receivedNodup

/-- A handler goes past a messenger, or ends. -/
theorem goOn (hf : Follows messengers pm s) (hpc : s.pc i = .broadcasting msg next)
    {pc : MulticastPc ι} (hnew : pc = .done ∨ pc = .broadcasting msg (next + 1))
    {received : ℕ → List ι}
    (hreceived : ∀ k m, m ∈ received k ↔ writesTo messengers pm k = true ∧
      m ∈ s.pops.map Prod.snd ∧ (s.goTo i pc).Past m k)
    (hnodup : ∀ k, (received k).Nodup) : Follows messengers pm { s.goTo i pc with received } where
  split := hf.split
  pushedNodup := hf.pushedNodup
  popsNodup := hf.popsNodup
  started j := by
    show j ∈ s.pushed ↔ (s.goTo i pc).pc j ≠ .pushing
    rw [hf.started]
    by_cases heq : j = i
    · subst heq
      rw [pc_goTo_self, hpc]
      rcases hnew with rfl | rfl <;> simp
    · rw [pc_goTo_of_ne heq]
  popped j := by
    show j ∈ s.pops.map Prod.fst ↔ (s.goTo i pc).pc j ≠ .pushing ∧ (s.goTo i pc).pc j ≠ .popping
    rw [hf.popped]
    by_cases heq : j = i
    · subst heq
      rw [pc_goTo_self, hpc]
      rcases hnew with rfl | rfl <;> simp
    · rw [pc_goTo_of_ne heq]
  held j m k h := by
    rcases broadcasting_goTo h with ⟨-, h⟩ | ⟨-, h⟩
    · rcases hnew with rfl | rfl
      · cases h
      · obtain ⟨rfl, -⟩ := MulticastPc.broadcasting.inj h
        exact hf.held i _ next hpc
    · exact hf.held j m k h
  holder j j' m k l h h' := by
    have hmine : ∀ {j m k}, (s.goTo i pc).pc j = .broadcasting m k →
        ∃ k, s.pc j = .broadcasting m k := by
      intro j m k h
      rcases broadcasting_goTo h with ⟨rfl, hmine⟩ | ⟨-, hother⟩
      · rcases hnew with rfl | rfl
        · cases hmine
        · obtain ⟨rfl, -⟩ := MulticastPc.broadcasting.inj hmine
          exact ⟨next, hpc⟩
      · exact ⟨k, hother⟩
    obtain ⟨k, h⟩ := hmine h
    obtain ⟨l, h'⟩ := hmine h'
    exact hf.holder j j' m k l h h'
  received := hreceived
  receivedNodup := hnodup

/-- For the other messages nothing changes when a handler goes on. -/
theorem past_goOn (hpc : s.pc i = .broadcasting msg next) {pc : MulticastPc ι}
    (hnew : pc = .done ∨ pc = .broadcasting msg (next + 1)) {m : ι} (hne : m ≠ msg) {k : ℕ} :
    (s.goTo i pc).Past m k ↔ s.Past m k := by
  refine past_goTo_of_ne (fun next' h => ?_) fun next' h => ?_
  · rw [hpc] at h
    exact hne (MulticastPc.broadcasting.inj h).1.symm
  · rcases hnew with rfl | rfl
    · cases h
    · exact hne (MulticastPc.broadcasting.inj h).1.symm

/-- Its own message a handler has taken past one messenger more. -/
theorem past_next (hf : Follows messengers pm s) (hpc : s.pc i = .broadcasting msg next) {k : ℕ} :
    (s.goTo i (.broadcasting msg (next + 1))).Past msg k ↔ k < next + 1 := by
  rw [past_goTo_self (hf.others hpc)]
  constructor
  · exact fun h => h (next + 1) rfl
  · intro hk next' heq
    obtain ⟨-, rfl⟩ := MulticastPc.broadcasting.inj heq
    exact hk

omit [DecidableEq ι] in
/-- The messenger that the broadcast has come to has not been sent its message. -/
theorem notMem_received (hf : Follows messengers pm s) (hpc : s.pc i = .broadcasting msg next) :
    msg ∉ s.received next := by
  intro hmem
  exact Nat.lt_irrefl next ((hf.past_iff hpc).mp ((hf.received _ _).mp hmem).2.2)

/-- **Every step keeps the invariant.** -/
theorem step (hf : Follows messengers pm s) (h : Multicasts.step messengers pm s i = some s') :
    Follows messengers pm s' := by
  rw [Multicasts.step] at h
  split at h
  · next hpc =>
      obtain rfl := Option.some.inj h
      exact hf.push hpc
  · next hpc =>
      split at h
      · cases h
      · next msg queue hqueue =>
          obtain rfl := Option.some.inj h
          exact hf.pop hpc hqueue
  · next msg next hpc =>
      have hpopped := hf.held i msg next hpc
      split at h
      · next hend =>
          obtain rfl := Option.some.inj h
          refine hf.goOn hpc (.inl rfl) (fun k m => ?_) hf.receivedNodup
          rw [hf.received]
          refine and_congr_right fun hwrites => and_congr_right fun _ => ?_
          by_cases heq : m = msg
          · subst heq
            rw [hf.past_iff hpc, past_goTo_self (hf.others hpc)]
            refine iff_of_true ?_ fun _ hdone => nomatch hdone
            -- there is no messenger after the last
            by_contra hk
            rw [writesTo, List.getElem?_eq_none (Nat.le_trans
              (List.getElem?_eq_none_iff.mp hend) (Nat.le_of_not_lt hk))] at hwrites
            cases hwrites
          · rw [past_goOn hpc (.inl rfl) heq]
      · next messenger hmessenger =>
          dsimp only at h
          split at h
          · next hconnected =>
              have hwrites : writesTo messengers pm next = true := by
                rw [writesTo, hmessenger]
                exact hconnected
              obtain rfl := Option.some.inj h
              have hnew : msg ∉ s.received next := hf.notMem_received hpc
              refine hf.goOn hpc (.inr rfl) (fun k m => ?_) fun k => ?_
              · show m ∈ Function.update s.received next (s.received next ++ [msg]) k ↔ _
                by_cases hk : k = next
                · subst hk
                  rw [Function.update_self, List.mem_append, List.mem_singleton, hf.received]
                  by_cases heq : m = msg
                  · subst heq
                    rw [hf.past_next hpc]
                    exact iff_of_true (.inr rfl) ⟨hwrites, hpopped, Nat.lt_succ_self k⟩
                  · rw [past_goOn hpc (.inr rfl) heq, or_iff_left heq]
                · rw [Function.update_of_ne hk, hf.received]
                  by_cases heq : m = msg
                  · subst heq
                    rw [hf.past_iff hpc, hf.past_next hpc, Nat.lt_succ_iff_lt_or_eq,
                      or_iff_left hk]
                  · rw [past_goOn hpc (.inr rfl) heq]
              · show (Function.update s.received next (s.received next ++ [msg]) k).Nodup
                by_cases hk : k = next
                · subst hk
                  rw [Function.update_self]
                  exact (hf.receivedNodup k).append (List.nodup_singleton msg)
                    (List.disjoint_singleton.mpr hnew)
                · rw [Function.update_of_ne hk]
                  exact hf.receivedNodup k
          · next hskip =>
              obtain rfl := Option.some.inj h
              refine hf.goOn hpc (.inr rfl) (fun k m => ?_) hf.receivedNodup
              rw [hf.received]
              refine and_congr_right fun hwrites => and_congr_right fun _ => ?_
              by_cases heq : m = msg
              · subst heq
                have hne : k ≠ next := by
                  rintro rfl
                  rw [writesTo, hmessenger] at hwrites
                  exact hskip hwrites
                rw [hf.past_iff hpc, hf.past_next hpc, Nat.lt_succ_iff_lt_or_eq, or_iff_left hne]
              · rw [past_goOn hpc (.inr rfl) heq]
  · cases h

/-! ### Who receives in order -/

/-- What was pushed before a message that was popped has been popped too. -/
theorem popped_of_before (hf : Follows messengers pm s) (hpopped : msg ∈ s.pops.map Prod.snd)
    {earlier : ι} (h : Before s.pushed earlier msg) : earlier ∈ s.pops.map Prod.snd := by
  rw [hf.split, before_append hpopped] at h
  exact h.mem

omit [DecidableEq ι] in
theorem mem_pushed (hf : Follows messengers pm s) (hpopped : msg ∈ s.pops.map Prod.snd) :
    msg ∈ s.pushed := by
  rw [hf.split]
  exact List.mem_append_left _ hpopped

/-- **Exactly the sends that are in turn keep everybody in order.** -/
theorem ordered_iff (hf : Follows messengers pm s) (hordered : s.Ordered)
    (h : Multicasts.step messengers pm s i = some s') :
    s'.Ordered ↔ s.InTurn messengers pm i := by
  rw [Multicasts.step] at h
  split at h
  · next hpc =>
      obtain rfl := Option.some.inj h
      refine iff_of_true (fun k => (hordered k).trans (List.prefix_append _ _)) ?_
      intro msg next hbroadcasting
      rw [hpc] at hbroadcasting
      cases hbroadcasting
  · next hpc =>
      split at h
      · cases h
      · obtain rfl := Option.some.inj h
        refine iff_of_true hordered ?_
        intro msg next hbroadcasting
        rw [hpc] at hbroadcasting
        cases hbroadcasting
  · next msg next hpc =>
      have hpopped := hf.held i msg next hpc
      have hturn : s.InTurn messengers pm i ↔ (writesTo messengers pm next = true →
          ∀ earlier, Before s.pushed earlier msg → s.Past earlier next) := by
        constructor
        · exact fun hall => hall msg next hpc
        · intro hone msg' next' hpc'
          obtain ⟨rfl, rfl⟩ := MulticastPc.broadcasting.inj (hpc.symm.trans hpc')
          exact hone
      rw [hturn]
      split at h
      · next hend =>
          obtain rfl := Option.some.inj h
          refine iff_of_true hordered fun hwrites => ?_
          rw [writesTo, hend] at hwrites
          cases hwrites
      · next messenger hmessenger =>
          dsimp only at h
          split at h
          · next hconnected =>
              have hwrites : writesTo messengers pm next = true := by
                rw [writesTo, hmessenger]
                exact hconnected
              have hnew : msg ∉ s.received next := hf.notMem_received hpc
              obtain rfl := Option.some.inj h
              have hone : (∀ k, Function.update s.received next (s.received next ++ [msg]) k <+:
                  s.pushed) ↔ s.received next ++ [msg] <+: s.pushed :=
                (Function.forall_update_iff s.received fun _ log => log <+: s.pushed).trans
                  (and_iff_left fun k _ => hordered k)
              refine hone.trans ?_
              rw [concat_prefix_iff hf.pushedNodup (hordered next) (hf.mem_pushed hpopped) hnew]
              constructor
              · exact fun hall _ earlier hbefore =>
                  ((hf.received _ _).mp (hall earlier hbefore)).2.2
              · intro hall earlier hbefore
                exact (hf.received _ _).mpr
                  ⟨hwrites, hf.popped_of_before hpopped hbefore, hall hwrites earlier hbefore⟩
          · next hskip =>
              obtain rfl := Option.some.inj h
              refine iff_of_true hordered fun hwrites => ?_
              rw [writesTo, hmessenger] at hwrites
              exact absurd hwrites hskip
  · cases h

/-! ### When all requests have been handled -/

omit [DecidableEq ι] in
theorem queue_of_complete (hf : Follows messengers pm s) (hcomplete : s.Complete) :
    s.queue = [] := by
  have hsub : s.pushed ⊆ s.pops.map Prod.fst := by
    intro i hi
    have hstarted := (hf.started i).mp hi
    rw [hf.popped]
    rcases hcomplete i with h | h
    · exact absurd h hstarted
    · rw [h]
      simp
  have hle := (hf.pushedNodup.subperm hsub).length_le
  rw [hf.split, List.length_append, List.length_map, List.length_map] at hle
  exact List.length_eq_zero_iff.mp (by omega)

omit [DecidableEq ι] in
/-- By then, everybody has received everything. -/
theorem received_of_complete (hf : Follows messengers pm s) (hcomplete : s.Complete) {k : ℕ}
    (hwrites : writesTo messengers pm k = true) : s.pushed ⊆ s.received k := by
  intro msg hmsg
  rw [hf.split, hf.queue_of_complete hcomplete, List.append_nil] at hmsg
  refine (hf.received k msg).mpr ⟨hwrites, hmsg, fun i next hpc => ?_⟩
  rcases hcomplete i with h | h <;>
    · rw [h] at hpc
      cases hpc

omit [DecidableEq ι] in
theorem received_nil (hf : Follows messengers pm s) {k : ℕ}
    (hnot : ¬writesTo messengers pm k = true) : s.received k = [] :=
  List.eq_nil_iff_forall_not_mem.mpr fun msg hmem => hnot ((hf.received k msg).mp hmem).1

omit [DecidableEq ι] in
theorem received_length_le (hf : Follows messengers pm s) (k : ℕ) :
    (s.received k).length ≤ s.pushed.length := by
  have hsub : s.received k ⊆ s.pushed :=
    fun msg hmsg => hf.mem_pushed ((hf.received k msg).mp hmsg).2.1
  exact ((hf.receivedNodup k).subperm hsub).length_le

end Follows

/-- What was pushed and what was received only grows. -/
theorem step_grows (h : step messengers pm s i = some s') :
    s.pushed <+: s'.pushed ∧ ∀ k, s.received k <+: s'.received k := by
  rw [step] at h
  split at h
  · obtain rfl := Option.some.inj h
    exact ⟨List.prefix_append _ _, fun k => List.prefix_refl _⟩
  · split at h
    · cases h
    · obtain rfl := Option.some.inj h
      exact ⟨List.prefix_refl _, fun k => List.prefix_refl _⟩
  · split at h
    · obtain rfl := Option.some.inj h
      exact ⟨List.prefix_refl _, fun k => List.prefix_refl _⟩
    · dsimp only at h
      split at h
      · obtain rfl := Option.some.inj h
        refine ⟨List.prefix_refl _, fun k => ?_⟩
        dsimp only
        rw [Function.update_apply]
        split
        · next heq =>
            rw [heq]
            exact List.prefix_append _ _
        · exact List.prefix_refl _
      · obtain rfl := Option.some.inj h
        exact ⟨List.prefix_refl _, fun k => List.prefix_refl _⟩
  · cases h

end Multicasts

/-- **Multicasts at the same time.** Whatever the messengers and the connected participants are,
in every run of any number of handlers all participants receive the multicasts in the order of
the queue, at any time the first ones of it, exactly when every send is in turn. When all requests
of the run have been handled, everybody has received all of them in that order exactly when every
send was in turn. -/
theorem multicast_order_iff {ι : Type} [DecidableEq ι] (messengers : List Messenger)
    (pm : ParticipantManager) (is : List ι) {s : Multicasts ι}
    (hrun : runFrom (Multicasts.step messengers pm) .start is = some s) :
    (EachState (Multicasts.step messengers pm) Multicasts.Ordered .start is ↔
      EachStep (Multicasts.step messengers pm) (Multicasts.InTurn messengers pm) .start is) ∧
    (s.Complete → ((∀ k, writesTo messengers pm k = true → s.received k = s.pushed) ↔
      EachStep (Multicasts.step messengers pm) (Multicasts.InTurn messengers pm) .start is)) := by
  have hfollows : EachState (Multicasts.step messengers pm) (Multicasts.Follows messengers pm)
      .start is :=
    EachState.of_inv_always _ (fun _ _ _ hf h => hf.step h) Multicasts.follows_start is
  have hiff : EachState (Multicasts.step messengers pm) Multicasts.Ordered .start is ↔
      EachStep (Multicasts.step messengers pm) (Multicasts.InTurn messengers pm) .start is := by
    refine eachState_iff_eachStep (Multicasts.Follows messengers pm)
      (fun _ _ _ hf _ h => hf.step h) (fun _ _ _ hf hordered _ h => hf.ordered_iff hordered h)
      Multicasts.follows_start (fun k => List.prefix_refl _)
      (fun _ _ _ _ _ => trivial : EachStep _ (fun _ _ => True) _ _) hrun
  refine ⟨hiff, fun hcomplete => ?_⟩
  rw [← hiff]
  have hf := hfollows.last hrun
  constructor
  · intro hall
    have hlast : (∀ k, s.received k <+: s.pushed) ∧ s.pushed <+: s.pushed := by
      refine ⟨fun k => ?_, List.prefix_refl _⟩
      by_cases hk : writesTo messengers pm k = true
      · rw [hall k hk]
      · rw [hf.received_nil hk]
        exact List.nil_prefix
    -- what everybody has received all along is the beginning of what was pushed in the end
    have hback : EachState (Multicasts.step messengers pm)
        (fun m => (∀ k, m.received k <+: s.pushed) ∧ m.pushed <+: s.pushed) .start is := by
      refine EachState.of_back hrun (fun m i m' hstep hm => ?_) hlast
      obtain ⟨hpushed, hreceived⟩ := Multicasts.step_grows hstep
      exact ⟨fun k => (hreceived k).trans (hm.1 k), hpushed.trans hm.2⟩
    refine (hback.and hfollows).mono ?_
    rintro m ⟨⟨hreceived, hpushed⟩, hm⟩ k
    exact List.prefix_of_prefix_length_le (hreceived k) hpushed (hm.received_length_le k)
  · intro hordered k hk
    exact eq_of_prefix_of_subset (hordered.last hrun k) hf.pushedNodup
      (hf.received_of_complete hcomplete hk)

/-- The messengers of two participants. -/
def pairMessengers : List Messenger :=
  [⟨{ Participant.zero with id := 1 }⟩, ⟨{ Participant.zero with id := 2 }⟩]

/-- The two participants, connected. -/
def pairManager : ParticipantManager :=
  (({} : ParticipantManager).registerParticipant
    { Participant.zero with id := 1 }).registerParticipant
    { Participant.zero with id := 2 }

/-- Two handlers that take turns, and two participants. -/
theorem multicast_order_iff_two :
    ∃ s, runFrom (Multicasts.step pairMessengers pairManager) .start
        [false, true, false, true, false, true, false, true, false, true] = some s ∧
      s.Complete ∧ s.received 0 = [false, true] ∧ s.received 1 = [false, true] ∧
      (EachState (Multicasts.step pairMessengers pairManager) Multicasts.Ordered .start
          [false, true, false, true, false, true, false, true, false, true] ↔
        EachStep (Multicasts.step pairMessengers pairManager)
          (Multicasts.InTurn pairMessengers pairManager) .start
          [false, true, false, true, false, true, false, true, false, true]) ∧
      (s.Complete → ((∀ k, writesTo pairMessengers pairManager k = true → s.received k = s.pushed) ↔
        EachStep (Multicasts.step pairMessengers pairManager)
          (Multicasts.InTurn pairMessengers pairManager) .start
          [false, true, false, true, false, true, false, true, false, true])) := by
  refine ⟨_, rfl, fun i => ?_, rfl, rfl, multicast_order_iff pairMessengers pairManager _ rfl⟩
  cases i <;> exact .inr rfl

/-- Two handlers push and pop in order, and then the second one is first at the first
participant. -/
theorem multicasts_received_in_different_orders :
    ∃ s, runFrom (Multicasts.step [⟨{ Participant.zero with id := 1 }⟩,
        ⟨{ Participant.zero with id := 2 }⟩]
          ((({} : ParticipantManager).registerParticipant
            { Participant.zero with id := 1 }).registerParticipant
              { Participant.zero with id := 2 }))
        .start [false, true, false, true, true, false, false, true, false, true] = some s ∧
      s.Complete ∧ s.pushed = [false, true] ∧ s.received 0 = [true, false] ∧
        s.received 1 = [false, true] := by
  refine ⟨_, rfl, ?_, rfl, rfl, rfl⟩
  intro i
  cases i <;> exact .inr rfl

end Csci6780.PubSub
