import Csci6780.Lib.Census
import Csci6780.Queue

/-!
# The Queue Is a Bounded FIFO

Whatever the threads do, what has been pushed is what has been popped and then what is in the queue,
and the queue does not grow over its limit. That nobody sleeps for good is a matter of counting
(`Balanced`): while a consumer sleeps, there are as many notifications to come and woken consumers
as there are elements, and while a producer sleeps, as many woken producers as there are free
places.

A newcomer that takes an element makes room for the count, a timeout only takes a sleeper away, and
a woken consumer that finds nothing was not needed.

## Main results

* `QueueMonitor.Balanced.step`: every step keeps the counts.
* `QueueMonitor.bounded_fifo`: the queue is a bounded FIFO without lost wake-ups.
-/

namespace Csci6780

variable {α Thread : Type}

namespace QueueEvent

/-- The element that is pushed. -/
def pushedElement : QueueEvent α Thread → Option α
  | .pushed element => some element
  | _ => none

/-- The element that is popped. -/
def poppedElement : QueueEvent α Thread → Option α
  | .popped _ element => some element
  | _ => none

end QueueEvent

/-- The elements that were pushed. -/
def pushedOf (events : List (QueueEvent α Thread)) : List α :=
  events.filterMap QueueEvent.pushedElement

/-- The elements that were popped. -/
def poppedOf (events : List (QueueEvent α Thread)) : List α :=
  events.filterMap QueueEvent.poppedElement

@[simp] theorem pushedOf_append (as bs : List (QueueEvent α Thread)) :
    pushedOf (as ++ bs) = pushedOf as ++ pushedOf bs :=
  List.filterMap_append

@[simp] theorem poppedOf_append (as bs : List (QueueEvent α Thread)) :
    poppedOf (as ++ bs) = poppedOf as ++ poppedOf bs :=
  List.filterMap_append

/-- To call `PopTimed` is neither to push nor to pop. -/
theorem QueueMonitor.ofCall (s : QueueMonitor α Thread) (t : Thread) :
    pushedOf (s.callEvents t) = [] ∧ poppedOf (s.callEvents t) = [] := by
  rw [callEvents]
  split <;> exact ⟨rfl, rfl⟩

/-! ### The counts -/

section

variable [Fintype Thread] {q : Queue α} {pcs : Thread → QueuePc α} {t u : Thread} {pc : QueuePc α}

/-- The queue is not over its limit; a sleeping consumer has a notification or a woken consumer for
each element; producers sleep only at a limit, with a woken producer for each free place. -/
structure Balanced (q : Queue α) (pcs : Thread → QueuePc α) : Prop where
  bounded : q.maxLength ≠ 0 → q.queue.length ≤ q.maxLength.toNat
  consumers : 0 < census QueuePc.consumerSleeps pcs →
    q.queue.length ≤ census QueuePc.notifies pcs + census QueuePc.consumerWoken pcs
  limited : 0 < census QueuePc.producerSleeps pcs → q.maxLength ≠ 0
  producers : 0 < census QueuePc.producerSleeps pcs →
    q.maxLength.toNat ≤ q.queue.length + census QueuePc.producerWoken pcs

theorem isFull_iff : q.isFull = true ↔ q.maxLength ≠ 0 ∧ q.maxLength.toNat ≤ q.queue.length := by
  rw [Queue.isFull, Bool.and_eq_true, bne_iff_ne, decide_eq_true_iff]

/-- A consumer that sleeps while there is an element, or a producer that sleeps while there is room,
has a notification to come, or a thread of its kind that has been woken and has not run yet. -/
structure QueueMonitor.NoLostWakeups (s : QueueMonitor α Thread) : Prop where
  consumers : ∀ t inPop, s.pc t = .popAsleep inPop → s.queue.empty = false →
    (∃ u, s.pc u = .notifying) ∨ ∃ u inPop, s.pc u = .popWoken inPop
  producers : ∀ t element, s.pc t = .pushAsleep element → s.queue.isFull = false →
    ∃ u element, s.pc u = .pushWoken element

/-- The counts leave no sleeper without somebody to wake it. -/
theorem Balanced.noLostWakeups {s : QueueMonitor α Thread} (h : Balanced s.queue s.pc) :
    s.NoLostWakeups := by
  refine ⟨fun t inPop hpc hsome => ?_, fun t element hpc hroom => ?_⟩
  · have hsleeps : 0 < census QueuePc.consumerSleeps s.pc :=
      census_pos_iff.mpr ⟨t, by rw [hpc]; rfl⟩
    have hlength : 0 < s.queue.queue.length := by
      rw [Queue.empty, List.isEmpty_eq_false_iff] at hsome
      exact List.length_pos_iff.mpr hsome
    have hcount := h.consumers hsleeps
    rcases Nat.eq_zero_or_pos (census QueuePc.notifies s.pc) with hnone | hnotifies
    · obtain ⟨u, hu⟩ : ∃ u, (s.pc u).consumerWoken = true := census_pos_iff.mp (by omega)
      cases hpcu : s.pc u <;> rw [hpcu] at hu <;> first | exact .inr ⟨u, _, hpcu⟩ | cases hu
    · obtain ⟨u, hu⟩ := census_pos_iff.mp hnotifies
      cases hpcu : s.pc u <;> rw [hpcu] at hu <;> first | exact .inl ⟨u, hpcu⟩ | cases hu
  · have hsleeps : 0 < census QueuePc.producerSleeps s.pc :=
      census_pos_iff.mpr ⟨t, by rw [hpc]; rfl⟩
    have hcount := h.producers hsleeps
    have hlt : s.queue.queue.length < s.queue.maxLength.toNat := by
      by_contra hle
      rw [isFull_iff.mpr ⟨h.limited hsleeps, Nat.not_lt.mp hle⟩] at hroom
      cases hroom
    obtain ⟨u, hu⟩ : ∃ u, (s.pc u).producerWoken = true := census_pos_iff.mp (by omega)
    cases hpcu : s.pc u <;> rw [hpcu] at hu <;> first | exact ⟨u, _, hpcu⟩ | cases hu

/-- Who is woken by a notification counts as woken, unless nobody sleeps afterwards. -/
theorem census_woken [DecidableEq Thread] {sleeps : QueuePc α → Bool} (wakes : QueuePc α → Bool)
    {pcs pcs' : Thread → QueuePc α} (h : QueuePc.Woken sleeps pcs pcs')
    (hwakes : ∀ pc, sleeps pc = true →
      sleeps pc.wake = false ∧ wakes pc = false ∧ wakes pc.wake = true) :
    census sleeps pcs' ≤ census sleeps pcs ∧
      (census sleeps pcs' = 0 ∨ census wakes pcs' = census wakes pcs + 1) := by
  rcases h with ⟨rfl, hnobody⟩ | ⟨u, hu, rfl⟩
  · exact ⟨Nat.le_refl _, .inl (census_eq_zero_iff.mpr hnobody)⟩
  · obtain ⟨hsleeps, hnot, hwoken⟩ := hwakes (pcs u) hu
    have hleft : census sleeps (Function.update pcs u (pcs u).wake) + 1 = census sleeps pcs :=
      census_leave hu hsleeps
    exact ⟨by omega, .inr (census_enter hnot hwoken)⟩

/-- What a notification does not change. -/
theorem census_woken_other [DecidableEq Thread] {sleeps p : QueuePc α → Bool}
    {pcs pcs' : Thread → QueuePc α} (h : QueuePc.Woken sleeps pcs pcs')
    (hp : ∀ pc, sleeps pc = true → p pc.wake = p pc) : census p pcs' = census p pcs := by
  rcases h with ⟨rfl, -⟩ | ⟨u, hu, rfl⟩
  · rfl
  · exact census_stay (hp (pcs u) hu)

namespace Balanced

theorem start (maxLength : UInt32) :
    Balanced ({ maxLength := maxLength } : Queue α) fun _ : Thread => .idle := by
  have hnone : ∀ p : QueuePc α → Bool, p .idle = false →
      ¬0 < census p fun _ : Thread => QueuePc.idle :=
    fun p hp h => absurd (census_pos_iff.mp h) (by simp [hp])
  exact ⟨fun _ => Nat.zero_le _, fun _ => Nat.zero_le _,
    fun h => absurd h (hnone _ rfl), fun h => absurd h (hnone _ rfl)⟩

variable [DecidableEq Thread]

/-- A thread goes on: the counts change by what it leaves and where it comes. -/
theorem goTo (h : Balanced q pcs) (t : Thread) (pc : QueuePc α)
    (hconsumers : q.queue = [] ∨
      (pcs t).notifies.toNat + (pcs t).consumerWoken.toNat ≤
          pc.notifies.toNat + pc.consumerWoken.toNat ∧
        pc.consumerSleeps.toNat ≤ (pcs t).consumerSleeps.toNat)
    (hproducers : q.isFull = true ∨ (pcs t).producerWoken.toNat ≤ pc.producerWoken.toNat ∧
      pc.producerSleeps.toNat ≤ (pcs t).producerSleeps.toNat) :
    Balanced q (Function.update pcs t pc) := by
  have hcount := fun p => census_update p pcs t pc
  have h₁ := hcount QueuePc.consumerSleeps
  have h₂ := hcount QueuePc.notifies
  have h₃ := hcount QueuePc.consumerWoken
  have h₄ := hcount QueuePc.producerSleeps
  have h₅ := hcount QueuePc.producerWoken
  refine ⟨h.bounded, fun hsleeps => ?_, fun hsleeps => ?_, fun hsleeps => ?_⟩
  · rcases hconsumers with hempty | hmore
    · rw [hempty]
      exact Nat.zero_le _
    · have hlength := h.consumers (by omega)
      omega
  · rcases hproducers with hfull | hmore
    · exact (isFull_iff.mp hfull).1
    · exact h.limited (by omega)
  · rcases hproducers with hfull | hmore
    · exact (isFull_iff.mp hfull).2.trans (Nat.le_add_right _ _)
    · have hlength := h.producers (by omega)
      omega

/-- An element is pushed, and a notification is to come. -/
theorem push (h : Balanced q pcs) {element : α}
    (hpc : pcs t = .idle ∨ pcs t = .pushWoken element) (hfree : q.isFull = false) :
    Balanced (q.push element) (Function.update pcs t .notifying) := by
  have hlength : (q.push element).queue.length = q.queue.length + 1 := by
    rw [Queue.push, List.length_append, List.length_singleton]
  have hroom : q.maxLength ≠ 0 → q.queue.length < q.maxLength.toNat := by
    intro hne
    by_contra hle
    rw [isFull_iff.mpr ⟨hne, Nat.not_lt.mp hle⟩] at hfree
    cases hfree
  have hone := census_update QueuePc.producerWoken pcs t .notifying
  have hle := Bool.toNat_le (pcs t).producerWoken
  have hsame : census QueuePc.consumerSleeps (Function.update pcs t .notifying) =
      census QueuePc.consumerSleeps pcs := by
    refine census_stay ?_
    rcases hpc with hpc | hpc <;> rw [hpc] <;> rfl
  have hwoken : census QueuePc.consumerWoken (Function.update pcs t .notifying) =
      census QueuePc.consumerWoken pcs := by
    refine census_stay ?_
    rcases hpc with hpc | hpc <;> rw [hpc] <;> rfl
  have hnotifies : census QueuePc.notifies (Function.update pcs t .notifying) =
      census QueuePc.notifies pcs + 1 := by
    refine census_enter ?_ rfl
    rcases hpc with hpc | hpc <;> rw [hpc] <;> rfl
  have hproducers : census QueuePc.producerSleeps (Function.update pcs t .notifying) =
      census QueuePc.producerSleeps pcs := by
    refine census_stay ?_
    rcases hpc with hpc | hpc <;> rw [hpc] <;> rfl
  refine ⟨fun hne => ?_, fun hsleeps => ?_, fun hsleeps => ?_, fun hsleeps => ?_⟩
  · rw [hlength]
    exact hroom hne
  · rw [hsame] at hsleeps
    rw [hlength, hnotifies, hwoken]
    have hbefore := h.consumers hsleeps
    omega
  · rw [hproducers] at hsleeps
    exact h.limited hsleeps
  · rw [hproducers] at hsleeps
    have hbefore := h.producers hsleeps
    rw [hlength]
    show q.maxLength.toNat ≤ _
    omega

/-- A consumer is notified by the thread that has pushed. -/
theorem notify (h : Balanced q pcs) (ht : pcs t = .notifying) {pcs' : Thread → QueuePc α}
    (hwoken : QueuePc.Woken QueuePc.consumerSleeps (Function.update pcs t .idle) pcs') :
    Balanced q pcs' := by
  have hother : ∀ p : QueuePc α → Bool, p .notifying = p .idle →
      (∀ pc, pc.consumerSleeps = true → p pc.wake = p pc) → census p pcs' = census p pcs := by
    intro p hp hwake
    rw [census_woken_other hwoken hwake]
    exact census_stay (ht.symm ▸ hp.symm)
  have hproducers := hother QueuePc.producerSleeps rfl fun pc hpc => by
    cases pc <;> first | rfl | cases hpc
  have hwokenProducers := hother QueuePc.producerWoken rfl fun pc hpc => by
    cases pc <;> first | rfl | cases hpc
  refine ⟨h.bounded, fun hsleeps => ?_, ?_, ?_⟩
  · obtain ⟨hle, hone⟩ := census_woken QueuePc.consumerWoken hwoken fun pc hpc => by
      cases pc <;> first | exact ⟨rfl, rfl, rfl⟩ | cases hpc
    have hsame : census QueuePc.consumerSleeps (Function.update pcs t .idle) =
        census QueuePc.consumerSleeps pcs := census_stay (ht.symm ▸ rfl)
    have hwokenConsumers : census QueuePc.consumerWoken (Function.update pcs t .idle) =
        census QueuePc.consumerWoken pcs := census_stay (ht.symm ▸ rfl)
    have hleft : census QueuePc.notifies (Function.update pcs t .idle) + 1 =
        census QueuePc.notifies pcs := census_leave (ht.symm ▸ rfl) rfl
    have hnotifies := census_woken_other (p := QueuePc.notifies) hwoken fun pc _ => by
      cases pc <;> rfl
    have hbefore := h.consumers (by omega)
    have hmore := hone.resolve_left (by omega)
    omega
  · rw [hproducers]
    exact h.limited
  · rw [hproducers, hwokenProducers]
    exact h.producers

/-- An element is popped, and a producer is notified. -/
theorem pop (h : Balanced q pcs) (ht : (pcs t).mayPop = true) {element : α} {rest : List α}
    (hqueue : q.queue = element :: rest) {pcs' : Thread → QueuePc α}
    (hwoken : QueuePc.Woken QueuePc.producerSleeps (Function.update pcs t .idle) pcs') :
    Balanced { q with queue := rest } pcs' := by
  have hlength : q.queue.length = rest.length + 1 := by
    rw [hqueue, List.length_cons]
  have hother : ∀ p : QueuePc α → Bool, p (pcs t) = p .idle →
      (∀ pc, pc.producerSleeps = true → p pc.wake = p pc) → census p pcs' = census p pcs := by
    intro p hp hwake
    rw [census_woken_other hwoken hwake]
    exact census_stay hp.symm
  have hconsumers := hother QueuePc.consumerSleeps
    (by cases hpc : pcs t <;> first | rfl | simp [hpc, QueuePc.mayPop] at ht) fun pc hpc => by
      cases pc <;> first | rfl | cases hpc
  have hnotifies := hother QueuePc.notifies
    (by cases hpc : pcs t <;> first | rfl | simp [hpc, QueuePc.mayPop] at ht) fun pc _ => by
      cases pc <;> rfl
  have hsame : census QueuePc.producerSleeps (Function.update pcs t .idle) =
      census QueuePc.producerSleeps pcs :=
    census_stay (by cases hpc : pcs t <;> first | rfl | simp [hpc, QueuePc.mayPop] at ht)
  have hwokenProducers : census QueuePc.producerWoken (Function.update pcs t .idle) =
      census QueuePc.producerWoken pcs :=
    census_stay (by cases hpc : pcs t <;> first | rfl | simp [hpc, QueuePc.mayPop] at ht)
  obtain ⟨hle, hone⟩ := census_woken QueuePc.producerWoken hwoken fun pc hpc => by
    cases pc <;> first | exact ⟨rfl, rfl, rfl⟩ | cases hpc
  refine ⟨fun hne => ?_, fun hsleeps => ?_, fun hsleeps => ?_, fun hsleeps => ?_⟩
  · have hbefore := h.bounded hne
    show rest.length ≤ q.maxLength.toNat
    omega
  · have hbefore := h.consumers (hconsumers ▸ hsleeps)
    have hleaves := census_update QueuePc.consumerWoken pcs t .idle
    have hle := Bool.toNat_le (pcs t).consumerWoken
    have hstays := census_woken_other (p := QueuePc.consumerWoken) hwoken fun pc hpc => by
      cases pc <;> first | rfl | cases hpc
    show rest.length ≤ _
    omega
  · exact h.limited (by omega)
  · have hbefore := h.producers (by omega)
    have hmore := hone.resolve_left (by omega)
    show q.maxLength.toNat ≤ rest.length + _
    omega

end Balanced

end

/-! ### Every run -/

variable [DecidableEq Thread]

/-- What one more event adds to the elements that a thread has removed in its call. -/
def QueueEvent.removed (t : Thread) (before : List α) : QueueEvent α Thread → List α
  | .called u => if u = t then [] else before
  | .popped u element => if u = t then before ++ [element] else before
  | _ => before

/-- The elements that a thread has removed since it called `PopTimed` last. -/
def removedInCall (t : Thread) (events : List (QueueEvent α Thread)) : List α :=
  events.foldl (QueueEvent.removed t) []

@[simp] theorem removedInCall_append (t : Thread) (as bs : List (QueueEvent α Thread)) :
    removedInCall t (as ++ bs) = bs.foldl (QueueEvent.removed t) (removedInCall t as) :=
  List.foldl_append

namespace QueueMonitor

variable {s s' : QueueMonitor α Thread} {a : Action α Thread} {t u : Thread}
  {events bs : List (QueueEvent α Thread)} {maxLength : UInt32}

/-- What has happened and the queue after it: the elements come out in the order in which they went
in, and a thread in a call of `PopTimed` has not removed anything in it. -/
structure Fifo (maxLength : UInt32) (events : List (QueueEvent α Thread))
    (s : QueueMonitor α Thread) : Prop where
  maxLength : s.queue.maxLength = maxLength
  order : pushedOf events = poppedOf events ++ s.queue.queue
  removed : ∀ t, (s.pc t).inPopTimed = true → removedInCall t events = []

namespace Fifo

theorem start (maxLength : UInt32) : Fifo maxLength [] (constructed α Thread maxLength) where
  maxLength := rfl
  order := rfl
  removed _ h := nomatch h

/-- A step that puts what is pushed behind the queue and takes what is popped from its front. -/
theorem extend (h : Fifo maxLength events s) (hmax : s'.queue.maxLength = s.queue.maxLength)
    (horder : s.queue.queue ++ pushedOf bs = poppedOf bs ++ s'.queue.queue)
    (hremoved : ∀ u, (s'.pc u).inPopTimed = true → removedInCall u (events ++ bs) = []) :
    Fifo maxLength (events ++ bs) s' where
  maxLength := hmax.trans h.maxLength
  order := by
    rw [pushedOf_append, poppedOf_append, h.order, List.append_assoc, horder, List.append_assoc]
  removed := hremoved

/-- Another thread has removed nothing in its call, and neither has the one that goes on. -/
theorem removed_goTo (h : Fifo maxLength events s) {pc : QueuePc α}
    (hcall : pc.inPopTimed = true → (s.pc t).inPopTimed = true) (u : Thread)
    (hu : ((s.goTo t pc).pc u).inPopTimed = true) : removedInCall u events = [] := by
  by_cases hut : u = t
  · subst hut
    rw [pc_goTo_self] at hu
    exact h.removed u (hcall hu)
  · rw [pc_goTo_of_ne hut] at hu
    exact h.removed u hu

/-- A thread goes on, and nothing happens. -/
theorem goTo (h : Fifo maxLength events s) {pc : QueuePc α}
    (hcall : pc.inPopTimed = true → (s.pc t).inPopTimed = true) :
    Fifo maxLength (events ++ []) (s.goTo t pc) :=
  h.extend rfl (List.append_nil _) (by rw [List.append_nil]; exact h.removed_goTo hcall)

/-- After a notification, the same threads are in `PopTimed`. -/
theorem inPopTimed_of_woken {sleeps : QueuePc α → Bool} {pcs pcs' : Thread → QueuePc α}
    (h : QueuePc.Woken sleeps pcs pcs') (u : Thread) :
    (pcs' u).inPopTimed = (pcs u).inPopTimed := by
  rcases h with ⟨rfl, -⟩ | ⟨v, -, rfl⟩
  · rfl
  · by_cases huv : u = v
    · subst huv
      rw [Function.update_self]
      cases pcs u <;> rfl
    · rw [Function.update_of_ne huv]

/-- A thread that is in `PopTimed`, or calls it, has not removed anything in the call. -/
theorem removed_call (h : Fifo maxLength events s) (t : Thread) :
    removedInCall t (events ++ s.callEvents t) = [] := by
  rw [removedInCall_append, callEvents]
  split
  · next hcall => exact h.removed t hcall
  · exact if_pos rfl

/-- The call of a thread changes nothing for another one. -/
theorem removed_call_of_ne (hne : u ≠ t) :
    removedInCall u (events ++ s.callEvents t) = removedInCall u events := by
  rw [removedInCall_append, callEvents]
  split
  · rfl
  · exact if_neg (Ne.symm hne)

/-- **Every step keeps the order.** -/
theorem step (h : Fifo maxLength events s) (hst : Stepped s bs s') :
    Fifo maxLength (events ++ bs) s' := by
  cases hst with
  | pushes t element hpc hfree =>
      refine h.extend rfl rfl fun u hu => ?_
      rw [removedInCall_append]
      refine h.removed_goTo (fun hcall => ?_) u hu
      cases hcall
  | pushWaits t element hpc hfull => exact h.goTo fun hcall => nomatch hcall
  | notifies t pcs hpc hwoken =>
      refine h.extend rfl (List.append_nil _) fun u hu => ?_
      rw [List.append_nil]
      rw [inPopTimed_of_woken hwoken] at hu
      refine h.removed_goTo (fun hcall => ?_) u hu
      cases hcall
  | pops t element rest pcs hpc hqueue hwoken =>
      refine h.extend rfl ?_ fun u hu => ?_
      · rw [pushedOf_append, poppedOf_append, (ofCall s t).1, (ofCall s t).2, hqueue]
        exact List.append_nil _
      · rw [inPopTimed_of_woken hwoken] at hu
        have hut : u ≠ t := by
          rintro rfl
          rw [Function.update_self] at hu
          cases hu
        rw [Function.update_of_ne hut] at hu
        rw [← List.append_assoc, removedInCall_append, removed_call_of_ne hut]
        exact (if_neg (Ne.symm hut)).trans (h.removed u hu)
  | popWaits t inPop hpc hqueue =>
      refine h.extend rfl ?_ fun u hu => ?_
      · rw [(ofCall s t).1, (ofCall s t).2]
        exact List.append_nil _
      · by_cases hut : u = t
        · subst hut
          exact h.removed_call u
        · rw [pc_goTo_of_ne hut] at hu
          rw [removed_call_of_ne hut]
          exact h.removed u hu
  | fails t inPop hpc hqueue =>
      refine h.extend rfl (List.append_nil _) fun u hu => ?_
      rw [removedInCall_append]
      refine h.removed_goTo (fun hcall => ?_) u hu
      cases inPop <;> cases hcall
  | timesOut t inPop hpc => exact h.goTo fun _ => by rw [hpc]; rfl
  | producerWakes t element hpc => exact h.goTo fun hcall => nomatch hcall
  | consumerWakes t inPop hpc => exact h.goTo fun _ => by rw [hpc]; rfl

end Fifo

/-- A step in which `PopTimed` returns `false` is one that finds the queue empty and its time over,
and leaves the queue as it is. -/
theorem Stepped.failed (hst : Stepped s bs s') (hfailed : .failed t ∈ bs) :
    (s.pc t).inPopTimed = true ∧ bs = [.failed t] ∧ s'.queue = s.queue := by
  cases hst with
  | fails u inPop hpc hqueue =>
      obtain rfl := QueueEvent.failed.inj (List.mem_singleton.mp hfailed)
      refine ⟨?_, rfl, rfl⟩
      rw [hpc]
      rfl
  | pops u element rest pcs hpc hqueue hwoken =>
      rw [callEvents] at hfailed
      split at hfailed <;> simp at hfailed
  | popWaits u inPop hpc hqueue =>
      rw [callEvents] at hfailed
      split at hfailed <;> simp at hfailed
  | pushes u element hpc hfree => simp at hfailed
  | _ => cases hfailed

variable [Fintype Thread]

/-- **Every step keeps the counts.** -/
theorem balanced_step (h : Balanced s.queue s.pc) (hst : Stepped s bs s') :
    Balanced s'.queue s'.pc := by
  cases hst with
  | pushes t element hpc hfree => exact h.push hpc hfree
  | pushWaits t element hpc hfull =>
      refine h.goTo t _ (.inr ?_) (.inl hfull)
      rcases hpc with hpc | hpc <;> rw [hpc] <;> exact ⟨Nat.le_refl _, Nat.le_refl _⟩
  | notifies t pcs hpc hwoken => exact h.notify hpc hwoken
  | pops t element rest pcs hpc hqueue hwoken => exact h.pop hpc hqueue hwoken
  | popWaits t inPop hpc hqueue =>
      refine h.goTo t _ (.inl hqueue) (.inr ?_)
      cases hpc' : s.pc t <;>
        first | exact ⟨Nat.le_refl _, Nat.le_refl _⟩ | simp [hpc', QueuePc.mayPop] at hpc
  | fails t inPop hpc hqueue =>
      refine h.goTo t _ (.inl hqueue) (.inr ?_)
      rw [hpc]
      cases inPop <;> exact ⟨Nat.le_refl _, Nat.le_refl _⟩
  | timesOut t inPop hpc =>
      refine h.goTo t _ (.inr ?_) (.inr ?_) <;> rw [hpc] <;>
        exact ⟨Nat.zero_le _, Nat.zero_le _⟩
  | producerWakes t element hpc =>
      refine h.goTo t _ (.inr ?_) (.inr ?_) <;> rw [hpc] <;>
        exact ⟨Nat.zero_le _, Nat.zero_le _⟩
  | consumerWakes t inPop hpc =>
      refine h.goTo t _ (.inr ?_) (.inr ?_) <;> rw [hpc] <;>
        exact ⟨Nat.zero_le _, Nat.zero_le _⟩

/-- What happens in a run. -/
def history (maxLength : UInt32) (acts : List (Action α Thread)) : List (QueueEvent α Thread) :=
  collect step QueueMonitor.events (constructed α Thread maxLength) acts

/-- What holds after every run. -/
theorem fifo_of_run {acts : List (Action α Thread)}
    (hrun : runFrom step (constructed α Thread maxLength) acts = some s) :
    Fifo maxLength (history maxLength acts) s ∧ Balanced s.queue s.pc := by
  refine history_inv
    (fun acts s => Fifo maxLength (history maxLength acts) s ∧ Balanced s.queue s.pc)
    ⟨.start maxLength, .start maxLength⟩ (fun pre m a m' hm ih hstep => ?_) hrun
  have hst := stepped_of_step hstep
  refine ⟨?_, balanced_step ih.2 hst⟩
  rw [history, collect_concat hm]
  exact ih.1.step hst

/-- **The blocking queue is a bounded FIFO without lost wake-ups.** For any limit, any threads that
push and pop, any choice of whom a notification wakes, and timeouts and spurious wake-ups at any
time: what was pushed is what was popped and then what is in the queue; the queue is not longer than
its limit; no sleeper that could go on is left without somebody to wake it; and a `PopTimed` that
returns `false` has removed nothing, in its last section or before. -/
theorem bounded_fifo (maxLength : UInt32) (acts : List (Action α Thread))
    {s : QueueMonitor α Thread}
    (hrun : runFrom step (constructed α Thread maxLength) acts = some s) :
    pushedOf (history maxLength acts) = poppedOf (history maxLength acts) ++ s.queue.queue ∧
    (maxLength ≠ 0 → s.queue.queue.length ≤ maxLength.toNat) ∧
    NoLostWakeups s ∧
    ∀ pre a m m' t, pre ++ [a] <+: acts →
      runFrom step (constructed α Thread maxLength) pre = some m → m.step a = some m' →
      .failed t ∈ m.events a →
        m'.queue = m.queue ∧ removedInCall t (history maxLength (pre ++ [a])) = [] := by
  obtain ⟨hfifo, hbalanced⟩ := fifo_of_run hrun
  refine ⟨hfifo.order, fun hne => ?_, hbalanced.noLostWakeups, ?_⟩
  · rw [← hfifo.maxLength] at hne ⊢
    exact hbalanced.bounded hne
  · intro pre a m m' t _ hm hstep hfailed
    obtain ⟨hcall, hevents, hqueue⟩ := (stepped_of_step hstep).failed hfailed
    refine ⟨hqueue, ?_⟩
    rw [history, collect_concat hm, hevents, removedInCall_append]
    exact (fifo_of_run hm).1.removed t hcall

/-- A producer waits for room, a consumer that has slept until its time was over makes it, and
another `PopTimed` finds nothing. -/
def producerWaits : List (Action Nat (Fin 3)) :=
  [.pop 2 false none, .push 0 7, .timeout 2, .push 1 8, .notify 0 none, .resume 2 (some 1),
    .resume 1 none, .notify 1 none, .pop 2 false none, .pop 2 false none, .timeout 2,
    .resume 2 none]

theorem bounded_fifo_two : ∃ s, runFrom step (constructed Nat (Fin 3) 1) producerWaits = some s ∧
    pushedOf (history 1 producerWaits) = poppedOf (history 1 producerWaits) ++ s.queue.queue ∧
    s.queue.queue = [] := by
  refine ⟨_, rfl, ?_⟩
  obtain ⟨horder, -⟩ := bounded_fifo 1 producerWaits rfl
  exact ⟨horder, rfl⟩

end QueueMonitor

end Csci6780
