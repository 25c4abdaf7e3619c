import Csci6780.ThreadPool

/-!
# The Life of a Task

What a pool may do with one task that is added to it once, told without the pool: a task waits, its
`SetUp` and then its `RunAtomic` are called, what they return is recorded unless the task has been
cancelled, and when the record is not `RUNNING` any more, `CleanUp` is called. A cancellation comes
at any time.

`TaskLife.next` is this as a machine that reads what happens to the task. The theorems are about
every sequence of events that it accepts; that the pool produces such a sequence for each of its
tasks is another matter.

## Main definitions

* `TaskLife.next`: what may happen next.
* `LifeCycle`, `LastRecorded`: what is promised about the events and the record.

## Main results

* `lifeCycle_of_lived`: every sequence of events that is a life is a life cycle.
* `TaskLife.status_final`: the record does not change any more once it is not `RUNNING`.
-/

namespace Csci6780

/-- The functions of a task that the pool calls. -/
inductive TaskCall
  | setUp
  | runAtomic
  | cleanUp
  deriving DecidableEq, Repr

/-- What happens to a task. `recorded` is a status update with the status that was recorded. -/
inductive TaskEvent
  | added
  | cancelled
  | calls (call : TaskCall)
  | returned (status : TaskStatus)
  | recorded (status : TaskStatus)
  | cleanedUp
  deriving DecidableEq, Repr

/-- The call that an event is. -/
def TaskEvent.call : TaskEvent → Option TaskCall
  | .calls call => some call
  | _ => none

/-- The status that `SetUp` or `RunAtomic` returned in an event. -/
def TaskEvent.status : TaskEvent → Option TaskStatus
  | .returned status => some status
  | _ => none

/-- The calls among the events. -/
def callsOf (events : List TaskEvent) : List TaskCall := events.filterMap TaskEvent.call

/-- What `SetUp` and `RunAtomic` returned. -/
def returnsOf (events : List TaskEvent) : List TaskStatus := events.filterMap TaskEvent.status

@[simp] theorem callsOf_append (as bs : List TaskEvent) :
    callsOf (as ++ bs) = callsOf as ++ callsOf bs :=
  List.filterMap_append

@[simp] theorem returnsOf_append (as bs : List TaskEvent) :
    returnsOf (as ++ bs) = returnsOf as ++ returnsOf bs :=
  List.filterMap_append

/-! ### The machine -/

/-- Where a task is in its life: not added, waiting for a thread, in `SetUp` or `RunAtomic`, with
what was returned, with what was recorded, in `CleanUp`, and after it. -/
inductive LifePhase
  | new
  | waiting
  | inCall
  | returned (status : TaskStatus)
  | recorded (status : TaskStatus)
  | cleaning
  | finished
  deriving DecidableEq, Repr

/-- What is known of a task: where it is, whether it has been cancelled, and its record. -/
structure TaskLife where
  phase : LifePhase := .new
  cancelled : Bool := false
  status : TaskStatus := .running
  deriving DecidableEq, Repr

namespace TaskLife

/-- What is recorded when a status was returned. -/
def record (life : TaskLife) (returned : TaskStatus) : TaskStatus :=
  if life.cancelled then .cancelled else returned

/-- What may happen next. -/
def next (life : TaskLife) : TaskEvent → Option TaskLife
  | .added =>
      match life.phase with
      | .new => some { life with phase := .waiting }
      | _ => none
  | .cancelled => some { life with cancelled := true }
  | .calls .setUp =>
      match life.phase with
      | .waiting => some { life with phase := .inCall }
      | _ => none
  | .calls .runAtomic =>
      match life.phase with
      | .recorded status => if status = .running then some { life with phase := .inCall } else none
      | _ => none
  | .calls .cleanUp =>
      match life.phase with
      | .recorded status =>
          if status = .running then none else some { life with phase := .cleaning }
      | _ => none
  | .returned status =>
      match life.phase with
      | .inCall => some { life with phase := .returned status }
      | _ => none
  | .recorded status =>
      match life.phase with
      | .returned returned =>
          if status = life.record returned then
            some { life with phase := .recorded status, status := status }
          else none
      | _ => none
  | .cleanedUp =>
      match life.phase with
      | .cleaning => some { life with phase := .finished }
      | _ => none

variable {life life' : TaskLife} {event : TaskEvent} {events : List TaskEvent}

/-- The kinds of events. -/
inductive Lived (life : TaskLife) : TaskEvent → TaskLife → Prop
  | added (hphase : life.phase = .new) : Lived life .added { life with phase := .waiting }
  | cancelled : Lived life .cancelled { life with cancelled := true }
  | setUp (hphase : life.phase = .waiting) :
      Lived life (.calls .setUp) { life with phase := .inCall }
  | runAtomic (hphase : life.phase = .recorded .running) :
      Lived life (.calls .runAtomic) { life with phase := .inCall }
  | cleanUp (status : TaskStatus) (hphase : life.phase = .recorded status)
      (hstatus : status ≠ .running) : Lived life (.calls .cleanUp) { life with phase := .cleaning }
  | returned (status : TaskStatus) (hphase : life.phase = .inCall) :
      Lived life (.returned status) { life with phase := .returned status }
  | recorded (returned : TaskStatus) (hphase : life.phase = .returned returned) :
      Lived life (.recorded (life.record returned))
        { life with phase := .recorded (life.record returned), status := life.record returned }
  | cleanedUp (hphase : life.phase = .cleaning) :
      Lived life .cleanedUp { life with phase := .finished }

/-- **Every event is one of the kinds.** -/
theorem lived_of_next (hnext : life.next event = some life') : Lived life event life' := by
  cases event with
  | added =>
      rw [next] at hnext
      split at hnext
      · next hphase =>
          obtain rfl := Option.some.inj hnext
          exact .added hphase
      · cases hnext
  | cancelled =>
      obtain rfl := Option.some.inj hnext
      exact .cancelled
  | calls call =>
      cases call with
      | setUp =>
          rw [next] at hnext
          split at hnext
          · next hphase =>
              obtain rfl := Option.some.inj hnext
              exact .setUp hphase
          · cases hnext
      | runAtomic =>
          rw [next] at hnext
          split at hnext
          · next status hphase =>
              split at hnext
              · next hrunning =>
                  obtain rfl := Option.some.inj hnext
                  exact .runAtomic (hrunning ▸ hphase)
              · cases hnext
          · cases hnext
      | cleanUp =>
          rw [next] at hnext
          split at hnext
          · next status hphase =>
              split at hnext
              · cases hnext
              · next hstatus =>
                  obtain rfl := Option.some.inj hnext
                  exact .cleanUp status hphase hstatus
          · cases hnext
  | returned status =>
      rw [next] at hnext
      split at hnext
      · next hphase =>
          obtain rfl := Option.some.inj hnext
          exact .returned status hphase
      · cases hnext
  | recorded status =>
      rw [next] at hnext
      split at hnext
      · next returned hphase =>
          split at hnext
          · next hrecord =>
              subst hrecord
              obtain rfl := Option.some.inj hnext
              exact .recorded returned hphase
          · cases hnext
      · cases hnext
  | cleanedUp =>
      rw [next] at hnext
      split at hnext
      · next hphase =>
          obtain rfl := Option.some.inj hnext
          exact .cleanedUp hphase
      · cases hnext

end TaskLife

/-! ### What is promised -/

/-- The calls of a task come in their order, each `RunAtomic` after calls that all returned
`RUNNING`, and none after a status update that followed a cancellation. -/
structure LifeCycle (events : List TaskEvent) : Prop where
  calls : ∃ k, callsOf events <+: .setUp :: List.replicate k .runAtomic ++ [.cleanUp]
  runAtomic : ∀ pre, pre ++ [.calls .runAtomic] <+: events →
    callsOf pre ≠ [] ∧ returnsOf pre = List.replicate (callsOf pre).length .running
  cancelled : ∀ status,
    ¬[TaskEvent.cancelled, .recorded status, .calls .runAtomic].Sublist events

/-- The status was recorded last: `CANCELLED` if a cancellation came before, and otherwise what
`SetUp` or `RunAtomic` returned last. -/
def LastRecorded (events : List TaskEvent) (status : TaskStatus) : Prop :=
  ∃ pre post, events = pre ++ .recorded status :: post ∧ (∀ s, .recorded s ∉ post) ∧
    if .cancelled ∈ pre then status = .cancelled else (returnsOf pre).getLast? = some status

namespace TaskLife

variable {life life' : TaskLife} {event : TaskEvent} {events : List TaskEvent}

/-- The calls that have been made in a phase, and what they returned. -/
def Calls : LifePhase → List TaskCall → List TaskStatus → Prop
  | .new, calls, returns | .waiting, calls, returns => calls = [] ∧ returns = []
  | .inCall, calls, returns => ∃ k, calls = .setUp :: List.replicate k .runAtomic ∧
      returns = List.replicate k .running
  | .returned status, calls, returns => ∃ k, calls = .setUp :: List.replicate k .runAtomic ∧
      returns = List.replicate k .running ++ [status]
  | .recorded status, calls, returns => ∃ k returned,
      calls = .setUp :: List.replicate k .runAtomic ∧
      returns = List.replicate k .running ++ [returned] ∧
      (status = .running → returned = .running)
  | .cleaning, calls, _ | .finished, calls, _ =>
      ∃ k, calls = .setUp :: List.replicate k .runAtomic ++ [.cleanUp]

/-- What the record can be in a phase. -/
def Records : LifePhase → TaskStatus → Prop
  | .recorded recorded, status => status = recorded
  | .cleaning, status | .finished, status => status ≠ .running
  | _, status => status = .running

/-- What the events tell of a life. -/
structure Told (events : List TaskEvent) (life : TaskLife) : Prop where
  calls : Calls life.phase (callsOf events) (returnsOf events)
  records : Records life.phase life.status
  cancelled : life.cancelled = true ↔ .cancelled ∈ events
  stopped : ∀ status, [TaskEvent.cancelled, .recorded status].Sublist events →
    life.status ≠ .running
  last : life.status ≠ .running → LastRecorded events life.status

/-- What a list longer by one holds as a part, it held before, or its new end is the part's. -/
theorem sublist_concat {α : Type} {l as : List α} {x a : α}
    (h : (l ++ [x]).Sublist (as ++ [a])) : (l ++ [x]).Sublist as ∨ x = a ∧ l.Sublist as := by
  rw [← List.reverse_sublist, List.reverse_concat, List.reverse_concat,
    List.cons_sublist_cons'] at h
  rw [← List.reverse_sublist, List.reverse_concat, ← @List.reverse_sublist α l as]
  exact h

namespace Told

theorem start : Told [] {} where
  calls := ⟨rfl, rfl⟩
  records := rfl
  cancelled := iff_of_false (fun h => nomatch h) List.not_mem_nil
  stopped _ h := absurd (List.sublist_nil.mp h) (List.cons_ne_nil _ _)
  last h := absurd rfl h

/-- An event that is no status update, after which the record is what it was. -/
theorem quiet (ht : Told events life) (hstatus : life'.status = life.status)
    (hevent : ∀ status, event ≠ .recorded status)
    (hcalls : Calls life'.phase (callsOf events ++ event.call.toList)
      (returnsOf events ++ event.status.toList))
    (hrecords : Records life'.phase life.status)
    (hcancelled : life'.cancelled = true ↔ life.cancelled = true ∨ event = .cancelled) :
    Told (events ++ [event]) life' where
  calls := by
    rw [callsOf_append, returnsOf_append]
    cases event <;> exact hcalls
  records := hstatus ▸ hrecords
  cancelled := by
    rw [hcancelled, ht.cancelled, List.mem_append, List.mem_singleton, @eq_comm _ event]
  stopped status hsub := by
    rw [hstatus]
    rcases sublist_concat (l := [TaskEvent.cancelled]) hsub with hsub | ⟨heq, -⟩
    · exact ht.stopped status hsub
    · exact absurd heq.symm (hevent status)
  last hne := by
    rw [hstatus] at hne ⊢
    obtain ⟨pre, post, rfl, hpost, hlast⟩ := ht.last hne
    refine ⟨pre, post ++ [event], by simp, fun s hs => ?_, hlast⟩
    rcases List.mem_append.mp hs with hs | hs
    · exact hpost s hs
    · exact hevent s (List.mem_singleton.mp hs).symm

/-- A status update. -/
theorem recorded (ht : Told events life) {returned : TaskStatus}
    (hphase : life.phase = .returned returned) :
    Told (events ++ [.recorded (life.record returned)])
      { life with phase := .recorded (life.record returned), status := life.record returned } := by
  have hcalls := ht.calls
  rw [hphase] at hcalls
  obtain ⟨k, hcalls, hreturns⟩ := hcalls
  refine ⟨?_, rfl, ?_, fun status hsub => ?_, fun _ => ?_⟩
  · refine ⟨k, returned, ?_, ?_, fun hrunning => ?_⟩
    · rw [callsOf_append, hcalls]
      exact List.append_nil _
    · rw [returnsOf_append, hreturns]
      exact List.append_nil _
    · rw [record] at hrunning
      split at hrunning
      · cases hrunning
      · exact hrunning
  · rw [List.mem_append, List.mem_singleton, ← ht.cancelled]
    exact ⟨.inl, fun h => h.resolve_right (fun h => nomatch h)⟩
  · show life.record returned ≠ .running
    rcases sublist_concat (l := [TaskEvent.cancelled]) hsub with hsub | ⟨-, hsub⟩
    · -- nothing is returned any more once the record is not `RUNNING`
      have hrecords := ht.records
      rw [hphase] at hrecords
      exact absurd hrecords (ht.stopped status hsub)
    · rw [record, if_pos (ht.cancelled.mpr (List.singleton_sublist.mp hsub))]
      exact fun h => nomatch h
  · refine ⟨events, [], rfl, fun s hs => absurd hs List.not_mem_nil, ?_⟩
    show if .cancelled ∈ events then life.record returned = .cancelled
      else (returnsOf events).getLast? = some (life.record returned)
    by_cases hc : TaskEvent.cancelled ∈ events
    · rw [if_pos hc, record, if_pos (ht.cancelled.mpr hc)]
    · rw [if_neg hc, record, if_neg (fun h => hc (ht.cancelled.mp h)), hreturns,
        List.getLast?_concat]

/-- **What happens next is told as well.** -/
theorem step (ht : Told events life) (hl : Lived life event life') :
    Told (events ++ [event]) life' := by
  have hcalls := ht.calls
  have hrecords := ht.records
  have hsame : ∀ {e : TaskEvent}, e ≠ .cancelled →
      (life.cancelled = true ↔ life.cancelled = true ∨ e = .cancelled) :=
    fun hne => ⟨.inl, fun h => h.resolve_right hne⟩
  cases hl with
  | added hphase =>
      rw [hphase] at hcalls hrecords
      refine ht.quiet rfl (fun _ h => nomatch h) ?_ hrecords (hsame (fun h => nomatch h))
      rw [hcalls.1, hcalls.2]
      exact ⟨rfl, rfl⟩
  | cancelled =>
      refine ht.quiet rfl (fun _ h => nomatch h) ?_ hrecords (iff_of_true rfl (.inr rfl))
      simpa [TaskEvent.call, TaskEvent.status] using hcalls
  | setUp hphase =>
      rw [hphase] at hcalls hrecords
      refine ht.quiet rfl (fun _ h => nomatch h) ?_ hrecords (hsame (fun h => nomatch h))
      rw [hcalls.1, hcalls.2]
      exact ⟨0, rfl, rfl⟩
  | runAtomic hphase =>
      rw [hphase] at hcalls hrecords
      obtain ⟨k, returned, hcalls, hreturns, hrunning⟩ := hcalls
      refine ht.quiet rfl (fun _ h => nomatch h) ?_ hrecords (hsame (fun h => nomatch h))
      refine ⟨k + 1, ?_, ?_⟩
      · rw [hcalls, List.replicate_succ', List.cons_append]
        rfl
      · rw [hreturns, hrunning rfl, List.replicate_succ']
        exact List.append_nil _
  | cleanUp status hphase hstatus =>
      rw [hphase] at hcalls hrecords
      obtain ⟨k, returned, hcalls, hreturns, -⟩ := hcalls
      refine ht.quiet rfl (fun _ h => nomatch h) ⟨k, ?_⟩ ?_ (hsame (fun h => nomatch h))
      · rw [hcalls]
        rfl
      · show life.status ≠ .running
        exact hrecords ▸ hstatus
  | returned status hphase =>
      rw [hphase] at hcalls hrecords
      obtain ⟨k, hcalls, hreturns⟩ := hcalls
      refine ht.quiet rfl (fun _ h => nomatch h) ⟨k, ?_, ?_⟩ hrecords (hsame (fun h => nomatch h))
      · rw [hcalls]
        exact List.append_nil _
      · rw [hreturns]
        rfl
  | recorded returned hphase => exact ht.recorded hphase
  | cleanedUp hphase =>
      rw [hphase] at hcalls hrecords
      refine ht.quiet rfl (fun _ h => nomatch h) ?_ hrecords (hsame (fun h => nomatch h))
      obtain ⟨k, hcalls⟩ := hcalls
      refine ⟨k, ?_⟩
      rw [hcalls]
      exact List.append_nil _

end Told

/-- The events tell of the life that they are. -/
theorem told (hlife : runFrom next {} events = some life) : Told events life :=
  history_inv Told .start (fun _ _ _ _ _ ht hnext => ht.step (lived_of_next hnext)) hlife

/-- The calls made so far are the first of a life cycle. -/
theorem Calls.in_order {phase : LifePhase} {calls : List TaskCall} {returns : List TaskStatus}
    (h : Calls phase calls returns) :
    ∃ k, calls <+: .setUp :: List.replicate k .runAtomic ++ [.cleanUp] := by
  cases phase with
  | new => exact ⟨0, h.1 ▸ List.nil_prefix⟩
  | waiting => exact ⟨0, h.1 ▸ List.nil_prefix⟩
  | inCall =>
      obtain ⟨k, rfl, -⟩ := h
      exact ⟨k, List.prefix_append _ _⟩
  | returned status =>
      obtain ⟨k, rfl, -⟩ := h
      exact ⟨k, List.prefix_append _ _⟩
  | recorded status =>
      obtain ⟨k, -, rfl, -⟩ := h
      exact ⟨k, List.prefix_append _ _⟩
  | cleaning =>
      obtain ⟨k, rfl⟩ := h
      exact ⟨k, List.prefix_refl _⟩
  | finished =>
      obtain ⟨k, rfl⟩ := h
      exact ⟨k, List.prefix_refl _⟩

/-- No `RunAtomic` after a status update that followed a cancellation. -/
theorem stays_stopped (hlife : runFrom next {} events = some life) (status : TaskStatus) :
    ¬[TaskEvent.cancelled, .recorded status, .calls .runAtomic].Sublist events := by
  refine history_inv (fun events _ =>
    ¬[TaskEvent.cancelled, .recorded status, .calls .runAtomic].Sublist events) ?_ ?_ hlife
  · exact fun h => absurd (List.sublist_nil.mp h) (List.cons_ne_nil _ _)
  · intro pre m event m' hm ih hnext hsub
    rcases sublist_concat (l := [TaskEvent.cancelled, .recorded status]) hsub with
      hold | ⟨rfl, hold⟩
    · exact ih hold
    · have hrecords := (told hm).records
      cases lived_of_next hnext with
      | runAtomic hphase =>
          rw [hphase] at hrecords
          exact (told hm).stopped status hold hrecords

/-- **A record that is not `RUNNING` does not change any more.** -/
theorem status_final (ht : Told events life) (hl : Lived life event life')
    (hne : life.status ≠ .running) : life'.status = life.status := by
  have hrecords := ht.records
  cases hl with
  | recorded returned hphase =>
      rw [hphase] at hrecords
      exact absurd hrecords hne
  | _ => rfl

end TaskLife

namespace TaskLife

variable {life life' : TaskLife} {event : TaskEvent} {events : List TaskEvent}

/-- A task is new until it is added. -/
theorem new_iff (hlife : runFrom next {} events = some life) :
    life.phase = .new ↔ .added ∉ events := by
  refine history_inv (fun events life => life.phase = .new ↔ .added ∉ events) ?_ ?_ hlife
  · exact iff_of_true rfl List.not_mem_nil
  · intro pre m event m' hm ih hnext
    rw [List.mem_append, not_or, ← ih, List.mem_singleton]
    cases lived_of_next hnext with
    | added hphase => simp
    | cancelled => simp
    | setUp hphase => simp [hphase]
    | runAtomic hphase => simp [hphase]
    | cleanUp status hphase hstatus => simp [hphase]
    | returned status hphase => simp [hphase]
    | recorded returned hphase => simp [hphase]
    | cleanedUp hphase => simp [hphase]

/-- A record that is not `RUNNING` stays what it is however the life goes on. -/
theorem status_stays {rest : List TaskEvent} (hlife : runFrom next {} events = some life)
    (hrest : runFrom next life rest = some life') (hne : life.status ≠ .running) :
    life'.status = life.status := by
  refine history_inv (fun _ m => m.status = life.status) rfl ?_ hrest
  intro pre m event m' hm ih hnext
  have hall : runFrom next {} (events ++ pre) = some m := by
    rw [runFrom_append, hlife]
    exact hm
  exact (status_final (told hall) (lived_of_next hnext) (ih ▸ hne)).trans ih

/-- As long as the record is `RUNNING`, nothing else has been recorded. -/
theorem recorded_running (hlife : runFrom next {} events = some life)
    (hrunning : life.status = .running) {status : TaskStatus} (hmem : .recorded status ∈ events) :
    status = .running := by
  obtain ⟨pre, post, rfl⟩ := List.mem_iff_append.mp hmem
  rw [List.append_cons] at hlife
  obtain ⟨m', hpre, hpost⟩ := runFrom_append_eq_some hlife
  obtain ⟨m, hm, hnext⟩ := runFrom_append_eq_some hpre
  rw [runFrom_singleton] at hnext
  have hstatus : m'.status = status := by
    cases lived_of_next hnext with
    | recorded returned hphase => rfl
  by_contra hne
  have hstays := status_stays hpre hpost (hstatus ▸ hne)
  rw [hrunning, hstatus] at hstays
  exact hne hstays.symm

/-- A task in `CleanUp`, or after it, is not called any more. -/
theorem no_calls_after (hlife : runFrom next life events = some life')
    (hphase : life.phase = .cleaning ∨ life.phase = .finished) : callsOf events = [] := by
  refine (history_inv
    (fun events m => callsOf events = [] ∧ (m.phase = .cleaning ∨ m.phase = .finished))
    ⟨rfl, hphase⟩ ?_ hlife).1
  rintro pre m event m' - ⟨hcalls, hphase⟩ hnext
  rw [callsOf_append, hcalls]
  cases lived_of_next hnext with
  | cancelled => exact ⟨rfl, hphase⟩
  | cleanedUp hcleaning => exact ⟨rfl, .inr rfl⟩
  | added h => simp [h] at hphase
  | setUp h => simp [h] at hphase
  | runAtomic h => simp [h] at hphase
  | cleanUp status h hstatus => simp [h] at hphase
  | returned status h => simp [h] at hphase
  | recorded returned h => simp [h] at hphase

end TaskLife

/-- **Every life is a life cycle.** -/
theorem lifeCycle_of_lived {events : List TaskEvent} {life : TaskLife}
    (hlife : runFrom TaskLife.next {} events = some life) : LifeCycle events := by
  refine ⟨(TaskLife.told hlife).calls.in_order, fun pre hpre => ?_, TaskLife.stays_stopped hlife⟩
  obtain ⟨post, rfl⟩ := hpre
  obtain ⟨m', hm', -⟩ := runFrom_append_eq_some hlife
  obtain ⟨m, hm, hnext⟩ := runFrom_append_eq_some hm'
  rw [runFrom_singleton] at hnext
  have hcalls := (TaskLife.told hm).calls
  cases TaskLife.lived_of_next hnext with
  | runAtomic hphase =>
      rw [hphase] at hcalls
      obtain ⟨k, returned, hcalls, hreturns, hrunning⟩ := hcalls
      rw [hcalls, hreturns, hrunning rfl, List.length_cons, List.length_replicate,
        List.replicate_succ']
      exact ⟨List.cons_ne_nil _ _, rfl⟩

end Csci6780
