import Csci6780.TaskLife
import Csci6780.ThreadPoolWaiters

/-!
# The Tasks of the Thread Pool

The pool keeps a task in four maps and two queues, under critical sections of four threads. This
module reads off each step what happens to one task, and shows that it is a life in the sense of
`TaskLife`: `Living` says where the pool has the task in each phase, and every step of the pool
takes it from there to where the next phase has it. Other tasks may be added as often as one likes.

## Main definitions

* `ThreadPool.taskEvents`: what happens to a task in a step.
* `ThreadPool.Living`: where the pool has a task in a phase of its life.

## Main results

* `ThreadPool.living_step`: every step of the pool is a part of a life of the task.
* `WaitedPool.task_life_cycle`: what happens to a task that is added once.
-/

namespace Csci6780

/-- The phase of a task whose thread stands there. -/
def LifePhase.ofThread : RunTaskPc → LifePhase
  | .setUp | .runAtomic => .inCall
  | .update status => .returned status
  | .cleanUp => .cleaning
  | .complete | .pushJoinable | .notifyDone | .returning | .ended => .finished

/-- The call of the task that its thread is in there. -/
def RunTaskPc.call : RunTaskPc → Option TaskCall
  | .setUp => some .setUp
  | .runAtomic => some .runAtomic
  | .cleanUp => some .cleanUp
  | _ => none

/-- A task has no thread before it is dispatched, and may have none when its life is over. -/
def LifePhase.threadless : LifePhase → Bool
  | .new | .waiting | .finished => true
  | _ => false

namespace ThreadPool

/-- The call of a task that a step has brought its thread to. -/
def entered (s : ThreadPool) (a : Action) (h : Handle) : List TaskEvent :=
  (((s.step a).bind fun s' => s'.handleToThread.lookup h).bind RunTaskPc.call).toList.map .calls

/-- What happens to a task when its thread goes on. -/
def runTaskEvents (s : ThreadPool) (h : Handle) : List TaskEvent :=
  match s.handleToThread.lookup h with
  | some (.update status) => .recorded (s.updatedStatus h status) :: s.entered (.task h) h
  | some .cleanUp => [.cleanedUp]
  | _ => []

/-- What happens to a task in a step. -/
def taskEvents (h : Handle) (s : ThreadPool) : Action → List TaskEvent
  | .addTask k => if k = h then [.added] else []
  | .cancelTask k => if k = h then [.cancelled] else []
  | .dispatcher =>
      if s.dispatcher = .dispatch h ∧ s.shouldClose = false then s.entered .dispatcher h else []
  | .taskReturns k status => if k = h then [.returned status] else []
  | .task k => if k = h then s.runTaskEvents h else []
  | .destructor => if s.destructor = .uncalled ∧ h ∈ s.handleToTask then [.cancelled] else []
  | .pushTask _ | .getTaskStatus _ | .spuriousWakeup | .joiner | .destructorJoin _ => []

/-- Where the pool has a task in a phase of its life. -/
structure Living (h : Handle) (life : TaskLife) (s : ThreadPool) : Prop where
  queued : s.shouldClose = false → s.waiting.count h ≤ if life.phase = .waiting then 1 else 0
  thread : ∀ pc, s.handleToThread.lookup h = some pc → life.phase = .ofThread pc
  noThread : s.handleToThread.lookup h = none → life.phase.threadless = true
  cancelled : life.phase ≠ .finished → (life.cancelled = true ↔ h ∈ s.cancelledTasks)
  newStatus : life.phase = .new → ∀ status, s.handleToStatus.lookup h = some status →
    status = .running
  status : life.phase ≠ .new → s.handleToStatus.lookup h = some life.status

variable {s s' : ThreadPool} {a : Action} {h k : Handle} {life life' : TaskLife}

theorem living_start (h : Handle) (numThreads : UInt32) : Living h {} (constructed numThreads) where
  queued _ := Nat.zero_le _
  thread pc hpc := by
    rw [constructed, Finmap.lookup_empty] at hpc
    cases hpc
  noThread _ := rfl
  cancelled _ := iff_of_false Bool.false_ne_true (Finset.notMem_empty h)
  newStatus _ status hstatus := by
    rw [constructed, Finmap.lookup_empty] at hstatus
    cases hstatus
  status hne := absurd rfl hne

theorem entered_eq {pc : RunTaskPc} (hstep : s.step a = some s')
    (hpc : s'.handleToThread.lookup h = some pc) :
    s.entered a h = pc.call.toList.map .calls := by
  rw [entered, hstep, Option.bind_some, hpc, Option.bind_some]

namespace Living

/-- A step that has to do with other tasks only. -/
theorem frame (hl : Living h life s) (hopen : s'.shouldClose = false → s.shouldClose = false)
    (hcount : s'.shouldClose = false → s'.waiting.count h ≤ s.waiting.count h)
    (hthread : s'.handleToThread.lookup h = s.handleToThread.lookup h)
    (hstatus : s'.handleToStatus.lookup h = s.handleToStatus.lookup h)
    (hcancelled : h ∈ s'.cancelledTasks ↔ h ∈ s.cancelledTasks) : Living h life s' where
  queued ho := (hcount ho).trans (hl.queued (hopen ho))
  thread pc hpc := hl.thread pc (hthread ▸ hpc)
  noThread hnone := hl.noThread (hthread ▸ hnone)
  cancelled hne := (hl.cancelled hne).trans hcancelled.symm
  newStatus hnew status hs := hl.newStatus hnew status (hstatus ▸ hs)
  status hne := hstatus.trans (hl.status hne)

/-- A step in which nothing happens to the task. -/
theorem quiet (hl : Living h life s') (hevents : taskEvents h s a = []) :
    ∃ life', runFrom TaskLife.next life (taskEvents h s a) = some life' ∧ Living h life' s' :=
  ⟨life, by rw [hevents]; rfl, hl⟩

/-- The thread of another task goes on. -/
theorem goTo_of_ne (hl : Living h life s) (hne : k ≠ h) (pc : RunTaskPc) :
    Living h life (s.goTo k pc) :=
  hl.frame id (fun _ => Nat.le_refl _) (lookup_goTo_of_ne hne.symm s pc) rfl Iff.rfl

/-- The record of a task that has a thread. -/
theorem status_of_thread (hl : Living h life s) {pc : RunTaskPc}
    (hpc : s.handleToThread.lookup h = some pc) :
    s.handleToStatus.lookup h = some life.status := by
  refine hl.status ?_
  rw [hl.thread pc hpc]
  cases pc <;> simp [LifePhase.ofThread]

/-- A task whose record is not `RUNNING` is in `CleanUp` or after it: the pool has no task that is
between the status update and the call that follows. -/
theorem after (hl : Living h life s) (hrecords : TaskLife.Records life.phase life.status)
    (hne : life.status ≠ .running) : life.phase = .cleaning ∨ life.phase = .finished := by
  cases hphase : life.phase with
  | cleaning => exact .inl rfl
  | finished => exact .inr rfl
  | recorded status =>
      cases hpc : s.handleToThread.lookup h with
      | none =>
          have hnone := hl.noThread hpc
          rw [hphase] at hnone
          cases hnone
      | some pc =>
          have hthread := hl.thread pc hpc
          rw [hphase] at hthread
          cases pc <;> cases hthread
  | _ =>
      rw [hphase] at hrecords
      exact absurd hrecords hne

/-- The thread of the task goes on, and its life with it. -/
theorem goTo (hl : Living h life s) {pc : RunTaskPc} (hpc : s.handleToThread.lookup h = some pc)
    {pc' : RunTaskPc} (hphase : life'.phase = .ofThread pc')
    (hfinished : life.phase = .finished → life'.phase = .finished)
    (hcancelled : life'.cancelled = life.cancelled)
    (hthreads : s'.handleToThread = s.handleToThread.insert h pc')
    (hstatus : s'.handleToStatus.lookup h = some life'.status)
    (hopen : s'.shouldClose = s.shouldClose) (hwaiting : s'.waiting = s.waiting)
    (hset : s'.cancelledTasks = s.cancelledTasks) : Living h life' s' := by
  have hthread := hl.thread pc hpc
  refine ⟨fun ho => ?_, fun q hq => ?_, fun hnone => ?_, fun hne => ?_, fun hnew => ?_,
    fun _ => hstatus⟩
  · have hqueued := hl.queued (hopen ▸ ho)
    have hne : LifePhase.ofThread pc ≠ .waiting := by cases pc <;> simp [LifePhase.ofThread]
    rw [hthread, if_neg hne] at hqueued
    rw [hwaiting]
    exact hqueued.trans (Nat.zero_le _)
  · rw [hthreads, Finmap.lookup_insert] at hq
    exact Option.some.inj hq ▸ hphase
  · rw [hthreads, Finmap.lookup_insert] at hnone
    cases hnone
  · rw [hcancelled, hset]
    exact hl.cancelled fun h => hne (hfinished h)
  · rw [hphase] at hnew
    cases pc' <;> cases hnew

/-- One event. -/
theorem single {event : TaskEvent} (hnext : life.next event = some life') (hl : Living h life' s')
    (hevents : taskEvents h s a = [event]) :
    ∃ life', runFrom TaskLife.next life (taskEvents h s a) = some life' ∧ Living h life' s' :=
  ⟨life', by rw [hevents, runFrom_singleton, hnext], hl⟩

/-- The dispatcher goes on, and holds no handle afterwards. -/
theorem dispatcher (hl : Living h life s) (pc : DispatcherPc) (hheld : pc.held = []) :
    Living h life { s with dispatcher := pc } := by
  refine hl.frame id (fun _ => ?_) rfl rfl Iff.rfl
  rw [waiting, waiting, hheld, List.append_nil]
  exact (List.sublist_append_left _ _).count_le h

theorem notifyAvailable (hl : Living h life s) : Living h life s.notifyAvailable := by
  rw [ThreadPool.notifyAvailable]
  split
  · exact hl.dispatcher _ rfl
  · exact hl

/-- A task is added. -/
theorem addTask (hl : Living h life s) (hadd : k = h → life.phase = .new ∧ life.status = .running) :
    ∃ life', runFrom TaskLife.next life (taskEvents h s (.addTask k)) = some life' ∧
      Living h life'
        { s with
          handleToTask := insert k s.handleToTask
          handleToStatus := s.handleToStatus.insert k .running
          adding := s.adding ++ [k] } := by
  have hcount : ∀ j, (s.adding ++ [k] ++ s.dispatchQueue ++ s.dispatcher.held).count j =
      s.waiting.count j + [k].count j := by
    intro j
    simp only [waiting, List.count_append]
    omega
  by_cases hk : k = h
  · subst hk
    obtain ⟨hnew, hrunning⟩ := hadd rfl
    have hnext : life.next .added = some { life with phase := .waiting } := by
      rw [TaskLife.next, hnew]
    refine single hnext ⟨fun hopen => ?_, fun pc hpc => ?_, fun _ => rfl, fun _ => ?_,
      (fun h => by cases h), fun _ => ?_⟩ (if_pos rfl)
    · have hqueued := hl.queued hopen
      rw [hnew, if_neg (by simp)] at hqueued
      show (s.adding ++ [k] ++ s.dispatchQueue ++ s.dispatcher.held).count k ≤ 1
      rw [hcount, List.count_singleton_self]
      omega
    · have hthread := hl.thread pc hpc
      rw [hnew] at hthread
      cases pc <;> cases hthread
    · exact hl.cancelled (by simp [hnew])
    · exact (Finmap.lookup_insert _).trans (congrArg some hrunning.symm)
  · refine quiet (hl.frame id (fun _ => ?_) rfl (Finmap.lookup_insert_of_ne _ (Ne.symm hk)) Iff.rfl)
      (if_neg hk)
    show (s.adding ++ [k] ++ s.dispatchQueue ++ s.dispatcher.held).count h ≤ _
    rw [hcount, List.count_singleton, if_neg (by simpa using hk)]
    exact Nat.le_refl _

/-- A task is cancelled. -/
theorem cancelTask (hl : Living h life s) :
    ∃ life', runFrom TaskLife.next life (taskEvents h s (.cancelTask k)) = some life' ∧
      Living h life' (s.cancelTask k) := by
  by_cases hk : k = h
  · subst hk
    have hnext : life.next .cancelled = some { life with cancelled := true } := rfl
    exact single hnext
      { hl with cancelled := fun _ => iff_of_true rfl (Finset.mem_insert_self _ _) } (if_pos rfl)
  · refine quiet (hl.frame id (fun _ => Nat.le_refl _) rfl rfl ?_) (if_neg hk)
    exact Finset.mem_insert.trans (or_iff_right (Ne.symm hk))

/-- A task gets its thread. -/
theorem dispatches (hl : Living h life s) (hpc : s.dispatcher = .dispatch k)
    (hopen : s.shouldClose = false) (htask : k ∈ s.handleToTask) (hfree : k ∉ s.handleToThread) :
    ∃ life', runFrom TaskLife.next life (taskEvents h s .dispatcher) = some life' ∧
      Living h life'
        { s with
          handleToThread := s.handleToThread.insert k .setUp
          dispatcher := .reserve } := by
  have hcount : ∀ j, s.waiting.count j = (s.adding ++ s.dispatchQueue ++ []).count j +
      [k].count j := by
    intro j
    rw [waiting, hpc, List.append_nil, List.count_append]
    rfl
  by_cases hk : k = h
  · subst hk
    have hqueued := hl.queued hopen
    rw [hcount, List.count_singleton_self] at hqueued
    have hphase : life.phase = .waiting := by
      by_contra hne
      rw [if_neg hne] at hqueued
      omega
    rw [if_pos hphase] at hqueued
    have hnext : life.next (.calls .setUp) = some { life with phase := .inCall } := by
      rw [TaskLife.next, hphase]
    have hstep : s.step .dispatcher = some
        { s with
          handleToThread := s.handleToThread.insert k .setUp
          dispatcher := .reserve } := by
      simp [step, dispatcherThread, hpc, hopen, htask, hfree]
    have hevents : taskEvents k s .dispatcher = [.calls .setUp] :=
      (if_pos ⟨hpc, hopen⟩).trans (entered_eq hstep (Finmap.lookup_insert _))
    refine single hnext ⟨fun _ => ?_, fun pc hq => ?_, fun hnone => ?_, fun _ => ?_,
      (fun h => by cases h), fun _ => ?_⟩ hevents
    · show (s.adding ++ s.dispatchQueue ++ []).count k ≤ 0
      omega
    · rw [Finmap.lookup_insert] at hq
      exact Option.some.inj hq ▸ rfl
    · rw [Finmap.lookup_insert] at hnone
      cases hnone
    · exact hl.cancelled (by simp [hphase])
    · exact hl.status (by simp [hphase])
  · refine quiet (hl.frame id (fun _ => ?_) (Finmap.lookup_insert_of_ne _ (Ne.symm hk)) rfl Iff.rfl)
      (if_neg fun h => hk (DispatcherPc.dispatch.inj (hpc.symm.trans h.1)))
    rw [hcount]
    exact Nat.le_add_right _ _

/-- `SetUp` or `RunAtomic` returns. -/
theorem taskReturns (hl : Living h life s) {pc : RunTaskPc} (status : TaskStatus)
    (hpc : s.handleToThread.lookup k = some pc) (hcall : pc = .setUp ∨ pc = .runAtomic) :
    ∃ life', runFrom TaskLife.next life (taskEvents h s (.taskReturns k status)) = some life' ∧
      Living h life' (s.goTo k (.update status)) := by
  by_cases hk : k = h
  · subst hk
    have hphase : life.phase = .inCall := by
      rw [hl.thread pc hpc]
      rcases hcall with rfl | rfl <;> rfl
    have hnext : life.next (.returned status) = some { life with phase := .returned status } := by
      rw [TaskLife.next, hphase]
    have hfinished : life.phase ≠ .finished := by simp [hphase]
    exact single hnext (hl.goTo hpc rfl (fun h => absurd h hfinished) rfl rfl
      (hl.status_of_thread hpc) rfl rfl rfl) (if_pos rfl)
  · exact quiet (hl.goTo_of_ne hk _) (if_neg hk)

/-- A status update, and the call that follows it. -/
theorem updates (hl : Living h life s) (status : TaskStatus)
    (hpc : s.handleToThread.lookup k = some (.update status)) :
    ∃ life', runFrom TaskLife.next life (taskEvents h s (.task k)) = some life' ∧
      Living h life' ((s.updateTaskStatus k status).goTo k
        (if s.updatedStatus k status = .running then .runAtomic else .cleanUp)) := by
  by_cases hk : k = h
  · subst hk
    have hphase : life.phase = .returned status := hl.thread _ hpc
    have hrecord : s.updatedStatus k status = life.record status := by
      have hcancelled := hl.cancelled (by simp [hphase])
      rw [updatedStatus, TaskLife.record, if_congr hcancelled.symm rfl rfl]
    have hevents : taskEvents k s (.task k) = [.recorded (life.record status),
        .calls (if life.record status = .running then .runAtomic else .cleanUp)] := by
      have hstep : s.step (.task k) = some ((s.updateTaskStatus k status).goTo k
          (if s.updatedStatus k status = .running then .runAtomic else .cleanUp)) := by
        rw [step, runTask, hpc]
      rw [taskEvents, if_pos rfl, runTaskEvents, hpc, ← hrecord]
      refine congrArg _ ((entered_eq hstep (lookup_goTo_self ..)).trans ?_)
      split <;> rfl
    have hfirst : life.next (.recorded (life.record status)) =
        some { life with
          phase := .recorded (life.record status)
          status := life.record status } := by
      rw [TaskLife.next, hphase]
      exact if_pos rfl
    have hfinished : life.phase ≠ .finished := by simp [hphase]
    have hstatus : ∀ pc, ((s.updateTaskStatus k status).goTo k pc).handleToStatus.lookup k =
        some (life.record status) :=
      fun pc => (Finmap.lookup_insert _).trans (congrArg some hrecord)
    rw [hevents, runFrom_cons hfirst, runFrom_singleton, hrecord]
    by_cases hrunning : life.record status = .running
    · rw [if_pos hrunning, if_pos hrunning, TaskLife.next]
      exact ⟨_, if_pos hrunning, hl.goTo hpc rfl (fun h => absurd h hfinished) rfl rfl (hstatus _)
        rfl rfl rfl⟩
    · rw [if_neg hrunning, if_neg hrunning, TaskLife.next]
      exact ⟨_, if_neg hrunning, hl.goTo hpc rfl (fun h => absurd h hfinished) rfl rfl (hstatus _)
        rfl rfl rfl⟩
  · refine quiet (hl.frame id (fun _ => Nat.le_refl _) ?_ ?_ Iff.rfl) (if_neg hk)
    · exact Finmap.lookup_insert_of_ne _ (Ne.symm hk)
    · exact Finmap.lookup_insert_of_ne _ (Ne.symm hk)

/-- `CleanUp` returns. -/
theorem cleansUp (hl : Living h life s) (hpc : s.handleToThread.lookup k = some .cleanUp) :
    ∃ life', runFrom TaskLife.next life (taskEvents h s (.task k)) = some life' ∧
      Living h life' (s.goTo k .complete) := by
  by_cases hk : k = h
  · subst hk
    have hphase : life.phase = .cleaning := hl.thread _ hpc
    have hnext : life.next .cleanedUp = some { life with phase := .finished } := by
      rw [TaskLife.next, hphase]
    have hevents : taskEvents k s (.task k) = [.cleanedUp] := by
      rw [taskEvents, if_pos rfl, runTaskEvents, hpc]
    exact single hnext (hl.goTo hpc rfl (fun _ => rfl) rfl rfl (hl.status_of_thread hpc)
      rfl rfl rfl) hevents
  · exact quiet (hl.goTo_of_ne hk _) (if_neg hk)

/-- The thread of a task whose life is over goes on. -/
theorem afterwards (hl : Living h life s) {pc pc' : RunTaskPc}
    (hpc : s.handleToThread.lookup k = some pc) (hfinished : LifePhase.ofThread pc = .finished)
    (hfinished' : LifePhase.ofThread pc' = .finished) (hthreads : s'.handleToThread =
      s.handleToThread.insert k pc') (hstatus : s'.handleToStatus = s.handleToStatus)
    (hopen : s'.shouldClose = s.shouldClose) (hwaiting : s'.waiting = s.waiting)
    (hset : s'.cancelledTasks = s.cancelledTasks) :
    ∃ life', runFrom TaskLife.next life (taskEvents h s (.task k)) = some life' ∧
      Living h life' s' := by
  by_cases hk : k = h
  · subst hk
    have hphase := hl.thread pc hpc
    have hevents : taskEvents k s (.task k) = [] := by
      rw [taskEvents, if_pos rfl, runTaskEvents, hpc]
      cases pc <;> first | rfl | cases hfinished
    refine quiet (hl.goTo hpc ?_ (fun h => h) rfl hthreads ?_ hopen hwaiting hset) hevents
    · rw [hphase, hfinished, hfinished']
    · rw [hstatus]
      exact hl.status_of_thread hpc
  · refine quiet (hl.frame (fun h => hopen ▸ h) (fun _ => ?_) ?_ (hstatus ▸ rfl) ?_) (if_neg hk)
    · exact Nat.le_of_eq (congrArg _ hwaiting)
    · rw [hthreads]
      exact Finmap.lookup_insert_of_ne _ (Ne.symm hk)
    · rw [hset]

/-- The joiner takes a task out of the pool. -/
theorem finalizes (hl : Living h life s) (hended : s.handleToThread.lookup k = some .ended) :
    Living h life (s.finalize k) := by
  by_cases hk : k = h
  · subst hk
    have hphase : life.phase = .finished := hl.thread _ hended
    have hnone : (s.finalize k).handleToThread.lookup k = none := Finmap.lookup_erase _ _
    refine { hl with
      queued := fun hopen => ?_, thread := fun pc hpc => ?_, noThread := fun _ => ?_
      cancelled := fun hne => absurd hphase hne }
    · exact hl.queued hopen
    · rw [hnone] at hpc
      cases hpc
    · rw [hphase]
      rfl
  · refine hl.frame id (fun _ => Nat.le_refl _) (Finmap.lookup_erase_ne (Ne.symm hk)) rfl ?_
    exact Finset.mem_erase.trans (and_iff_right (Ne.symm hk))

/-- The destructor cancels all tasks. -/
theorem closes (hl : Living h life s) (hpc : s.destructor = .uncalled) :
    ∃ life', runFrom TaskLife.next life (taskEvents h s .destructor) = some life' ∧
      Living h life' s.close := by
  by_cases hmem : h ∈ s.handleToTask
  · have hnext : life.next .cancelled = some { life with cancelled := true } := rfl
    refine single hnext ?_ (if_pos ⟨hpc, hmem⟩)
    exact { hl with
      queued := fun hopen => by cases hopen
      cancelled := fun _ => iff_of_true rfl (Finset.mem_union_right _ hmem) }
  · refine quiet (hl.frame (fun h => by cases h) (fun h => by cases h) rfl rfl ?_)
      (if_neg fun h => hmem h.2)
    exact Finset.mem_union.trans (or_iff_left hmem)

/-- The destructor goes on. -/
theorem destructor (hl : Living h life s') (hcalled : s.destructor ≠ .uncalled) :
    ∃ life', runFrom TaskLife.next life (taskEvents h s .destructor) = some life' ∧
      Living h life' s' :=
  quiet hl (if_neg fun h => hcalled h.1)

end Living

/-- **Every step of the pool is a part of a life of the task.** -/
theorem living_step (hl : Living h life s) (hp : Phases s) (hst : Stepped s a s')
    (hadd : a = .addTask h → life.phase = .new ∧ life.status = .running) :
    ∃ life', runFrom TaskLife.next life (taskEvents h s a) = some life' ∧ Living h life' s' := by
  cases hst with
  | addTask k hopen => exact hl.addTask fun hk => hadd (hk ▸ rfl)
  | pushTask k hadding =>
      refine Living.quiet (hl.frame id (fun _ => Nat.le_of_eq ?_) rfl rfl Iff.rfl) rfl
      have hperm := (List.perm_cons_erase hadding).count_eq h
      simp only [waiting, List.count_append, List.count_cons, List.count_nil] at hperm ⊢
      omega
  | getTaskStatus k status hstatus => exact hl.quiet rfl
  | cancelTask k => exact hl.cancelTask
  | waits hpc hfull =>
      refine (hl.dispatcher _ rfl).quiet (if_neg ?_)
      rcases hpc with hpc | hpc <;> simp [hpc]
  | reserves hpc hfree =>
      refine Living.quiet { hl.dispatcher .pop rfl with } (if_neg ?_)
      rcases hpc with hpc | hpc <;> simp [hpc]
  | popsTask k rest hpc hqueue =>
      refine Living.quiet (hl.frame id (fun _ => Nat.le_of_eq ?_) rfl rfl Iff.rfl)
        (if_neg (by simp [hpc]))
      simp only [waiting, hqueue, hpc, DispatcherPc.held, List.count_append, List.count_cons,
        List.count_nil]
      omega
  | dispatches k hpc hopen htask hfree => exact hl.dispatches hpc hopen htask hfree
  | dispatcherBreaks k hpc hclose =>
      exact (hl.dispatcher _ rfl).quiet (if_neg (by simp [hclose]))
  | dispatcherEnds hpc => exact (hl.dispatcher _ rfl).quiet (if_neg (by simp [hpc]))
  | spuriousWakeup hpc => exact (hl.dispatcher _ rfl).quiet rfl
  | taskReturns k status pc hpc hcall => exact hl.taskReturns status hpc hcall
  | updates k status hpc => exact hl.updates status hpc
  | cleansUp k hpc => exact hl.cleansUp hpc
  | completes k hpc => exact hl.afterwards hpc rfl rfl rfl rfl rfl rfl rfl
  | pushes k hpc => exact hl.afterwards hpc rfl rfl rfl rfl rfl rfl rfl
  | notifies k hpc => exact hl.afterwards hpc rfl rfl rfl rfl rfl rfl rfl
  | taskEnds k hpc => exact hl.afterwards hpc rfl rfl rfl rfl rfl rfl rfl
  | popsJoinable k rest hpc hqueue => exact Living.quiet { hl with } rfl
  | finalizes k hpc hopen hended => exact (hl.finalizes hended).quiet rfl
  | joinerBreaks k hpc hclose => exact Living.quiet { hl with } rfl
  | joinerNotifies hpc => exact Living.quiet { hl.notifyAvailable with } rfl
  | joinerEnds hpc => exact Living.quiet { hl with } rfl
  | closes hpc hadding => exact hl.closes hpc
  | pushesDispatch hpc =>
      have hclose := hp.closed (by simp [hpc])
      refine Living.destructor { hl with queued := fun hopen => ?_ } (by simp [hpc])
      rw [hclose] at hopen
      cases hopen
  | pushesJoinable hpc => exact Living.destructor { hl with } (by simp [hpc])
  | notifiesDone hpc => exact Living.destructor { hl with } (by simp [hpc])
  | notifiesAvailable hpc =>
      exact Living.destructor { hl.notifyAvailable with } (by simp [hpc])
  | joinsDispatcher hpc hended => exact Living.destructor { hl with } (by simp [hpc])
  | joinsJoiner hpc hended => exact Living.destructor { hl with } (by simp [hpc])
  | joinsThread k left hpc hleft hended => exact Living.quiet { hl with } rfl
  | returns hpc => exact Living.destructor { hl with } (by simp [hpc])

/-- A task is added in the step that adds it. -/
theorem added_mem_taskEvents : .added ∈ taskEvents h s a ↔ h ∈ a.addedTask := by
  cases a with
  | addTask k => by_cases hk : k = h <;> simp [taskEvents, Action.addedTask, hk, Ne.symm]
  | task k =>
      simp only [taskEvents, runTaskEvents, Action.addedTask]
      split
      · split <;> simp [entered]
      · simp
  | cancelTask k => by_cases hk : k = h <;> simp [taskEvents, Action.addedTask, hk]
  | taskReturns k status => by_cases hk : k = h <;> simp [taskEvents, Action.addedTask, hk]
  | dispatcher =>
      simp only [taskEvents, Action.addedTask]
      split <;> simp [entered]
  | destructor =>
      simp only [taskEvents, Action.addedTask]
      split <;> simp
  | _ => exact iff_of_false List.not_mem_nil List.not_mem_nil

/-- An entry for a task that has none says nothing new. -/
theorem Living.touchStatus (hl : Living h life s) (k : Handle) :
    Living h life (s.touchStatus k) := by
  rw [ThreadPool.touchStatus]
  split
  · exact hl
  · next hmem =>
      by_cases hk : k = h
      · subst hk
        have hnone := Finmap.lookup_eq_none.mpr hmem
        refine { hl with newStatus := fun _ status hs => ?_, status := fun hne => ?_ }
        · rw [Finmap.lookup_insert] at hs
          exact (Option.some.inj hs).symm
        · rw [hl.status hne] at hnone
          cases hnone
      · exact hl.frame id (fun _ => Nat.le_refl _) rfl (Finmap.lookup_insert_of_ne _ (Ne.symm hk))
          Iff.rfl

end ThreadPool

/-! ### Every run -/

variable {Caller : Type}

namespace WaitedPool

variable {s s' : WaitedPool Caller} {a : Action Caller} {h : Handle} {life : TaskLife}

/-- The task that an action adds. -/
def Action.addedTask : Action Caller → List Handle
  | .pool action => action.addedTask
  | _ => []

/-- The tasks that are added in a run. -/
def added (acts : List (Action Caller)) : List Handle := acts.flatMap Action.addedTask

/-- What happens to a task in a step. -/
def taskEvents (h : Handle) (s : WaitedPool Caller) : Action Caller → List TaskEvent
  | .pool action => s.pool.taskEvents h action
  | _ => []

theorem added_append (as bs : List (Action Caller)) : added (as ++ bs) = added as ++ added bs :=
  List.flatMap_append

variable [DecidableEq Caller]

/-- What happens to a task in a run of a constructed pool. -/
def history (numThreads : UInt32) (h : Handle) (acts : List (Action Caller)) : List TaskEvent :=
  collect step (taskEvents h) (constructed Caller numThreads) acts

/-- Every step is a part of a life of the task, and keeps what the destructor has waited for. -/
theorem living_step (hl : ThreadPool.Living h life s.pool) (hp : s.pool.Phases)
    (hst : Stepped s a s')
    (hadd : h ∈ a.addedTask → life.phase = .new ∧ life.status = .running) :
    s'.pool.Phases ∧ ∃ life', runFrom TaskLife.next life (taskEvents h s a) = some life' ∧
      ThreadPool.Living h life' s'.pool := by
  cases hst with
  | pool action pool hstep hquiet =>
      have hst := ThreadPool.stepped_of_step hstep
      refine ⟨hp.step hst, ThreadPool.living_step hl hp hst fun ha => hadd ?_⟩
      rw [ha]
      exact List.mem_singleton_self h
  | notifies action pool hstep hnotify =>
      have hst := ThreadPool.stepped_of_step hstep
      refine ⟨hp.step hst, ThreadPool.living_step hl hp hst fun ha => hadd ?_⟩
      rw [ha]
      exact List.mem_singleton_self h
  | returnsAtOnce caller hpc hnone => exact ⟨hp, life, rfl, hl⟩
  | waitsForAny caller hpc hsome => exact ⟨hp, life, rfl, hl⟩
  | waitsForTask caller k hpc =>
      refine ⟨?_, life, rfl, hl.touchStatus k⟩
      show (s.pool.touchStatus k).Phases
      rw [ThreadPool.touchStatus_eq]
      exact { hp with }
  | resumes caller what hpc => exact ⟨hp, life, rfl, hl⟩
  | spuriousWakeup caller what hpc => exact ⟨hp, life, rfl, hl⟩

/-- What has happened is followed by what happens next. -/
theorem history_append {numThreads : UInt32} {acts : List (Action Caller)}
    (hrun : runFrom step (constructed Caller numThreads) acts = some s)
    (rest : List (Action Caller)) :
    history numThreads h (acts ++ rest) =
      history numThreads h acts ++ collect step (taskEvents h) s rest :=
  collect_append hrun rest

/-- **What happens to a task that is added once is a life.** -/
theorem life_of_run {numThreads : UInt32} {acts : List (Action Caller)}
    (hrun : runFrom step (constructed Caller numThreads) acts = some s)
    (honce : (added acts).count h ≤ 1) :
    ∃ life, runFrom TaskLife.next {} (history numThreads h acts) = some life ∧
      ThreadPool.Living h life s.pool ∧ (life.phase = .new ↔ h ∉ added acts) := by
  suffices hinv : (added acts).count h ≤ 1 → s.pool.Phases ∧
      (.added ∈ history numThreads h acts ↔ h ∈ added acts) ∧
      ∃ life, runFrom TaskLife.next {} (history numThreads h acts) = some life ∧
        ThreadPool.Living h life s.pool by
    obtain ⟨-, hadded, life, hlife, hl⟩ := hinv honce
    exact ⟨life, hlife, hl, (TaskLife.new_iff hlife).trans (not_congr hadded)⟩
  clear honce
  refine history_inv (fun acts s => (added acts).count h ≤ 1 → s.pool.Phases ∧
      (.added ∈ history numThreads h acts ↔ h ∈ added acts) ∧
      ∃ life, runFrom TaskLife.next {} (history numThreads h acts) = some life ∧
        ThreadPool.Living h life s.pool) ?_ ?_ hrun
  · exact fun _ => ⟨.start numThreads, iff_of_false List.not_mem_nil List.not_mem_nil, {}, rfl,
      ThreadPool.living_start h numThreads⟩
  · intro acts m a m' hm ih hstep honce
    have hevents : history numThreads h (acts ++ [a]) =
        history numThreads h acts ++ taskEvents h m a := collect_concat hm a
    have hone : added [a] = a.addedTask := List.append_nil _
    rw [added_append, List.count_append, hone] at honce
    obtain ⟨hp, hadded, life, hlife, hl⟩ := ih (by omega)
    have hadd : h ∈ a.addedTask → life.phase = .new ∧ life.status = .running := by
      intro hmem
      have hcount := List.count_pos_iff.mpr hmem
      have hnot : h ∉ added acts := List.count_eq_zero.mp (by omega)
      have hnew := (TaskLife.new_iff hlife).mpr (fun h' => hnot (hadded.mp h'))
      have hrecords := (TaskLife.told hlife).records
      rw [hnew] at hrecords
      exact ⟨hnew, hrecords⟩
    obtain ⟨hp', life', hlife', hl'⟩ := living_step hl hp (stepped_of_step hstep) hadd
    refine ⟨hp', ?_, life', ?_, hl'⟩
    · rw [hevents, added_append, hone, List.mem_append, List.mem_append, hadded]
      refine or_congr_right ?_
      cases a with
      | pool action => exact ThreadPool.added_mem_taskEvents
      | _ => exact iff_of_false List.not_mem_nil List.not_mem_nil
    · rw [hevents, runFrom_append, hlife]
      exact hlife'

/-- Two cuts of a run, and the task in between. -/
theorem life_between {numThreads : UInt32} {acts rest : List (Action Caller)}
    (hrun : runFrom step (constructed Caller numThreads) acts = some s)
    (hrest : runFrom step s rest = some s') (honce : (added (acts ++ rest)).count h ≤ 1) :
    ∃ life life', runFrom TaskLife.next {} (history numThreads h acts) = some life ∧
      runFrom TaskLife.next life (collect step (taskEvents h) s rest) = some life' ∧
      ThreadPool.Living h life s.pool ∧ ThreadPool.Living h life' s'.pool := by
  have hall : runFrom step (constructed Caller numThreads) (acts ++ rest) = some s' := by
    rw [runFrom_append, hrun]
    exact hrest
  obtain ⟨life', hlife', hl', -⟩ := life_of_run hall honce
  rw [added_append, List.count_append] at honce
  obtain ⟨life, hlife, hl, -⟩ := life_of_run hrun (h := h) (by omega)
  rw [history_append hrun, runFrom_append, hlife] at hlife'
  exact ⟨life, life', hlife, hlife', hl, hl'⟩

/-- **The life cycle of a task.** In every run of a constructed pool, with callers that wait,
cancellations, the destructor and other tasks in any order, whatever `SetUp` and `RunAtomic`
return: what happens to a task that is added exactly once is a life cycle; the record is `RUNNING`,
or what was recorded last; and once it is not `RUNNING` it does not change any more. -/
theorem task_life_cycle (numThreads : UInt32) (acts : List (Action Caller)) {s : WaitedPool Caller}
    (hrun : runFrom step (constructed Caller numThreads) acts = some s) (h : Handle)
    (honce : (added acts).count h = 1) :
    LifeCycle (history numThreads h acts) ∧
    (∃ status, s.pool.getTaskStatus h = some status ∧
      (status = .running → ∀ recorded, .recorded recorded ∈ history numThreads h acts →
        recorded = .running) ∧
      (status ≠ .running → LastRecorded (history numThreads h acts) status)) ∧
    ∀ pre m status, pre <+: acts → runFrom step (constructed Caller numThreads) pre = some m →
      m.pool.getTaskStatus h = some status → status ≠ .running →
        s.pool.getTaskStatus h = some status := by
  obtain ⟨life, hlife, hl, hnew⟩ := life_of_run hrun (Nat.le_of_eq honce)
  have hadded : life.phase ≠ .new := by
    rw [Ne, hnew, not_not]
    exact List.count_pos_iff.mp (by omega)
  refine ⟨lifeCycle_of_lived hlife, ⟨life.status, hl.status hadded, ?_, ?_⟩, ?_⟩
  · exact fun hrunning recorded hmem => TaskLife.recorded_running hlife hrunning hmem
  · exact fun hne => (TaskLife.told hlife).last hne
  · rintro pre m status ⟨rest, rfl⟩ hm hstatus hne
    obtain ⟨m', hm', hrest⟩ := runFrom_append_eq_some hrun
    obtain rfl : m = m' := Option.some.inj (hm.symm.trans hm')
    obtain ⟨early, late, hearly, hlate, hle, hll⟩ :=
      life_between hm hrest (Nat.le_of_eq honce)
    have hphase : early.phase ≠ .new := fun h => hne (hle.newStatus h status hstatus)
    obtain rfl : early.status = status := Option.some.inj ((hle.status hphase).symm.trans hstatus)
    rw [history_append hm, runFrom_append, hearly] at hlife
    obtain rfl : late = life := Option.some.inj (hlate.symm.trans hlife)
    exact (hl.status hadded).trans (congrArg some (TaskLife.status_stays hearly hlate hne))

/-- A task is cancelled while its `RunAtomic` is being called, and then once more. -/
def cancelOneTask : List (Action (Fin 1)) :=
  [.pool (.addTask 1), .pool (.pushTask 1), .pool .dispatcher, .pool .dispatcher,
    .pool .dispatcher, .pool (.taskReturns 1 .running), .pool (.task 1), .pool (.cancelTask 1),
    .pool (.taskReturns 1 .done), .pool (.task 1), .pool (.cancelTask 1), .pool (.task 1)]

theorem task_life_cycle_cancelled :
    ∃ s, runFrom step (constructed (Fin 1) 0) cancelOneTask = some s ∧
      LifeCycle (history 0 1 cancelOneTask) ∧
      LastRecorded (history 0 1 cancelOneTask) .cancelled := by
  refine ⟨_, rfl, ?_⟩
  obtain ⟨hcycle, ⟨status, hstatus, -, hlast⟩, -⟩ :=
    task_life_cycle 0 cancelOneTask rfl 1 (by decide)
  obtain rfl : TaskStatus.cancelled = status := Option.some.inj hstatus
  exact ⟨hcycle, hlast (by decide)⟩

end WaitedPool

end Csci6780
