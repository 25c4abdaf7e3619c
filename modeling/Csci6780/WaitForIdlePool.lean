import Csci6780.ThreadPoolWaiters

/-!
# Waiting for an Idle Pool

`WaitForCompletion()` returns at once when no tasks are running, and its test for that is that the
dispatch queue is empty and `pool_size_` is 0. But an idle pool has a `pool_size_` of 1 as soon as
the dispatcher has reserved the slot for the next task: the caller then sleeps until another task
has been added and is complete.

A caller that falls asleep while a task is unfinished does not hang. The task is counted under the
mutex, and whoever counts it notifies afterwards; `Awaited` says so of every caller.

## Main results

* `WaitedPool.Awaited.step`: a step after which no caller is lost.
* `WaitedPool.waiters_do_not_hang`: nobody hangs in a run in which `WaitForCompletion()` is called
  only when it can return at once or a task is unfinished.
* `WaitedPool.waiter_hangs`: a caller that hangs on a pool that never had a task.
-/

namespace Csci6780

/-- The completion of the thread's task has been counted. -/
def RunTaskPc.counted : RunTaskPc → Bool
  | .pushJoinable | .notifyDone | .returning | .ended => true
  | _ => false

/-- The thread has counted the completion of its task, and is going to notify. -/
def RunTaskPc.notifying : RunTaskPc → Bool
  | .pushJoinable | .notifyDone => true
  | _ => false

/-- The number of completed tasks at the start of the wait for any task. -/
def WaiterPc.initialCompletedTasks : WaiterPc → Option UInt32
  | .asleep (.anyTask initial) | .woken (.anyTask initial) => some initial
  | _ => none

namespace ThreadPool

variable {s s' : ThreadPool} {a : Action} {h k : Handle} {p : RunTaskPc → Bool}

/-- Some thread stands at such a place. -/
def HasThread (s : ThreadPool) (p : RunTaskPc → Bool) : Prop :=
  ∃ h ∈ s.handleToThread.keys, (s.handleToThread.lookup h).any p = true

instance (s : ThreadPool) (p : RunTaskPc → Bool) : Decidable (s.HasThread p) :=
  inferInstanceAs (Decidable (∃ h ∈ s.handleToThread.keys, _))

theorem hasThread_iff :
    s.HasThread p ↔ ∃ h pc, s.handleToThread.lookup h = some pc ∧ p pc = true := by
  constructor
  · rintro ⟨h, -, hp⟩
    obtain ⟨pc, hpc, hp⟩ := (Option.any_eq_true _ _).mp hp
    exact ⟨h, pc, hpc, hp⟩
  · rintro ⟨h, pc, hpc, hp⟩
    refine ⟨h, Finmap.mem_keys.mpr (mem_handleToThread hpc), ?_⟩
    rw [hpc]
    exact hp

/-- A thread goes on to a place that is as good. -/
theorem HasThread.goTo (hs : s.HasThread p) {pc : RunTaskPc}
    (hpc : s.handleToThread.lookup h = some pc) {pc' : RunTaskPc}
    (hp : p pc = true → p pc' = true) :
    (s.goTo h pc').HasThread p := by
  obtain ⟨k, q, hk, hq⟩ := hasThread_iff.mp hs
  by_cases hkh : k = h
  · subst hkh
    obtain rfl := Option.some.inj (hk.symm.trans hpc)
    exact hasThread_iff.mpr ⟨k, pc', lookup_goTo_self s k pc', hp hq⟩
  · exact hasThread_iff.mpr ⟨k, q, (lookup_goTo_of_ne hkh s pc').trans hk, hq⟩

/-- Where a thread goes, there is one. -/
theorem hasThread_goTo {pc : RunTaskPc} (hp : p pc = true) : (s.goTo h pc).HasThread p :=
  hasThread_iff.mpr ⟨h, pc, lookup_goTo_self s h pc, hp⟩

/-- A thread that does not count is joined. -/
theorem HasThread.finalize (hs : s.HasThread p) {pc : RunTaskPc}
    (hpc : s.handleToThread.lookup h = some pc) (hp : p pc = false) :
    (s.finalize h).HasThread p := by
  obtain ⟨k, q, hk, hq⟩ := hasThread_iff.mp hs
  have hkh : k ≠ h := by
    rintro rfl
    obtain rfl := Option.some.inj (hk.symm.trans hpc)
    rw [hp] at hq
    cases hq
  exact hasThread_iff.mpr ⟨k, q, (Finmap.lookup_erase_ne hkh).trans hk, hq⟩

/-- A notification wakes the dispatcher, which holds no handle. -/
theorem waiting_notifyAvailable (s : ThreadPool) :
    s.adding ++ s.dispatchQueue ++ s.notifyAvailable.dispatcher.held = s.waiting := by
  rw [waiting, notifyAvailable]
  split
  · next hpc =>
      rw [hpc]
      rfl
  · rfl

/-- A task has been added whose completion has not been counted. -/
def Unfinished (s : ThreadPool) : Prop := s.waiting ≠ [] ∨ s.HasThread fun pc => !pc.counted

instance (s : ThreadPool) : Decidable s.Unfinished :=
  inferInstanceAs (Decidable (_ ∨ _))

/-- A thread is going to notify `task_done_`. -/
def Notifying (s : ThreadPool) : Prop := s.HasThread RunTaskPc.notifying

/-- What a step does to the completions: it counts one, or it leaves the count as it is and loses
nothing that the waiters wait for. -/
inductive Progress (s : ThreadPool) (a : Action) (s' : ThreadPool) : Prop
  | completes (h : Handle) (ha : a = .task h) (hpc : s.handleToThread.lookup h = some .complete)
      (hcount : s'.numCompletedTasks = s.numCompletedTasks + 1) (hnotifying : s'.Notifying)
  | keeps (hcount : s'.numCompletedTasks = s.numCompletedTasks)
      (hunfinished : s.Unfinished → s'.Unfinished)
      (hnotifying : s.Notifying → s.notifiesDone a = false → s'.Notifying)

namespace Progress

/-- A step that leaves the threads and the tasks before them alone. -/
theorem same (hcount : s'.numCompletedTasks = s.numCompletedTasks)
    (hthreads : s'.handleToThread = s.handleToThread)
    (hwaiting : s.waiting ≠ [] → s'.waiting ≠ []) : Progress s a s' := by
  have hthread : ∀ {p}, s.HasThread p → s'.HasThread p := by
    intro p hs
    rw [HasThread, hthreads]
    exact hs
  exact .keeps hcount (fun hs => hs.imp hwaiting hthread) fun hs _ => hthread hs

/-- A thread goes on. -/
theorem goTo {pc : RunTaskPc} (hpc : s.handleToThread.lookup h = some pc) (pc' : RunTaskPc)
    (hcounted : pc'.counted = true → pc.counted = true)
    (hnotifying : pc.notifying = true → s.notifiesDone a = false → pc'.notifying = true) :
    Progress s a (s.goTo h pc') := by
  have huncounted : (!pc.counted) = true → (!pc'.counted) = true := by
    cases hc : pc'.counted with
    | true => simp [hcounted hc]
    | false => exact fun _ => rfl
  exact .keeps rfl (fun hs => hs.imp_right fun ht => ht.goTo hpc huncounted)
    fun hs hquiet => HasThread.goTo hs hpc fun hp => hnotifying hp hquiet

/-- What neither the count nor the threads show does not matter. -/
theorem congr {m : ThreadPool} (hp : Progress s a m)
    (hcount : s'.numCompletedTasks = m.numCompletedTasks)
    (hthreads : s'.handleToThread = m.handleToThread) (hwaiting : s'.waiting = m.waiting) :
    Progress s a s' := by
  have hthread : ∀ {p}, m.HasThread p → s'.HasThread p := by
    intro p hs
    rw [HasThread, hthreads]
    exact hs
  cases hp with
  | completes h ha hpc hc hn => exact .completes h ha hpc (hcount.trans hc) (hthread hn)
  | keeps hc hu hn =>
      exact .keeps (hcount.trans hc) (fun hs => (hu hs).imp (fun h => hwaiting ▸ h) hthread)
        fun hs hq => hthread (hn hs hq)

end Progress

/-- **What a step of an open pool does to the completions.** -/
theorem progress_of_stepped (hst : Stepped s a s') (hopen : s'.shouldClose = false) :
    Progress s a s' := by
  cases hst with
  | addTask h hopen => exact .same rfl rfl fun _ => by simp [waiting]
  | pushTask h hadding => exact .same rfl rfl fun _ => by simp [waiting]
  | getTaskStatus h status hstatus => exact .same rfl rfl id
  | cancelTask h => exact .same rfl rfl id
  | waits hpc hfull =>
      refine .same rfl rfl fun hw => ?_
      rcases hpc with hpc | hpc <;> simpa [waiting, hpc, DispatcherPc.held] using hw
  | reserves hpc hfree =>
      refine .same rfl rfl fun hw => ?_
      rcases hpc with hpc | hpc <;>
        simpa [waiting, hpc, DispatcherPc.held, reserveSlot] using hw
  | popsTask h rest hpc hqueue => exact .same rfl rfl fun _ => by simp [waiting, DispatcherPc.held]
  | dispatches h hpc hopen htask hfree =>
      -- the new thread is the unfinished task
      have hkeep : ∀ {p}, s.HasThread p → (s.goTo h .setUp).HasThread p := by
        intro p hs
        obtain ⟨k, q, hk, hq⟩ := hasThread_iff.mp hs
        have hkh : k ≠ h := by
          rintro rfl
          exact hfree (mem_handleToThread hk)
        exact hasThread_iff.mpr ⟨k, q, (lookup_goTo_of_ne hkh s .setUp).trans hk, hq⟩
      exact .keeps rfl (fun _ => .inr (hasThread_goTo (s := s) rfl)) fun hs _ => hkeep hs
  | dispatcherBreaks h hpc hclose => simp [hclose] at hopen
  | dispatcherEnds hpc =>
      refine .same rfl rfl fun hw => ?_
      simpa [waiting, hpc, DispatcherPc.held] using hw
  | spuriousWakeup hpc =>
      refine .same rfl rfl fun hw => ?_
      simpa [waiting, hpc, DispatcherPc.held] using hw
  | taskReturns h status pc hpc hcall =>
      refine .goTo hpc _ (fun hc => by cases hc) fun hn => ?_
      rcases hcall with rfl | rfl <;> cases hn
  | updates h status hpc =>
      refine Progress.congr (.goTo hpc _ (fun hc => ?_) (fun hn => by cases hn)) rfl rfl rfl
      split at hc <;> cases hc
  | cleansUp h hpc => exact .goTo hpc _ (fun hc => by cases hc) (fun hn => by cases hn)
  | completes h hpc => exact .completes h rfl hpc rfl (hasThread_goTo rfl)
  | pushes h hpc =>
      exact Progress.congr (.goTo hpc .notifyDone (fun _ => rfl) fun _ _ => rfl) rfl rfl rfl
  | notifies h hpc =>
      refine .goTo hpc _ (fun _ => rfl) fun _ hq => ?_
      have hnotifies : (s.handleToThread.lookup h == some .notifyDone) = false := hq
      rw [hpc] at hnotifies
      cases hnotifies
  | taskEnds h hpc => exact .goTo hpc _ (fun _ => rfl) (fun hn => by cases hn)
  | popsJoinable h rest hpc hqueue => exact .same rfl rfl id
  | finalizes h hpc hopen hended =>
      exact .keeps rfl (fun hs => hs.imp_right fun ht => ht.finalize hended rfl)
        fun hs _ => hs.finalize hended rfl
  | joinerBreaks h hpc hclose => exact .same rfl rfl id
  | joinerNotifies hpc =>
      rw [notifyAvailable_eq]
      exact .same rfl rfl fun hw h0 => hw ((waiting_notifyAvailable s).symm.trans h0)
  | joinerEnds hpc => exact .same rfl rfl id
  | closes hpc hadding => cases hopen
  | pushesDispatch hpc => exact .same rfl rfl fun _ => by simp [waiting]
  | pushesJoinable hpc => exact .same rfl rfl id
  | notifiesDone hpc => exact .same rfl rfl id
  | notifiesAvailable hpc =>
      rw [notifyAvailable_eq]
      exact .same rfl rfl fun hw h0 => hw ((waiting_notifyAvailable s).symm.trans h0)
  | joinsDispatcher hpc hended => exact .same rfl rfl id
  | joinsJoiner hpc hended => exact .same rfl rfl id
  | joinsThread h left hpc hleft hended => exact .same rfl rfl id
  | returns hpc => exact .same rfl rfl id

end ThreadPool

variable {Caller : Type}

namespace WaitedPool

variable {s s' : WaitedPool Caller} {a : Action Caller}

/-- The step is one that a thread takes which is already under way, and not a new call. -/
def Action.goesOn : Action Caller → Bool
  | .pool (.pushTask _) | .pool .dispatcher | .pool (.taskReturns _ _) | .pool (.task _)
  | .pool .joiner | .resume _ => true
  | _ => false

/-- `WaitForCompletion()` is called when it can return at once or a task is unfinished; and the
count of completed tasks does not come round to where a waiter started. -/
def Awaitable (s : WaitedPool Caller) : Action Caller → Prop
  | .waitForCompletion _ => s.pool.noTasks = true ∨ s.pool.Unfinished
  | .pool (.task h) => s.pool.handleToThread.lookup h = some .complete →
      ∀ caller, (s.waiters caller).initialCompletedTasks ≠ some (s.pool.numCompletedTasks + 1)
  | _ => True

instance [Fintype Caller] (s : WaitedPool Caller) (a : Action Caller) : Decidable (s.Awaitable a) :=
  match a with
  | .waitForCompletion _ => inferInstanceAs (Decidable (_ ∨ _))
  | .pool (.task _) => inferInstanceAs (Decidable (_ → ∀ _, _ ≠ _))
  | .pool (.addTask _) | .pool (.pushTask _) | .pool (.getTaskStatus _) | .pool (.cancelTask _)
  | .pool .dispatcher | .pool .spuriousWakeup | .pool (.taskReturns _ _) | .pool .joiner
  | .pool .destructor | .pool (.destructorJoin _) | .waitForTask _ _ | .resume _
  | .spuriousWakeup _ => .isTrue trivial

/-- No caller is lost: while the count is where it was at the start of the wait, a task is
unfinished, and once it is not, a sleeper is going to be notified. -/
structure Awaited (s : WaitedPool Caller) : Prop where
  unfinished : ∀ caller, (s.waiters caller).initialCompletedTasks =
    some s.pool.numCompletedTasks → s.pool.Unfinished
  notified : ∀ caller initial, s.waiters caller = .asleep (.anyTask initial) →
    s.pool.numCompletedTasks ≠ initial → s.pool.Notifying

theorem initialCompletedTasks_notify (pc : WaiterPc) :
    pc.notify.initialCompletedTasks = pc.initialCompletedTasks := by
  rcases pc with _ | ⟨_ | _⟩ | ⟨_ | _⟩ <;> rfl

/-- Nobody sleeps after a notification. -/
theorem notifyAll_ne_asleep (waiters : Caller → WaiterPc) (caller : Caller) (what : WaitFor) :
    notifyAll waiters caller ≠ .asleep what := by
  rw [notifyAll]
  cases waiters caller <;> simp [WaiterPc.notify]

/-- A step of the pool. -/
theorem Awaited.pool (hw : Awaited s) {action : ThreadPool.Action} {pool : ThreadPool}
    (hp : ThreadPool.Progress s.pool action pool) (ha : s.Awaitable (.pool action))
    {waiters : Caller → WaiterPc}
    (hsame : ∀ i, (waiters i).initialCompletedTasks = (s.waiters i).initialCompletedTasks)
    (hasleep : ∀ i what, waiters i = .asleep what →
      s.waiters i = .asleep what ∧ s.pool.notifiesDone action = false) :
    Awaited { pool := pool, waiters := waiters } := by
  cases hp with
  | completes h haction hpc hcount hnotifying =>
      subst haction
      refine ⟨fun i hi => ?_, fun i initial hi hne => hnotifying⟩
      rw [hsame, hcount] at hi
      exact absurd hi (ha hpc i)
  | keeps hcount hunfinished hnotifying =>
      refine ⟨fun i hi => ?_, fun i initial hi hne => ?_⟩
      · rw [hsame, hcount] at hi
        exact hunfinished (hw.unfinished i hi)
      · obtain ⟨hi, hquiet⟩ := hasleep i _ hi
        rw [hcount] at hne
        exact hnotifying (hw.notified i initial hi hne) hquiet

theorem Awaited.start (numThreads : UInt32) : Awaited (constructed Caller numThreads) where
  unfinished _ hi := by cases hi
  notified _ _ hi := by cases hi

variable [DecidableEq Caller]

/-- A caller of `WaitForCompletion()` hangs: the pool is there, every task that was added has ended
and been joined, the dispatch queue is empty, and nobody goes on without a new call. -/
structure Hung (s : WaitedPool Caller) : Prop where
  open' : s.pool.destructor = .uncalled
  added : s.pool.waiting = []
  joined : s.pool.handleToThread = ∅
  dispatchQueue : s.pool.dispatchQueue = []
  stuck : ∀ a : Action Caller, a.goesOn = true → s.step a = none
  blocked : ∃ caller initial, s.waiters caller = .asleep (.anyTask initial)

namespace Awaited

/-- A caller goes on, and is not lost where it goes. -/
theorem goTo (hw : Awaited s) {caller : Caller} {pc : WaiterPc}
    (hunfinished : pc.initialCompletedTasks = some s.pool.numCompletedTasks → s.pool.Unfinished)
    (hnotified : ∀ initial, pc = .asleep (.anyTask initial) →
      s.pool.numCompletedTasks = initial) : Awaited (s.goTo caller pc) := by
  refine ⟨fun i hi => ?_, fun i initial hi hne => ?_⟩
  · by_cases h : i = caller
    · subst h
      rw [waiters_goTo_self] at hi
      exact hunfinished hi
    · rw [waiters_goTo_of_ne h] at hi
      exact hw.unfinished i hi
  · by_cases h : i = caller
    · subst h
      rw [waiters_goTo_self] at hi
      exact absurd (hnotified initial hi) hne
    · rw [waiters_goTo_of_ne h] at hi
      exact hw.notified i initial hi hne

/-- A caller tests what it waits for. -/
theorem test (hw : Awaited s) (caller : Caller) (what : WaitFor)
    (hunfinished : what = .anyTask s.pool.numCompletedTasks → s.pool.Unfinished) :
    Awaited (s.test caller what) := by
  rw [WaitedPool.test]
  cases hover : s.pool.waitOver what with
  | true => exact hw.goTo (fun h => by cases h) (fun _ h => by cases h)
  | false =>
      refine hw.goTo (fun h => ?_) fun initial h => ?_
      · cases what with
        | anyTask initial => exact hunfinished (congrArg _ (Option.some.inj h))
        | task k => cases h
      · obtain rfl := WaiterPc.asleep.inj h
        -- it would not have fallen asleep
        by_contra hne
        simp [ThreadPool.waitOver, hne] at hover

/-- **A step after which no caller is lost.** -/
theorem step (hw : Awaited s) (ha : s.Awaitable a) (hst : Stepped s a s')
    (hopen : s'.pool.shouldClose = false) : Awaited s' := by
  cases hst with
  | pool action pool hstep hquiet =>
      have hp := ThreadPool.progress_of_stepped (ThreadPool.stepped_of_step hstep) hopen
      exact hw.pool hp ha (fun _ => rfl) fun i what hi => ⟨hi, hquiet⟩
  | notifies action pool hstep hnotify =>
      have hp := ThreadPool.progress_of_stepped (ThreadPool.stepped_of_step hstep) hopen
      exact hw.pool hp ha (fun i => initialCompletedTasks_notify _)
        fun i what hi => absurd hi (notifyAll_ne_asleep _ i what)
  | returnsAtOnce caller hpc hnone => exact hw
  | waitsForAny caller hpc hsome =>
      refine hw.goTo (fun _ => ha.resolve_left (by simp [hsome])) fun initial hi => ?_
      exact WaitFor.anyTask.inj (WaiterPc.asleep.inj hi)
  | waitsForTask caller h hpc =>
      have hw' : Awaited { s with pool := s.pool.touchStatus h } := by
        rw [ThreadPool.touchStatus_eq]
        exact ⟨hw.unfinished, hw.notified⟩
      exact hw'.test caller _ fun heq => by cases heq
  | resumes caller what hpc =>
      refine hw.test caller what ?_
      rintro rfl
      exact hw.unfinished caller (by rw [hpc]; rfl)
  | spuriousWakeup caller what hpc =>
      refine hw.goTo (fun hi => hw.unfinished caller ?_) (fun _ hi => by cases hi)
      rw [hpc]
      cases what <;> exact hi

end Awaited

/-- What holds of the pool is kept while callers wait. -/
theorem phases_step (hp : s.pool.Phases) (hst : Stepped s a s') : s'.pool.Phases := by
  cases hst with
  | pool action pool hstep hquiet => exact hp.step (ThreadPool.stepped_of_step hstep)
  | notifies action pool hstep hnotify => exact hp.step (ThreadPool.stepped_of_step hstep)
  | returnsAtOnce caller hpc hnone => exact hp
  | waitsForAny caller hpc hsome => exact hp
  | waitsForTask caller h hpc =>
      show (s.pool.touchStatus h).Phases
      rw [ThreadPool.touchStatus_eq]
      exact { hp with }
  | resumes caller what hpc => exact hp
  | spuriousWakeup caller what hpc => exact hp

/-- The pool stays closed while callers wait. -/
theorem open_of_open (hst : Stepped s a s') (hopen : s'.pool.shouldClose = false) :
    s.pool.shouldClose = false := by
  cases hst with
  | pool action pool hstep hquiet =>
      exact ThreadPool.open_of_open (ThreadPool.stepped_of_step hstep) hopen
  | notifies action pool hstep hnotify =>
      exact ThreadPool.open_of_open (ThreadPool.stepped_of_step hstep) hopen
  | returnsAtOnce caller hpc hnone => exact hopen
  | waitsForAny caller hpc hsome => exact hopen
  | waitsForTask caller h hpc =>
      have hopen : (s.pool.touchStatus h).shouldClose = false := hopen
      rw [ThreadPool.touchStatus_eq] at hopen
      exact hopen
  | resumes caller what hpc => exact hopen
  | spuriousWakeup caller what hpc => exact hopen

/-- A caller that is not lost does not hang. -/
theorem Awaited.not_hung (hw : Awaited s) : ¬s.Hung := by
  intro hung
  have hthread : ∀ p, ¬s.pool.HasThread p := by
    rintro p ⟨h, hmem, -⟩
    rw [hung.joined] at hmem
    exact absurd hmem (Finset.notMem_empty h)
  obtain ⟨caller, initial, hpc⟩ := hung.blocked
  by_cases hcount : s.pool.numCompletedTasks = initial
  · rcases hw.unfinished caller (by rw [hpc, hcount]; rfl) with hwaiting | hrunning
    · exact hwaiting hung.added
    · exact hthread _ hrunning
  · exact hthread _ (hw.notified caller initial hpc hcount)

/-- **Waiting does not hang when there is something to wait for.** In every run of a constructed
pool in which `WaitForCompletion()` is called only when it can return at once or a task that was
added is unfinished, and in which the count of completed tasks never comes round to where a waiter
started, no caller hangs in any state. -/
theorem waiters_do_not_hang (numThreads : UInt32) (acts : List (Action Caller))
    (hawaitable : EachStep step Awaitable (constructed Caller numThreads) acts) :
    EachState step (fun s => ¬Hung s) (constructed Caller numThreads) acts := by
  have hinv : EachState step
      (fun s => s.pool.Phases ∧ (s.pool.shouldClose = false → Awaited s))
      (constructed Caller numThreads) acts := by
    refine .of_inv _ ?_ ⟨.start numThreads, fun _ => .start numThreads⟩ hawaitable
    rintro s a s' ⟨hp, hw⟩ ha hstep
    have hst := stepped_of_step hstep
    exact ⟨phases_step hp hst, fun hopen => (hw (open_of_open hst hopen)).step ha hst hopen⟩
  refine hinv.mono fun s hs hung => ?_
  exact (hs.2 (hs.1.closing.mpr hung.open')).not_hung hung

/-- A caller waits for a task that is running, and is woken when it is done. -/
def waitForOneTask : List (Action Unit) :=
  [.pool (.addTask 1), .pool (.pushTask 1), .pool .dispatcher, .pool .dispatcher,
    .pool .dispatcher, .waitForCompletion (), .pool (.taskReturns 1 .done), .pool (.task 1),
    .pool (.task 1), .pool (.task 1), .pool (.task 1), .pool (.task 1), .resume ()]

theorem waiters_do_not_hang_one_task :
    ∃ s, runFrom step (constructed Unit 0) waitForOneTask = some s ∧ s.waiters () = .idle ∧
      EachState step (fun s => ¬Hung s) (constructed Unit 0) waitForOneTask :=
  ⟨_, rfl, rfl, waiters_do_not_hang 0 waitForOneTask (by decide)⟩

/-- The dispatcher comes to its first section, and then somebody waits for the empty pool. -/
def waitForEmptyPool : List (Action Unit) := [.pool .dispatcher, .waitForCompletion ()]

/-- The dispatcher of a pool without tasks has reserved a slot, so that the caller of
`WaitForCompletion()` falls asleep, and nobody is there to wake it. -/
theorem waiter_hangs :
    ∃ s, runFrom step (constructed Unit 0) waitForEmptyPool = some s ∧ Hung s := by
  refine ⟨_, rfl, rfl, rfl, rfl, rfl, fun a hgoes => ?_, (), 0, rfl⟩
  cases a with
  | pool action => cases action <;> first | rfl | cases hgoes
  | waitForCompletion caller => cases hgoes
  | waitForTask caller h => cases hgoes
  | resume caller => rfl
  | spuriousWakeup caller => cases hgoes

end WaitedPool

end Csci6780
