import Csci6780.TaskLifeCycle

/-!
# Being Told that a Task Is Done

`GetTaskStatus` and `WaitForCompletion` look at the record of a task. The record is published by the
last status update, before `CleanUp`, while whoever waits is notified after it. Who looks in between
is told that the task is done while it is still being called.

## Main results

* `WaitedPool.answered_task_has_left_iff`: a task has left whenever somebody is told so, exactly
  when nobody is told so while the thread of the task is in `CleanUp`.
* `WaitedPool.answered_task_is_called`: somebody is told so too early.
-/

namespace Csci6780

/-- The thread is in a call of the task. -/
def RunTaskPc.inCall : RunTaskPc → Bool
  | .setUp | .runAtomic | .cleanUp => true
  | _ => false

variable {Caller : Type}

namespace WaitedPool

variable {s s' : WaitedPool Caller} {a : Action Caller} {h : Handle}

/-- The caller is told that the task is not running any more: `GetTaskStatus` returns another status
than `RUNNING`, or `WaitForCompletion` returns. -/
def answers (s : WaitedPool Caller) (h : Handle) : Action Caller → Bool
  | .pool (.getTaskStatus k) =>
      k == h && (s.pool.getTaskStatus h).any fun status => status != .running
  | .waitForTask caller k => k == h && s.waiters caller == .idle && s.pool.waitOver (.task h)
  | .resume caller => s.waiters caller == .woken (.task h) && s.pool.waitOver (.task h)
  | _ => false

/-- Who is told so was told by the record. -/
theorem recorded_of_answers (ha : s.answers h a = true) :
    ∃ status, s.pool.handleToStatus.lookup h = some status ∧ status ≠ .running := by
  have hfinished : s.pool.waitOver (.task h) = true := by
    cases a with
    | pool action =>
        cases action with
        | getTaskStatus k =>
            rw [answers, Bool.and_eq_true, Option.any_eq_true] at ha
            obtain ⟨-, status, hstatus, hne⟩ := ha
            rw [ThreadPool.getTaskStatus] at hstatus
            rw [ThreadPool.waitOver, hstatus]
            exact hne
        | _ => cases ha
    | waitForTask caller k =>
        rw [answers, Bool.and_eq_true] at ha
        exact ha.2
    | resume caller =>
        rw [answers, Bool.and_eq_true] at ha
        exact ha.2
    | waitForCompletion caller => cases ha
    | spuriousWakeup caller => cases ha
  rw [ThreadPool.waitOver, bne_iff_ne] at hfinished
  cases hlookup : s.pool.handleToStatus.lookup h with
  | none =>
      rw [hlookup] at hfinished
      exact absurd rfl hfinished
  | some status =>
      rw [hlookup] at hfinished
      exact ⟨status, rfl, hfinished⟩

variable [DecidableEq Caller]

/-- No call of the task is in progress, and none comes later unless the task is added again. -/
def HasLeft (s : WaitedPool Caller) (h : Handle) : Prop :=
  (∀ pc, s.pool.handleToThread.lookup h = some pc → pc.inCall = false) ∧
    ∀ rest s', runFrom step s rest = some s' → h ∉ added rest →
      callsOf (collect step (taskEvents h) s rest) = []

/-- A task whose record is not `RUNNING` is in `CleanUp` or has left. -/
theorem hasLeft_iff {numThreads : UInt32} {acts : List (Action Caller)}
    (hrun : runFrom step (constructed Caller numThreads) acts = some s)
    (honce : (added acts).count h ≤ 1) {status : TaskStatus}
    (hstatus : s.pool.handleToStatus.lookup h = some status) (hne : status ≠ .running) :
    s.HasLeft h ↔ s.pool.handleToThread.lookup h ≠ some .cleanUp := by
  obtain ⟨life, hlife, hl, -⟩ := life_of_run hrun honce
  have hphase : life.phase ≠ .new := fun h => hne (hl.newStatus h status hstatus)
  obtain rfl : life.status = status := Option.some.inj ((hl.status hphase).symm.trans hstatus)
  have hafter : life.phase = .cleaning ∨ life.phase = .finished :=
    hl.after (TaskLife.told hlife).records hne
  constructor
  · rintro ⟨hidle, -⟩ hpc
    cases hidle .cleanUp hpc
  · intro hnot
    refine ⟨fun pc hpc => ?_, fun rest s' hrest hagain => ?_⟩
    · have hthread := hl.thread pc hpc
      cases pc with
      | cleanUp => exact absurd hpc hnot
      | setUp => simp [hthread, LifePhase.ofThread] at hafter
      | runAtomic => simp [hthread, LifePhase.ofThread] at hafter
      | _ => rfl
    · have honce' : (added (acts ++ rest)).count h ≤ 1 := by
        rw [added_append, List.count_append, List.count_eq_zero.mpr hagain]
        exact honce
      obtain ⟨early, late, hearly, hlate, -, -⟩ := life_between hrun hrest honce'
      obtain rfl : life = early := Option.some.inj (hlife.symm.trans hearly)
      exact TaskLife.no_calls_after hlate hafter

/-- **When an answer is right.** In every run of a constructed pool in which a task is added at most
once: whenever somebody is told that the task is not running any more the task has left, exactly
when nobody is told so while the thread of the task is between its last status update and the
return of `CleanUp`. -/
theorem answered_task_has_left_iff (numThreads : UInt32) (acts : List (Action Caller))
    {s : WaitedPool Caller}
    (hrun : runFrom step (constructed Caller numThreads) acts = some s) (h : Handle)
    (honce : (added acts).count h ≤ 1) :
    EachStep step (fun m a => m.answers h a = true → m.HasLeft h)
        (constructed Caller numThreads) acts ↔
      EachStep step
        (fun m a => m.answers h a = true → m.pool.handleToThread.lookup h ≠ some .cleanUp)
        (constructed Caller numThreads) acts := by
  have hexact : ∀ pre a m, pre ++ [a] <+: acts →
      runFrom step (constructed Caller numThreads) pre = some m → m.answers h a = true →
      (m.HasLeft h ↔ m.pool.handleToThread.lookup h ≠ some .cleanUp) := by
    intro pre a m hpre hm ha
    obtain ⟨status, hstatus, hne⟩ := recorded_of_answers ha
    obtain ⟨rest, rfl⟩ := (List.prefix_append pre [a]).trans hpre
    rw [added_append, List.count_append] at honce
    exact hasLeft_iff hm (by omega) hstatus hne
  constructor
  · exact fun hleft pre a m hpre hm ha => (hexact pre a m hpre hm ha).mp (hleft pre a m hpre hm ha)
  · exact fun hnot pre a m hpre hm ha => (hexact pre a m hpre hm ha).mpr (hnot pre a m hpre hm ha)

/-- A task is done, and whoever asks is told so after it has left. -/
def askAfterCleanUp : List (Action (Fin 1)) :=
  [.pool (.addTask 1), .pool (.pushTask 1), .pool .dispatcher, .pool .dispatcher,
    .pool .dispatcher, .waitForTask 0 1, .pool (.taskReturns 1 .done), .pool (.task 1),
    .pool (.task 1), .pool (.task 1), .pool (.task 1), .pool (.task 1), .resume 0,
    .pool (.getTaskStatus 1)]

theorem answered_task_has_left_iff_after :
    EachStep step (fun m a => m.answers 1 a = true → m.HasLeft 1) (constructed (Fin 1) 0)
      askAfterCleanUp :=
  (answered_task_has_left_iff 0 askAfterCleanUp rfl 1 (by decide)).mpr (by decide)

/-- A task is done, and before its `CleanUp` returns, somebody asks for its status and somebody
waits for it. -/
def askDuringCleanUp : List (Action (Fin 1)) :=
  [.pool (.addTask 1), .pool (.pushTask 1), .pool .dispatcher, .pool .dispatcher,
    .pool .dispatcher, .pool (.taskReturns 1 .done), .pool (.task 1)]

/-- Both `GetTaskStatus` and `WaitForCompletion` answer that the task is done while its `CleanUp`
is being called. -/
theorem answered_task_is_called :
    ∃ s, runFrom step (constructed (Fin 1) 0) askDuringCleanUp = some s ∧
      (added askDuringCleanUp).count 1 = 1 ∧
      s.answers 1 (.pool (.getTaskStatus 1)) = true ∧ s.answers 1 (.waitForTask 0 1) = true ∧
      (∃ s', s.step (.waitForTask 0 1) = some s' ∧ s'.waiters 0 = .idle) ∧ ¬s.HasLeft 1 := by
  refine ⟨_, rfl, by decide, by decide, by decide, ⟨_, rfl, by decide⟩, fun hleft => ?_⟩
  cases hleft.1 .cleanUp rfl

end WaitedPool

end Csci6780
