import Csci6780.ThreadPoolInvariants
import Mathlib.Logic.Function.Basic

/-!
# The Waiters of the Thread Pool

Callers of `WaitForCompletion` sleep on `task_done_`, for any task to complete or for a given one.
The two who notify it, the thread of a task at the end of `RunTask` and the destructor, wake all of
them; a caller that has been woken tests again what it waits for, and returns or goes back to sleep.
A caller that sleeps has released `mutex_`, and to fall asleep is one step with the last test.

The first test of `WaitForCompletion()` looks at the dispatch queue without its being locked for
the wait that follows. That does not matter: while `pool_size_` is 0 the dispatcher takes nothing
from the queue, and otherwise the queue is not what the test depends on.

## Main definitions

* `WaitedPool.step`: one step of the pool or of a caller that waits.

## Main results

* `WaitedPool.stepped_of_step`: every step is one of the cases of `WaitedPool.Stepped`.
-/

namespace Csci6780

/-- What a caller of `WaitForCompletion` waits for: that the number of completed tasks is another
than at the start, or that the task is not running any more. -/
inductive WaitFor
  | anyTask (initialCompletedTasks : UInt32)
  | task (handle : Handle)
  deriving DecidableEq, Repr

/-- Where a caller stands: not in `WaitForCompletion`, asleep in it, or notified. -/
inductive WaiterPc
  | idle
  | asleep (what : WaitFor)
  | woken (what : WaitFor)
  deriving DecidableEq, Repr

/-- The caller is notified. -/
def WaiterPc.notify : WaiterPc → WaiterPc
  | .asleep what => .woken what
  | pc => pc

namespace ThreadPool

/-- There are no running or pending tasks. -/
def noTasks (s : ThreadPool) : Bool := s.dispatchQueue.isEmpty && s.poolSize == 0

/-- `handle_to_status_[handle]` makes an entry if there is none. -/
def touchStatus (s : ThreadPool) (handle : Handle) : ThreadPool :=
  if handle ∈ s.handleToStatus then s
  else { s with handleToStatus := s.handleToStatus.insert handle .running }

/-- The predicate of the wait: it is over. -/
def waitOver (s : ThreadPool) : WaitFor → Bool
  | .anyTask initialCompletedTasks =>
      s.numCompletedTasks != initialCompletedTasks || s.noTasks
  | .task handle => (s.handleToStatus.lookup handle).getD .running != .running

/-- The next step of the one who takes it notifies `task_done_`. -/
def notifiesDone (s : ThreadPool) : Action → Bool
  | .task handle => s.handleToThread.lookup handle == some .notifyDone
  | .destructor => s.destructor == .notifyDone
  | _ => false

end ThreadPool

/-- Only the statuses are changed by an entry. -/
theorem ThreadPool.touchStatus_eq (s : ThreadPool) (h : Handle) :
    s.touchStatus h = { s with handleToStatus := (s.touchStatus h).handleToStatus } := by
  rw [touchStatus]
  split <;> rfl

variable {Caller : Type} [DecidableEq Caller]

/-- A pool and the callers of `WaitForCompletion`. -/
structure WaitedPool (Caller : Type) where
  pool : ThreadPool
  waiters : Caller → WaiterPc := fun _ => .idle

namespace WaitedPool

/-- A constructed pool for which nobody waits. -/
def constructed (Caller : Type) (numThreads : UInt32) : WaitedPool Caller where
  pool := .constructed numThreads

/-- A caller goes on at `pc`. -/
def goTo (s : WaitedPool Caller) (caller : Caller) (pc : WaiterPc) : WaitedPool Caller :=
  { s with waiters := Function.update s.waiters caller pc }

/-- A caller that holds the mutex returns or falls asleep. -/
def test (s : WaitedPool Caller) (caller : Caller) (what : WaitFor) : WaitedPool Caller :=
  s.goTo caller (if s.pool.waitOver what then .idle else .asleep what)

/-- `WaitForCompletion()`. -/
def waitForCompletion (s : WaitedPool Caller) (caller : Caller) : Option (WaitedPool Caller) :=
  match s.waiters caller with
  | .idle =>
      if s.pool.noTasks then some s
      else some (s.test caller (.anyTask s.pool.numCompletedTasks))
  | _ => none

/-- `WaitForCompletion(task)`. -/
def waitForTask (s : WaitedPool Caller) (caller : Caller) (handle : Handle) :
    Option (WaitedPool Caller) :=
  match s.waiters caller with
  | .idle =>
      some ({ s with pool := s.pool.touchStatus handle }.test caller (.task handle))
  | _ => none

/-- A caller that has been woken tests again. -/
def resume (s : WaitedPool Caller) (caller : Caller) : Option (WaitedPool Caller) :=
  match s.waiters caller with
  | .woken what => some (s.test caller what)
  | _ => none

/-- A caller may also wake up without having been notified. -/
def spuriousWakeup (s : WaitedPool Caller) (caller : Caller) : Option (WaitedPool Caller) :=
  match s.waiters caller with
  | .asleep what => some (s.goTo caller (.woken what))
  | _ => none

/-- `task_done_.notify_all`. -/
def notifyAll (waiters : Caller → WaiterPc) (caller : Caller) : WaiterPc :=
  (waiters caller).notify

/-- A step of the pool. -/
def poolStep (s : WaitedPool Caller) (action : ThreadPool.Action) : Option (WaitedPool Caller) :=
  (s.pool.step action).map fun pool =>
    { pool := pool
      waiters := if s.pool.notifiesDone action then notifyAll s.waiters else s.waiters }

/-- Who goes on. -/
inductive Action (Caller : Type)
  | pool (action : ThreadPool.Action)
  | waitForCompletion (caller : Caller)
  | waitForTask (caller : Caller) (handle : Handle)
  | resume (caller : Caller)
  | spuriousWakeup (caller : Caller)
  deriving DecidableEq, Repr

/-- One step of the pool or of a caller. -/
def step (s : WaitedPool Caller) : Action Caller → Option (WaitedPool Caller)
  | .pool action => s.poolStep action
  | .waitForCompletion caller => s.waitForCompletion caller
  | .waitForTask caller handle => s.waitForTask caller handle
  | .resume caller => s.resume caller
  | .spuriousWakeup caller => s.spuriousWakeup caller

/-! ### One step -/

variable {s s' : WaitedPool Caller} {a : Action Caller}

@[simp] theorem waiters_goTo_self (s : WaitedPool Caller) (caller : Caller) (pc : WaiterPc) :
    (s.goTo caller pc).waiters caller = pc :=
  Function.update_self ..

theorem waiters_goTo_of_ne {i caller : Caller} (hne : i ≠ caller) (s : WaitedPool Caller)
    (pc : WaiterPc) : (s.goTo caller pc).waiters i = s.waiters i :=
  Function.update_of_ne hne ..

/-- The kinds of steps. -/
inductive Stepped (s : WaitedPool Caller) : Action Caller → WaitedPool Caller → Prop
  | pool (action : ThreadPool.Action) (pool : ThreadPool)
      (hstep : s.pool.step action = some pool) (hquiet : s.pool.notifiesDone action = false) :
      Stepped s (.pool action) { s with pool := pool }
  | notifies (action : ThreadPool.Action) (pool : ThreadPool)
      (hstep : s.pool.step action = some pool) (hnotify : s.pool.notifiesDone action = true) :
      Stepped s (.pool action) { pool := pool, waiters := notifyAll s.waiters }
  | returnsAtOnce (caller : Caller) (hpc : s.waiters caller = .idle)
      (hnone : s.pool.noTasks = true) : Stepped s (.waitForCompletion caller) s
  | waitsForAny (caller : Caller) (hpc : s.waiters caller = .idle)
      (hsome : s.pool.noTasks = false) :
      Stepped s (.waitForCompletion caller)
        (s.goTo caller (.asleep (.anyTask s.pool.numCompletedTasks)))
  | waitsForTask (caller : Caller) (h : Handle) (hpc : s.waiters caller = .idle) :
      Stepped s (.waitForTask caller h)
        ({ s with pool := s.pool.touchStatus h }.test caller (.task h))
  | resumes (caller : Caller) (what : WaitFor) (hpc : s.waiters caller = .woken what) :
      Stepped s (.resume caller) (s.test caller what)
  | spuriousWakeup (caller : Caller) (what : WaitFor) (hpc : s.waiters caller = .asleep what) :
      Stepped s (.spuriousWakeup caller) (s.goTo caller (.woken what))

/-- **Every step is one of the kinds.** -/
theorem stepped_of_step (hstep : s.step a = some s') : Stepped s a s' := by
  cases a with
  | pool action =>
      obtain ⟨pool, hpool, rfl⟩ := Option.map_eq_some_iff.mp hstep
      cases hnotify : s.pool.notifiesDone action with
      | true => exact .notifies action pool hpool hnotify
      | false => exact .pool action pool hpool hnotify
  | waitForCompletion caller =>
      rw [step, WaitedPool.waitForCompletion] at hstep
      split at hstep
      · next hpc =>
          split at hstep
          · next hnone =>
              obtain rfl := Option.some.inj hstep
              exact .returnsAtOnce caller hpc hnone
          · next hsome =>
              have hover : s.pool.waitOver (.anyTask s.pool.numCompletedTasks) = false := by
                simpa [ThreadPool.waitOver] using hsome
              rw [test, hover] at hstep
              obtain rfl := Option.some.inj hstep
              exact .waitsForAny caller hpc (Bool.eq_false_iff.mpr hsome)
      · cases hstep
  | waitForTask caller h =>
      rw [step, WaitedPool.waitForTask] at hstep
      split at hstep
      · next hpc =>
          obtain rfl := Option.some.inj hstep
          exact .waitsForTask caller h hpc
      · cases hstep
  | resume caller =>
      rw [step, WaitedPool.resume] at hstep
      split at hstep
      · next what hpc =>
          obtain rfl := Option.some.inj hstep
          exact .resumes caller what hpc
      · cases hstep
  | spuriousWakeup caller =>
      rw [step, WaitedPool.spuriousWakeup] at hstep
      split at hstep
      · next what hpc =>
          obtain rfl := Option.some.inj hstep
          exact .spuriousWakeup caller what hpc
      · cases hstep

end WaitedPool

end Csci6780
