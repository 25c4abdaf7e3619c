import Csci6780.Lib.Runs
import Mathlib.Data.Finmap

/-!
# The Thread Pool

This module embeds `thread_pool::ThreadPool`. Four kinds of threads share its state: the callers,
the dispatcher, which turns the tasks of one queue into threads, the threads that run the tasks,
and the joiner, which the threads tell over another queue that they are done. The destructor stops
all of them.

A step is what a thread does without another one seeing a state in between: a section under
`mutex_`, a `Push` or a `Pop` of a queue, a notification, a call of the task, or the end of a
thread. Where each thread stands is part of the state. A `Pop` cannot be taken while the queue is
empty, and a section that joins a thread cannot be taken before that thread has ended.

A task goes by its handle, which `Task` hands out once. A thread of a task goes by its handle too
and stands in `handleToThread`; it leaves the map only when it has been joined. What `SetUp` and
`RunAtomic` return is in the action.

Three things end the program, and there is no step for them: to dispatch a handle without a task,
to put a thread over one that has not been joined, and to join a thread that there is not.

## Main definitions

* `ThreadPool`, `ThreadPool.Action`: the state of the pool, and who goes on.
* `ThreadPool.step`: one step of the pool.
-/

namespace Csci6780

/-- `thread_pool::Task::Status`. -/
inductive TaskStatus
  | running
  | done
  | failed
  | cancelled
  deriving DecidableEq, Repr

/-- `Task::Handle`. -/
abbrev Handle := UInt32

/-- Where the thread of a task stands in `RunTask`: in a call of the task, before
`UpdateTaskStatus` with what the call returned, before the section that counts the completion,
before `Push` and the notification, at the end of the function, and ended. -/
inductive RunTaskPc
  | setUp
  | update (status : TaskStatus)
  | runAtomic
  | cleanUp
  | complete
  | pushJoinable
  | notifyDone
  | returning
  | ended
  deriving DecidableEq, Repr

/-- Where `DispatcherThread` stands: before its first section, waiting in it for a free thread,
notified, before `Pop`, before its second section with a handle, at the end of the function, and
ended. -/
inductive DispatcherPc
  | reserve
  | waiting
  | woken
  | pop
  | dispatch (handle : Handle)
  | returning
  | ended
  deriving DecidableEq, Repr

/-- Where `JoinerThread` stands: before `Pop`, before its section with a handle, before the
notification, at the end of the function, and ended. -/
inductive JoinerPc
  | pop
  | finalize (handle : Handle)
  | notifyAvailable
  | returning
  | ended
  deriving DecidableEq, Repr

/-- Where `~ThreadPool` stands: not called, or before the named statement; in the last loop with
the handles of the threads that it has not joined yet. -/
inductive DestructorPc
  | uncalled
  | pushDispatch
  | pushJoinable
  | notifyDone
  | notifyAvailable
  | joinDispatcher
  | joinJoiner
  | joinThreads (left : Finset Handle)
  | returned
  deriving DecidableEq

/-- The state that the threads of a `ThreadPool` share, and where they stand. `adding` holds the
handles whose `AddTask` is between its section and its `Push`. -/
structure ThreadPool where
  handleToTask : Finset Handle := ∅
  handleToStatus : Finmap fun _ : Handle => TaskStatus := ∅
  handleToThread : Finmap fun _ : Handle => RunTaskPc := ∅
  cancelledTasks : Finset Handle := ∅
  dispatchQueue : List Handle := []
  joinableQueue : List Handle := []
  shouldClose : Bool := false
  maxPoolSize : UInt32
  poolSize : UInt32 := 0
  numCompletedTasks : UInt32 := 0
  adding : List Handle := []
  dispatcher : DispatcherPc := .reserve
  joiner : JoinerPc := .pop
  destructor : DestructorPc := .uncalled

namespace ThreadPool

/-- A constructed pool whose threads have not taken a step. -/
def constructed (numThreads : UInt32) : ThreadPool where
  maxPoolSize := numThreads

/-! ### The callers -/

/-- The section of `AddTask`. Nobody adds a task once the pool is being destroyed. -/
def addTask (s : ThreadPool) (handle : Handle) : Option ThreadPool :=
  match s.destructor with
  | .uncalled =>
      some { s with
        handleToTask := insert handle s.handleToTask
        handleToStatus := s.handleToStatus.insert handle .running
        adding := s.adding ++ [handle] }
  | _ => none

/-- The `Push` of `AddTask`. -/
def pushTask (s : ThreadPool) (handle : Handle) : Option ThreadPool :=
  if handle ∈ s.adding then
    some { s with
      adding := s.adding.erase handle
      dispatchQueue := s.dispatchQueue ++ [handle] }
  else none

/-- `GetTaskStatus`. The check fails for a task that was not added. -/
def getTaskStatus (s : ThreadPool) (handle : Handle) : Option TaskStatus :=
  s.handleToStatus.lookup handle

/-- `CancelTask`. -/
def cancelTask (s : ThreadPool) (handle : Handle) : ThreadPool :=
  { s with cancelledTasks := insert handle s.cancelledTasks }

/-! ### The dispatcher -/

/-- `pool_size_` is at a limit and the pool is not closing. -/
def mustWait (s : ThreadPool) : Bool :=
  s.maxPoolSize != 0 && decide (s.maxPoolSize ≤ s.poolSize) && !s.shouldClose

/-- The dispatcher takes a slot for the thread it is going to create. -/
def reserveSlot (s : ThreadPool) : ThreadPool :=
  { s with poolSize := s.poolSize + 1, dispatcher := .pop }

/-- The next step of `DispatcherThread`. -/
def dispatcherThread (s : ThreadPool) : Option ThreadPool :=
  match s.dispatcher with
  | .reserve => some (if s.mustWait then { s with dispatcher := .waiting } else s.reserveSlot)
  | .waiting => none
  | .woken =>
      some (if s.poolSize < s.maxPoolSize ∨ s.shouldClose = true then s.reserveSlot
        else { s with dispatcher := .waiting })
  | .pop =>
      match s.dispatchQueue with
      | [] => none
      | handle :: rest => some { s with dispatchQueue := rest, dispatcher := .dispatch handle }
  | .dispatch handle =>
      if s.shouldClose then some { s with dispatcher := .returning }
      else if handle ∈ s.handleToTask ∧ handle ∉ s.handleToThread then
        some { s with
          handleToThread := s.handleToThread.insert handle .setUp
          dispatcher := .reserve }
      else none
  | .returning => some { s with dispatcher := .ended }
  | .ended => none

/-- `thread_available_.notify_one`: only the dispatcher waits for it. -/
def notifyAvailable (s : ThreadPool) : ThreadPool :=
  match s.dispatcher with
  | .waiting => { s with dispatcher := .woken }
  | _ => s

/-- The dispatcher may also wake up without having been notified. -/
def spuriousWakeup (s : ThreadPool) : Option ThreadPool :=
  match s.dispatcher with
  | .waiting => some { s with dispatcher := .woken }
  | _ => none

/-! ### The threads of the tasks -/

/-- The thread of the task goes on at `pc`. -/
def goTo (s : ThreadPool) (handle : Handle) (pc : RunTaskPc) : ThreadPool :=
  { s with handleToThread := s.handleToThread.insert handle pc }

/-- `SetUp` or `RunAtomic` of the task returns. -/
def taskReturns (s : ThreadPool) (handle : Handle) (status : TaskStatus) : Option ThreadPool :=
  match s.handleToThread.lookup handle with
  | some .setUp => some (s.goTo handle (.update status))
  | some .runAtomic => some (s.goTo handle (.update status))
  | _ => none

/-- The status that `UpdateTaskStatus` records. -/
def updatedStatus (s : ThreadPool) (handle : Handle) (status : TaskStatus) : TaskStatus :=
  if handle ∈ s.cancelledTasks then .cancelled else status

/-- The section of `UpdateTaskStatus`. -/
def updateTaskStatus (s : ThreadPool) (handle : Handle) (status : TaskStatus) : ThreadPool :=
  { s with handleToStatus := s.handleToStatus.insert handle (s.updatedStatus handle status) }

/-- The next step of `RunTask`, other than that `SetUp` or `RunAtomic` returns. -/
def runTask (s : ThreadPool) (handle : Handle) : Option ThreadPool :=
  match s.handleToThread.lookup handle with
  | some (.update status) =>
      some ((s.updateTaskStatus handle status).goTo handle
        (if s.updatedStatus handle status = .running then .runAtomic else .cleanUp))
  | some .cleanUp => some (s.goTo handle .complete)
  | some .complete =>
      some ({ s with numCompletedTasks := s.numCompletedTasks + 1 }.goTo handle .pushJoinable)
  | some .pushJoinable =>
      some ({ s with joinableQueue := s.joinableQueue ++ [handle] }.goTo handle .notifyDone)
  | some .notifyDone => some (s.goTo handle .returning)
  | some .returning => some (s.goTo handle .ended)
  | _ => none

/-! ### The joiner -/

/-- The bookkeeping of a finished task. -/
def finalize (s : ThreadPool) (handle : Handle) : ThreadPool :=
  { s with
    handleToTask := s.handleToTask.erase handle
    handleToThread := s.handleToThread.erase handle
    cancelledTasks := s.cancelledTasks.erase handle
    poolSize := s.poolSize - 1
    joiner := .notifyAvailable }

/-- The next step of `JoinerThread`. -/
def joinerThread (s : ThreadPool) : Option ThreadPool :=
  match s.joiner with
  | .pop =>
      match s.joinableQueue with
      | [] => none
      | handle :: rest => some { s with joinableQueue := rest, joiner := .finalize handle }
  | .finalize handle =>
      if s.shouldClose then some { s with joiner := .returning }
      else if s.handleToThread.lookup handle = some .ended then some (s.finalize handle)
      else none
  | .notifyAvailable => some { s.notifyAvailable with joiner := .pop }
  | .returning => some { s with joiner := .ended }
  | .ended => none

/-! ### The destructor -/

/-- The section of `~ThreadPool`. -/
def close (s : ThreadPool) : ThreadPool :=
  { s with
    cancelledTasks := s.cancelledTasks ∪ s.handleToTask
    shouldClose := true
    destructor := .pushDispatch }

/-- The next step of `~ThreadPool`, other than to join a thread of a task. It is called when every
`AddTask` has returned. -/
def destruct (s : ThreadPool) : Option ThreadPool :=
  match s.destructor with
  | .uncalled => if s.adding = [] then some s.close else none
  | .pushDispatch =>
      some { s with dispatchQueue := s.dispatchQueue ++ [0], destructor := .pushJoinable }
  | .pushJoinable =>
      some { s with joinableQueue := s.joinableQueue ++ [0], destructor := .notifyDone }
  | .notifyDone => some { s with destructor := .notifyAvailable }
  | .notifyAvailable => some { s.notifyAvailable with destructor := .joinDispatcher }
  | .joinDispatcher =>
      if s.dispatcher = .ended then some { s with destructor := .joinJoiner } else none
  | .joinJoiner =>
      if s.joiner = .ended then
        some { s with destructor := .joinThreads s.handleToThread.keys }
      else none
  | .joinThreads left => if left = ∅ then some { s with destructor := .returned } else none
  | .returned => none

/-- The loop of `~ThreadPool` joins one of the threads that are left. Which one comes next is for
the map to say. -/
def destructorJoin (s : ThreadPool) (handle : Handle) : Option ThreadPool :=
  match s.destructor with
  | .joinThreads left =>
      if handle ∈ left ∧ s.handleToThread.lookup handle = some .ended then
        some { s with destructor := .joinThreads (left.erase handle) }
      else none
  | _ => none

/-! ### The system -/

/-- Who goes on. -/
inductive Action
  | addTask (handle : Handle)
  | pushTask (handle : Handle)
  | getTaskStatus (handle : Handle)
  | cancelTask (handle : Handle)
  | dispatcher
  | spuriousWakeup
  | taskReturns (handle : Handle) (status : TaskStatus)
  | task (handle : Handle)
  | joiner
  | destructor
  | destructorJoin (handle : Handle)
  deriving DecidableEq, Repr

/-- One step of the pool. -/
def step (s : ThreadPool) : Action → Option ThreadPool
  | .addTask handle => s.addTask handle
  | .pushTask handle => s.pushTask handle
  | .getTaskStatus handle => (s.getTaskStatus handle).map fun _ => s
  | .cancelTask handle => some (s.cancelTask handle)
  | .dispatcher => s.dispatcherThread
  | .spuriousWakeup => s.spuriousWakeup
  | .taskReturns handle status => s.taskReturns handle status
  | .task handle => s.runTask handle
  | .joiner => s.joinerThread
  | .destructor => s.destruct
  | .destructorJoin handle => s.destructorJoin handle

end ThreadPool

end Csci6780
