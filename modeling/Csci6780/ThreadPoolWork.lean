import Csci6780.ThreadPoolInvariants
import Mathlib.Algebra.Order.BigOperators.Group.Finset

/-!
# The Work that is left in the Thread Pool

A number for each state that goes down with every step of the pool's own threads: what the handles
that wait, the dispatcher, the threads of the tasks, the joiner and the destructor have still to do.
A handle that waits is worth the work of the thread that it becomes, and a thread that of the handle
that it pushes.

Two things renew the work: a task that is not cancelled returns `RUNNING`, and the dispatcher of an
open pool wakes up without having been notified. A closed pool has cancelled all its tasks, so in it
nothing renews the work.

## Main results

* `ThreadPool.work_step`: a step does some of the work that is left.
* `ThreadPool.length_le_work`: how long the pool's threads can go on.
-/

namespace Csci6780

/-! ### What each thread has to do -/

/-- What a thread has to do until its end, if its task is cancelled or not. -/
def RunTaskPc.work (cancelled : Bool) : RunTaskPc → ℕ
  | .setUp => 11
  | .runAtomic => 11
  | .update status => if status = .running ∧ cancelled = false then 12 else 10
  | .cleanUp => 9
  | .complete => 8
  | .pushJoinable => 7
  | .notifyDone => 2
  | .returning => 1
  | .ended => 0

/-- What the dispatcher has to do before it comes to a handle, and the handle that it holds. In a
closed pool it does not wait again. -/
def DispatcherPc.work (closed : Bool) : DispatcherPc → ℕ
  | .reserve => 1
  | .waiting => if closed then 2 else 0
  | .woken => 1
  | .pop => 0
  | .dispatch _ => 14
  | .returning => 1
  | .ended => 0

/-- What the joiner has to do before it comes to a handle, and the handle that it holds. -/
def JoinerPc.work : JoinerPc → ℕ
  | .pop => 0
  | .finalize _ => 3
  | .notifyAvailable => 2
  | .returning => 1
  | .ended => 0

/-- What the destructor has to do until it returns, with so many threads in the pool. -/
def DestructorPc.work (threads : ℕ) : DestructorPc → ℕ
  | .uncalled => threads + 30
  | .pushDispatch => threads + 27
  | .pushJoinable => threads + 11
  | .notifyDone => threads + 6
  | .notifyAvailable => threads + 5
  | .joinDispatcher => threads + 3
  | .joinJoiner => threads + 2
  | .joinThreads left => left.card + 1
  | .returned => 0

theorem DestructorPc.work_mono {m n : ℕ} (pc : DestructorPc) (hle : m ≤ n) :
    pc.work m ≤ pc.work n := by
  cases pc <;> simp only [work] <;> omega

theorem DestructorPc.work_succ_le (pc : DestructorPc) (threads : ℕ) :
    pc.work (threads + 1) ≤ pc.work threads + 1 := by
  cases pc <;> simp only [work] <;> omega

/-- To close the pool makes the dispatcher's work two steps longer at most. -/
theorem DispatcherPc.work_closed_le (pc : DispatcherPc) (closed : Bool) :
    pc.work true ≤ pc.work closed + 2 := by
  cases closed <;> cases pc <;> simp [work]

/-- A task that is cancelled has no more to do than one that is not. -/
theorem RunTaskPc.work_cancelled_le (pc : RunTaskPc) (cancelled : Bool) :
    pc.work true ≤ pc.work cancelled := by
  cases cancelled with
  | true => exact Nat.le_refl _
  | false =>
      cases pc with
      | update status => cases status <;> decide
      | _ => exact Nat.le_refl _

namespace ThreadPool

/-- What the thread of a handle has to do. -/
def workOf (s : ThreadPool) (h : Handle) : ℕ :=
  ((s.handleToThread.lookup h).map (RunTaskPc.work (decide (h ∈ s.cancelledTasks)))).getD 0

/-- What the threads of the tasks have to do. -/
def threadWork (s : ThreadPool) : ℕ := ∑ h ∈ s.handleToThread.keys, s.workOf h

/-- What there is to do for the handles that wait, and what the dispatcher, the joiner and the
destructor have to do. -/
def restWork (s : ThreadPool) : ℕ :=
  16 * s.adding.length + 15 * s.dispatchQueue.length + s.dispatcher.work s.shouldClose +
    4 * s.joinableQueue.length + s.joiner.work + s.destructor.work s.threads

/-- The work that is left. -/
def work (s : ThreadPool) : ℕ := s.threadWork + s.restWork

/-- The action is one of a thread of the pool, of an `AddTask` that has come to its `Push`, or of
the destructor. -/
def Action.ofPool : Action → Bool
  | .addTask _ => false
  | .getTaskStatus _ => false
  | .cancelTask _ => false
  | _ => true

/-- The step renews the work that is left. -/
def renewal (s : ThreadPool) : Action → List Unit
  | .taskReturns h status =>
      if status = .running ∧ h ∉ s.cancelledTasks then [()] else []
  | .spuriousWakeup => if s.shouldClose then [] else [()]
  | _ => []

/-- What renews the work in a run that goes on from a state. -/
def renewals (s : ThreadPool) (acts : List Action) : List Unit := collect step renewal s acts

variable {s s' : ThreadPool} {a : Action} {h : Handle}

/-! ### One step -/

theorem workOf_of_lookup {pc : RunTaskPc} (hpc : s.handleToThread.lookup h = some pc) :
    s.workOf h = pc.work (decide (h ∈ s.cancelledTasks)) := by
  rw [workOf, hpc, Option.map_some, Option.getD_some]

/-- A thread that goes on does its own work only. -/
theorem threadWork_goTo {pc : RunTaskPc} (hpc : s.handleToThread.lookup h = some pc)
    (pc' : RunTaskPc) :
    (s.goTo h pc').threadWork + pc.work (decide (h ∈ s.cancelledTasks)) =
      s.threadWork + pc'.work (decide (h ∈ s.cancelledTasks)) := by
  have hmem : h ∈ s.handleToThread.keys := Finmap.mem_keys.mpr (mem_handleToThread hpc)
  have hkeys := keys_goTo (mem_handleToThread hpc) pc'
  have hrest : ∑ k ∈ s.handleToThread.keys.erase h, (s.goTo h pc').workOf k =
      ∑ k ∈ s.handleToThread.keys.erase h, s.workOf k := by
    refine Finset.sum_congr rfl fun k hk => ?_
    rw [workOf, workOf, lookup_goTo_of_ne (Finset.ne_of_mem_erase hk)]
    rfl
  have hself : (s.goTo h pc').workOf h = pc'.work (decide (h ∈ s.cancelledTasks)) :=
    workOf_of_lookup (lookup_goTo_self s h pc')
  rw [threadWork, threadWork, hkeys, ← Finset.add_sum_erase _ _ hmem, hrest, hself,
    ← Finset.add_sum_erase _ _ hmem, workOf_of_lookup hpc]
  omega

/-- A new thread has all its work before it. -/
theorem threadWork_insert (hfree : h ∉ s.handleToThread) :
    threadWork { s with handleToThread := s.handleToThread.insert h .setUp } =
      s.threadWork + 11 := by
  have hnotMem : h ∉ s.handleToThread.keys := fun hmem => hfree (Finmap.mem_keys.mp hmem)
  rw [threadWork, threadWork, keys_insert, Finset.sum_insert hnotMem, workOf,
    Finmap.lookup_insert, Option.map_some, Option.getD_some, RunTaskPc.work, Nat.add_comm]
  refine congrArg (· + 11) (Finset.sum_congr rfl fun k hk => ?_)
  rw [workOf, workOf, Finmap.lookup_insert_of_ne _ (ne_of_mem_of_not_mem hk hnotMem)]

/-- An ended thread has no work when it leaves. -/
theorem threadWork_finalize (hended : s.handleToThread.lookup h = some .ended) :
    (s.finalize h).threadWork = s.threadWork := by
  have hmem : h ∈ s.handleToThread.keys := Finmap.mem_keys.mpr (mem_handleToThread hended)
  have hkeys : (s.finalize h).handleToThread.keys = s.handleToThread.keys.erase h :=
    Finmap.keys_erase h s.handleToThread
  rw [threadWork, threadWork, hkeys, ← Finset.add_sum_erase _ _ hmem, workOf_of_lookup hended,
    RunTaskPc.work, Nat.zero_add]
  refine Finset.sum_congr rfl fun k hk => ?_
  have hne := Finset.ne_of_mem_erase hk
  have hcancelled : k ∈ (s.finalize h).cancelledTasks ↔ k ∈ s.cancelledTasks :=
    Finset.mem_erase.trans (and_iff_right hne)
  have hlookup : (s.finalize h).handleToThread.lookup k = s.handleToThread.lookup k :=
    Finmap.lookup_erase_ne hne
  rw [workOf, workOf, hlookup, decide_eq_decide.mpr hcancelled]

/-- To cancel tasks makes no work. -/
theorem threadWork_close (s : ThreadPool) : s.close.threadWork ≤ s.threadWork := by
  refine Finset.sum_le_sum fun h _ => ?_
  rw [workOf, workOf]
  show ((s.handleToThread.lookup h).map _).getD 0 ≤ _
  cases s.handleToThread.lookup h with
  | none => exact Nat.le_refl _
  | some pc =>
      rw [Option.map_some, Option.map_some, Option.getD_some, Option.getD_some]
      by_cases hmem : h ∈ s.cancelledTasks
      · have hclose : h ∈ s.close.cancelledTasks := Finset.mem_union_left _ hmem
        rw [decide_eq_true hmem, decide_eq_true hclose]
      · rw [decide_eq_false hmem]
        cases hd : decide (h ∈ s.close.cancelledTasks) with
        | true => exact RunTaskPc.work_cancelled_le pc false
        | false => exact Nat.le_refl _

/-- The dispatcher of a closed pool does not wait again. -/
theorem open_of_waits (hstep : s.dispatcherThread = some s')
    (hpc : s.dispatcher = .reserve ∨ s.dispatcher = .woken) (hwaiting : s'.dispatcher = .waiting) :
    s.shouldClose = false := by
  by_contra hnot
  have hclosed : s.shouldClose = true := Bool.not_eq_false _ ▸ hnot
  rcases hpc with hpc | hpc
  · simp [dispatcherThread, hpc, mustWait, hclosed, reserveSlot] at hstep
    subst hstep
    cases hwaiting
  · simp [dispatcherThread, hpc, hclosed, reserveSlot] at hstep
    subst hstep
    cases hwaiting

/-- A notification of the dispatcher makes one step of work at most. -/
theorem work_notifyAvailable (s : ThreadPool) :
    s.notifyAvailable.dispatcher.work s.shouldClose ≤ s.dispatcher.work s.shouldClose + 1 := by
  rw [notifyAvailable]
  split
  · next hpc =>
      rw [hpc]
      show 1 ≤ _
      omega
  · exact Nat.le_succ _

/-- A step that leaves the threads of the tasks alone. -/
theorem work_of_same {k : ℕ} (hthreads : s'.handleToThread = s.handleToThread)
    (hcancelled : s'.cancelledTasks = s.cancelledTasks)
    (hrest : s'.restWork + 1 ≤ s.restWork + k) : s'.work + 1 ≤ s.work + k := by
  have hsame : s'.threadWork = s.threadWork := by
    rw [threadWork, threadWork, hthreads]
    refine Finset.sum_congr rfl fun h _ => ?_
    rw [workOf, workOf, hthreads, hcancelled]
  rw [work, work, hsame]
  omega

/-- A step in which only a thread of a task goes on. -/
theorem work_goTo {pc : RunTaskPc} {k : ℕ} (hpc : s.handleToThread.lookup h = some pc)
    (pc' : RunTaskPc)
    (hless : pc'.work (decide (h ∈ s.cancelledTasks)) + 1 ≤
      pc.work (decide (h ∈ s.cancelledTasks)) + k) : (s.goTo h pc').work + 1 ≤ s.work + k := by
  have hthread := threadWork_goTo hpc pc'
  have hrest : (s.goTo h pc').restWork = s.restWork := by
    rw [restWork, restWork, threads_goTo (mem_handleToThread hpc)]
    rfl
  rw [work, work, hrest]
  omega

/-- **A step does some of the work that is left**, but for what it renews. -/
theorem work_step (hstep : s.step a = some s') (ha : a.ofPool = true) :
    s'.work + 1 ≤ s.work + 2 * (s.renewal a).length := by
  have hst := stepped_of_step hstep
  cases hst with
  | addTask h hopen => cases ha
  | getTaskStatus h status hstatus => cases ha
  | cancelTask h => cases ha
  | pushTask h hadding =>
      have hlength := List.length_erase_add_one hadding
      refine work_of_same rfl rfl ?_
      simp only [restWork, threads, List.length_append, List.length_singleton]
      omega
  | waits hpc hfull =>
      have hopen := open_of_waits hstep hpc rfl
      refine work_of_same rfl rfl ?_
      rcases hpc with hpc | hpc <;>
        · simp only [restWork, threads, hpc, hopen, DispatcherPc.work, Bool.false_eq_true, if_false]
          omega
  | reserves hpc hfree =>
      refine work_of_same rfl rfl ?_
      rcases hpc with hpc | hpc <;>
        · simp only [restWork, threads, reserveSlot, hpc, DispatcherPc.work]
          omega
  | popsTask h rest hpc hqueue =>
      refine work_of_same rfl rfl ?_
      simp only [restWork, threads, hpc, hqueue, DispatcherPc.work, List.length_cons]
      omega
  | dispatches h hpc hopen htask hfree =>
      have hthread := threadWork_insert hfree
      have hcard := threads_insert hfree .setUp
      have hdestructor := s.destructor.work_succ_le s.threads
      show threadWork { s with handleToThread := s.handleToThread.insert h .setUp } + _ + 1 ≤ _
      rw [hthread, work]
      simp only [restWork, threads, hcard, hpc, DispatcherPc.work] at hdestructor ⊢
      omega
  | dispatcherBreaks h hpc hclose =>
      refine work_of_same rfl rfl ?_
      simp only [restWork, threads, hpc, DispatcherPc.work]
      omega
  | dispatcherEnds hpc =>
      refine work_of_same rfl rfl ?_
      simp only [restWork, threads, hpc, DispatcherPc.work]
      omega
  | spuriousWakeup hpc =>
      refine work_of_same rfl rfl ?_
      cases hclosed : s.shouldClose with
      | false =>
          simp only [restWork, threads, renewal, hpc, hclosed, DispatcherPc.work,
            Bool.false_eq_true, if_false, List.length_singleton]
          omega
      | true =>
          simp only [restWork, threads, renewal, hpc, hclosed, DispatcherPc.work, if_true,
            List.length_nil]
          omega
  | taskReturns h status pc hpc hcall =>
      refine work_goTo hpc _ ?_
      rcases hcall with rfl | rfl <;>
        · by_cases hc : h ∈ s.cancelledTasks <;> by_cases hr : status = .running <;>
            simp [RunTaskPc.work, renewal, hc, hr]
  | updates h status hpc =>
      refine work_goTo (s := s.updateTaskStatus h status) hpc _ ?_
      by_cases hc : h ∈ s.cancelledTasks <;> by_cases hr : status = .running <;>
        simp [RunTaskPc.work, updateTaskStatus, updatedStatus, hc, hr]
  | cleansUp h hpc => exact work_goTo hpc _ (Nat.le_refl _)
  | completes h hpc => exact work_goTo hpc .pushJoinable (Nat.le_refl _)
  | pushes h hpc =>
      have hthread := threadWork_goTo hpc .notifyDone
      have hcard := threads_goTo (mem_handleToThread hpc) .notifyDone
      show (s.goTo h .notifyDone).threadWork + _ + 1 ≤ _
      rw [work, RunTaskPc.work, RunTaskPc.work] at *
      have hrest : ({ s with joinableQueue := s.joinableQueue ++ [h] }.goTo h .notifyDone).restWork
          = s.restWork + 4 := by
        have hsame : ({ s with joinableQueue := s.joinableQueue ++ [h] }.goTo h .notifyDone).threads
          = s.threads := hcard
        rw [restWork, restWork, hsame]
        simp only [goTo, List.length_append, List.length_singleton]
        omega
      rw [hrest]
      omega
  | notifies h hpc => exact work_goTo hpc _ (Nat.le_refl _)
  | taskEnds h hpc => exact work_goTo hpc _ (Nat.le_refl _)
  | popsJoinable h rest hpc hqueue =>
      refine work_of_same rfl rfl ?_
      simp only [restWork, threads, hpc, hqueue, JoinerPc.work, List.length_cons]
      omega
  | finalizes h hpc hopen hended =>
      have hthread := threadWork_finalize hended
      have hcard := threads_erase (mem_handleToThread hended)
      have hdestructor := s.destructor.work_mono (Nat.le_of_succ_le (Nat.le_of_eq hcard))
      rw [work, work, hthread]
      simp only [restWork, threads, finalize, hpc, JoinerPc.work] at hdestructor ⊢
      omega
  | joinerBreaks h hpc hclose =>
      refine work_of_same rfl rfl ?_
      simp only [restWork, threads, hpc, JoinerPc.work]
      omega
  | joinerNotifies hpc =>
      have hnotify := work_notifyAvailable s
      rw [notifyAvailable_eq]
      refine work_of_same rfl rfl ?_
      simp only [restWork, threads, hpc, JoinerPc.work]
      omega
  | joinerEnds hpc =>
      refine work_of_same rfl rfl ?_
      simp only [restWork, threads, hpc, JoinerPc.work]
      omega
  | closes hpc hadding =>
      have hthread := s.threadWork_close
      have hdispatcher := s.dispatcher.work_closed_le s.shouldClose
      have hrest : s.close.restWork + 1 ≤ s.restWork := by
        show 16 * s.adding.length + 15 * s.dispatchQueue.length + s.dispatcher.work true +
          4 * s.joinableQueue.length + s.joiner.work + (s.threads + 27) + 1 ≤ _
        rw [restWork, hpc, DestructorPc.work]
        omega
      rw [work, work]
      omega
  | pushesDispatch hpc =>
      refine work_of_same rfl rfl ?_
      simp only [restWork, threads, hpc, DestructorPc.work, List.length_append,
        List.length_singleton]
      omega
  | pushesJoinable hpc =>
      refine work_of_same rfl rfl ?_
      simp only [restWork, threads, hpc, DestructorPc.work, List.length_append,
        List.length_singleton]
      omega
  | notifiesDone hpc =>
      refine work_of_same rfl rfl ?_
      simp only [restWork, threads, hpc, DestructorPc.work]
      omega
  | notifiesAvailable hpc =>
      have hnotify := work_notifyAvailable s
      rw [notifyAvailable_eq]
      refine work_of_same rfl rfl ?_
      simp only [restWork, threads, hpc, DestructorPc.work]
      omega
  | joinsDispatcher hpc hended =>
      refine work_of_same rfl rfl ?_
      simp only [restWork, threads, hpc, DestructorPc.work]
      omega
  | joinsJoiner hpc hended =>
      refine work_of_same rfl rfl ?_
      simp only [restWork, threads, hpc, DestructorPc.work]
      omega
  | joinsThread h left hpc hleft hended =>
      have hcard := Finset.card_erase_add_one hleft
      refine work_of_same rfl rfl ?_
      simp only [restWork, hpc, DestructorPc.work]
      omega
  | returns hpc =>
      refine work_of_same rfl rfl ?_
      simp only [restWork, hpc, DestructorPc.work]
      omega

/-! ### A run -/

/-- **How long the pool's threads can go on**: no longer than there is work, and what renews it. -/
theorem length_le_work {acts : List Action} (hrun : runFrom step s acts = some s')
    (hacts : ∀ a ∈ acts, a.ofPool = true) :
    acts.length + s'.work ≤ s.work + 2 * (s.renewals acts).length := by
  exact runFrom_length_le (fun _ => True) work (fun _ _ _ _ _ _ => trivial)
    (fun _ _ _ _ ha hstep => work_step hstep ha) trivial (.of_forall s hacts) hrun

end ThreadPool

end Csci6780
