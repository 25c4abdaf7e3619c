import Csci6780.ThreadPoolWork

/-!
# Progress of the Thread Pool

The pool does not lose a task and its threads do not wait for each other. Three invariants say what
each of them can rely on: `Kept` that in an open pool every task that was added is on its way, and
every thread that has pushed its handle is known to the joiner; `Awake` that the dispatcher waits
only while there are as many threads as there may be, or while the joiner is about to notify it; and
`Closing` that the dummies of the destructor wait for the dispatcher and the joiner, and that no
task is left that would go on.

With the work that is left this bounds what the threads do: they come to an end, and at the end
every task is finished, or the destructor has returned.

## Main results

* `ThreadPool.Kept.step`, `ThreadPool.Awake.step`, `ThreadPool.Closing.step`: every step keeps the
  invariants.
* `ThreadPool.added_tasks_finish`: the threads of an open pool come to rest, and then every task
  that was added has been joined.
* `ThreadPool.destructor_returns`: the destructor returns within the work that is left.
-/

namespace Csci6780

/-- The function has been left. -/
def DispatcherPc.stopped : DispatcherPc → Bool
  | .returning | .ended => true
  | _ => false

/-- The function has been left. -/
def JoinerPc.stopped : JoinerPc → Bool
  | .returning | .ended => true
  | _ => false

/-- The dispatcher of a closed pool goes no further than this. -/
def DispatcherPc.breaks : DispatcherPc → Bool
  | .dispatch _ | .returning | .ended => true
  | _ => false

/-- The joiner of a closed pool goes no further than this. -/
def JoinerPc.breaks : JoinerPc → Bool
  | .finalize _ | .returning | .ended => true
  | _ => false

/-- The dummy has been pushed on the dispatch queue. -/
def DestructorPc.pushedDispatch : DestructorPc → Bool
  | .uncalled | .pushDispatch => false
  | _ => true

/-- The dummy has been pushed on the joinable queue. -/
def DestructorPc.pushedJoinable : DestructorPc → Bool
  | .uncalled | .pushDispatch | .pushJoinable => false
  | _ => true

/-- The dispatcher has been notified by the destructor. -/
def DestructorPc.notified : DestructorPc → Bool
  | .joinDispatcher | .joinJoiner | .joinThreads _ | .returned => true
  | _ => false

namespace ThreadPool

/-- Nothing is lost in an open pool to which the tasks of `A` were added and which has created the
threads of `C`. -/
structure Kept (A C : List Handle) (s : ThreadPool) : Prop where
  tasks : ∀ h ∈ A, h ∈ s.waiting ∨ h ∈ C
  told : ∀ h, s.pushed h = true → h ∈ s.joinable
  dispatcher : s.dispatcher.stopped = false
  joiner : s.joiner.stopped = false

/-- The dispatcher does not wait for nothing. -/
structure Awake (s : ThreadPool) : Prop where
  limited : s.dispatcher = .waiting ∨ s.dispatcher = .woken → s.maxPoolSize ≠ 0
  full : s.dispatcher = .waiting → s.shouldClose = false →
    s.maxPoolSize ≤ s.poolSize ∨ s.joiner = .notifyAvailable

/-- Nobody is forgotten when the pool closes. -/
structure Closing (s : ThreadPool) : Prop where
  cancelled : s.shouldClose = true → ∀ h ∈ s.handleToThread, h ∈ s.cancelledTasks
  dispatchDummy : s.destructor.pushedDispatch = true →
    0 ∈ s.dispatchQueue ∨ s.dispatcher.breaks = true
  joinableDummy : s.destructor.pushedJoinable = true →
    0 ∈ s.joinableQueue ∨ s.joiner.breaks = true
  notified : s.destructor.notified = true → s.dispatcher ≠ .waiting

variable {s s' : ThreadPool} {a : Action} {h k : Handle} {A C J : List Handle}

/-! ### Nothing is lost -/

namespace Kept

theorem start (numThreads : UInt32) : Kept [] [] (constructed numThreads) where
  tasks _ hmem := absurd hmem List.not_mem_nil
  told _ hp := absurd (mem_of_pushed hp) Finmap.notMem_empty
  dispatcher := rfl
  joiner := rfl

/-- A step that drops no handle. -/
theorem frame (hk : Kept A C s) (hwaiting : ∀ h ∈ s.waiting, h ∈ s'.waiting)
    (hjoinable : ∀ h ∈ s.joinable, h ∈ s'.joinable) (hpushed : ∀ h, s'.pushed h = s.pushed h)
    (hdispatcher : s'.dispatcher.stopped = false) (hjoiner : s'.joiner.stopped = false) :
    Kept A C s' where
  tasks h hA := (hk.tasks h hA).imp_left (hwaiting h)
  told h hp := hjoinable h (hk.told h (hpushed h ▸ hp))
  dispatcher := hdispatcher
  joiner := hjoiner

/-- The dispatcher goes on without a handle. -/
theorem goOn (hk : Kept A C s) (hheld : s.dispatcher.held = []) (pc : DispatcherPc)
    (hpc : pc.stopped = false) : Kept A C { s with dispatcher := pc } := by
  refine hk.frame (fun h hw => ?_) (fun _ hj => hj) (fun _ => rfl) hpc hk.joiner
  rw [ThreadPool.waiting, hheld, List.append_nil] at hw
  exact List.mem_append_left _ hw

/-- A thread goes on that has pushed its handle before and after, or neither. -/
theorem goTo (hk : Kept A C s) {pc : RunTaskPc} (hpc : s.handleToThread.lookup h = some pc)
    (pc' : RunTaskPc) (hpushed : pc'.pushed = pc.pushed) : Kept A C (s.goTo h pc') := by
  refine hk.frame (fun _ hw => hw) (fun _ hj => hj) (fun k => ?_) hk.dispatcher hk.joiner
  by_cases hkh : k = h
  · subst hkh
    rw [pushed_goTo_self, hpushed, pushed_of_lookup hpc]
  · exact pushed_goTo_of_ne hkh s pc'

theorem addTask (hk : Kept A C s) (h : Handle) :
    Kept (A ++ [h]) C { s with
      handleToTask := insert h s.handleToTask
      handleToStatus := s.handleToStatus.insert h .running
      adding := s.adding ++ [h] } := by
  refine { hk with tasks := fun k hA => ?_ }
  simp only [ThreadPool.waiting, List.mem_append, List.mem_singleton] at hA ⊢
  rcases hA with hA | rfl
  · have hold := hk.tasks k hA
    simp only [ThreadPool.waiting, List.mem_append] at hold
    tauto
  · exact .inl (.inl (.inl (.inr rfl)))

theorem pushTask (hk : Kept A C s) (h : Handle) :
    Kept A C { s with adding := s.adding.erase h, dispatchQueue := s.dispatchQueue ++ [h] } := by
  refine hk.frame (fun k hw => ?_) (fun _ hj => hj) (fun _ => rfl) hk.dispatcher hk.joiner
  simp only [ThreadPool.waiting, List.mem_append, List.mem_singleton] at hw ⊢
  by_cases hkh : k = h
  · exact .inl (.inr (.inr hkh))
  · rw [List.mem_erase_of_ne hkh]
    tauto

theorem popsTask (hk : Kept A C s) {rest : List Handle} (hpc : s.dispatcher = .pop)
    (hqueue : s.dispatchQueue = h :: rest) :
    Kept A C { s with dispatchQueue := rest, dispatcher := .dispatch h } := by
  refine hk.frame (fun k hw => ?_) (fun _ hj => hj) (fun _ => rfl) rfl hk.joiner
  simp only [ThreadPool.waiting, hpc, hqueue, DispatcherPc.held, List.mem_append, List.mem_cons,
    List.not_mem_nil, or_false] at hw ⊢
  tauto

/-- A handle leaves the tasks that wait when its thread is created. -/
theorem dispatches (hk : Kept A C s) (hpc : s.dispatcher = .dispatch h)
    (hfree : h ∉ s.handleToThread) :
    Kept A (C ++ [h]) { s with
      handleToThread := s.handleToThread.insert h .setUp
      dispatcher := .reserve } := by
  refine ⟨fun k hA => ?_, fun k hp => hk.told k ?_, rfl, hk.joiner⟩
  · have hold := hk.tasks k hA
    simp only [ThreadPool.waiting, hpc, DispatcherPc.held, List.mem_append, List.mem_singleton,
      List.not_mem_nil, or_false] at hold ⊢
    tauto
  · by_cases hkh : k = h
    · subst hkh
      have hnew : (s.goTo k .setUp).pushed k = false := pushed_goTo_self s k .setUp
      exact absurd hp (Bool.eq_false_iff.mp hnew)
    · exact (pushed_goTo_of_ne hkh s .setUp).symm.trans hp

/-- A thread pushes its handle. -/
theorem pushes (hk : Kept A C s) (h : Handle) (pc : RunTaskPc) :
    Kept A C ({ s with joinableQueue := s.joinableQueue ++ [h] }.goTo h pc) := by
  refine { hk with told := fun k hp => ?_ }
  show k ∈ s.joinableQueue ++ [h] ++ s.joiner.held
  by_cases hkh : k = h
  · subst hkh
    exact List.mem_append_left _ (List.mem_append_right _ (List.mem_singleton_self k))
  · have hsame : s.pushed k = true :=
      (pushed_goTo_of_ne hkh { s with joinableQueue := s.joinableQueue ++ [h] } pc).symm.trans hp
    have hold := hk.told k hsame
    simp only [ThreadPool.joinable, List.mem_append] at hold ⊢
    tauto

theorem popsJoinable (hk : Kept A C s) {rest : List Handle} (hpc : s.joiner = .pop)
    (hqueue : s.joinableQueue = h :: rest) :
    Kept A C { s with joinableQueue := rest, joiner := .finalize h } := by
  refine hk.frame (fun _ hw => hw) (fun k hj => ?_) (fun _ => rfl) hk.dispatcher rfl
  simp only [ThreadPool.joinable, hpc, hqueue, JoinerPc.held, List.mem_append, List.mem_cons,
    List.not_mem_nil, or_false] at hj ⊢
  tauto

/-- The joiner lets go of a handle whose thread has left. -/
theorem finalizes (hk : Kept A C s) (hpc : s.joiner = .finalize h) : Kept A C (s.finalize h) := by
  refine { hk with told := fun k hp => ?_, joiner := rfl }
  by_cases hkh : k = h
  · subst hkh
    exact absurd (mem_of_pushed hp) (Finmap.notMem_erase_self)
  · have hsame : s.pushed k = true := by
      rw [pushed] at hp ⊢
      rwa [← Finmap.lookup_erase_ne hkh]
    have hold := hk.told k hsame
    simp only [ThreadPool.joinable, ThreadPool.finalize, hpc, JoinerPc.held, List.mem_append,
      List.mem_singleton, List.not_mem_nil, or_false] at hold ⊢
    tauto

theorem notifyAvailable (hk : Kept A C s) : Kept A C s.notifyAvailable := by
  rw [ThreadPool.notifyAvailable]
  split
  · next hpc => exact hk.goOn (by rw [hpc]; rfl) .woken rfl
  · exact hk

/-- A step that adds no task and creates no thread. -/
theorem silent (hk : Kept A C s') (hadded : a.addedTask = []) (hcreated : createdThread s a = []) :
    Kept (A ++ a.addedTask) (C ++ createdThread s a) s' := by
  rw [hadded, hcreated, List.append_nil, List.append_nil]
  exact hk

theorem step (hk : Kept A C s) (hp : Phases s) (hst : Stepped s a s')
    (hopen : s'.shouldClose = false) :
    Kept (A ++ a.addedTask) (C ++ createdThread s a) s' := by
  have huncalled := hp.closing.mp (open_of_open hst hopen)
  have hidle : s.dispatcher.held = [] → createdThread s .dispatcher = [] := by
    intro hheld
    rw [createdThread]
    split
    · next h hpc =>
        rw [hpc] at hheld
        cases hheld
    · rfl
  cases hst with
  | addTask h hopen =>
      simp only [createdThread, List.append_nil]
      exact hk.addTask h
  | pushTask h hadding => exact silent (hk.pushTask h) rfl rfl
  | getTaskStatus h status hstatus => exact silent hk rfl rfl
  | cancelTask h => exact silent { hk with } rfl rfl
  | waits hpc hfull =>
      have hheld : s.dispatcher.held = [] := by rcases hpc with hpc | hpc <;> rw [hpc] <;> rfl
      exact silent (hk.goOn hheld _ rfl) rfl (hidle hheld)
  | reserves hpc hfree =>
      have hheld : s.dispatcher.held = [] := by rcases hpc with hpc | hpc <;> rw [hpc] <;> rfl
      exact silent { hk.goOn hheld .pop rfl with } rfl (hidle hheld)
  | popsTask h rest hpc hqueue =>
      exact silent (hk.popsTask hpc hqueue) rfl (hidle (by rw [hpc]; rfl))
  | dispatches h hpc hopen htask hfree =>
      have hone : createdThread s .dispatcher = [h] := by
        rw [createdThread, hpc]
        exact if_neg (Bool.eq_false_iff.mp hopen)
      simp only [Action.addedTask, hone, List.append_nil]
      exact hk.dispatches hpc hfree
  | dispatcherBreaks h hpc hclose => cases hclose.symm.trans hopen
  | dispatcherEnds hpc =>
      have hruns := hk.dispatcher
      rw [hpc] at hruns
      cases hruns
  | spuriousWakeup hpc => exact silent (hk.goOn (by rw [hpc]; rfl) _ rfl) rfl rfl
  | taskReturns h status pc hpc hcall =>
      exact silent (hk.goTo hpc _ (by rcases hcall with rfl | rfl <;> rfl)) rfl rfl
  | updates h status hpc =>
      exact silent { hk.goTo hpc _ (by split <;> rfl) with } rfl rfl
  | cleansUp h hpc => exact silent (hk.goTo hpc _ rfl) rfl rfl
  | completes h hpc => exact silent { hk.goTo hpc .pushJoinable rfl with } rfl rfl
  | pushes h hpc => exact silent (hk.pushes h _) rfl rfl
  | notifies h hpc => exact silent (hk.goTo hpc _ rfl) rfl rfl
  | taskEnds h hpc => exact silent (hk.goTo hpc _ rfl) rfl rfl
  | popsJoinable h rest hpc hqueue => exact silent (hk.popsJoinable hpc hqueue) rfl rfl
  | finalizes h hpc hopen hended => exact silent (hk.finalizes hpc) rfl rfl
  | joinerBreaks h hpc hclose => cases hclose.symm.trans hopen
  | joinerNotifies hpc =>
      have hnotified := hk.notifyAvailable
      rw [notifyAvailable_eq] at hnotified ⊢
      refine silent { hnotified with told := fun h hp => ?_, joiner := rfl } rfl rfl
      have hold := hnotified.told h hp
      rwa [ThreadPool.joinable, hpc] at hold
  | joinerEnds hpc =>
      have hruns := hk.joiner
      rw [hpc] at hruns
      cases hruns
  | closes hpc hadding => cases hopen
  | pushesDispatch hpc => cases huncalled.symm.trans hpc
  | pushesJoinable hpc => cases huncalled.symm.trans hpc
  | notifiesDone hpc => cases huncalled.symm.trans hpc
  | notifiesAvailable hpc => cases huncalled.symm.trans hpc
  | joinsDispatcher hpc hended => cases huncalled.symm.trans hpc
  | joinsJoiner hpc hended => cases huncalled.symm.trans hpc
  | joinsThread h left hpc hleft hended => cases huncalled.symm.trans hpc
  | returns hpc => cases huncalled.symm.trans hpc

end Kept

/-! ### The dispatcher is awake -/

/-- The dispatcher comes to wait only where there is a limit. -/
theorem limited_of_waits (hstep : s.dispatcherThread = some s')
    (hpc : s.dispatcher = .reserve ∨ s.dispatcher = .woken) (hwaiting : s'.dispatcher = .waiting)
    (hlimited : s.dispatcher = .woken → s.maxPoolSize ≠ 0) : s.maxPoolSize ≠ 0 := by
  rcases hpc with hpc | hpc
  · intro hzero
    simp [dispatcherThread, hpc, mustWait, hzero, reserveSlot] at hstep
    subst hstep
    cases hwaiting
  · exact hlimited hpc

/-- A notified dispatcher does not wait. -/
theorem not_waiting_notifyAvailable (s : ThreadPool) : s.notifyAvailable.dispatcher ≠ .waiting := by
  rw [notifyAvailable]
  split
  · exact fun h => by cases h
  · next hpc => exact hpc

theorem woken_of_notifyAvailable (hwoken : s.notifyAvailable.dispatcher = .woken) :
    s.dispatcher = .waiting ∨ s.dispatcher = .woken := by
  rw [notifyAvailable] at hwoken
  split at hwoken
  · next hpc => exact .inl hpc
  · exact .inr hwoken

namespace Awake

theorem start (numThreads : UInt32) : Awake (constructed numThreads) where
  limited h := by rcases h with h | h <;> cases h
  full h := by cases h

/-- A step that lets the dispatcher and the slots alone. -/
theorem frame (hw : Awake s) (hdispatcher : s'.dispatcher = s.dispatcher)
    (hmax : s'.maxPoolSize = s.maxPoolSize) (hpool : s'.poolSize = s.poolSize)
    (hclose : s'.shouldClose = false → s.shouldClose = false)
    (hjoiner : s.joiner = .notifyAvailable → s'.joiner = .notifyAvailable) : Awake s' where
  limited h := by
    rw [hmax]
    exact hw.limited (hdispatcher ▸ h)
  full h hopen := by
    rw [hmax, hpool]
    exact (hw.full (hdispatcher ▸ h) (hclose hopen)).imp_right hjoiner

/-- A step after which the dispatcher does not wait. -/
theorem goesOn (hw : Awake s) (hmax : s'.maxPoolSize = s.maxPoolSize)
    (hdispatcher : s'.dispatcher ≠ .waiting)
    (hwoken : s'.dispatcher = .woken → s.dispatcher = .waiting ∨ s.dispatcher = .woken) :
    Awake s' where
  limited h := by
    rw [hmax]
    exact hw.limited (h.elim (fun h => absurd h hdispatcher) hwoken)
  full h := absurd h hdispatcher

/-- **A step after which the dispatcher does not wait for nothing.** -/
theorem step (hw : Awake s) (hstep : s.step a = some s') : Awake s' := by
  have hst := stepped_of_step hstep
  cases hst with
  | addTask h hopen => exact hw.frame rfl rfl rfl id id
  | pushTask h hadding => exact hw.frame rfl rfl rfl id id
  | getTaskStatus h status hstatus => exact hw
  | cancelTask h => exact hw.frame rfl rfl rfl id id
  | waits hpc hfull =>
      have hlimit := limited_of_waits hstep hpc rfl fun h => hw.limited (.inr h)
      exact ⟨fun _ => hlimit, fun _ _ => .inl hfull⟩
  | reserves hpc hfree => exact hw.goesOn rfl (fun h => by cases h) (fun h => by cases h)
  | popsTask h rest hpc hqueue => exact hw.goesOn rfl (fun h => by cases h) (fun h => by cases h)
  | dispatches h hpc hopen htask hfree =>
      exact hw.goesOn rfl (fun h => by cases h) (fun h => by cases h)
  | dispatcherBreaks h hpc hclose => exact hw.goesOn rfl (fun h => by cases h) (fun h => by cases h)
  | dispatcherEnds hpc => exact hw.goesOn rfl (fun h => by cases h) (fun h => by cases h)
  | spuriousWakeup hpc => exact hw.goesOn rfl (fun h => by cases h) (fun _ => .inl hpc)
  | taskReturns h status pc hpc hcall => exact hw.frame rfl rfl rfl id id
  | updates h status hpc => exact hw.frame rfl rfl rfl id id
  | cleansUp h hpc => exact hw.frame rfl rfl rfl id id
  | completes h hpc => exact hw.frame rfl rfl rfl id id
  | pushes h hpc => exact hw.frame rfl rfl rfl id id
  | notifies h hpc => exact hw.frame rfl rfl rfl id id
  | taskEnds h hpc => exact hw.frame rfl rfl rfl id id
  | popsJoinable h rest hpc hqueue =>
      exact hw.frame rfl rfl rfl id fun h => by cases hpc.symm.trans h
  | finalizes h hpc hopen hended => exact ⟨hw.limited, fun _ _ => .inr rfl⟩
  | joinerBreaks h hpc hclose => exact hw.frame rfl rfl rfl id fun h => by cases hpc.symm.trans h
  | joinerNotifies hpc =>
      rw [notifyAvailable_eq]
      exact hw.goesOn rfl (not_waiting_notifyAvailable s) woken_of_notifyAvailable
  | joinerEnds hpc => exact hw.frame rfl rfl rfl id fun h => by cases hpc.symm.trans h
  | closes hpc hadding => exact ⟨hw.limited, fun _ h => by cases h⟩
  | pushesDispatch hpc => exact hw.frame rfl rfl rfl id id
  | pushesJoinable hpc => exact hw.frame rfl rfl rfl id id
  | notifiesDone hpc => exact hw.frame rfl rfl rfl id id
  | notifiesAvailable hpc =>
      rw [notifyAvailable_eq]
      exact hw.goesOn rfl (not_waiting_notifyAvailable s) woken_of_notifyAvailable
  | joinsDispatcher hpc hended => exact hw.frame rfl rfl rfl id id
  | joinsJoiner hpc hended => exact hw.frame rfl rfl rfl id id
  | joinsThread h left hpc hleft hended => exact hw.frame rfl rfl rfl id id
  | returns hpc => exact hw.frame rfl rfl rfl id id

end Awake

/-! ### The pool closes -/

namespace Closing

theorem start (numThreads : UInt32) : Closing (constructed numThreads) where
  cancelled h := by cases h
  dispatchDummy h := by cases h
  joinableDummy h := by cases h
  notified h := by cases h

/-- In an open pool there is nothing to say. -/
theorem of_open (hp : Phases s) (hopen : s.shouldClose = false) : Closing s := by
  have huncalled := hp.closing.mp hopen
  refine ⟨fun h => absurd (hopen.symm.trans h) Bool.false_ne_true, ?_, ?_, ?_⟩ <;>
    · rw [huncalled]
      exact fun h => by cases h

/-- The dispatcher goes on, and does not wait. -/
theorem dispatcher (hc : Closing s) (pc : DispatcherPc) (hbreaks : s.dispatcher.breaks = true →
    pc.breaks = true) (hpc : pc ≠ .waiting) : Closing { s with dispatcher := pc } where
  cancelled := hc.cancelled
  dispatchDummy h := (hc.dispatchDummy h).imp_right hbreaks
  joinableDummy := hc.joinableDummy
  notified _ := hpc

/-- The joiner goes on. -/
theorem joiner (hc : Closing s) (pc : JoinerPc) (hbreaks : s.joiner.breaks = true →
    pc.breaks = true) : Closing { s with joiner := pc } where
  cancelled := hc.cancelled
  dispatchDummy := hc.dispatchDummy
  joinableDummy h := (hc.joinableDummy h).imp_right hbreaks
  notified := hc.notified

/-- The destructor goes on after it has pushed its dummies. -/
theorem destructor (hc : Closing s) (pc : DestructorPc)
    (hdispatch : s.destructor.pushedDispatch = true)
    (hjoinable : s.destructor.pushedJoinable = true)
    (hnotified : pc.notified = true → s.dispatcher ≠ .waiting) :
    Closing { s with destructor := pc } where
  cancelled := hc.cancelled
  dispatchDummy _ := hc.dispatchDummy hdispatch
  joinableDummy _ := hc.joinableDummy hjoinable
  notified := hnotified

theorem goTo (hc : Closing s) {pc : RunTaskPc} (hpc : s.handleToThread.lookup h = some pc)
    (pc' : RunTaskPc) : Closing (s.goTo h pc') := by
  refine { hc with cancelled := fun hclose k hk => hc.cancelled hclose k ?_ }
  rcases Finmap.mem_insert.mp hk with rfl | hk
  · exact mem_handleToThread hpc
  · exact hk

theorem notifyAvailable (hc : Closing s) : Closing s.notifyAvailable := by
  rw [ThreadPool.notifyAvailable]
  split
  · next hpc =>
      refine hc.dispatcher .woken (fun h => ?_) (fun h => by cases h)
      rw [hpc] at h
      cases h
  · exact hc

/-- To close the pool cancels all its tasks, also those that have a thread. -/
theorem closes (hh : Handles A C J s) (hopen : s.shouldClose = false) : Closing s.close where
  cancelled _ h hthread :=
    Finset.mem_union_right _ (hh.tasks h (genuine_of_open hopen h) (.inr hthread))
  dispatchDummy h := by cases h
  joinableDummy h := by cases h
  notified h := by cases h

/-- **A step after which nobody is forgotten.** -/
theorem step (hc : Closing s) (hh : Handles A C J s) (hp : Phases s) (hstep : s.step a = some s') :
    Closing s' := by
  have hst := stepped_of_step hstep
  have hp' := hp.step hst
  cases hst with
  | addTask h hopen => exact { hc with }
  | pushTask h hadding =>
      exact { hc with
        dispatchDummy := fun h => (hc.dispatchDummy h).imp_left (List.mem_append_left _) }
  | getTaskStatus h status hstatus => exact hc
  | cancelTask h =>
      exact { hc with cancelled := fun hclose k hk =>
        Finset.mem_insert_of_mem (hc.cancelled hclose k hk) }
  | waits hpc hfull =>
      have hopen := open_of_waits hstep hpc rfl
      exact of_open hp' hopen
  | reserves hpc hfree =>
      refine { hc.dispatcher .pop (fun h => ?_) (fun h => by cases h) with }
      rcases hpc with hpc | hpc <;>
        · rw [hpc] at h
          cases h
  | popsTask h rest hpc hqueue =>
      exact { hc with dispatchDummy := fun _ => .inr rfl, notified := fun _ h => by cases h }
  | dispatches h hpc hopen htask hfree => exact of_open hp' hopen
  | dispatcherBreaks h hpc hclose =>
      exact hc.dispatcher .returning (fun _ => rfl) (fun h => by cases h)
  | dispatcherEnds hpc => exact hc.dispatcher .ended (fun _ => rfl) (fun h => by cases h)
  | spuriousWakeup hpc =>
      refine hc.dispatcher .woken (fun h => ?_) (fun h => by cases h)
      rw [hpc] at h
      cases h
  | taskReturns h status pc hpc hcall => exact hc.goTo hpc _
  | updates h status hpc => exact { hc.goTo hpc _ with }
  | cleansUp h hpc => exact hc.goTo hpc _
  | completes h hpc => exact { hc.goTo hpc .pushJoinable with }
  | pushes h hpc =>
      exact { hc.goTo hpc .notifyDone with
        joinableDummy := fun h => (hc.joinableDummy h).imp_left (List.mem_append_left _) }
  | notifies h hpc => exact hc.goTo hpc _
  | taskEnds h hpc => exact hc.goTo hpc _
  | popsJoinable h rest hpc hqueue => exact { hc with joinableDummy := fun _ => .inr rfl }
  | finalizes h hpc hopen hended => exact of_open hp' hopen
  | joinerBreaks h hpc hclose => exact hc.joiner .returning fun _ => rfl
  | joinerNotifies hpc =>
      refine hc.notifyAvailable.joiner .pop fun h => ?_
      rw [notifyAvailable_eq, hpc] at h
      cases h
  | joinerEnds hpc => exact hc.joiner .ended fun _ => rfl
  | closes hpc hadding => exact closes hh (hp.closing.mpr hpc)
  | pushesDispatch hpc =>
      exact { hc with
        dispatchDummy := fun _ => .inl (List.mem_append_right _ (List.mem_singleton_self 0))
        joinableDummy := fun h => by cases h
        notified := fun h => by cases h }
  | pushesJoinable hpc =>
      exact { hc with
        dispatchDummy := fun _ => hc.dispatchDummy (by rw [hpc]; rfl)
        joinableDummy := fun _ => .inl (List.mem_append_right _ (List.mem_singleton_self 0))
        notified := fun h => by cases h }
  | notifiesDone hpc =>
      exact hc.destructor _ (by rw [hpc]; rfl) (by rw [hpc]; rfl) fun h => by cases h
  | notifiesAvailable hpc =>
      have hsame : s.notifyAvailable.destructor = .notifyAvailable := by
        rw [notifyAvailable_eq]
        exact hpc
      exact hc.notifyAvailable.destructor _ (by rw [hsame]; rfl) (by rw [hsame]; rfl)
        fun _ => not_waiting_notifyAvailable s
  | joinsDispatcher hpc hended =>
      exact hc.destructor _ (by rw [hpc]; rfl) (by rw [hpc]; rfl)
        fun _ => hc.notified (by rw [hpc]; rfl)
  | joinsJoiner hpc hended =>
      exact hc.destructor _ (by rw [hpc]; rfl) (by rw [hpc]; rfl)
        fun _ => hc.notified (by rw [hpc]; rfl)
  | joinsThread h left hpc hleft hended =>
      exact hc.destructor _ (by rw [hpc]; rfl) (by rw [hpc]; rfl)
        fun _ => hc.notified (by rw [hpc]; rfl)
  | returns hpc =>
      exact hc.destructor _ (by rw [hpc]; rfl) (by rw [hpc]; rfl)
        fun _ => hc.notified (by rw [hpc]; rfl)

end Closing

/-! ### Every run -/

/-- **The invariants of progress hold in every run** that adds different tasks. -/
theorem progress_of_run {numThreads : UInt32} {acts : List Action}
    (hrun : runFrom step (constructed numThreads) acts = some s) (hnodup : (added acts).Nodup)
    (hnonzero : 0 ∉ added acts) :
    (s.shouldClose = false → Kept (added acts) (created numThreads acts) s) ∧ Awake s ∧
      Closing s := by
  refine history_inv (fun acts s => (added acts).Nodup → 0 ∉ added acts →
    (s.shouldClose = false → Kept (added acts) (created numThreads acts) s) ∧ Awake s ∧
      Closing s) ?_ ?_ hrun hnodup hnonzero
  · exact fun _ _ => ⟨fun _ => .start numThreads, .start numThreads, .start numThreads⟩
  · intro acts m a m' hm ih hstep hnodup hnonzero
    rw [added_concat] at hnodup hnonzero
    have hnodup' := hnodup.of_append_left
    have hnonzero' : 0 ∉ added acts := fun h0 => hnonzero (List.mem_append_left _ h0)
    obtain ⟨hk, hw, hc⟩ := ih hnodup' hnonzero'
    obtain ⟨hh, -, hp⟩ := invariants_of_run hm hnodup' hnonzero'
    have hst := stepped_of_step hstep
    rw [created, collect_concat hm, added_concat]
    exact ⟨fun hopen => (hk (open_of_open hst hopen)).step hp hst hopen, hw.step hstep,
      hc.step hh hp hstep⟩

/-! ### At rest -/

/-- No thread of the pool can go on, and no `AddTask` is on its way. -/
def Rests (s : ThreadPool) : Prop :=
  ∀ a : Action, a.ofPool = true → a ≠ .spuriousWakeup → a ≠ .destructor → s.step a = none

namespace Rests

theorem adding (hr : Rests s) : s.adding = [] := by
  refine List.eq_nil_iff_forall_not_mem.mpr fun h hmem => ?_
  have hnone := hr (.pushTask h) rfl (fun h => by cases h) (fun h => by cases h)
  rw [step, ThreadPool.pushTask, if_pos hmem] at hnone
  cases hnone

/-- A thread of a task rests at its end. -/
theorem ended (hr : Rests s) (hmem : h ∈ s.handleToThread) :
    s.handleToThread.lookup h = some .ended := by
  obtain ⟨pc, hpc⟩ := Option.isSome_iff_exists.mp (Finmap.lookup_isSome.mpr hmem)
  have hcall := hr (.taskReturns h .done) rfl (fun h => by cases h) (fun h => by cases h)
  have htask := hr (.task h) rfl (fun h => by cases h) (fun h => by cases h)
  rw [step, taskReturns, hpc] at hcall
  rw [step, runTask, hpc] at htask
  cases pc with
  | ended => exact hpc
  | setUp => cases hcall
  | runAtomic => cases hcall
  | update status => cases htask
  | cleanUp => cases htask
  | complete => cases htask
  | pushJoinable => cases htask
  | notifyDone => cases htask
  | returning => cases htask

/-- The joiner rests before an empty queue, or has ended. -/
theorem joiner (hr : Rests s) (hh : Handles A C J s) :
    s.joiner = .pop ∧ s.joinableQueue = [] ∨ s.joiner = .ended := by
  have hnone := hr .joiner rfl (fun h => by cases h) (fun h => by cases h)
  rw [step, joinerThread] at hnone
  cases hpc : s.joiner with
  | ended => exact .inr rfl
  | pop =>
      refine .inl ⟨rfl, ?_⟩
      cases hqueue : s.joinableQueue with
      | nil => rfl
      | cons h rest => simp [hpc, hqueue] at hnone
  | finalize h =>
      cases hclose : s.shouldClose with
      | true => simp [hpc, hclose] at hnone
      | false => simp [hpc, hclose, hr.ended (hh.finalized hpc hclose)] at hnone
  | notifyAvailable => simp [hpc] at hnone
  | returning => simp [hpc] at hnone

/-- The dispatcher rests waiting, before an empty queue, or has ended. -/
theorem dispatcher (hr : Rests s) (hh : Handles A C J s) :
    s.dispatcher = .waiting ∨ s.dispatcher = .pop ∧ s.dispatchQueue = [] ∨
      s.dispatcher = .ended := by
  have hnone := hr .dispatcher rfl (fun h => by cases h) (fun h => by cases h)
  rw [step, dispatcherThread] at hnone
  cases hpc : s.dispatcher with
  | ended => exact .inr (.inr rfl)
  | waiting => exact .inl rfl
  | pop =>
      refine .inr (.inl ⟨rfl, ?_⟩)
      cases hqueue : s.dispatchQueue with
      | nil => rfl
      | cons h rest => simp [hpc, hqueue] at hnone
  | reserve => simp [hpc] at hnone
  | woken => simp [hpc] at hnone
  | dispatch h =>
      cases hclose : s.shouldClose with
      | true => simp [hpc, hclose] at hnone
      | false =>
          have hcrash := hh.not_crashes
          simp only [Crashes, not_or] at hcrash
          have htask : h ∈ s.handleToTask ∧ h ∉ s.handleToThread := by
            by_contra hnot
            refine hcrash.1 ⟨h, hpc, hclose, ?_⟩
            rw [not_and_or, not_not] at hnot
            exact hnot
          simp [hpc, hclose, htask] at hnone
  | returning => simp [hpc] at hnone

/-- **An open pool that rests has nothing left to do.** -/
theorem done (hr : Rests s) (hh : Handles A C J s) (hk : Kept A C s) (hs : Slots s)
    (hw : Awake s) (hopen : s.shouldClose = false) :
    s.dispatcher = .pop ∧ s.waiting = [] ∧ s.handleToThread = ∅ ∧ ∀ h ∈ A, h ∈ J := by
  have hjoiner : s.joiner = .pop ∧ s.joinableQueue = [] := by
    refine (hr.joiner hh).resolve_right fun hended => ?_
    have hruns := hk.joiner
    rw [hended] at hruns
    cases hruns
  -- An ended thread would have told the joiner, whose queue is empty.
  have hnone : ∀ h, h ∉ s.handleToThread := by
    intro h hmem
    have htold := hk.told h (by rw [pushed_of_lookup (hr.ended hmem)]; rfl)
    rw [joinable, hjoiner.1, hjoiner.2] at htold
    cases htold
  have hempty : s.handleToThread = ∅ :=
    Finmap.ext_lookup fun h => Finmap.lookup_eq_none.mpr (hnone h)
  have hdispatcher : s.dispatcher = .pop ∧ s.dispatchQueue = [] := by
    rcases hr.dispatcher hh with hwaiting | hpop | hended
    · exfalso
      have hlimit := hw.limited (.inl hwaiting)
      have hfull := (hw.full hwaiting hopen).resolve_right
        (by rw [hjoiner.1]; exact fun h => by cases h)
      have hcounter := hs.counter
      rw [threads, hempty, reserved, hwaiting] at hcounter
      have hpool : s.poolSize = 0 := UInt32.toNat_inj.mp hcounter
      rw [hpool] at hfull
      exact hlimit (UInt32.le_zero_iff.mp hfull)
    · exact hpop
    · have hruns := hk.dispatcher
      rw [hended] at hruns
      cases hruns
  have hwaiting : s.waiting = [] := by
    rw [waiting, hr.adding, hdispatcher.1, hdispatcher.2]
    rfl
  refine ⟨hdispatcher.1, hwaiting, hempty, fun h hA => ?_⟩
  have hC : h ∈ C := (hk.tasks h hA).resolve_left (by rw [hwaiting]; exact List.not_mem_nil)
  have heq := hh.unjoined h
  rw [if_neg fun hmem => hnone h (hh.left h hmem), Nat.add_zero] at heq
  exact List.count_pos_iff.mp (heq ▸ List.count_pos_iff.mpr hC)

/-- **The destructor of a pool that rests has returned**, unless it has not been called. -/
theorem returned (hr : Rests s) (hdestructor : s.step .destructor = none) (hh : Handles A C J s)
    (hc : Closing s) (hcalled : s.destructor ≠ .uncalled) : s.destructor = .returned := by
  rw [step, destruct] at hdestructor
  cases hpc : s.destructor with
  | uncalled => exact absurd hpc hcalled
  | returned => rfl
  | pushDispatch => simp [hpc] at hdestructor
  | pushJoinable => simp [hpc] at hdestructor
  | notifyDone => simp [hpc] at hdestructor
  | notifyAvailable => simp [hpc] at hdestructor
  | joinDispatcher =>
      have hended : s.dispatcher = .ended := by
        rcases hr.dispatcher hh with hwaiting | hpop | hended
        · exact absurd hwaiting (hc.notified (by rw [hpc]; rfl))
        · have hdummy := hc.dispatchDummy (by rw [hpc]; rfl)
          rw [hpop.1, hpop.2] at hdummy
          rcases hdummy with hdummy | hdummy <;> cases hdummy
        · exact hended
      simp [hpc, hended] at hdestructor
  | joinJoiner =>
      have hended : s.joiner = .ended := by
        refine (hr.joiner hh).resolve_left fun hpop => ?_
        have hdummy := hc.joinableDummy (by rw [hpc]; rfl)
        rw [hpop.1, hpop.2] at hdummy
        rcases hdummy with hdummy | hdummy <;> cases hdummy
      simp [hpc, hended] at hdestructor
  | joinThreads left =>
      have hnone : left = ∅ := by
        refine Finset.eq_empty_iff_forall_notMem.mpr fun h hleft => ?_
        have hthread : h ∈ s.handleToThread := hh.left h (by rw [unjoined, hpc]; exact hleft)
        have hjoin := hr (.destructorJoin h) rfl (fun h => by cases h) (fun h => by cases h)
        rw [step, destructorJoin, hpc] at hjoin
        simp [hleft, hr.ended hthread] at hjoin
      simp [hpc, hnone] at hdestructor

end Rests

/-! ### The main results -/

/-- The threads of the pool add no task. -/
theorem added_of_ofPool {more : List Action} (hpool : ∀ a ∈ more, a.ofPool = true) :
    added more = [] := by
  refine List.flatMap_eq_nil_iff.mpr fun a ha => ?_
  have hof := hpool a ha
  cases a <;> first | rfl | cases hof

/-- A task of a closed pool that has a thread is not asked to go on. -/
theorem renewal_of_closed (hc : Closing s) (hclose : s.shouldClose = true)
    (hst : Stepped s a s') : s.renewal a = [] := by
  cases hst with
  | taskReturns h status pc hpc hcall =>
      exact if_neg fun hnot => hnot.2 (hc.cancelled hclose h (mem_handleToThread hpc))
  | spuriousWakeup hpc => exact if_pos hclose
  | _ => rfl

theorem shouldClose_of_closed (hst : Stepped s a s') (hclose : s.shouldClose = true) :
    s'.shouldClose = true :=
  Bool.eq_true_of_not_eq_false fun hopen => by
    rw [open_of_open hst hopen] at hclose
    cases hclose

/-- **Every task that was added is finished.** In every run of a constructed pool whose tasks have
pairwise different handles other than 0, what the threads of the pool do afterwards is bounded by
the work that is left and by what renews it. While the destructor has not been called, they rest
only when every task that was added has been joined: no thread is left, and the dispatcher stands
before an empty queue. -/
theorem added_tasks_finish (numThreads : UInt32) (acts more : List Action) {s s' : ThreadPool}
    (hrun : runFrom step (constructed numThreads) acts = some s) (hnodup : (added acts).Nodup)
    (hnonzero : 0 ∉ added acts) (hmore : runFrom step s more = some s')
    (hpool : ∀ a ∈ more, a.ofPool = true) (hopen : s'.destructor = .uncalled) :
    more.length + s'.work ≤ s.work + 2 * (s.renewals more).length ∧
    (s'.Rests → s'.dispatcher = .pop ∧ s'.waiting = [] ∧ s'.handleToThread = ∅ ∧
      ∀ h ∈ added acts, h ∈ joined numThreads (acts ++ more)) := by
  refine ⟨length_le_work hmore hpool, fun hr => ?_⟩
  have hall : runFrom step (constructed numThreads) (acts ++ more) = some s' := by
    rw [runFrom_append, hrun, Option.bind_some, hmore]
  have hadded : added (acts ++ more) = added acts := by
    rw [added, List.flatMap_append, ← added, ← added, added_of_ofPool hpool, List.append_nil]
  obtain ⟨hh, hs, hp⟩ := invariants_of_run hall (hadded ▸ hnodup) (hadded ▸ hnonzero)
  obtain ⟨hk, hw, -⟩ := progress_of_run hall (hadded ▸ hnodup) (hadded ▸ hnonzero)
  have hclose := hp.closing.mpr hopen
  have hdone := hr.done hh (hk hclose) hs hw hclose
  rwa [hadded] at hdone

/-- Two tasks are added, and the second one is cancelled. -/
def addTwo : List Action := [.addTask 1, .pushTask 1, .addTask 2, .cancelTask 2, .pushTask 2]

/-- A pool of one thread runs the first task to its end and then the second. -/
def runTwo : List Action :=
  [.dispatcher, .dispatcher, .dispatcher, .dispatcher, .taskReturns 1 .running, .task 1,
    .taskReturns 1 .done, .task 1, .task 1, .task 1, .task 1, .task 1, .task 1, .joiner, .joiner,
    .joiner, .dispatcher, .dispatcher, .dispatcher, .taskReturns 2 .running, .task 2, .task 2,
    .task 2, .task 2, .task 2, .task 2, .joiner, .joiner, .joiner, .dispatcher]

theorem added_tasks_finish_two :
    ∃ s s', runFrom step (constructed 1) addTwo = some s ∧ runFrom step s runTwo = some s' ∧
      runTwo.length + s'.work ≤ s.work + 2 * (s.renewals runTwo).length ∧
      (s'.Rests → s'.dispatcher = .pop ∧ s'.waiting = [] ∧ s'.handleToThread = ∅ ∧
        ∀ h ∈ added addTwo, h ∈ joined 1 (addTwo ++ runTwo)) :=
  ⟨_, _, rfl, rfl, added_tasks_finish 1 addTwo runTwo rfl (by decide) (by decide) rfl
    (by decide) rfl⟩

/-- **The destructor returns.** In every run of a constructed pool whose tasks have pairwise
different handles other than 0, once the destructor has been called the threads of the pool take no
more steps than there is work left, whatever the tasks return; and they can always go on before the
destructor has returned. -/
theorem destructor_returns (numThreads : UInt32) (acts more : List Action) {s s' : ThreadPool}
    (hrun : runFrom step (constructed numThreads) acts = some s) (hnodup : (added acts).Nodup)
    (hnonzero : 0 ∉ added acts) (hcalled : s.destructor ≠ .uncalled)
    (hmore : runFrom step s more = some s') (hpool : ∀ a ∈ more, a.ofPool = true) :
    more.length + s'.work ≤ s.work ∧
    (s'.destructor = .returned ∨
      ∃ a, a.ofPool = true ∧ a ≠ .spuriousWakeup ∧ (s'.step a).isSome = true) := by
  have hinv : ∀ pre m, pre <+: more → runFrom step s pre = some m →
      (∃ A C J, Handles A C J m) ∧ Phases m ∧ Closing m := by
    rintro pre m ⟨rest, rfl⟩ hm
    have hall : runFrom step (constructed numThreads) (acts ++ pre) = some m := by
      rw [runFrom_append, hrun, Option.bind_some, hm]
    have hadded : added (acts ++ pre) = added acts := by
      rw [added, List.flatMap_append, ← added, ← added,
        added_of_ofPool fun a ha => hpool a (List.mem_append_left _ ha), List.append_nil]
    obtain ⟨hh, -, hp⟩ := invariants_of_run hall (hadded ▸ hnodup) (hadded ▸ hnonzero)
    exact ⟨⟨_, _, _, hh⟩, hp, (progress_of_run hall (hadded ▸ hnodup) (hadded ▸ hnonzero)).2.2⟩
  have hclose : s.shouldClose = true := (hinv [] s List.nil_prefix rfl).2.1.closed hcalled
  have hclosed : EachState step (fun m => m.shouldClose = true) s more :=
    .of_inv_always _ (fun m a m' hm hstep => shouldClose_of_closed (stepped_of_step hstep) hm)
      hclose more
  constructor
  · have hnone : s.renewals more = [] := by
      refine collect_eq_nil fun pre a m hpre hm => ?_
      obtain ⟨m', -, hstep, -, -, -⟩ := runFrom_after hmore hpre hm
      have hbefore := (List.prefix_append pre [a]).trans hpre
      exact renewal_of_closed (hinv pre m hbefore hm).2.2 (hclosed pre m hbefore hm)
        (stepped_of_step hstep)
    have hlength := length_le_work hmore hpool
    rw [hnone] at hlength
    exact hlength
  · obtain ⟨⟨A, C, J, hh⟩, hp, hc⟩ := hinv more s' List.prefix_rfl hmore
    have hcalled' : s'.destructor ≠ .uncalled := fun h => by
      have hopen := hp.closing.mpr h
      rw [hclosed more s' List.prefix_rfl hmore] at hopen
      cases hopen
    by_contra hnot
    rw [not_or, not_exists] at hnot
    have hstuck : ∀ a : Action, a.ofPool = true → a ≠ .spuriousWakeup → s'.step a = none :=
      fun a hof hsure => Option.not_isSome_iff_eq_none.mp fun hsome => hnot.2 a ⟨hof, hsure, hsome⟩
    have hrests : Rests s' := fun a hof hsure _ => hstuck a hof hsure
    exact hnot.1 (hrests.returned (hstuck .destructor rfl fun h => by cases h) hh hc hcalled')

/-- The destructor is called while one task runs and another one waits. -/
def closeTwo : List Action :=
  [.addTask 1, .pushTask 1, .dispatcher, .dispatcher, .dispatcher, .dispatcher, .addTask 2,
    .pushTask 2, .destructor]

/-- The destructor goes on until it returns. -/
def destroyTwo : List Action :=
  [.destructor, .destructor, .destructor, .destructor, .dispatcher, .dispatcher, .dispatcher,
    .dispatcher, .destructor, .joiner, .joiner, .joiner, .destructor, .taskReturns 1 .running,
    .task 1, .task 1, .task 1, .task 1, .task 1, .task 1, .destructorJoin 1, .destructor]

theorem destructor_returns_two :
    ∃ s s', runFrom step (constructed 1) closeTwo = some s ∧
      runFrom step s destroyTwo = some s' ∧ destroyTwo.length + s'.work ≤ s.work ∧
      (s'.destructor = .returned ∨
        ∃ a, a.ofPool = true ∧ a ≠ .spuriousWakeup ∧ (s'.step a).isSome = true) :=
  ⟨_, _, rfl, rfl, destructor_returns 1 closeTwo destroyTwo rfl (by decide) (by decide)
    (fun h => by cases h) rfl (by decide)⟩

end ThreadPool

end Csci6780
