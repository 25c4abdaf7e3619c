import Csci6780.ThreadPool

/-!
# One Step of the Thread Pool

What a step of the pool does, said once: `Stepped` has a case for each kind of step, with what it
takes and the state it leaves written out. What holds in every run is proved from these cases,
without unfolding a step again.

## Main results

* `ThreadPool.stepped_of_step`: every step is one of the cases of `Stepped`.
* `ThreadPool.keys_goTo`: a thread that goes on stays in `handleToThread`.
-/

namespace Csci6780

namespace ThreadPool

variable {s s' : ThreadPool} {a : Action} {h k : Handle}

/-- The kinds of steps. -/
inductive Stepped (s : ThreadPool) : Action → ThreadPool → Prop
  | addTask (h : Handle) (hopen : s.destructor = .uncalled) :
      Stepped s (.addTask h)
        { s with
          handleToTask := insert h s.handleToTask
          handleToStatus := s.handleToStatus.insert h .running
          adding := s.adding ++ [h] }
  | pushTask (h : Handle) (hadding : h ∈ s.adding) :
      Stepped s (.pushTask h)
        { s with adding := s.adding.erase h, dispatchQueue := s.dispatchQueue ++ [h] }
  | getTaskStatus (h : Handle) (status : TaskStatus) (hstatus : s.getTaskStatus h = some status) :
      Stepped s (.getTaskStatus h) s
  | cancelTask (h : Handle) : Stepped s (.cancelTask h) (s.cancelTask h)
  | waits (hpc : s.dispatcher = .reserve ∨ s.dispatcher = .woken)
      (hfull : s.maxPoolSize ≤ s.poolSize) :
      Stepped s .dispatcher { s with dispatcher := .waiting }
  | reserves (hpc : s.dispatcher = .reserve ∨ s.dispatcher = .woken)
      (hfree : s.shouldClose = false → s.maxPoolSize ≠ 0 → s.poolSize < s.maxPoolSize) :
      Stepped s .dispatcher s.reserveSlot
  | popsTask (h : Handle) (rest : List Handle) (hpc : s.dispatcher = .pop)
      (hqueue : s.dispatchQueue = h :: rest) :
      Stepped s .dispatcher { s with dispatchQueue := rest, dispatcher := .dispatch h }
  | dispatches (h : Handle) (hpc : s.dispatcher = .dispatch h) (hopen : s.shouldClose = false)
      (htask : h ∈ s.handleToTask) (hfree : h ∉ s.handleToThread) :
      Stepped s .dispatcher
        { s with
          handleToThread := s.handleToThread.insert h .setUp
          dispatcher := .reserve }
  | dispatcherBreaks (h : Handle) (hpc : s.dispatcher = .dispatch h)
      (hclose : s.shouldClose = true) :
      Stepped s .dispatcher { s with dispatcher := .returning }
  | dispatcherEnds (hpc : s.dispatcher = .returning) :
      Stepped s .dispatcher { s with dispatcher := .ended }
  | spuriousWakeup (hpc : s.dispatcher = .waiting) :
      Stepped s .spuriousWakeup { s with dispatcher := .woken }
  | taskReturns (h : Handle) (status : TaskStatus) (pc : RunTaskPc)
      (hpc : s.handleToThread.lookup h = some pc) (hcall : pc = .setUp ∨ pc = .runAtomic) :
      Stepped s (.taskReturns h status) (s.goTo h (.update status))
  | updates (h : Handle) (status : TaskStatus)
      (hpc : s.handleToThread.lookup h = some (.update status)) :
      Stepped s (.task h) ((s.updateTaskStatus h status).goTo h
        (if s.updatedStatus h status = .running then .runAtomic else .cleanUp))
  | cleansUp (h : Handle) (hpc : s.handleToThread.lookup h = some .cleanUp) :
      Stepped s (.task h) (s.goTo h .complete)
  | completes (h : Handle) (hpc : s.handleToThread.lookup h = some .complete) :
      Stepped s (.task h)
        ({ s with numCompletedTasks := s.numCompletedTasks + 1 }.goTo h .pushJoinable)
  | pushes (h : Handle) (hpc : s.handleToThread.lookup h = some .pushJoinable) :
      Stepped s (.task h) ({ s with joinableQueue := s.joinableQueue ++ [h] }.goTo h .notifyDone)
  | notifies (h : Handle) (hpc : s.handleToThread.lookup h = some .notifyDone) :
      Stepped s (.task h) (s.goTo h .returning)
  | taskEnds (h : Handle) (hpc : s.handleToThread.lookup h = some .returning) :
      Stepped s (.task h) (s.goTo h .ended)
  | popsJoinable (h : Handle) (rest : List Handle) (hpc : s.joiner = .pop)
      (hqueue : s.joinableQueue = h :: rest) :
      Stepped s .joiner { s with joinableQueue := rest, joiner := .finalize h }
  | finalizes (h : Handle) (hpc : s.joiner = .finalize h) (hopen : s.shouldClose = false)
      (hended : s.handleToThread.lookup h = some .ended) :
      Stepped s .joiner (s.finalize h)
  | joinerBreaks (h : Handle) (hpc : s.joiner = .finalize h) (hclose : s.shouldClose = true) :
      Stepped s .joiner { s with joiner := .returning }
  | joinerNotifies (hpc : s.joiner = .notifyAvailable) :
      Stepped s .joiner { s.notifyAvailable with joiner := .pop }
  | joinerEnds (hpc : s.joiner = .returning) : Stepped s .joiner { s with joiner := .ended }
  | closes (hpc : s.destructor = .uncalled) (hadding : s.adding = []) :
      Stepped s .destructor s.close
  | pushesDispatch (hpc : s.destructor = .pushDispatch) :
      Stepped s .destructor
        { s with dispatchQueue := s.dispatchQueue ++ [0], destructor := .pushJoinable }
  | pushesJoinable (hpc : s.destructor = .pushJoinable) :
      Stepped s .destructor
        { s with joinableQueue := s.joinableQueue ++ [0], destructor := .notifyDone }
  | notifiesDone (hpc : s.destructor = .notifyDone) :
      Stepped s .destructor { s with destructor := .notifyAvailable }
  | notifiesAvailable (hpc : s.destructor = .notifyAvailable) :
      Stepped s .destructor { s.notifyAvailable with destructor := .joinDispatcher }
  | joinsDispatcher (hpc : s.destructor = .joinDispatcher) (hended : s.dispatcher = .ended) :
      Stepped s .destructor { s with destructor := .joinJoiner }
  | joinsJoiner (hpc : s.destructor = .joinJoiner) (hended : s.joiner = .ended) :
      Stepped s .destructor { s with destructor := .joinThreads s.handleToThread.keys }
  | joinsThread (h : Handle) (left : Finset Handle) (hpc : s.destructor = .joinThreads left)
      (hleft : h ∈ left) (hended : s.handleToThread.lookup h = some .ended) :
      Stepped s (.destructorJoin h) { s with destructor := .joinThreads (left.erase h) }
  | returns (hpc : s.destructor = .joinThreads ∅) :
      Stepped s .destructor { s with destructor := .returned }

/-! ### Every step is one of these -/

theorem stepped_of_dispatcherThread (hstep : s.dispatcherThread = some s') :
    Stepped s .dispatcher s' := by
  rw [dispatcherThread] at hstep
  split at hstep
  · next hpc =>
      split at hstep
      · next hwait =>
          obtain rfl := Option.some.inj hstep
          refine .waits (.inl hpc) ?_
          simp only [mustWait, Bool.and_eq_true, decide_eq_true_iff] at hwait
          exact hwait.1.2
      · next hwait =>
          obtain rfl := Option.some.inj hstep
          refine .reserves (.inl hpc) fun hopen hlimit => ?_
          simpa [mustWait, hopen, hlimit] using hwait
  · cases hstep
  · next hpc =>
      split at hstep
      · next hfree =>
          obtain rfl := Option.some.inj hstep
          refine .reserves (.inr hpc) fun hopen _ => ?_
          rw [hopen] at hfree
          simpa using hfree
      · next hfull =>
          obtain rfl := Option.some.inj hstep
          rw [not_or] at hfull
          exact .waits (.inr hpc) (UInt32.not_lt.mp hfull.1)
  · next hpc =>
      split at hstep
      · cases hstep
      · next h rest hqueue =>
          obtain rfl := Option.some.inj hstep
          exact .popsTask h rest hpc hqueue
  · next h hpc =>
      split at hstep
      · next hclose =>
          obtain rfl := Option.some.inj hstep
          exact .dispatcherBreaks h hpc hclose
      · next hopen =>
          split at hstep
          · next hnew =>
              obtain rfl := Option.some.inj hstep
              exact .dispatches h hpc (Bool.eq_false_iff.mpr hopen) hnew.1 hnew.2
          · cases hstep
  · next hpc =>
      obtain rfl := Option.some.inj hstep
      exact .dispatcherEnds hpc
  · cases hstep

theorem stepped_of_runTask (hstep : s.runTask h = some s') : Stepped s (.task h) s' := by
  rw [runTask] at hstep
  split at hstep
  · next status hpc =>
      obtain rfl := Option.some.inj hstep
      exact .updates h status hpc
  · next hpc =>
      obtain rfl := Option.some.inj hstep
      exact .cleansUp h hpc
  · next hpc =>
      obtain rfl := Option.some.inj hstep
      exact .completes h hpc
  · next hpc =>
      obtain rfl := Option.some.inj hstep
      exact .pushes h hpc
  · next hpc =>
      obtain rfl := Option.some.inj hstep
      exact .notifies h hpc
  · next hpc =>
      obtain rfl := Option.some.inj hstep
      exact .taskEnds h hpc
  · cases hstep

theorem stepped_of_joinerThread (hstep : s.joinerThread = some s') : Stepped s .joiner s' := by
  rw [joinerThread] at hstep
  split at hstep
  · next hpc =>
      split at hstep
      · cases hstep
      · next h rest hqueue =>
          obtain rfl := Option.some.inj hstep
          exact .popsJoinable h rest hpc hqueue
  · next h hpc =>
      split at hstep
      · next hclose =>
          obtain rfl := Option.some.inj hstep
          exact .joinerBreaks h hpc hclose
      · next hopen =>
          split at hstep
          · next hended =>
              obtain rfl := Option.some.inj hstep
              exact .finalizes h hpc (Bool.eq_false_iff.mpr hopen) hended
          · cases hstep
  · next hpc =>
      obtain rfl := Option.some.inj hstep
      exact .joinerNotifies hpc
  · next hpc =>
      obtain rfl := Option.some.inj hstep
      exact .joinerEnds hpc
  · cases hstep

theorem stepped_of_destruct (hstep : s.destruct = some s') : Stepped s .destructor s' := by
  rw [destruct] at hstep
  split at hstep
  · next hpc =>
      split at hstep
      · next hadding =>
          obtain rfl := Option.some.inj hstep
          exact .closes hpc hadding
      · cases hstep
  · next hpc =>
      obtain rfl := Option.some.inj hstep
      exact .pushesDispatch hpc
  · next hpc =>
      obtain rfl := Option.some.inj hstep
      exact .pushesJoinable hpc
  · next hpc =>
      obtain rfl := Option.some.inj hstep
      exact .notifiesDone hpc
  · next hpc =>
      obtain rfl := Option.some.inj hstep
      exact .notifiesAvailable hpc
  · next hpc =>
      split at hstep
      · next hended =>
          obtain rfl := Option.some.inj hstep
          exact .joinsDispatcher hpc hended
      · cases hstep
  · next hpc =>
      split at hstep
      · next hended =>
          obtain rfl := Option.some.inj hstep
          exact .joinsJoiner hpc hended
      · cases hstep
  · next left hpc =>
      split at hstep
      · next hempty =>
          obtain rfl := Option.some.inj hstep
          exact .returns (hempty ▸ hpc)
      · cases hstep
  · cases hstep

/-- **Every step is one of the kinds.** -/
theorem stepped_of_step (hstep : s.step a = some s') : Stepped s a s' := by
  cases a with
  | addTask h =>
      rw [step, ThreadPool.addTask] at hstep
      split at hstep
      · next hopen =>
          obtain rfl := Option.some.inj hstep
          exact .addTask h hopen
      · cases hstep
  | pushTask h =>
      rw [step, ThreadPool.pushTask] at hstep
      split at hstep
      · next hadding =>
          obtain rfl := Option.some.inj hstep
          exact .pushTask h hadding
      · cases hstep
  | getTaskStatus h =>
      obtain ⟨status, hstatus, rfl⟩ := Option.map_eq_some_iff.mp hstep
      exact .getTaskStatus h status hstatus
  | cancelTask h =>
      obtain rfl := Option.some.inj hstep
      exact .cancelTask h
  | dispatcher => exact stepped_of_dispatcherThread hstep
  | spuriousWakeup =>
      rw [step, ThreadPool.spuriousWakeup] at hstep
      split at hstep
      · next hpc =>
          obtain rfl := Option.some.inj hstep
          exact .spuriousWakeup hpc
      · cases hstep
  | taskReturns h status =>
      rw [step, ThreadPool.taskReturns] at hstep
      split at hstep
      · next hpc =>
          obtain rfl := Option.some.inj hstep
          exact .taskReturns h status .setUp hpc (.inl rfl)
      · next hpc =>
          obtain rfl := Option.some.inj hstep
          exact .taskReturns h status .runAtomic hpc (.inr rfl)
      · cases hstep
  | task h => exact stepped_of_runTask hstep
  | joiner => exact stepped_of_joinerThread hstep
  | destructor => exact stepped_of_destruct hstep
  | destructorJoin h =>
      rw [step, ThreadPool.destructorJoin] at hstep
      split at hstep
      · next left hpc =>
          split at hstep
          · next hjoin =>
              obtain rfl := Option.some.inj hstep
              exact .joinsThread h left hpc hjoin.1 hjoin.2
          · cases hstep
      · cases hstep

/-! ### A thread goes on -/

theorem mem_handleToThread {pc : RunTaskPc} (hpc : s.handleToThread.lookup h = some pc) :
    h ∈ s.handleToThread :=
  Finmap.mem_of_lookup_eq_some hpc

/-- The keys of a map after an insertion. -/
theorem keys_insert {β : Type} (m : Finmap fun _ : Handle => β) (h : Handle) (b : β) :
    (m.insert h b).keys = insert h m.keys := by
  ext k
  rw [Finmap.mem_keys, Finmap.mem_insert, Finset.mem_insert, Finmap.mem_keys]

/-- A thread that goes on stays in the map. -/
theorem keys_goTo (hmem : h ∈ s.handleToThread) (pc : RunTaskPc) :
    (s.goTo h pc).handleToThread.keys = s.handleToThread.keys := by
  rw [goTo, keys_insert, Finset.insert_eq_of_mem (Finmap.mem_keys.mpr hmem)]

@[simp] theorem lookup_goTo_self (s : ThreadPool) (h : Handle) (pc : RunTaskPc) :
    (s.goTo h pc).handleToThread.lookup h = some pc :=
  Finmap.lookup_insert _

theorem lookup_goTo_of_ne (hne : k ≠ h) (s : ThreadPool) (pc : RunTaskPc) :
    (s.goTo h pc).handleToThread.lookup k = s.handleToThread.lookup k :=
  Finmap.lookup_insert_of_ne _ hne

/-- Only where the dispatcher stands is changed by a notification. -/
theorem notifyAvailable_eq (s : ThreadPool) :
    s.notifyAvailable = { s with dispatcher := s.notifyAvailable.dispatcher } := by
  rw [notifyAvailable]
  split <;> rfl

end ThreadPool

end Csci6780
