import Csci6780.ThreadPoolSteps
import Mathlib.Order.Interval.Finset.Nat

/-!
# Invariants of the Thread Pool

Three invariants, each with its own step lemma: `Phases` says what the destructor has waited for,
`Slots` what `pool_size_` counts, and `Handles` where a handle can be. A handle moves in one
direction: from `AddTask` through the queue and the dispatcher to a thread, and when that has
pushed it, through the other queue and the joiner out of the pool. At no time is it at two places.
The dummy that the destructor pushes on both queues is kept apart by `Genuine`.

What happened in a run is told by its steps: `added`, `created` and `joined` are the tasks that
were added, the threads that were created and those that were joined.

## Main results

* `ThreadPool.Phases.step`, `ThreadPool.Slots.step`, `ThreadPool.Handles.step`: every step keeps
  the invariants.
* `ThreadPool.invariants_of_run`: they hold in every run that adds different tasks.
* `ThreadPool.not_crashes_of_run`: such a run does not end the program.
-/

namespace Csci6780

/-! ### Where the threads stand -/

/-- The dispatcher has reserved a slot and not filled it. -/
def DispatcherPc.reserved : DispatcherPc → ℕ
  | .reserve => 0
  | .waiting => 0
  | .woken => 0
  | _ => 1

/-- The handle that the dispatcher has popped. -/
def DispatcherPc.held : DispatcherPc → List Handle
  | .dispatch h => [h]
  | _ => []

/-- The handle that the joiner has popped. -/
def JoinerPc.held : JoinerPc → List Handle
  | .finalize h => [h]
  | _ => []

/-- The thread has pushed its handle. -/
def RunTaskPc.pushed : RunTaskPc → Bool
  | .notifyDone => true
  | .returning => true
  | .ended => true
  | _ => false

/-- The destructor has joined the dispatcher. -/
def DestructorPc.pastDispatcher : DestructorPc → Bool
  | .joinJoiner => true
  | .joinThreads _ => true
  | .returned => true
  | _ => false

/-- The destructor has joined the joiner. -/
def DestructorPc.pastJoiner : DestructorPc → Bool
  | .joinThreads _ => true
  | .returned => true
  | _ => false

namespace ThreadPool

/-! ### What happens in a run -/

/-- The task that an action adds. -/
def Action.addedTask : Action → List Handle
  | .addTask h => [h]
  | _ => []

/-- The thread that a step creates. -/
def createdThread (s : ThreadPool) : Action → List Handle
  | .dispatcher =>
      match s.dispatcher with
      | .dispatch h => if s.shouldClose then [] else [h]
      | _ => []
  | _ => []

/-- The thread that a step joins. -/
def joinedThread (s : ThreadPool) : Action → List Handle
  | .joiner =>
      match s.joiner with
      | .finalize h => if s.shouldClose then [] else [h]
      | _ => []
  | .destructorJoin h => [h]
  | _ => []

/-- The tasks that are added in a run. -/
def added (acts : List Action) : List Handle := acts.flatMap Action.addedTask

/-- The threads that are created in a run of a constructed pool. -/
def created (numThreads : UInt32) (acts : List Action) : List Handle :=
  collect step createdThread (constructed numThreads) acts

/-- The threads that are joined in a run of a constructed pool. -/
def joined (numThreads : UInt32) (acts : List Action) : List Handle :=
  collect step joinedThread (constructed numThreads) acts

/-! ### What is counted -/

/-- The slot that the dispatcher has reserved and not filled. -/
def reserved (s : ThreadPool) : ℕ := s.dispatcher.reserved

/-- The number of threads in `handle_to_thread_`. -/
def threads (s : ThreadPool) : ℕ := s.handleToThread.keys.card

/-! ### Where a handle is -/

/-- The handles that have no thread yet. -/
def waiting (s : ThreadPool) : List Handle := s.adding ++ s.dispatchQueue ++ s.dispatcher.held

/-- The handles that the joiner has been told of. -/
def joinable (s : ThreadPool) : List Handle := s.joinableQueue ++ s.joiner.held

/-- The task has a thread that has pushed its handle. -/
def pushed (s : ThreadPool) (h : Handle) : Bool := (s.handleToThread.lookup h).any RunTaskPc.pushed

/-- The handles of the threads that nobody has joined. -/
def unjoined (s : ThreadPool) : Finset Handle :=
  match s.destructor with
  | .joinThreads left => left
  | .returned => ∅
  | _ => s.handleToThread.keys

/-- The handle is not the dummy of the destructor. -/
def Genuine (s : ThreadPool) (h : Handle) : Prop := h = 0 → s.shouldClose = false

/-- The next step would end the program: a handle without a task, or with a thread that has not
been joined, is dispatched, or a thread is joined that there is not. -/
def Crashes (s : ThreadPool) : Prop :=
  (∃ h, s.dispatcher = .dispatch h ∧ s.shouldClose = false ∧
    (h ∉ s.handleToTask ∨ h ∈ s.handleToThread)) ∨
  (∃ h, s.joiner = .finalize h ∧ s.shouldClose = false ∧ h ∉ s.handleToThread) ∨
  ∃ h left, s.destructor = .joinThreads left ∧ h ∈ left ∧ h ∉ s.handleToThread

/-- Where a handle can be, after the tasks of `A` were added, the threads of `C` created and those
of `J` joined. -/
structure Handles (A C J : List Handle) (s : ThreadPool) : Prop where
  nodup : A.Nodup
  nonzero : 0 ∉ A
  waiting : ∀ h, s.Genuine h → s.waiting.count h + C.count h ≤ A.count h
  created : ∀ h, C.count h ≤ A.count h
  unjoined : ∀ h, C.count h = J.count h + if h ∈ s.unjoined then 1 else 0
  joinable : ∀ h, s.Genuine h → s.joinable.count h ≤ if s.pushed h then 1 else 0
  left : ∀ h, h ∈ s.unjoined → h ∈ s.handleToThread
  threads : ∀ h, h ∈ s.handleToThread → h ∈ C
  tasks : ∀ h, s.Genuine h → h ∈ s.waiting ∨ h ∈ s.handleToThread → h ∈ s.handleToTask

/-- What `pool_size_` counts. -/
structure Slots (s : ThreadPool) : Prop where
  counter : s.poolSize.toNat = (s.threads + s.reserved) % 2 ^ 32
  limit : s.shouldClose = false → s.maxPoolSize ≠ 0 →
    s.threads + s.reserved ≤ s.maxPoolSize.toNat

/-- What the destructor has waited for. -/
structure Phases (s : ThreadPool) : Prop where
  closing : s.shouldClose = false ↔ s.destructor = .uncalled
  dispatcherEnded : s.destructor.pastDispatcher = true → s.dispatcher = .ended
  joinerEnded : s.destructor.pastJoiner = true → s.joiner = .ended

variable {s s' : ThreadPool} {a : Action} {h k : Handle} {A C J : List Handle}

/-! ### The phases -/

theorem notifyAvailable_of_ended (h : s.dispatcher = .ended) :
    s.notifyAvailable.dispatcher = .ended := by
  rw [notifyAvailable, h]
  exact h

namespace Phases

theorem start (numThreads : UInt32) : Phases (constructed numThreads) where
  closing := iff_of_true rfl rfl
  dispatcherEnded h := nomatch h
  joinerEnded h := nomatch h

theorem closed (hp : Phases s) (hcalled : s.destructor ≠ .uncalled) : s.shouldClose = true :=
  Bool.not_eq_false _ ▸ fun h => hcalled (hp.closing.mp h)

/-- The dispatcher goes on. -/
theorem dispatcher (hp : Phases s) (hrunning : s.dispatcher ≠ .ended) (pc : DispatcherPc) :
    Phases { s with dispatcher := pc } where
  closing := hp.closing
  dispatcherEnded h := absurd (hp.dispatcherEnded h) hrunning
  joinerEnded := hp.joinerEnded

/-- The joiner goes on. -/
theorem joiner (hp : Phases s) (hrunning : s.joiner ≠ .ended) (pc : JoinerPc) :
    Phases { s with joiner := pc } where
  closing := hp.closing
  dispatcherEnded := hp.dispatcherEnded
  joinerEnded h := absurd (hp.joinerEnded h) hrunning

theorem notifyAvailable (hp : Phases s) : Phases s.notifyAvailable := by
  rw [notifyAvailable_eq]
  exact { hp with dispatcherEnded := fun h => notifyAvailable_of_ended (hp.dispatcherEnded h) }

/-- The destructor goes on after it has closed the pool. -/
theorem destructor (hp : Phases s) (hcalled : s.destructor ≠ .uncalled) (pc : DestructorPc)
    (hpc : pc ≠ .uncalled) (hdispatcher : pc.pastDispatcher = true → s.dispatcher = .ended)
    (hjoiner : pc.pastJoiner = true → s.joiner = .ended) :
    Phases { s with destructor := pc } where
  closing := iff_of_false (fun h => hcalled (hp.closing.mp h)) hpc
  dispatcherEnded := hdispatcher
  joinerEnded := hjoiner

theorem step (hp : Phases s) (hst : Stepped s a s') : Phases s' := by
  cases hst with
  | addTask h hopen => exact { hp with }
  | pushTask h hadding => exact { hp with }
  | getTaskStatus h status hstatus => exact hp
  | cancelTask h => exact { hp with }
  | waits hpc hfull => exact hp.dispatcher (by rcases hpc with h | h <;> simp [h]) _
  | reserves hpc hfree =>
      exact { hp.dispatcher (by rcases hpc with h | h <;> simp [h]) .pop with }
  | popsTask h rest hpc hqueue => exact { hp.dispatcher (by simp [hpc]) (.dispatch h) with }
  | dispatches h hpc hopen htask hfree =>
      exact { hp.dispatcher (by simp [hpc]) .reserve with }
  | dispatcherBreaks h hpc hclose => exact hp.dispatcher (by simp [hpc]) _
  | dispatcherEnds hpc => exact hp.dispatcher (by simp [hpc]) _
  | spuriousWakeup hpc => exact hp.dispatcher (by simp [hpc]) _
  | taskReturns h status pc hpc hcall => exact { hp with }
  | updates h status hpc => exact { hp with }
  | cleansUp h hpc => exact { hp with }
  | completes h hpc => exact { hp with }
  | pushes h hpc => exact { hp with }
  | notifies h hpc => exact { hp with }
  | taskEnds h hpc => exact { hp with }
  | popsJoinable h rest hpc hqueue => exact { hp.joiner (by simp [hpc]) (.finalize h) with }
  | finalizes h hpc hopen hended => exact { hp.joiner (by simp [hpc]) .notifyAvailable with }
  | joinerBreaks h hpc hclose => exact hp.joiner (by simp [hpc]) _
  | joinerNotifies hpc =>
      refine hp.notifyAvailable.joiner ?_ _
      rw [notifyAvailable_eq]
      simp [hpc]
  | joinerEnds hpc => exact hp.joiner (by simp [hpc]) _
  | closes hpc hadding =>
      exact
        { closing := iff_of_false (fun h => nomatch h) (fun h => nomatch h)
          dispatcherEnded := fun h => nomatch h
          joinerEnded := fun h => nomatch h }
  | pushesDispatch hpc =>
      exact { hp.destructor (by simp [hpc]) .pushJoinable (fun h => nomatch h)
        (fun h => nomatch h) (fun h => nomatch h) with }
  | pushesJoinable hpc =>
      exact { hp.destructor (by simp [hpc]) .notifyDone (fun h => nomatch h)
        (fun h => nomatch h) (fun h => nomatch h) with }
  | notifiesDone hpc =>
      exact hp.destructor (by simp [hpc]) _ (fun h => nomatch h) (fun h => nomatch h)
        (fun h => nomatch h)
  | notifiesAvailable hpc =>
      refine hp.notifyAvailable.destructor ?_ _ (fun h => nomatch h) (fun h => nomatch h)
        (fun h => nomatch h)
      rw [notifyAvailable_eq]
      simp [hpc]
  | joinsDispatcher hpc hended =>
      exact hp.destructor (by simp [hpc]) _ (fun h => nomatch h) (fun _ => hended)
        (fun h => nomatch h)
  | joinsJoiner hpc hended =>
      exact hp.destructor (by simp [hpc]) _ (fun h => nomatch h)
        (fun _ => hp.dispatcherEnded (by rw [hpc]; rfl)) (fun _ => hended)
  | joinsThread h left hpc hleft hended =>
      exact hp.destructor (by simp [hpc]) _ (fun h => nomatch h)
        (fun _ => hp.dispatcherEnded (by rw [hpc]; rfl))
        (fun _ => hp.joinerEnded (by rw [hpc]; rfl))
  | returns hpc =>
      exact hp.destructor (by simp [hpc]) _ (fun h => nomatch h)
        (fun _ => hp.dispatcherEnded (by rw [hpc]; rfl))
        (fun _ => hp.joinerEnded (by rw [hpc]; rfl))

end Phases

/-! ### The counter -/

theorem threads_goTo (hmem : h ∈ s.handleToThread) (pc : RunTaskPc) :
    (s.goTo h pc).threads = s.threads := by
  rw [threads, threads, keys_goTo hmem]

theorem threads_insert (hfree : h ∉ s.handleToThread) (pc : RunTaskPc) :
    (s.handleToThread.insert h pc).keys.card = s.threads + 1 := by
  rw [keys_insert, Finset.card_insert_of_notMem (fun hmem => hfree (Finmap.mem_keys.mp hmem)),
    threads]

theorem threads_erase (hmem : h ∈ s.handleToThread) :
    (s.handleToThread.erase h).keys.card + 1 = s.threads := by
  rw [Finmap.keys_erase, threads]
  exact Finset.card_erase_add_one (Finmap.mem_keys.mpr hmem)

/-- A notification wakes the dispatcher, and the slot stays as it is. -/
theorem reserved_notifyAvailable (s : ThreadPool) :
    s.notifyAvailable.reserved = s.reserved := by
  rw [notifyAvailable]
  split
  · next hpc =>
      rw [reserved, reserved, hpc]
      rfl
  · rfl

theorem maxPoolSize_eq (hst : Stepped s a s') : s'.maxPoolSize = s.maxPoolSize := by
  cases hst <;> first | rfl | rw [notifyAvailable_eq]

/-- A closed pool stays closed. -/
theorem open_of_open (hst : Stepped s a s') (hopen : s'.shouldClose = false) :
    s.shouldClose = false := by
  cases hst <;> first | exact hopen | cases hopen | (rw [notifyAvailable_eq] at hopen; exact hopen)

/-- What a step does to the counter and to what it counts. -/
inductive Counted (s : ThreadPool) (a : Action) (s' : ThreadPool) : Prop
  | same (hpool : s'.poolSize = s.poolSize) (hthreads : s'.threads = s.threads)
      (hreserved : s'.reserved = s.reserved)
  | reserves (ha : a = .dispatcher) (hpool : s'.poolSize = s.poolSize + 1)
      (hthreads : s'.threads = s.threads) (hnone : s.reserved = 0) (hone : s'.reserved = 1)
      (hfree : s.shouldClose = false → s.maxPoolSize ≠ 0 → s.poolSize < s.maxPoolSize)
  | dispatches (hopen : s.shouldClose = false) (hpool : s'.poolSize = s.poolSize)
      (hthreads : s'.threads = s.threads + 1) (hone : s.reserved = 1) (hnone : s'.reserved = 0)
      (hcreates : s.createdThread a ≠ [])
  | finalizes (hpool : s'.poolSize = s.poolSize - 1) (hthreads : s'.threads + 1 = s.threads)
      (hreserved : s'.reserved = s.reserved)

namespace Counted

/-- The dispatcher goes on and keeps its slot, or still has none. -/
theorem dispatcher (pc : DispatcherPc) (hpc : pc.reserved = s.reserved) :
    Counted s a { s with dispatcher := pc } :=
  .same rfl rfl hpc

theorem goTo {pc : RunTaskPc} (hpc : s.handleToThread.lookup h = some pc) (pc' : RunTaskPc) :
    Counted s a (s.goTo h pc') :=
  .same rfl (threads_goTo (mem_handleToThread hpc) pc') rfl

/-- What the counter does not count does not matter. -/
theorem congr {m : ThreadPool} (hc : Counted s a m) (hpool : s'.poolSize = m.poolSize)
    (hthreads : s'.threads = m.threads) (hreserved : s'.reserved = m.reserved) :
    Counted s a s' := by
  cases hc with
  | same h1 h2 h3 => exact .same (hpool.trans h1) (hthreads.trans h2) (hreserved.trans h3)
  | reserves ha h1 h2 h3 h4 hfree =>
      exact .reserves ha (hpool.trans h1) (hthreads.trans h2) h3 (hreserved.trans h4) hfree
  | dispatches hopen h1 h2 h3 h4 hcreates =>
      exact .dispatches hopen (hpool.trans h1) (hthreads.trans h2) h3 (hreserved.trans h4) hcreates
  | finalizes h1 h2 h3 =>
      exact .finalizes (hpool.trans h1) (by omega) (hreserved.trans h3)

end Counted

/-- **A step moves the counter and what it counts in one of four ways.** -/
theorem counted_of_stepped (hst : Stepped s a s') : Counted s a s' := by
  cases hst with
  | addTask h hopen => exact .same rfl rfl rfl
  | pushTask h hadding => exact .same rfl rfl rfl
  | getTaskStatus h status hstatus => exact .same rfl rfl rfl
  | cancelTask h => exact .same rfl rfl rfl
  | waits hpc hfull =>
      refine .dispatcher _ ?_
      rcases hpc with hpc | hpc <;> rw [reserved, hpc] <;> rfl
  | reserves hpc hfree =>
      refine .reserves rfl rfl rfl ?_ rfl hfree
      rcases hpc with hpc | hpc <;> rw [reserved, hpc] <;> rfl
  | popsTask h rest hpc hqueue => exact .same rfl rfl (by rw [reserved, reserved, hpc]; rfl)
  | dispatches h hpc hopen htask hfree =>
      refine .dispatches hopen rfl (threads_insert hfree .setUp) (by rw [reserved, hpc]; rfl) rfl ?_
      rw [createdThread, hpc]
      simp [hopen]
  | dispatcherBreaks h hpc hclose => exact .dispatcher _ (by rw [reserved, hpc]; rfl)
  | dispatcherEnds hpc => exact .dispatcher _ (by rw [reserved, hpc]; rfl)
  | spuriousWakeup hpc => exact .dispatcher _ (by rw [reserved, hpc]; rfl)
  | taskReturns h status pc hpc hcall => exact .goTo hpc _
  | updates h status hpc => exact (Counted.goTo hpc _).congr rfl rfl rfl
  | cleansUp h hpc => exact .goTo hpc _
  | completes h hpc => exact (Counted.goTo hpc .pushJoinable).congr rfl rfl rfl
  | pushes h hpc => exact (Counted.goTo hpc .notifyDone).congr rfl rfl rfl
  | notifies h hpc => exact .goTo hpc _
  | taskEnds h hpc => exact .goTo hpc _
  | popsJoinable h rest hpc hqueue => exact .same rfl rfl rfl
  | finalizes h hpc hopen hended =>
      exact .finalizes rfl (threads_erase (mem_handleToThread hended)) rfl
  | joinerBreaks h hpc hclose => exact .same rfl rfl rfl
  | joinerNotifies hpc =>
      rw [notifyAvailable_eq]
      exact .same rfl rfl (reserved_notifyAvailable s)
  | joinerEnds hpc => exact .same rfl rfl rfl
  | closes hpc hadding => exact .same rfl rfl rfl
  | pushesDispatch hpc => exact .same rfl rfl rfl
  | pushesJoinable hpc => exact .same rfl rfl rfl
  | notifiesDone hpc => exact .same rfl rfl rfl
  | notifiesAvailable hpc =>
      rw [notifyAvailable_eq]
      exact .same rfl rfl (reserved_notifyAvailable s)
  | joinsDispatcher hpc hended => exact .same rfl rfl rfl
  | joinsJoiner hpc hended => exact .same rfl rfl rfl
  | joinsThread h left hpc hleft hended => exact .same rfl rfl rfl
  | returns hpc => exact .same rfl rfl rfl

namespace Slots

theorem start (numThreads : UInt32) : Slots (constructed numThreads) where
  counter := rfl
  limit _ _ := Nat.zero_le _

theorem step (hs : Slots s) (hst : Stepped s a s') : Slots s' := by
  have hcounter := hs.counter
  have hmax := maxPoolSize_eq hst
  have hlimit : s'.shouldClose = false → s'.maxPoolSize ≠ 0 →
      s.shouldClose = false ∧ s.maxPoolSize ≠ 0 ∧
        s.threads + s.reserved ≤ s.maxPoolSize.toNat := by
    intro hopen hne
    rw [hmax] at hne
    have hopen := open_of_open hst hopen
    exact ⟨hopen, hne, hs.limit hopen hne⟩
  refine ⟨?_, fun hopen hne => ?_⟩
  · rcases counted_of_stepped hst with ⟨hpool, hthreads, hreserved⟩ |
      ⟨-, hpool, hthreads, hnone, hone, -⟩ | ⟨-, hpool, hthreads, hone, hnone⟩ |
      ⟨hpool, hthreads, hreserved⟩
    · rw [hpool, hthreads, hreserved, hcounter]
    · rw [hpool, UInt32.toNat_add, hcounter, UInt32.toNat_one]
      omega
    · rw [hpool, hcounter, hthreads, hone, hnone]
    · rw [hpool, UInt32.toNat_sub, hcounter, UInt32.toNat_one]
      omega
  · obtain ⟨hopen, hne, hle⟩ := hlimit hopen hne
    rw [hmax]
    rcases counted_of_stepped hst with ⟨-, hthreads, hreserved⟩ |
      ⟨-, -, hthreads, hnone, hone, hfree⟩ | ⟨-, -, hthreads, hone, hnone⟩ |
      ⟨-, hthreads, hreserved⟩
    · omega
    · have hlt := UInt32.lt_iff_toNat_lt.mp (hfree hopen hne)
      have hbound := s.maxPoolSize.toNat_lt
      omega
    · omega
    · omega

end Slots

/-! ### The handles -/

theorem genuine_of_open (hopen : s.shouldClose = false) (h : Handle) : s.Genuine h :=
  fun _ => hopen

/-- Nothing is left of a dummy once the pool is open no more. -/
theorem Genuine.ne_zero (hg : s.Genuine h) (hclose : s.shouldClose = true) : h ≠ 0 := by
  rintro rfl
  rw [hg rfl] at hclose
  cases hclose

theorem mem_unjoined_of_uncalled (hpc : s.destructor = .uncalled) :
    h ∈ s.unjoined ↔ h ∈ s.handleToThread := by
  rw [unjoined, hpc]
  exact Finmap.mem_keys

theorem unjoined_congr (hd : s'.destructor = s.destructor)
    (hkeys : s'.handleToThread.keys = s.handleToThread.keys) : s'.unjoined = s.unjoined := by
  rw [unjoined, unjoined, hd, hkeys]

theorem pushed_goTo_self (s : ThreadPool) (h : Handle) (pc : RunTaskPc) :
    (s.goTo h pc).pushed h = pc.pushed := by
  rw [pushed, lookup_goTo_self]
  rfl

theorem pushed_goTo_of_ne (hne : k ≠ h) (s : ThreadPool) (pc : RunTaskPc) :
    (s.goTo h pc).pushed k = s.pushed k := by
  rw [pushed, lookup_goTo_of_ne hne]
  rfl

theorem pushed_of_lookup {pc : RunTaskPc} (hpc : s.handleToThread.lookup h = some pc) :
    s.pushed h = pc.pushed := by
  rw [pushed, hpc]
  rfl

theorem not_pushed (hfree : h ∉ s.handleToThread) : s.pushed h = false := by
  rw [pushed, Finmap.lookup_eq_none.mpr hfree]
  rfl

theorem mem_of_pushed (hp : s.pushed h = true) : h ∈ s.handleToThread := by
  by_contra hfree
  rw [not_pushed hfree] at hp
  cases hp

namespace Handles

theorem start (numThreads : UInt32) : Handles [] [] [] (constructed numThreads) where
  nodup := List.nodup_nil
  nonzero := List.not_mem_nil
  waiting _ _ := Nat.le_refl _
  created _ := Nat.le_refl _
  unjoined _ := rfl
  joinable _ _ := Nat.zero_le _
  left _ hmem := absurd hmem (Finset.notMem_empty _)
  threads _ hmem := absurd hmem Finmap.notMem_empty
  tasks _ _ hmem := hmem.elim (fun h => absurd h List.not_mem_nil)
    fun h => absurd h Finmap.notMem_empty

/-- A step after which every handle is where it was, or dropped. -/
theorem frame (hh : Handles A C J s) (hgenuine : ∀ h, s'.Genuine h → s.Genuine h)
    (hwaiting : ∀ h, s'.Genuine h → s'.waiting.count h ≤ s.waiting.count h)
    (hjoinable : ∀ h, s'.Genuine h → s'.joinable.count h ≤ s.joinable.count h)
    (hunjoined : s'.unjoined = s.unjoined) (hpushed : ∀ h, s'.pushed h = s.pushed h)
    (hkeys : s'.handleToThread.keys = s.handleToThread.keys)
    (htasks : s'.handleToTask = s.handleToTask) : Handles A C J s' := by
  have hmem : ∀ h, h ∈ s'.handleToThread ↔ h ∈ s.handleToThread := by
    intro h
    rw [← Finmap.mem_keys, hkeys, Finmap.mem_keys]
  refine { hh with
    waiting := ?_, unjoined := ?_, joinable := ?_, left := ?_, threads := ?_, tasks := ?_ }
  · intro h hg
    exact (Nat.add_le_add_right (hwaiting h hg) _).trans (hh.waiting h (hgenuine h hg))
  · intro h
    rw [hunjoined]
    exact hh.unjoined h
  · intro h hg
    rw [hpushed]
    exact (hjoinable h hg).trans (hh.joinable h (hgenuine h hg))
  · intro h hmine
    rw [hunjoined] at hmine
    exact (hmem h).mpr (hh.left h hmine)
  · intro h hthread
    exact hh.threads h ((hmem h).mp hthread)
  · intro h hg hplace
    rw [htasks]
    refine hh.tasks h (hgenuine h hg) (hplace.imp (fun hw => ?_) (hmem h).mp)
    exact List.count_pos_iff.mp (Nat.lt_of_lt_of_le (List.count_pos_iff.mpr hw) (hwaiting h hg))

/-- The dispatcher goes on, and holds no handle afterwards. -/
theorem dispatcher (hh : Handles A C J s) (pc : DispatcherPc) (hheld : pc.held = []) :
    Handles A C J { s with dispatcher := pc } := by
  refine hh.frame (fun _ hg => hg) (fun h _ => ?_) (fun _ _ => Nat.le_refl _) rfl (fun _ => rfl)
    rfl rfl
  rw [ThreadPool.waiting, ThreadPool.waiting, hheld, List.append_nil]
  exact (List.sublist_append_left _ _).count_le h

/-- The joiner goes on, and holds no handle afterwards. -/
theorem joiner (hh : Handles A C J s) (pc : JoinerPc) (hheld : pc.held = []) :
    Handles A C J { s with joiner := pc } := by
  refine hh.frame (fun _ hg => hg) (fun _ _ => Nat.le_refl _) (fun h _ => ?_) rfl (fun _ => rfl)
    rfl rfl
  rw [ThreadPool.joinable, ThreadPool.joinable, hheld, List.append_nil]
  exact (List.sublist_append_left _ _).count_le h

/-- The destructor goes on, and the same threads are left. -/
theorem destructor (hh : Handles A C J s) (pc : DestructorPc)
    (hleft : ThreadPool.unjoined { s with destructor := pc } = s.unjoined) :
    Handles A C J { s with destructor := pc } :=
  hh.frame (fun _ hg => hg) (fun _ _ => Nat.le_refl _) (fun _ _ => Nat.le_refl _) hleft
    (fun _ => rfl) rfl rfl

theorem notifyAvailable (hh : Handles A C J s) : Handles A C J s.notifyAvailable := by
  rw [ThreadPool.notifyAvailable]
  split
  · exact hh.dispatcher _ rfl
  · exact hh

/-- A thread goes on that has pushed its handle before and after, or neither. -/
theorem goTo (hh : Handles A C J s) {pc : RunTaskPc} (hpc : s.handleToThread.lookup h = some pc)
    (pc' : RunTaskPc) (hpushed : pc'.pushed = pc.pushed) : Handles A C J (s.goTo h pc') := by
  have hkeys := keys_goTo (mem_handleToThread hpc) pc'
  refine hh.frame (fun _ hg => hg) (fun _ _ => Nat.le_refl _) (fun _ _ => Nat.le_refl _)
    (unjoined_congr rfl hkeys) (fun k => ?_) hkeys rfl
  by_cases hk : k = h
  · subst hk
    rw [pushed_goTo_self, hpushed, pushed_of_lookup hpc]
  · exact pushed_goTo_of_ne hk s pc'

/-- A task is added whose handle was not added before. -/
theorem addTask (hh : Handles A C J s) (hnodup : (A ++ [h]).Nodup) (hnonzero : 0 ∉ A ++ [h]) :
    Handles (A ++ [h]) C J
      { s with
        handleToTask := insert h s.handleToTask
        handleToStatus := s.handleToStatus.insert h .running
        adding := s.adding ++ [h] } where
  nodup := hnodup
  nonzero := hnonzero
  waiting k hg := by
    have hold := hh.waiting k hg
    simp only [ThreadPool.waiting, List.count_append] at hold ⊢
    omega
  created k := (hh.created k).trans ((List.sublist_append_left A [h]).count_le k)
  unjoined := hh.unjoined
  joinable := hh.joinable
  left := hh.left
  threads := hh.threads
  tasks k hg hplace := by
    rw [Finset.mem_insert]
    by_cases hk : k = h
    · exact .inl hk
    · refine .inr (hh.tasks k hg (hplace.imp_left fun hw => ?_))
      simp only [ThreadPool.waiting, List.mem_append, List.mem_singleton] at hw ⊢
      simpa [hk] using hw

/-- A handle is at one place at most. -/
theorem count_le_one (hh : Handles A C J s) (h : Handle) : A.count h ≤ 1 :=
  List.nodup_iff_count_le_one.mp hh.nodup h

/-- A handle that the dispatcher holds belongs to no thread. -/
theorem not_created (hh : Handles A C J s) (hg : s.Genuine h) (hw : h ∈ s.waiting) : h ∉ C := by
  intro hC
  have hle := (hh.waiting h hg).trans (hh.count_le_one h)
  have hw1 := List.count_pos_iff.mpr hw
  have hC1 := List.count_pos_iff.mpr hC
  omega

/-- The dispatcher turns its handle into a thread. -/
theorem dispatches (hh : Handles A C J s) (hp : Phases s) (hpc : s.dispatcher = .dispatch h)
    (hopen : s.shouldClose = false) (htask : h ∈ s.handleToTask)
    (hfree : h ∉ s.handleToThread) :
    Handles A (C ++ [h]) J
      { s with
        handleToThread := s.handleToThread.insert h .setUp
        dispatcher := .reserve } := by
  have hg : ∀ k, s.Genuine k := genuine_of_open hopen
  have huncalled := hp.closing.mp hopen
  have hwaiting : ∀ k, s.waiting.count k = (s.adding ++ s.dispatchQueue).count k +
      [h].count k := by
    intro k
    rw [ThreadPool.waiting, hpc, List.count_append]
    rfl
  refine { hh with
    waiting := ?_, created := ?_, unjoined := ?_, joinable := ?_, left := ?_, threads := ?_
    tasks := ?_ }
  · intro k _
    have hold := hh.waiting k (hg k)
    rw [hwaiting] at hold
    rw [List.count_append]
    show (s.adding ++ s.dispatchQueue ++ []).count k + _ ≤ _
    rw [List.append_nil]
    omega
  · intro k
    have hold := hh.waiting k (hg k)
    rw [hwaiting] at hold
    rw [List.count_append]
    omega
  · intro k
    have hold := hh.unjoined k
    rw [List.count_append, hold]
    simp only [mem_unjoined_of_uncalled huncalled]
    rw [if_congr ((mem_unjoined_of_uncalled (by exact huncalled)).trans
      (Finmap.mem_insert (s := s.handleToThread))) rfl rfl]
    by_cases hk : k = h
    · subst hk
      simp [hfree]
    · simp [hk, Ne.symm hk]
  · intro k _
    have hpushed : (s.goTo h .setUp).pushed k = s.pushed k := by
      by_cases hk : k = h
      · subst hk
        rw [pushed_goTo_self, not_pushed hfree]
        rfl
      · exact pushed_goTo_of_ne hk s .setUp
    show s.joinable.count k ≤ if (s.goTo h .setUp).pushed k then 1 else 0
    rw [hpushed]
    exact hh.joinable k (hg k)
  · exact fun k => (mem_unjoined_of_uncalled (by exact huncalled)).mp
  · intro k hk
    rw [List.mem_append, List.mem_singleton]
    rcases Finmap.mem_insert.mp hk with rfl | hk
    · exact .inr rfl
    · exact .inl (hh.threads k hk)
  · intro k _ hplace
    by_cases hk : k = h
    · exact hk ▸ htask
    · refine hh.tasks k (hg k) (hplace.imp (fun hw => ?_) fun hthread => ?_)
      · have hw : k ∈ s.adding ++ s.dispatchQueue ++ [] := hw
        rw [List.append_nil] at hw
        exact List.mem_append_left _ hw
      · exact (Finmap.mem_insert.mp hthread).resolve_left hk

/-- A thread pushes its handle. -/
theorem pushes (hh : Handles A C J s) (hpc : s.handleToThread.lookup h = some .pushJoinable) :
    Handles A C J ({ s with joinableQueue := s.joinableQueue ++ [h] }.goTo h .notifyDone) := by
  have hmem := mem_handleToThread hpc
  have hkeys := keys_goTo (s := s) hmem .notifyDone
  have hkeep : ∀ k, k ∈ (s.goTo h .notifyDone).handleToThread ↔ k ∈ s.handleToThread := by
    intro k
    rw [← Finmap.mem_keys, hkeys, Finmap.mem_keys]
  have hunjoined : (s.goTo h .notifyDone).unjoined = s.unjoined := unjoined_congr rfl hkeys
  refine { hh with unjoined := ?_, joinable := ?_, left := ?_, threads := ?_, tasks := ?_ }
  · intro k
    rw [hh.unjoined k, ← hunjoined]
    rfl
  · intro k hg
    have hold := hh.joinable k hg
    have hcount : (s.joinableQueue ++ [h] ++ s.joiner.held).count k =
        s.joinable.count k + [h].count k := by
      rw [ThreadPool.joinable, List.count_append, List.count_append, List.count_append]
      omega
    show (s.joinableQueue ++ [h] ++ s.joiner.held).count k ≤
      if (s.goTo h .notifyDone).pushed k then 1 else 0
    rw [hcount]
    by_cases hk : k = h
    · subst hk
      -- it has pushed its handle only once
      rw [pushed_of_lookup hpc] at hold
      rw [pushed_goTo_self, List.count_singleton_self]
      exact Nat.succ_le_succ hold
    · rw [pushed_goTo_of_ne hk, List.count_singleton, if_neg (by simpa using Ne.symm hk)]
      exact hold
  · exact fun k hk => (hkeep k).mpr (hh.left k (hunjoined ▸ hk))
  · exact fun k hk => hh.threads k ((hkeep k).mp hk)
  · exact fun k hg hplace => hh.tasks k hg (hplace.imp_right (hkeep k).mp)

/-- The joiner takes a thread and its task out of the pool. -/
theorem finalizes (hh : Handles A C J s) (hp : Phases s) (hpc : s.joiner = .finalize h)
    (hopen : s.shouldClose = false) (hended : s.handleToThread.lookup h = some .ended) :
    Handles A C (J ++ [h]) (s.finalize h) := by
  have hg : ∀ k, s.Genuine k := genuine_of_open hopen
  have huncalled := hp.closing.mp hopen
  have hmem := mem_handleToThread hended
  refine { hh with unjoined := ?_, joinable := ?_, left := ?_, threads := ?_, tasks := ?_ }
  · intro k
    have hold := hh.unjoined k
    simp only [mem_unjoined_of_uncalled huncalled] at hold
    have hnew : k ∈ (s.finalize h).unjoined ↔ k ≠ h ∧ k ∈ s.handleToThread :=
      (mem_unjoined_of_uncalled (s := s.finalize h) huncalled).trans Finmap.mem_erase
    rw [hold, List.count_append, if_congr hnew rfl rfl]
    by_cases hk : k = h
    · subst hk
      simp [hmem]
    · simp [hk, Ne.symm hk]
  · intro k _
    have hold := hh.joinable k (hg k)
    have hcount : s.joinable.count k = s.joinableQueue.count k + [h].count k := by
      rw [ThreadPool.joinable, hpc, List.count_append]
      rfl
    rw [hcount] at hold
    show (s.joinableQueue ++ []).count k ≤ _
    rw [List.append_nil]
    by_cases hk : k = h
    · subst hk
      -- the joiner held the handle, so the queue has it no more
      rw [List.count_singleton_self] at hold
      have hone : (if s.pushed k then 1 else 0) ≤ 1 := by split <;> omega
      omega
    · have hpushed : (s.finalize h).pushed k = s.pushed k := by
        rw [pushed, pushed]
        exact congrArg _ (Finmap.lookup_erase_ne hk)
      rw [hpushed]
      omega
  · exact fun k => (mem_unjoined_of_uncalled (s := s.finalize h) huncalled).mp
  · exact fun k hk => hh.threads k (Finmap.mem_erase.mp hk).2
  · intro k _ hplace
    have hk : k ≠ h := by
      rintro rfl
      rcases hplace with hw | hthread
      · exact hh.not_created (hg k) hw (hh.threads k hmem)
      · exact (Finmap.mem_erase.mp hthread).1 rfl
    refine Finset.mem_erase.mpr ⟨hk, hh.tasks k (hg k) (hplace.imp_right fun hthread => ?_)⟩
    exact (Finmap.mem_erase.mp hthread).2

/-- The destructor joins one of the threads that are left. -/
theorem joinsThread (hh : Handles A C J s) {left : Finset Handle}
    (hpc : s.destructor = .joinThreads left) (hleft : h ∈ left) :
    Handles A C (J ++ [h]) { s with destructor := .joinThreads (left.erase h) } := by
  have hunjoined : s.unjoined = left := by rw [ThreadPool.unjoined, hpc]
  refine { hh with unjoined := fun k => ?_, left := fun k hk => ?_ }
  · have hold := hh.unjoined k
    have hnew : k ∈ ThreadPool.unjoined { s with destructor := .joinThreads (left.erase h) } ↔
        k ≠ h ∧ k ∈ left := Finset.mem_erase
    rw [hold, hunjoined, List.count_append, if_congr hnew rfl rfl]
    by_cases hk : k = h
    · subst hk
      simp [hleft]
    · simp [hk, Ne.symm hk]
  · exact hh.left k (hunjoined ▸ (Finset.mem_erase.mp hk).2)

/-- `AddTask` pushes its handle. -/
theorem pushTask (hh : Handles A C J s) (hadding : h ∈ s.adding) :
    Handles A C J
      { s with adding := s.adding.erase h, dispatchQueue := s.dispatchQueue ++ [h] } := by
  refine hh.frame (fun _ hg => hg) (fun k _ => Nat.le_of_eq ?_) (fun _ _ => Nat.le_refl _) rfl
    (fun _ => rfl) rfl rfl
  have hperm := (List.perm_cons_erase hadding).count_eq k
  simp only [ThreadPool.waiting, List.count_append, List.count_cons, List.count_nil] at hperm ⊢
  omega

/-- The dispatcher pops a handle. -/
theorem popsTask (hh : Handles A C J s) {rest : List Handle} (hpc : s.dispatcher = .pop)
    (hqueue : s.dispatchQueue = h :: rest) :
    Handles A C J { s with dispatchQueue := rest, dispatcher := .dispatch h } := by
  refine hh.frame (fun _ hg => hg) (fun k _ => Nat.le_of_eq ?_) (fun _ _ => Nat.le_refl _) rfl
    (fun _ => rfl) rfl rfl
  simp only [ThreadPool.waiting, hqueue, hpc, DispatcherPc.held, List.count_append,
    List.count_cons, List.count_nil]
  omega

/-- The joiner pops a handle. -/
theorem popsJoinable (hh : Handles A C J s) {rest : List Handle} (hpc : s.joiner = .pop)
    (hqueue : s.joinableQueue = h :: rest) :
    Handles A C J { s with joinableQueue := rest, joiner := .finalize h } := by
  refine hh.frame (fun _ hg => hg) (fun _ _ => Nat.le_refl _) (fun k _ => Nat.le_of_eq ?_) rfl
    (fun _ => rfl) rfl rfl
  simp only [ThreadPool.joinable, hqueue, hpc, JoinerPc.held, List.count_append,
    List.count_cons, List.count_nil]
  omega

/-- The destructor closes the pool. -/
theorem closes (hh : Handles A C J s) (hpc : s.destructor = .uncalled) :
    Handles A C J s.close := by
  refine hh.frame (fun k hg => ?_) (fun _ _ => Nat.le_refl _) (fun _ _ => Nat.le_refl _) ?_
    (fun _ => rfl) rfl rfl
  · exact fun h0 => absurd h0 (hg.ne_zero rfl)
  · rw [ThreadPool.unjoined, ThreadPool.unjoined, hpc]
    rfl

/-- The destructor pushes its dummy for the dispatcher. -/
theorem pushesDispatch (hh : Handles A C J s) (hp : Phases s)
    (hpc : s.destructor = .pushDispatch) :
    Handles A C J
      { s with dispatchQueue := s.dispatchQueue ++ [0], destructor := .pushJoinable } := by
  refine hh.frame (fun _ hg => hg) (fun k hg => Nat.le_of_eq ?_) (fun _ _ => Nat.le_refl _) ?_
    (fun _ => rfl) rfl rfl
  · have hk : k ≠ 0 := Genuine.ne_zero (s := s) hg (hp.closed (by simp [hpc]))
    simp [ThreadPool.waiting, Ne.symm hk]
  · rw [ThreadPool.unjoined, ThreadPool.unjoined, hpc]

/-- The destructor pushes its dummy for the joiner. -/
theorem pushesJoinable (hh : Handles A C J s) (hp : Phases s)
    (hpc : s.destructor = .pushJoinable) :
    Handles A C J
      { s with joinableQueue := s.joinableQueue ++ [0], destructor := .notifyDone } := by
  refine hh.frame (fun _ hg => hg) (fun _ _ => Nat.le_refl _) (fun k hg => Nat.le_of_eq ?_) ?_
    (fun _ => rfl) rfl rfl
  · have hk : k ≠ 0 := Genuine.ne_zero (s := s) hg (hp.closed (by simp [hpc]))
    simp [ThreadPool.joinable, Ne.symm hk]
  · rw [ThreadPool.unjoined, ThreadPool.unjoined, hpc]

/-- A step that adds no task and creates and joins no thread. -/
theorem silent (hh : Handles A C J s') (hadded : a.addedTask = [])
    (hcreated : createdThread s a = []) (hjoined : joinedThread s a = []) :
    Handles (A ++ a.addedTask) (C ++ createdThread s a) (J ++ joinedThread s a) s' := by
  rw [hadded, hcreated, hjoined, List.append_nil, List.append_nil, List.append_nil]
  exact hh

theorem step (hh : Handles A C J s) (hp : Phases s) (hst : Stepped s a s')
    (hnodup : (A ++ a.addedTask).Nodup) (hnonzero : 0 ∉ A ++ a.addedTask) :
    Handles (A ++ a.addedTask) (C ++ createdThread s a) (J ++ joinedThread s a) s' := by
  have hidle : ∀ {pc : DispatcherPc}, s.dispatcher = pc → pc.held = [] →
      createdThread s .dispatcher = [] := by
    intro pc hpc hheld
    rw [createdThread, hpc]
    cases pc <;> first | rfl | cases hheld
  have hquiet : ∀ {pc : JoinerPc}, s.joiner = pc → pc.held = [] →
      joinedThread s .joiner = [] := by
    intro pc hpc hheld
    rw [joinedThread, hpc]
    cases pc <;> first | rfl | cases hheld
  have hleft : ∀ {pc pc' : DestructorPc}, s.destructor = pc →
      ThreadPool.unjoined { s with destructor := pc' } =
        ThreadPool.unjoined { s with destructor := pc } →
      ThreadPool.unjoined { s with destructor := pc' } = s.unjoined := by
    intro pc pc' hpc h
    rw [h, ← hpc]
  cases hst with
  | addTask h hopen =>
      simp only [createdThread, joinedThread, List.append_nil]
      exact hh.addTask hnodup hnonzero
  | pushTask h hadding => exact silent (hh.pushTask hadding) rfl rfl rfl
  | getTaskStatus h status hstatus => exact silent hh rfl rfl rfl
  | cancelTask h => exact silent { hh with } rfl rfl rfl
  | waits hpc hfull =>
      refine silent (hh.dispatcher _ rfl) rfl ?_ rfl
      rcases hpc with hpc | hpc <;> exact hidle hpc rfl
  | reserves hpc hfree =>
      refine silent { hh.dispatcher .pop rfl with } rfl ?_ rfl
      rcases hpc with hpc | hpc <;> exact hidle hpc rfl
  | popsTask h rest hpc hqueue => exact silent (hh.popsTask hpc hqueue) rfl (hidle hpc rfl) rfl
  | dispatches h hpc hopen htask hfree =>
      have hone : createdThread s .dispatcher = [h] := by
        rw [createdThread, hpc]
        exact if_neg (Bool.eq_false_iff.mp hopen)
      simp only [Action.addedTask, hone, joinedThread, List.append_nil]
      exact hh.dispatches hp hpc hopen htask hfree
  | dispatcherBreaks h hpc hclose =>
      refine silent (hh.dispatcher _ rfl) rfl ?_ rfl
      rw [createdThread, hpc]
      exact if_pos hclose
  | dispatcherEnds hpc => exact silent (hh.dispatcher _ rfl) rfl (hidle hpc rfl) rfl
  | spuriousWakeup hpc => exact silent (hh.dispatcher _ rfl) rfl rfl rfl
  | taskReturns h status pc hpc hcall =>
      exact silent (hh.goTo hpc _ (by rcases hcall with rfl | rfl <;> rfl)) rfl rfl rfl
  | updates h status hpc =>
      exact silent { hh.goTo hpc _ (by split <;> rfl) with } rfl rfl rfl
  | cleansUp h hpc => exact silent (hh.goTo hpc _ rfl) rfl rfl rfl
  | completes h hpc => exact silent { hh.goTo hpc .pushJoinable rfl with } rfl rfl rfl
  | pushes h hpc => exact silent (hh.pushes hpc) rfl rfl rfl
  | notifies h hpc => exact silent (hh.goTo hpc _ rfl) rfl rfl rfl
  | taskEnds h hpc => exact silent (hh.goTo hpc _ rfl) rfl rfl rfl
  | popsJoinable h rest hpc hqueue =>
      exact silent (hh.popsJoinable hpc hqueue) rfl rfl (hquiet hpc rfl)
  | finalizes h hpc hopen hended =>
      have hone : joinedThread s .joiner = [h] := by
        rw [joinedThread, hpc]
        exact if_neg (Bool.eq_false_iff.mp hopen)
      simp only [Action.addedTask, createdThread, hone, List.append_nil]
      exact hh.finalizes hp hpc hopen hended
  | joinerBreaks h hpc hclose =>
      refine silent (hh.joiner _ rfl) rfl rfl ?_
      rw [joinedThread, hpc]
      exact if_pos hclose
  | joinerNotifies hpc =>
      exact silent (hh.notifyAvailable.joiner _ rfl) rfl rfl (hquiet hpc rfl)
  | joinerEnds hpc => exact silent (hh.joiner _ rfl) rfl rfl (hquiet hpc rfl)
  | closes hpc hadding => exact silent (hh.closes hpc) rfl rfl rfl
  | pushesDispatch hpc => exact silent (hh.pushesDispatch hp hpc) rfl rfl rfl
  | pushesJoinable hpc => exact silent (hh.pushesJoinable hp hpc) rfl rfl rfl
  | notifiesDone hpc => exact silent (hh.destructor _ (hleft hpc rfl)) rfl rfl rfl
  | notifiesAvailable hpc =>
      refine silent (hh.notifyAvailable.destructor _ ?_) rfl rfl rfl
      rw [notifyAvailable_eq, ThreadPool.unjoined, ThreadPool.unjoined, hpc]
  | joinsDispatcher hpc hended => exact silent (hh.destructor _ (hleft hpc rfl)) rfl rfl rfl
  | joinsJoiner hpc hended => exact silent (hh.destructor _ (hleft hpc rfl)) rfl rfl rfl
  | joinsThread h left hpc hleft hended =>
      simp only [Action.addedTask, createdThread, joinedThread, List.append_nil]
      exact hh.joinsThread hpc hleft
  | returns hpc => exact silent (hh.destructor _ (hleft hpc rfl)) rfl rfl rfl

/-- A handle that the joiner holds has its thread in the map. -/
theorem finalized (hh : Handles A C J s) (hpc : s.joiner = .finalize h)
    (hopen : s.shouldClose = false) : h ∈ s.handleToThread := by
  have hle := hh.joinable h (genuine_of_open hopen h)
  have hheld : 0 < s.joinable.count h := by
    rw [List.count_pos_iff, ThreadPool.joinable, hpc]
    exact List.mem_append_right _ (List.mem_singleton_self h)
  refine mem_of_pushed (Bool.not_eq_false _ ▸ fun hnot => ?_)
  rw [hnot] at hle
  exact Nat.not_lt_of_le hle hheld

/-- A handle gets one thread. -/
theorem created_nodup (hh : Handles A C J s) : C.Nodup :=
  List.nodup_iff_count_le_one.mpr fun h => (hh.created h).trans (hh.count_le_one h)

/-- No thread is joined twice. -/
theorem joined_nodup (hh : Handles A C J s) : J.Nodup := by
  refine List.nodup_iff_count_le_one.mpr fun h => ?_
  have hle := List.nodup_iff_count_le_one.mp hh.created_nodup h
  have heq := hh.unjoined h
  omega

/-- When the destructor has returned, every thread that was created has been joined. -/
theorem joined_of_returned (hh : Handles A C J s) (hpc : s.destructor = .returned)
    (hC : h ∈ C) : h ∈ J := by
  have heq := hh.unjoined h
  rw [ThreadPool.unjoined, hpc, if_neg (Finset.notMem_empty h), Nat.add_zero] at heq
  exact List.count_pos_iff.mp (heq ▸ List.count_pos_iff.mpr hC)

/-- The next step does not end the program. -/
theorem not_crashes (hh : Handles A C J s) : ¬s.Crashes := by
  rintro (⟨h, hpc, hopen, hbad⟩ | ⟨h, hpc, hopen, hbad⟩ | ⟨h, left, hpc, hleft, hbad⟩)
  · have hg := genuine_of_open hopen h
    have hw : h ∈ s.waiting := by
      rw [ThreadPool.waiting, hpc]
      exact List.mem_append_right _ (List.mem_singleton_self h)
    rcases hbad with htask | hthread
    · exact htask (hh.tasks h hg (.inl hw))
    · exact hh.not_created hg hw (hh.threads h hthread)
  · exact hbad (hh.finalized hpc hopen)
  · refine hbad (hh.left h ?_)
    rw [ThreadPool.unjoined, hpc]
    exact hleft

end Handles

/-! ### Every run -/

theorem added_concat (acts : List Action) (a : Action) :
    added (acts ++ [a]) = added acts ++ a.addedTask := by
  rw [added, List.flatMap_append, List.flatMap_singleton]
  rfl

/-- **The invariants hold in every run** that adds different tasks. -/
theorem invariants_of_run {numThreads : UInt32} {acts : List Action}
    (hrun : runFrom step (constructed numThreads) acts = some s) (hnodup : (added acts).Nodup)
    (hnonzero : 0 ∉ added acts) :
    Handles (added acts) (created numThreads acts) (joined numThreads acts) s ∧ Slots s ∧
      Phases s := by
  refine history_inv (fun acts s => (added acts).Nodup → 0 ∉ added acts →
    Handles (added acts) (created numThreads acts) (joined numThreads acts) s ∧ Slots s ∧
      Phases s) ?_ ?_ hrun hnodup hnonzero
  · exact fun _ _ => ⟨.start numThreads, .start numThreads, .start numThreads⟩
  · intro acts m a m' hm ih hstep hnodup hnonzero
    rw [added_concat] at hnodup hnonzero
    obtain ⟨hh, hs, hp⟩ := ih hnodup.of_append_left
      fun h0 => hnonzero (List.mem_append_left _ h0)
    have hst := stepped_of_step hstep
    rw [created, joined, collect_concat hm, collect_concat hm, added_concat]
    exact ⟨hh.step hp hst hnodup hnonzero, hs.step hst, hp.step hst⟩

/-- **No run that adds different tasks ends the program.** -/
theorem not_crashes_of_run {numThreads : UInt32} {acts : List Action}
    (hrun : runFrom step (constructed numThreads) acts = some s) (hnodup : (added acts).Nodup)
    (hnonzero : 0 ∉ added acts) : ¬s.Crashes :=
  (invariants_of_run hrun hnodup hnonzero).1.not_crashes

end ThreadPool

end Csci6780
