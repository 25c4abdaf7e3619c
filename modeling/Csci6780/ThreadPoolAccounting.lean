import Csci6780.ThreadPoolInvariants

/-!
# The Accounts of the Thread Pool

`pool_size_` counts the threads in `handle_to_thread_` and the slot that the dispatcher has
reserved before it knows for which task. The dispatcher adds to it before it has a thread, and the
joiner subtracts from it after it has joined one. `Accounted` says what holds of it in every state.

The counter has as many bits as a handle, so that a thread for every handle but 0 and one slot more
would be one too many for it. No platform has that many threads: where there are as many as it
allows, the constructor of `std::thread` throws, nothing catches that, and the program ends.
`CanCreate` says that it does not throw.

## Main results

* `ThreadPool.accounted`: the accounts follow from the invariants.
* `ThreadPool.pool_accounting`: the accounts of every run.
-/

namespace Csci6780

namespace ThreadPool

/-- **The platform.** A thread can be created: there are fewer than `limit` threads of tasks that
have not been joined. -/
def CanCreate (limit : ℕ) (s : ThreadPool) (a : Action) : Prop :=
  s.createdThread a ≠ [] → s.threads < limit

instance (limit : ℕ) (s : ThreadPool) (a : Action) : Decidable (CanCreate limit s a) :=
  inferInstanceAs (Decidable (_ → _))

/-- The accounts of a state. -/
structure Accounted (s : ThreadPool) : Prop where
  poolSize : s.poolSize.toNat = s.threads + s.reserved
  limit : s.shouldClose = false → s.maxPoolSize ≠ 0 → s.poolSize ≤ s.maxPoolSize
  finalized : ∀ h, s.joiner = .finalize h → s.shouldClose = false → h ∈ s.handleToThread
  decrement : ∀ h, s.joiner = .finalize h → s.shouldClose = false → s.poolSize ≠ 0

variable {s s' : ThreadPool} {a : Action} {A C J : List Handle} {limit : ℕ}

theorem reserved_le (s : ThreadPool) : s.reserved ≤ 1 := by
  rw [reserved]
  cases s.dispatcher <;> simp [DispatcherPc.reserved]

/-- The platform's limit is kept. -/
theorem threads_le_of_stepped (hst : Stepped s a s') (hcreate : CanCreate limit s a)
    (hle : s.threads ≤ limit) : s'.threads ≤ limit := by
  rcases counted_of_stepped hst with ⟨-, hthreads, -⟩ | ⟨-, -, hthreads, -, -, -⟩ |
    ⟨-, -, hthreads, -, -, hcreates⟩ | ⟨-, hthreads, -⟩
  · omega
  · omega
  · have hlt := hcreate hcreates
    omega
  · omega

/-- On the platform there are never more threads than its limit. -/
theorem threads_le_of_run {numThreads : UInt32} {acts : List Action}
    (hcreate : EachStep step (CanCreate limit) (constructed numThreads) acts) :
    EachState step (fun s => s.threads ≤ limit) (constructed numThreads) acts := by
  intro pre m hpre hm
  refine history_inv_of (fun _ m => m.threads ≤ limit) (Nat.zero_le limit) ?_
    (fun pre' a n hpre' hn => hcreate pre' a n (hpre'.trans hpre) hn) hm
  intro pre' n a n' _ hle hcan hstep
  exact threads_le_of_stepped (stepped_of_step hstep) hcan hle

/-- **The accounts follow from the invariants.** -/
theorem accounted (hh : Handles A C J s) (hs : Slots s) (hlimit : limit < 2 ^ 32 - 1)
    (hle : s.threads ≤ limit) : Accounted s := by
  have hone := s.reserved_le
  have hpool : s.poolSize.toNat = s.threads + s.reserved :=
    hs.counter.trans (Nat.mod_eq_of_lt (by omega))
  refine ⟨hpool, fun hopen hbounded => ?_, fun h => hh.finalized, fun h hpc hopen h0 => ?_⟩
  · rw [UInt32.le_iff_toNat_le, hpool]
    exact hs.limit hopen hbounded
  · have hthreads : 0 < s.threads :=
      Finset.card_pos.mpr ⟨h, Finmap.mem_keys.mpr (hh.finalized hpc hopen)⟩
    rw [h0, UInt32.toNat_zero] at hpool
    omega

/-- **Thread-pool accounting.** In every run of a constructed pool whose tasks have pairwise
different handles other than 0, on a platform that does not have a thread for every handle, every
state is accounted for, a handle gets one thread, no thread is joined twice, and when the destructor
has returned the dispatcher and the joiner have ended and every thread that was created has been
joined. -/
theorem pool_accounting (numThreads : UInt32) (limit : ℕ) (acts : List Action) {s : ThreadPool}
    (hrun : runFrom step (constructed numThreads) acts = some s) (hnodup : (added acts).Nodup)
    (hnonzero : 0 ∉ added acts) (hlimit : limit < 2 ^ 32 - 1)
    (hcreate : EachStep step (CanCreate limit) (constructed numThreads) acts) :
    EachState step Accounted (constructed numThreads) acts ∧
    (created numThreads acts).Nodup ∧ (joined numThreads acts).Nodup ∧
    (s.destructor = .returned → s.dispatcher = .ended ∧ s.joiner = .ended ∧
      ∀ h ∈ created numThreads acts, h ∈ joined numThreads acts) := by
  obtain ⟨hh, -, hp⟩ := invariants_of_run hrun hnodup hnonzero
  refine ⟨?_, hh.created_nodup, hh.joined_nodup,
    fun hpc => ⟨?_, ?_, fun h => hh.joined_of_returned hpc⟩⟩
  · rintro pre m hpre hm
    have hle := threads_le_of_run hcreate pre m hpre hm
    obtain ⟨rest, rfl⟩ := hpre
    rw [added, List.flatMap_append] at hnodup hnonzero
    obtain ⟨hh, hs, -⟩ := invariants_of_run hm hnodup.of_append_left
      fun h0 => hnonzero (List.mem_append_left _ h0)
    exact accounted hh hs hlimit hle
  · exact hp.dispatcherEnded (by rw [hpc]; rfl)
  · exact hp.joinerEnded (by rw [hpc]; rfl)

/-- A pool of two threads: the first task is done and finalized, the second is cancelled, the third
is still waiting for a thread when the destructor is called. -/
def threeTasks : List Action :=
  [.addTask 1, .pushTask 1, .dispatcher, .dispatcher, .dispatcher,
    .addTask 2, .pushTask 2, .addTask 3, .pushTask 3, .dispatcher, .dispatcher, .dispatcher,
    .dispatcher, .cancelTask 2, .getTaskStatus 2, .taskReturns 1 .running, .task 1,
    .taskReturns 1 .done, .task 1, .task 1, .task 1, .task 1, .task 1, .task 1,
    .joiner, .joiner, .joiner, .dispatcher, .dispatcher, .taskReturns 2 .running, .task 2,
    .destructor, .destructor, .destructor, .destructor, .destructor,
    .dispatcher, .dispatcher, .destructor, .joiner, .joiner, .joiner, .destructor,
    .task 2, .task 2, .task 2, .task 2, .task 2, .destructorJoin 2, .destructor]

theorem pool_accounting_three :
    ∃ s, runFrom step (constructed 2) threeTasks = some s ∧ s.destructor = .returned ∧
      EachState step Accounted (constructed 2) threeTasks ∧
      (created 2 threeTasks).Nodup ∧ (joined 2 threeTasks).Nodup ∧
      (s.destructor = .returned → s.dispatcher = .ended ∧ s.joiner = .ended ∧
        ∀ h ∈ created 2 threeTasks, h ∈ joined 2 threeTasks) :=
  ⟨_, rfl, rfl, pool_accounting 2 2 threeTasks rfl (by decide) (by decide) (by decide) (by decide)⟩

end ThreadPool

end Csci6780
