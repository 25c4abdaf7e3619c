import Csci6780.ThreadPoolInvariants

/-!
# The Constructor of the Thread Pool

The members of a `ThreadPool` are initialized in the order in which the header declares them. The
two threads are declared before `pool_size_` and `num_completed_tasks_`: they run before the
constructor sets these to 0. This module takes the constructor apart into its initializations from
the first thread on; in between the threads that have been started take their steps. What the
memory of a member holds before it is initialized is arbitrary.

A dispatcher that is fast enough reserves its first slot before `pool_size_` is set to 0, and the
slot is forgotten. From then on `pool_size_` is one too small.

## Main definitions

* `ThreadPool.Construction.step`: a step of the constructor, or of the pool.
* `ThreadPool.Sound`: what `pool_size_` is good for.

## Main results

* `ThreadPool.construction_sound_iff`: a constructed pool is sound in every state exactly when the
  dispatcher has no slot when `pool_size_` is set to 0, and never takes one too many for it.
* `ThreadPool.construction_loses_slot`: a pool of one thread that runs two, and one whose counter
  goes below 0.
-/

namespace Csci6780

namespace ThreadPool

/-- Where the constructor stands: before it initializes the named member, and returned. -/
inductive ConstructorPc
  | dispatcherThread
  | joinerThread
  | poolSize
  | numCompletedTasks
  | returned
  deriving DecidableEq, Repr

/-- A pool that is being constructed, or has been. -/
structure Construction where
  pool : ThreadPool
  constructing : ConstructorPc := .dispatcherThread

/-- Who goes on: the constructor, or one of the others. -/
inductive ConstructionAction
  | constructor
  | pool (action : Action)
  deriving DecidableEq, Repr

namespace Construction

/-- The members that are declared before the threads are initialized. The last two hold what was in
their memory. -/
def memory (numThreads poolSize numCompletedTasks : UInt32) : Construction where
  pool :=
    { maxPoolSize := numThreads, poolSize := poolSize, numCompletedTasks := numCompletedTasks }

/-- The next initialization of the constructor. -/
def construct (s : Construction) : Option Construction :=
  match s.constructing with
  | .dispatcherThread => some { s with constructing := .joinerThread }
  | .joinerThread => some { s with constructing := .poolSize }
  | .poolSize => some { pool := { s.pool with poolSize := 0 }, constructing := .numCompletedTasks }
  | .numCompletedTasks =>
      some { pool := { s.pool with numCompletedTasks := 0 }, constructing := .returned }
  | .returned => none

/-- The thread that takes the step has been started. Nobody uses the pool before the constructor
has returned. -/
def started (s : Construction) : Action → Bool
  | .dispatcher | .spuriousWakeup => s.constructing != .dispatcherThread
  | .joiner => s.constructing != .dispatcherThread && s.constructing != .joinerThread
  | _ => s.constructing == .returned

/-- One step of the constructor or of the pool. -/
def step (s : Construction) : ConstructionAction → Option Construction
  | .constructor => s.construct
  | .pool action =>
      if s.started action then (s.pool.step action).map fun pool => { s with pool := pool }
      else none

end Construction

/-- What `pool_size_` is good for: it counts the threads and the reserved slot, it keeps the
threads within the limit, and the joiner never takes it below 0. -/
structure Sound (s : ThreadPool) : Prop where
  poolSize : s.poolSize.toNat = s.threads + s.reserved
  limit : s.maxPoolSize ≠ 0 → s.threads ≤ s.maxPoolSize.toNat
  decrement : ∀ h, s.joiner = .finalize h → s.shouldClose = false →
    s.handleToThread.lookup h = some .ended → s.poolSize ≠ 0

/-- The next step of the dispatcher takes a slot. -/
def reserves (s : ThreadPool) : Bool :=
  match s.dispatcher with
  | .reserve => !s.mustWait
  | .woken => decide (s.poolSize < s.maxPoolSize) || s.shouldClose
  | _ => false

variable {s s' : ThreadPool} {a : Action}

/-- The dispatcher takes a slot only in the step that says so. -/
theorem reserves_of_dispatcherThread (hstep : s.dispatcherThread = some s')
    (hnone : s.reserved = 0) (hone : s'.reserved = 1) : s.reserves = true := by
  rw [dispatcherThread] at hstep
  split at hstep
  · next hpc =>
      split at hstep
      · obtain rfl := Option.some.inj hstep
        cases hone
      · next hwait => simpa [reserves, hpc] using hwait
  · cases hstep
  · next hpc =>
      split at hstep
      · next hfree => simpa [reserves, hpc] using hfree
      · obtain rfl := Option.some.inj hstep
        cases hone
  · next hpc =>
      rw [reserved, hpc] at hnone
      cases hnone
  · next hpc =>
      rw [reserved, hpc] at hnone
      cases hnone
  · next hpc =>
      rw [reserved, hpc] at hnone
      cases hnone
  · cases hstep

theorem dispatcherThread_of_reserves (h : s.reserves = true) :
    s.reserved = 0 ∧ s.dispatcherThread = some s.reserveSlot := by
  rw [reserves] at h
  split at h
  · next hpc =>
      rw [reserved, dispatcherThread, hpc]
      exact ⟨rfl, congrArg some (if_neg (by simpa using h))⟩
  · next hpc =>
      rw [reserved, dispatcherThread, hpc]
      exact ⟨rfl, congrArg some (if_pos (by simpa using h))⟩
  · cases h

/-- `pool_size_` has been set to 0. -/
def ConstructorPc.counting : ConstructorPc → Bool
  | .numCompletedTasks | .returned => true
  | _ => false

namespace Construction

variable {m m' : Construction} {b : ConstructionAction}

/-- The pool is sound once it is there. -/
def SoundOnceReturned (m : Construction) : Prop := m.constructing = .returned → Sound m.pool

/-- When `pool_size_` is set to 0, the dispatcher has not reserved a slot; and no slot is reserved
with 2^32 - 1 threads there. -/
def Timely (m : Construction) (b : ConstructionAction) : Prop :=
  (b = .constructor → m.constructing = .poolSize → m.pool.reserved = 0) ∧
  (b = .pool .dispatcher → m.pool.reserves = true → m.pool.threads + 1 < 2 ^ 32)

instance (m : Construction) (b : ConstructionAction) : Decidable (Timely m b) := by
  unfold Timely
  infer_instance

/-- Before anybody uses the pool, there is nothing for the dispatcher or the joiner to do. -/
structure Untouched (s : ThreadPool) : Prop where
  shouldClose : s.shouldClose = false
  handleToThread : s.handleToThread = ∅
  dispatchQueue : s.dispatchQueue = []
  joinableQueue : s.joinableQueue = []
  joiner : s.joiner = .pop
  dispatcher : s.dispatcher = .reserve ∨ s.dispatcher = .waiting ∨ s.dispatcher = .woken ∨
    s.dispatcher = .pop

theorem Untouched.threads (hu : Untouched s) : s.threads = 0 := by
  rw [ThreadPool.threads, hu.handleToThread]
  rfl

/-- The dispatcher and the joiner leave such a pool as it is but for the dispatcher's slot. -/
theorem Untouched.step (hu : Untouched s) (hst : Stepped s a s')
    (ha : a = .dispatcher ∨ a = .spuriousWakeup ∨ a = .joiner) : Untouched s' := by
  have hdispatcher := hu.dispatcher
  have hjoiner := hu.joiner
  cases hst with
  | waits hpc hfull => exact { hu with dispatcher := .inr (.inl rfl) }
  | reserves hpc hfree => exact { hu with dispatcher := .inr (.inr (.inr rfl)) }
  | spuriousWakeup hpc => exact { hu with dispatcher := .inr (.inr (.inl rfl)) }
  | popsTask h rest hpc hqueue => simp [hu.dispatchQueue] at hqueue
  | dispatches h hpc hopen htask hfree => simp [hpc] at hdispatcher
  | dispatcherBreaks h hpc hclose => simp [hpc] at hdispatcher
  | dispatcherEnds hpc => simp [hpc] at hdispatcher
  | popsJoinable h rest hpc hqueue => simp [hu.joinableQueue] at hqueue
  | finalizes h hpc hopen hended => simp [hpc] at hjoiner
  | joinerBreaks h hpc hclose => simp [hpc] at hjoiner
  | joinerNotifies hpc => simp [hpc] at hjoiner
  | joinerEnds hpc => simp [hpc] at hjoiner
  | _ => simp at ha

/-- What a step of a pool under construction is. -/
theorem step_pool (hstep : m.step (.pool a) = some m') :
    m.pool.step a = some m'.pool ∧ m'.constructing = m.constructing ∧
      (m.constructing ≠ .returned → a = .dispatcher ∨ a = .spuriousWakeup ∨ a = .joiner) := by
  rw [Construction.step] at hstep
  split at hstep
  · next hstarted =>
      obtain ⟨pool, hpool, rfl⟩ := Option.map_eq_some_iff.mp hstep
      refine ⟨hpool, rfl, fun hpc => ?_⟩
      cases a <;> simp_all [started]
  · cases hstep

/-- What a step of the constructor is. -/
theorem construct_cases (hstep : m.construct = some m') :
    (m.constructing = .poolSize ∧
      m' = { pool := { m.pool with poolSize := 0 }, constructing := .numCompletedTasks }) ∨
    (m.constructing = .numCompletedTasks ∧
      m' = { pool := { m.pool with numCompletedTasks := 0 }, constructing := .returned }) ∨
    (m.constructing.counting = false ∧ m'.pool = m.pool ∧ m'.constructing.counting = false) := by
  rw [construct] at hstep
  split at hstep
  · next hat =>
      obtain rfl := Option.some.inj hstep
      exact .inr (.inr ⟨by rw [hat]; rfl, rfl, rfl⟩)
  · next hat =>
      obtain rfl := Option.some.inj hstep
      exact .inr (.inr ⟨by rw [hat]; rfl, rfl, rfl⟩)
  · next hat => exact .inl ⟨hat, (Option.some.inj hstep).symm⟩
  · next hat => exact .inr (.inl ⟨hat, (Option.some.inj hstep).symm⟩)
  · cases hstep

/-- Before the constructor has returned, nobody has used the pool. -/
theorem untouched_step (hu : m.constructing ≠ .returned → Untouched m.pool)
    (hstep : m.step b = some m') : m'.constructing ≠ .returned → Untouched m'.pool := by
  cases b with
  | constructor =>
      intro hpc
      obtain ⟨hat, rfl⟩ | ⟨-, rfl⟩ | ⟨hat, hpool, -⟩ := construct_cases hstep
      · exact { hu (by simp [hat]) with }
      · exact absurd rfl hpc
      · rw [hpool]
        exact hu fun hret => by simp [hret, ConstructorPc.counting] at hat
  | pool a =>
      obtain ⟨hpool, hsame, hwho⟩ := step_pool hstep
      rw [hsame]
      exact fun hpc => (hu hpc).step (stepped_of_step hpool) (hwho hpc)

/-- The counter is exact, and the threads are within the limit. -/
structure Exact (s : ThreadPool) : Prop where
  slots : Slots s
  bound : s.threads + s.reserved < 2 ^ 32
  limit : s.maxPoolSize ≠ 0 → s.threads ≤ s.maxPoolSize.toNat

theorem Exact.poolSize (he : Exact s) : s.poolSize.toNat = s.threads + s.reserved :=
  he.slots.counter.trans (Nat.mod_eq_of_lt he.bound)

theorem Exact.sound (he : Exact s) : Sound s where
  poolSize := he.poolSize
  limit := he.limit
  decrement h _ _ hended h0 := by
    have hpos : 0 < s.threads :=
      Finset.card_pos.mpr ⟨h, Finmap.mem_keys.mpr (mem_handleToThread hended)⟩
    have heq := he.poolSize
    rw [h0, UInt32.toNat_zero] at heq
    omega

/-- When nothing is counted, there is nothing to count. -/
theorem Exact.zero (hthreads : s.threads = 0) (hnone : s.reserved = 0) :
    Exact { s with poolSize := 0 } := by
  have hcount : s.threads + s.reserved = 0 := by omega
  refine ⟨⟨?_, fun _ _ => ?_⟩, ?_, fun _ => ?_⟩
  · exact (congrArg (· % 2 ^ 32) hcount).symm
  · exact le_of_eq_of_le hcount (Nat.zero_le _)
  · exact lt_of_eq_of_lt hcount (by decide)
  · exact le_of_eq_of_le hthreads (Nat.zero_le _)

theorem Exact.step (he : Exact s) (hstep : s.step a = some s')
    (htimely : a = .dispatcher → s.reserves = true → s.threads + 1 < 2 ^ 32) : Exact s' := by
  have hst := stepped_of_step hstep
  have hbound := he.bound
  have hlimit := he.limit
  have hmax := maxPoolSize_eq hst
  refine ⟨he.slots.step hst, ?_, ?_⟩
  · rcases counted_of_stepped hst with ⟨-, hthreads, hreserved⟩ |
      ⟨ha, -, hthreads, hnone, hone, -⟩ | ⟨-, -, hthreads, hone, hnone⟩ |
      ⟨-, hthreads, hreserved⟩
    · omega
    · subst ha
      have hlt := htimely rfl (reserves_of_dispatcherThread hstep hnone hone)
      omega
    · omega
    · omega
  · rw [hmax]
    intro hne
    rcases counted_of_stepped hst with ⟨-, hthreads, -⟩ | ⟨-, -, hthreads, -, -, -⟩ |
      ⟨hopen, -, hthreads, hone, -⟩ | ⟨-, hthreads, -⟩
    · exact hthreads ▸ hlimit hne
    · exact hthreads ▸ hlimit hne
    · -- a thread is created only in an open pool, in the slot that was reserved for it
      have hle := he.slots.limit hopen hne
      omega
    · exact le_trans (by omega) (hlimit hne)

/-- What holds in a run whose slots are reserved in time. -/
structure Kept (m : Construction) : Prop where
  untouched : m.constructing ≠ .returned → Untouched m.pool
  exact : m.constructing.counting = true → Exact m.pool

theorem Kept.memory (numThreads poolSize numCompletedTasks : UInt32) :
    Kept (memory numThreads poolSize numCompletedTasks) where
  untouched _ := ⟨rfl, rfl, rfl, rfl, rfl, .inl rfl⟩
  exact h := nomatch h

theorem Kept.step (hk : Kept m) (htimely : Timely m b) (hstep : m.step b = some m') :
    Kept m' := by
  refine ⟨untouched_step hk.untouched hstep, fun hcounting => ?_⟩
  cases b with
  | constructor =>
      obtain ⟨hat, rfl⟩ | ⟨hat, rfl⟩ | ⟨-, -, hnot⟩ := construct_cases hstep
      · exact .zero (hk.untouched (by simp [hat])).threads (htimely.1 rfl hat)
      · have he := hk.exact (by rw [hat]; rfl)
        exact ⟨{ he.slots with }, he.bound, he.limit⟩
      · rw [hnot] at hcounting
        cases hcounting
  | pool a =>
      obtain ⟨hpool, hsame, -⟩ := step_pool hstep
      rw [hsame] at hcounting
      exact (hk.exact hcounting).step hpool fun ha => htimely.2 (by rw [ha])

/-- The slot that the dispatcher has reserved is not counted. -/
structure Forgotten (m : Construction) : Prop where
  untouched : Untouched m.pool
  dispatcher : m.pool.dispatcher = .pop
  poolSize : m.pool.poolSize = 0
  constructing : m.constructing = .numCompletedTasks

/-- The dispatcher waits for a task, and the constructor can only return. -/
theorem Forgotten.step (hf : Forgotten m) (hstep : m.step b = some m') :
    m'.constructing = .returned ∧ m'.pool.poolSize = 0 ∧ m'.pool.reserved = 1 := by
  cases b with
  | constructor =>
      obtain ⟨hat, -⟩ | ⟨-, rfl⟩ | ⟨hat, -⟩ := construct_cases hstep
      · simp [hf.constructing] at hat
      · exact ⟨rfl, hf.poolSize, congrArg DispatcherPc.reserved hf.dispatcher⟩
      · simp [hf.constructing, ConstructorPc.counting] at hat
  | pool a =>
      obtain ⟨hpool, -, hwho⟩ := step_pool hstep
      have hdispatcher := hf.dispatcher
      have hjoiner := hf.untouched.joiner
      have ha := hwho (by simp [hf.constructing])
      generalize m'.pool = pool at hpool
      cases stepped_of_step hpool with
      | popsTask h rest hpc hqueue => simp [hf.untouched.dispatchQueue] at hqueue
      | popsJoinable h rest hpc hqueue => simp [hf.untouched.joinableQueue] at hqueue
      | _ => simp_all

/-- A slot that is not counted makes the constructed pool unsound. -/
theorem Forgotten.not_eachState (hf : Forgotten m) {acts : List ConstructionAction}
    (hrun : runFrom Construction.step m acts = some m') (hreturned : m'.constructing = .returned) :
    ¬EachState Construction.step SoundOnceReturned m acts := by
  intro hsound
  cases acts with
  | nil =>
      obtain rfl := Option.some.inj hrun
      simp [hf.constructing] at hreturned
  | cons b acts =>
      obtain ⟨k, hstep, -⟩ := runFrom_cons_eq_some hrun
      obtain ⟨hret, hzero, hone⟩ := hf.step hstep
      have heq := ((hsound.tail hstep).first hret).poolSize
      rw [hzero, hone, UInt32.toNat_zero] at heq
      omega

/-- A slot that is reserved when `pool_size_` is set to 0 is not counted. -/
theorem forgotten_of_reserved (hu : Untouched m.pool) (hat : m.constructing = .poolSize)
    (hslot : m.pool.reserved ≠ 0) (hstep : m.step .constructor = some m') : Forgotten m' := by
  obtain ⟨-, rfl⟩ | ⟨hother, -⟩ | ⟨-, -, hother⟩ := construct_cases hstep
  · refine ⟨{ hu with }, ?_, rfl, rfl⟩
    rcases hu.dispatcher with h | h | h | h
    · simp [reserved, h, DispatcherPc.reserved] at hslot
    · simp [reserved, h, DispatcherPc.reserved] at hslot
    · simp [reserved, h, DispatcherPc.reserved] at hslot
    · exact h
  · simp [hat] at hother
  · have hpc := hstep
    rw [Construction.step, construct, hat] at hpc
    obtain rfl := Option.some.inj hpc
    simp [ConstructorPc.counting] at hother

/-- A slot too many is not counted. -/
theorem threads_lt_of_sound (hres : m.pool.reserves = true)
    (hstep : m.step (.pool .dispatcher) = some m') (hsound : Sound m'.pool) :
    m.pool.threads + 1 < 2 ^ 32 := by
  obtain ⟨hpool, -, -⟩ := step_pool hstep
  rw [ThreadPool.step, (dispatcherThread_of_reserves hres).2] at hpool
  have hlt := m'.pool.poolSize.toNat_lt
  rw [hsound.poolSize, ← Option.some.inj hpool] at hlt
  exact hlt

end Construction

/-- **The pool is safe against its own threads exactly when the dispatcher is slow enough.** In a
run in which the constructor returns, whatever was in the memory of the counters, the pool is sound
in every state after that exactly when the dispatcher has reserved no slot when `pool_size_` is set
to 0, and reserves none later with 2^32 - 1 threads there. -/
theorem construction_sound_iff (numThreads poolSize numCompletedTasks : UInt32)
    (acts : List ConstructionAction) {m : Construction}
    (hrun : runFrom Construction.step
      (Construction.memory numThreads poolSize numCompletedTasks) acts = some m)
    (hreturned : m.constructing = .returned) :
    EachState Construction.step Construction.SoundOnceReturned
        (Construction.memory numThreads poolSize numCompletedTasks) acts ↔
      EachStep Construction.step Construction.Timely
        (Construction.memory numThreads poolSize numCompletedTasks) acts := by
  have hstart := Construction.Kept.memory numThreads poolSize numCompletedTasks
  have huntouched : EachState Construction.step
      (fun k => k.constructing ≠ .returned → Construction.Untouched k.pool)
      (Construction.memory numThreads poolSize numCompletedTasks) acts :=
    .of_inv_always _ (fun _ _ _ => Construction.untouched_step) hstart.untouched acts
  constructor
  · intro hsound pre b k hpre hk
    obtain ⟨k', rest, hstep, hk', rfl, hrest⟩ := runFrom_after hrun hpre hk
    have hu := huntouched pre k ((List.prefix_append pre [b]).trans hpre) hk
    constructor
    · rintro rfl hat
      by_contra hslot
      have hf := Construction.forgotten_of_reserved (hu (by simp [hat])) hat hslot hstep
      exact hf.not_eachState hrest hreturned (hsound.right hk')
    · rintro rfl hres
      by_cases hret : k.constructing = .returned
      · have hsame := (Construction.step_pool hstep).2.1
        exact Construction.threads_lt_of_sound hres hstep (hsound _ k' hpre hk' (hsame.trans hret))
      · rw [(hu hret).threads]
        decide
  · intro htimely
    have hkept := EachState.of_inv Construction.Kept (fun _ _ _ hk ht hstep => hk.step ht hstep)
      hstart htimely
    exact hkept.mono fun k hk hret => (hk.exact (by rw [hret]; rfl)).sound

/-- The dispatcher comes to its first section before the constructor returns, but not before
`pool_size_` is set to 0. Then a task is added and dispatched. -/
def slowDispatcher : List ConstructionAction :=
  [.constructor, .constructor, .constructor, .pool .dispatcher, .constructor,
    .pool (.addTask 1), .pool (.pushTask 1), .pool .dispatcher, .pool .dispatcher]

theorem construction_sound_iff_slow :
    ∃ m, runFrom Construction.step (Construction.memory 2 7 9) slowDispatcher = some m ∧
      m.constructing = .returned ∧ m.pool.threads = 1 ∧
      EachState Construction.step Construction.SoundOnceReturned (Construction.memory 2 7 9)
        slowDispatcher :=
  ⟨_, rfl, rfl, rfl, (construction_sound_iff 2 7 9 slowDispatcher rfl rfl).mpr (by decide)⟩

/-- The dispatcher reserves its first slot before the joiner is started. A first task is added and
dispatched. -/
def fastDispatcher : List ConstructionAction :=
  [.constructor, .pool .dispatcher, .constructor, .constructor, .constructor,
    .pool (.addTask 1), .pool (.pushTask 1), .pool .dispatcher, .pool .dispatcher]

/-- A second task is added and dispatched. -/
def secondTask : List ConstructionAction :=
  [.pool .dispatcher, .pool (.addTask 2), .pool (.pushTask 2), .pool .dispatcher,
    .pool .dispatcher]

/-- The first task is done before the dispatcher reserves its next slot, and the joiner is told. -/
def firstTaskDone : List ConstructionAction :=
  [.pool (.taskReturns 1 .done), .pool (.task 1), .pool (.task 1), .pool (.task 1),
    .pool (.task 1), .pool (.task 1), .pool (.task 1), .pool .joiner]

/-- The slot of a dispatcher that is too fast is not counted. A pool of one thread then runs two;
or the joiner comes to decrement a counter that is 0. -/
theorem construction_loses_slot :
    ¬EachState Construction.step Construction.SoundOnceReturned (Construction.memory 1 0 0)
      fastDispatcher ∧
    (∃ m, runFrom Construction.step (Construction.memory 1 0 0) (fastDispatcher ++ secondTask) =
        some m ∧ m.constructing = .returned ∧ m.pool.maxPoolSize = 1 ∧ m.pool.threads = 2) ∧
    ∃ m, runFrom Construction.step (Construction.memory 1 0 0) (fastDispatcher ++ firstTaskDone) =
        some m ∧ m.constructing = .returned ∧ m.pool.joiner = .finalize 1 ∧
      m.pool.shouldClose = false ∧ m.pool.handleToThread.lookup 1 = some .ended ∧
      m.pool.poolSize = 0 := by
  refine ⟨fun hsound => ?_, ⟨_, rfl, rfl, rfl, rfl⟩, ⟨_, rfl, rfl, rfl, rfl, rfl, rfl⟩⟩
  have heq := (hsound.last rfl rfl).poolSize
  exact absurd heq (by decide)

end ThreadPool

end Csci6780
