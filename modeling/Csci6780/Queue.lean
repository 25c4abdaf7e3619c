import Csci6780.Lib.Runs
import Mathlib.Data.Fintype.Basic
import Mathlib.Logic.Function.Basic

/-!
# The Blocking Queue

This module embeds `queue::Queue` with the threads that call it. A section under the mutex is one
step: a thread that finds the queue full, or empty, falls asleep in the step in which it looks. The
two condition variables differ in where they are notified: `Push` does it after its section,
`PopTimed` inside it, so that the pop and the wake-up of a producer are one step.

A thread that sleeps is woken by a notification, which picks one of the sleepers, or for no reason;
it tests again what it waits for. A consumer may also wake up because its time is over; it then
takes an element if there is one, and fails otherwise. `Pop` calls `PopTimed` until it does not
fail.

## Main definitions

* `Queue`, `QueueMonitor`: the queue, and the threads that call it.
* `QueueMonitor.step`, `QueueMonitor.events`: one step, and what is pushed and popped in it.

## Main results

* `QueueMonitor.stepped_of_step`: every step is one of the cases of `QueueMonitor.Stepped`.
-/

namespace Csci6780

variable {α : Type}

/-- `queue::Queue`; a `maxLength` of 0 stands for no limit. -/
structure Queue (α : Type) where
  maxLength : UInt32 := 0
  queue : List α := []
  deriving DecidableEq, Repr

namespace Queue

/-- `Push` has to wait. -/
def isFull (q : Queue α) : Bool :=
  q.maxLength != 0 && decide (q.maxLength.toNat ≤ q.queue.length)

/-- `Empty`. -/
def empty (q : Queue α) : Bool := q.queue.isEmpty

/-- What `Push` does when it need not wait. -/
def push (q : Queue α) (element : α) : Queue α := { q with queue := q.queue ++ [element] }

end Queue

/-! ### The threads that call it -/

/-- Where a thread stands: in no call; asleep in `Push` or woken in it, with its element; before
`notify_one` of `Push`; asleep in `PopTimed`, woken in it, or with its time over; and before the
next `PopTimed` of `Pop`. `PopTimed` may have been called by `Pop`. -/
inductive QueuePc (α : Type)
  | idle
  | pushAsleep (element : α)
  | pushWoken (element : α)
  | notifying
  | popAsleep (inPop : Bool)
  | popWoken (inPop : Bool)
  | popTimedOut (inPop : Bool)
  | popAgain
  deriving DecidableEq, Repr

namespace QueuePc

/-- The thread waits for `queue_not_full_`. -/
def producerSleeps : QueuePc α → Bool
  | .pushAsleep _ => true
  | _ => false

/-- A producer that has been woken and has not run yet. -/
def producerWoken : QueuePc α → Bool
  | .pushWoken _ => true
  | _ => false

/-- The thread waits for `queue_not_empty_`. -/
def consumerSleeps : QueuePc α → Bool
  | .popAsleep _ => true
  | _ => false

/-- A consumer that has been woken and has not run yet. -/
def consumerWoken : QueuePc α → Bool
  | .popWoken _ => true
  | _ => false

/-- The thread is going to notify `queue_not_empty_`. -/
def notifies : QueuePc α → Bool
  | .notifying => true
  | _ => false

/-- The thread is in a call of `PopTimed`. -/
def inPopTimed : QueuePc α → Bool
  | .popAsleep _ | .popWoken _ | .popTimedOut _ => true
  | _ => false

/-- The thread can take the section of `PopTimed`. -/
def mayPop : QueuePc α → Bool
  | .idle | .popWoken _ | .popTimedOut _ | .popAgain => true
  | _ => false

/-- The thread is woken. -/
def wake : QueuePc α → QueuePc α
  | .pushAsleep element => .pushWoken element
  | .popAsleep inPop => .popWoken inPop
  | pc => pc

end QueuePc

/-- One of those who sleep is woken, or nobody if nobody does. -/
def QueuePc.Woken {Thread : Type} [DecidableEq Thread] (sleeps : QueuePc α → Bool)
    (pcs pcs' : Thread → QueuePc α) : Prop :=
  (pcs' = pcs ∧ ∀ u, sleeps (pcs u) = false) ∨
    ∃ u, sleeps (pcs u) = true ∧ pcs' = Function.update pcs u (pcs u).wake

/-- What happens in a queue: `PopTimed` is called, an element is pushed, an element is popped and
returned, `PopTimed` returns `false`. -/
inductive QueueEvent (α Thread : Type)
  | called (thread : Thread)
  | pushed (element : α)
  | popped (thread : Thread) (element : α)
  | failed (thread : Thread)
  deriving DecidableEq, Repr

/-- A queue and the threads that call it. -/
structure QueueMonitor (α Thread : Type) where
  queue : Queue α
  pc : Thread → QueuePc α := fun _ => .idle

namespace QueueMonitor

variable {Thread : Type} [DecidableEq Thread]

/-- A constructed queue. -/
def constructed (α Thread : Type) (maxLength : UInt32) : QueueMonitor α Thread where
  queue := { maxLength := maxLength }

/-- A thread goes on at `pc`. -/
def goTo (s : QueueMonitor α Thread) (t : Thread) (pc : QueuePc α) : QueueMonitor α Thread :=
  { s with pc := Function.update s.pc t pc }

/-- `notify_one` for those who sleep: one of them is woken, or nobody if nobody does. -/
def notifyOne [Fintype Thread] (sleeps : QueuePc α → Bool) (s : QueueMonitor α Thread)
    (sleeper : Option Thread) : Option (QueueMonitor α Thread) :=
  match sleeper with
  | some u => if sleeps (s.pc u) then some (s.goTo u (s.pc u).wake) else none
  | none => if ∀ u, sleeps (s.pc u) = false then some s else none

/-- The section of `Push`. -/
def push (s : QueueMonitor α Thread) (t : Thread) (element : α) : QueueMonitor α Thread :=
  if s.queue.isFull then s.goTo t (.pushAsleep element)
  else { s with queue := s.queue.push element }.goTo t .notifying

/-- The section of `PopTimed`; `otherwise` is what happens when the queue is empty. -/
def popTimed [Fintype Thread] (s : QueueMonitor α Thread) (t : Thread) (sleeper : Option Thread)
    (otherwise : QueuePc α) : Option (QueueMonitor α Thread) :=
  match s.queue.queue with
  | [] => some (s.goTo t otherwise)
  | _ :: rest =>
      ({ s with queue := { s.queue with queue := rest } }.goTo t .idle).notifyOne
        QueuePc.producerSleeps sleeper

/-- Who goes on. Which sleeper a notification wakes is for the operating system to say. -/
inductive Action (α Thread : Type)
  | push (thread : Thread) (element : α)
  | notify (thread : Thread) (sleeper : Option Thread)
  | pop (thread : Thread) (inPop : Bool) (sleeper : Option Thread)
  | resume (thread : Thread) (sleeper : Option Thread)
  | timeout (thread : Thread)
  | spuriousWakeup (thread : Thread)
  deriving DecidableEq, Repr

/-- One step of a thread. -/
def step [Fintype Thread] (s : QueueMonitor α Thread) :
    Action α Thread → Option (QueueMonitor α Thread)
  | .push t element =>
      match s.pc t with
      | .idle => some (s.push t element)
      | _ => none
  | .notify t sleeper =>
      match s.pc t with
      | .notifying => (s.goTo t .idle).notifyOne QueuePc.consumerSleeps sleeper
      | _ => none
  | .pop t inPop sleeper =>
      match s.pc t with
      | .idle => s.popTimed t sleeper (.popAsleep inPop)
      | _ => none
  | .resume t sleeper =>
      match s.pc t with
      | .pushWoken element => some (s.push t element)
      | .popWoken inPop => s.popTimed t sleeper (.popAsleep inPop)
      | .popTimedOut inPop => s.popTimed t sleeper (if inPop then .popAgain else .idle)
      | .popAgain => s.popTimed t sleeper (.popAsleep true)
      | _ => none
  | .timeout t =>
      match s.pc t with
      | .popAsleep inPop => some (s.goTo t (.popTimedOut inPop))
      | _ => none
  | .spuriousWakeup t =>
      match s.pc t with
      | .pushAsleep element => some (s.goTo t (.pushWoken element))
      | .popAsleep inPop => some (s.goTo t (.popWoken inPop))
      | _ => none

/-! ### What happens -/

/-- What a section of `Push` brings about. -/
def pushEvents (s : QueueMonitor α Thread) (element : α) : List (QueueEvent α Thread) :=
  if s.queue.isFull then [] else [.pushed element]

/-- What a section of `PopTimed` brings about; `otherwise` is for an empty queue. -/
def popEvents (s : QueueMonitor α Thread) (t : Thread) (otherwise : List (QueueEvent α Thread)) :
    List (QueueEvent α Thread) :=
  match s.queue.queue with
  | [] => otherwise
  | element :: _ => [.popped t element]

/-- A thread that is not in `PopTimed` calls it. -/
def callEvents (s : QueueMonitor α Thread) (t : Thread) : List (QueueEvent α Thread) :=
  if (s.pc t).inPopTimed then [] else [.called t]

/-- What a step brings about. -/
def events (s : QueueMonitor α Thread) : Action α Thread → List (QueueEvent α Thread)
  | .push _ element => s.pushEvents element
  | .pop t _ _ => s.callEvents t ++ s.popEvents t []
  | .resume t _ =>
      match s.pc t with
      | .pushWoken element => s.pushEvents element
      | .popWoken _ => s.callEvents t ++ s.popEvents t []
      | .popTimedOut _ => s.popEvents t [.failed t]
      | .popAgain => s.callEvents t ++ s.popEvents t []
      | _ => []
  | _ => []

/-! ### One step -/

/-- The kinds of steps, with what they bring about. -/
inductive Stepped (s : QueueMonitor α Thread) :
    List (QueueEvent α Thread) → QueueMonitor α Thread → Prop
  | pushes (t : Thread) (element : α) (hpc : s.pc t = .idle ∨ s.pc t = .pushWoken element)
      (hfree : s.queue.isFull = false) :
      Stepped s [.pushed element] ({ s with queue := s.queue.push element }.goTo t .notifying)
  | pushWaits (t : Thread) (element : α) (hpc : s.pc t = .idle ∨ s.pc t = .pushWoken element)
      (hfull : s.queue.isFull = true) : Stepped s [] (s.goTo t (.pushAsleep element))
  | notifies (t : Thread) (pcs : Thread → QueuePc α) (hpc : s.pc t = .notifying)
      (hwoken : QueuePc.Woken QueuePc.consumerSleeps (Function.update s.pc t .idle) pcs) :
      Stepped s [] { s with pc := pcs }
  | pops (t : Thread) (element : α) (rest : List α) (pcs : Thread → QueuePc α)
      (hpc : (s.pc t).mayPop = true) (hqueue : s.queue.queue = element :: rest)
      (hwoken : QueuePc.Woken QueuePc.producerSleeps (Function.update s.pc t .idle) pcs) :
      Stepped s (s.callEvents t ++ [.popped t element])
        { queue := { s.queue with queue := rest }, pc := pcs }
  | popWaits (t : Thread) (inPop : Bool) (hpc : (s.pc t).mayPop = true)
      (hqueue : s.queue.queue = []) : Stepped s (s.callEvents t) (s.goTo t (.popAsleep inPop))
  | fails (t : Thread) (inPop : Bool) (hpc : s.pc t = .popTimedOut inPop)
      (hqueue : s.queue.queue = []) :
      Stepped s [.failed t] (s.goTo t (if inPop then .popAgain else .idle))
  | timesOut (t : Thread) (inPop : Bool) (hpc : s.pc t = .popAsleep inPop) :
      Stepped s [] (s.goTo t (.popTimedOut inPop))
  | producerWakes (t : Thread) (element : α) (hpc : s.pc t = .pushAsleep element) :
      Stepped s [] (s.goTo t (.pushWoken element))
  | consumerWakes (t : Thread) (inPop : Bool) (hpc : s.pc t = .popAsleep inPop) :
      Stepped s [] (s.goTo t (.popWoken inPop))

variable {s s' : QueueMonitor α Thread} {a : Action α Thread} {t u : Thread}

@[simp] theorem pc_goTo_self (s : QueueMonitor α Thread) (t : Thread) (pc : QueuePc α) :
    (s.goTo t pc).pc t = pc :=
  Function.update_self ..

theorem pc_goTo_of_ne (hne : u ≠ t) (s : QueueMonitor α Thread) (pc : QueuePc α) :
    (s.goTo t pc).pc u = s.pc u :=
  Function.update_of_ne hne ..

theorem stepped_push {element : α} (hpc : s.pc t = .idle ∨ s.pc t = .pushWoken element) :
    Stepped s (s.pushEvents element) (s.push t element) := by
  rw [pushEvents, push]
  cases hfull : s.queue.isFull with
  | true => exact .pushWaits t element hpc hfull
  | false => exact .pushes t element hpc hfull

variable [Fintype Thread]

theorem woken_of_notifyOne {sleeps : QueuePc α → Bool} {sleeper : Option Thread}
    (h : s.notifyOne sleeps sleeper = some s') :
    ∃ pcs, QueuePc.Woken sleeps s.pc pcs ∧ s' = { s with pc := pcs } := by
  cases sleeper with
  | none =>
      rw [notifyOne] at h
      split at h
      · next hnobody => exact ⟨s.pc, .inl ⟨rfl, hnobody⟩, (Option.some.inj h).symm⟩
      · cases h
  | some u =>
      rw [notifyOne] at h
      split at h
      · next hsleeps => exact ⟨_, .inr ⟨u, hsleeps, rfl⟩, (Option.some.inj h).symm⟩
      · cases h

/-- A section of `PopTimed` that finds an element. -/
theorem stepped_pop {sleeper : Option Thread} {element : α} {rest : List α}
    (hpc : (s.pc t).mayPop = true) (hqueue : s.queue.queue = element :: rest)
    (h : ({ s with queue := { s.queue with queue := rest } }.goTo t .idle).notifyOne
      QueuePc.producerSleeps sleeper = some s') :
    Stepped s (s.callEvents t ++ [.popped t element]) s' := by
  obtain ⟨pcs, hwoken, rfl⟩ := woken_of_notifyOne h
  exact .pops t element rest pcs hpc hqueue hwoken

/-- A section of `PopTimed` that sleeps when the queue is empty. -/
theorem stepped_popTimed {sleeper : Option Thread} {inPop : Bool} (hpc : (s.pc t).mayPop = true)
    (h : s.popTimed t sleeper (.popAsleep inPop) = some s') :
    Stepped s (s.callEvents t ++ s.popEvents t []) s' := by
  rw [popTimed] at h
  rw [popEvents]
  split at h
  · next hqueue =>
      obtain rfl := Option.some.inj h
      rw [List.append_nil]
      exact .popWaits t inPop hpc hqueue
  · next element rest hqueue =>
      exact stepped_pop hpc hqueue h

/-- **Every step is one of the kinds.** -/
theorem stepped_of_step (hstep : s.step a = some s') : Stepped s (s.events a) s' := by
  cases a with
  | push t element =>
      rw [step] at hstep
      split at hstep
      · next hpc =>
          obtain rfl := Option.some.inj hstep
          exact stepped_push (.inl hpc)
      · cases hstep
  | notify t sleeper =>
      rw [step] at hstep
      split at hstep
      · next hpc =>
          obtain ⟨pcs, hwoken, rfl⟩ := woken_of_notifyOne hstep
          exact .notifies t pcs hpc hwoken
      · cases hstep
  | pop t inPop sleeper =>
      rw [step] at hstep
      split at hstep
      · next hpc => exact stepped_popTimed (by rw [hpc]; rfl) hstep
      · cases hstep
  | resume t sleeper =>
      rw [step] at hstep
      rw [events]
      split at hstep
      · next element hpc =>
          obtain rfl := Option.some.inj hstep
          exact stepped_push (.inr hpc)
      · next inPop hpc => exact stepped_popTimed (by rw [hpc]; rfl) hstep
      · next inPop hpc =>
          have hcalls : s.callEvents t = [] := by
            rw [callEvents, hpc]
            rfl
          rw [popTimed] at hstep
          rw [popEvents]
          split at hstep
          · next hqueue =>
              obtain rfl := Option.some.inj hstep
              exact .fails t inPop hpc hqueue
          · next element rest hqueue =>
              have hst := stepped_pop (by rw [hpc]; rfl) hqueue hstep
              rw [hcalls] at hst
              exact hst
      · next hpc => exact stepped_popTimed (by rw [hpc]; rfl) hstep
      · cases hstep
  | timeout t =>
      rw [step] at hstep
      split at hstep
      · next inPop hpc =>
          obtain rfl := Option.some.inj hstep
          exact .timesOut t inPop hpc
      · cases hstep
  | spuriousWakeup t =>
      rw [step] at hstep
      split at hstep
      · next element hpc =>
          obtain rfl := Option.some.inj hstep
          exact .producerWakes t element hpc
      · next inPop hpc =>
          obtain rfl := Option.some.inj hstep
          exact .consumerWakes t inPop hpc
      · cases hstep

end QueueMonitor

end Csci6780
