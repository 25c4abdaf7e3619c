import Csci6780.Lib.Paths
import Csci6780.Lib.Runs
import Mathlib.Data.Finset.Erase
import Mathlib.Data.Finset.Insert
import Mathlib.Data.Fintype.Basic

/-!
# The File Access Manager

This module embeds `server::file_handler::FileAccessManager`: a set of paths that are locked, under
a mutex, and a condition variable that is notified when a path is unlocked. A path goes into the
set in its normal form, made absolute with the current directory of the process, which nothing in
the program changes.

`AccessMonitor` is the manager with the threads that call it. A thread that finds its path locked
sleeps, in one step with the test. `UnlockFile` notifies after its section, and `notify_one` wakes
one of the threads that sleep, whichever path it waits for; a thread that has been woken tests its
own path again.

## Main definitions

* `uniquePath`: the path in the set.
* `FileAccessManager.lockFile`, `FileAccessManager.unlockFile`: the sections under the mutex.
* `AccessMonitor.step`: one step of a thread that locks or unlocks.
-/

namespace Csci6780

/-- `UniquePath`, in a process with the current directory. -/
def uniquePath (currentPath relative : List Char) : List Char :=
  if isAbsolute relative then lexicallyNormal relative
  else lexicallyNormal (joinPath currentPath relative)

/-! ### The manager -/

/-- What `mutex_` protects. -/
structure FileAccessManager where
  lockedFiles : Finset (List Char) := ∅
  deriving DecidableEq

namespace FileAccessManager

/-- The section of `LockFile` from the last test on, with the path's key; it waits while the path is
locked. -/
def lockFile (manager : FileAccessManager) (key : List Char) : Option FileAccessManager :=
  if key ∈ manager.lockedFiles then none
  else some { lockedFiles := insert key manager.lockedFiles }

/-- The section of `UnlockFile`, and whether it warns that the path was never locked. -/
def unlockFile (manager : FileAccessManager) (key : List Char) : FileAccessManager × Bool :=
  ({ lockedFiles := manager.lockedFiles.erase key }, decide (key ∉ manager.lockedFiles))

variable {manager manager' : FileAccessManager} {key : List Char}

theorem lockFile_eq_some (h : manager.lockFile key = some manager') :
    key ∉ manager.lockedFiles ∧ manager' = { lockedFiles := insert key manager.lockedFiles } := by
  rw [lockFile] at h
  split at h
  · cases h
  · next hfree => exact ⟨hfree, (Option.some.inj h).symm⟩

end FileAccessManager

/-! ### The threads that call it -/

/-- Where a thread stands: in no call, asleep in `LockFile` or woken in it, or in `UnlockFile`
before `notify_one`. Each call has its path's key. -/
inductive LockPc
  | outside
  | asleep (key : List Char)
  | woken (key : List Char)
  | notifying (key : List Char)
  deriving DecidableEq, Repr

/-- The thread sleeps. -/
def LockPc.isAsleep : LockPc → Bool
  | .asleep _ => true
  | _ => false

/-- A manager and the threads that call it. -/
structure AccessMonitor (Thread : Type) where
  manager : FileAccessManager := {}
  pc : Thread → LockPc := fun _ => .outside

namespace AccessMonitor

variable {Thread : Type} [DecidableEq Thread]

/-- A thread goes on at `pc`. -/
def goTo (s : AccessMonitor Thread) (t : Thread) (pc : LockPc) : AccessMonitor Thread :=
  { s with pc := Function.update s.pc t pc }

/-- A thread in the section of `LockFile` locks the path or falls asleep. -/
def test (s : AccessMonitor Thread) (t : Thread) (key : List Char) : AccessMonitor Thread :=
  match s.manager.lockFile key with
  | some manager => { s with manager := manager }.goTo t .outside
  | none => s.goTo t (.asleep key)

/-- `LockFile`. -/
def lockFile (currentPath : List Char) (s : AccessMonitor Thread) (t : Thread)
    (path : List Char) : Option (AccessMonitor Thread) :=
  match s.pc t with
  | .outside => some (s.test t (uniquePath currentPath path))
  | _ => none

/-- A thread that has been woken in `LockFile` tests again. -/
def resume (s : AccessMonitor Thread) (t : Thread) : Option (AccessMonitor Thread) :=
  match s.pc t with
  | .woken key => some (s.test t key)
  | _ => none

/-- `UnlockFile`, up to the end of its section. -/
def unlockFile (currentPath : List Char) (s : AccessMonitor Thread) (t : Thread)
    (path : List Char) : Option (AccessMonitor Thread) :=
  match s.pc t with
  | .outside =>
      let key := uniquePath currentPath path
      some ({ s with manager := (s.manager.unlockFile key).1 }.goTo t (.notifying key))
  | _ => none

/-- A thread that sleeps is woken. -/
def wake (s : AccessMonitor Thread) (t : Thread) : Option (AccessMonitor Thread) :=
  match s.pc t with
  | .asleep key => some (s.goTo t (.woken key))
  | _ => none

/-- `file_unlocked_.notify_one` wakes a thread that sleeps, or nobody if nobody does. -/
def notifyOne [Fintype Thread] (s : AccessMonitor Thread) (t : Thread) (sleeper : Option Thread) :
    Option (AccessMonitor Thread) :=
  match s.pc t with
  | .notifying _ =>
      match sleeper with
      | some u => (s.goTo t .outside).wake u
      | none => if ∀ u, (s.pc u).isAsleep = false then some (s.goTo t .outside) else none
  | _ => none

/-- Who goes on. Which sleeper `notify_one` wakes is for the operating system to say, and a thread
may wake up without having been notified. -/
inductive Action (Thread : Type)
  | lockFile (thread : Thread) (path : List Char)
  | unlockFile (thread : Thread) (path : List Char)
  | notifyOne (thread : Thread) (sleeper : Option Thread)
  | resume (thread : Thread)
  | spuriousWakeup (thread : Thread)
  deriving DecidableEq, Repr

/-- One step of a thread. -/
def step [Fintype Thread] (currentPath : List Char) (s : AccessMonitor Thread) :
    Action Thread → Option (AccessMonitor Thread)
  | .lockFile t path => s.lockFile currentPath t path
  | .unlockFile t path => s.unlockFile currentPath t path
  | .notifyOne t sleeper => s.notifyOne t sleeper
  | .resume t => s.resume t
  | .spuriousWakeup t => s.wake t

/-! ### One step -/

variable {s s' : AccessMonitor Thread} {a : Action Thread} {t u : Thread}

@[simp] theorem pc_goTo_self (s : AccessMonitor Thread) (t : Thread) (pc : LockPc) :
    (s.goTo t pc).pc t = pc :=
  Function.update_self ..

theorem pc_goTo_of_ne (hne : u ≠ t) (s : AccessMonitor Thread) (pc : LockPc) :
    (s.goTo t pc).pc u = s.pc u :=
  Function.update_of_ne hne ..

/-- The thread tests whether its path is locked. -/
def Action.tests (t : Thread) : Action Thread → Bool
  | .lockFile u _ | .resume u => decide (u = t)
  | _ => false

/-- The kinds of steps. -/
inductive Stepped (s : AccessMonitor Thread) : Action Thread → AccessMonitor Thread → Prop
  | locks (a : Action Thread) (t : Thread) (key : List Char) (htests : a.tests t = true)
      (hpc : s.pc t = .outside ∨ s.pc t = .woken key) (hfree : key ∉ s.manager.lockedFiles) :
      Stepped s a
        ({ s with manager := { lockedFiles := insert key s.manager.lockedFiles } }.goTo t .outside)
  | sleeps (a : Action Thread) (t : Thread) (key : List Char) (htests : a.tests t = true)
      (hpc : s.pc t = .outside ∨ s.pc t = .woken key) (hlocked : key ∈ s.manager.lockedFiles) :
      Stepped s a (s.goTo t (.asleep key))
  | unlocks (t : Thread) (path key : List Char) (hpc : s.pc t = .outside) :
      Stepped s (.unlockFile t path)
        ({ s with manager := { lockedFiles := s.manager.lockedFiles.erase key } }.goTo t
          (.notifying key))
  | notifies (t u : Thread) (key other : List Char) (hpc : s.pc t = .notifying key)
      (hu : s.pc u = .asleep other) :
      Stepped s (.notifyOne t (some u)) ((s.goTo t .outside).goTo u (.woken other))
  | notifiesNobody (t : Thread) (key : List Char) (hpc : s.pc t = .notifying key)
      (hnobody : ∀ u key, s.pc u ≠ .asleep key) :
      Stepped s (.notifyOne t none) (s.goTo t .outside)
  | spuriousWakeup (u : Thread) (key : List Char) (hu : s.pc u = .asleep key) :
      Stepped s (.spuriousWakeup u) (s.goTo u (.woken key))

theorem stepped_test {key : List Char} (htests : a.tests t = true)
    (hpc : s.pc t = .outside ∨ s.pc t = .woken key) : Stepped s a (s.test t key) := by
  rw [test, FileAccessManager.lockFile]
  by_cases hlocked : key ∈ s.manager.lockedFiles
  · rw [if_pos hlocked]
    exact .sleeps a t key htests hpc hlocked
  · rw [if_neg hlocked]
    exact .locks a t key htests hpc hlocked

/-- **Every step is one of the kinds.** -/
theorem stepped_of_step [Fintype Thread] {currentPath : List Char}
    (hstep : s.step currentPath a = some s') : Stepped s a s' := by
  cases a with
  | lockFile t path =>
      rw [step, AccessMonitor.lockFile] at hstep
      split at hstep
      · next hpc =>
          obtain rfl := Option.some.inj hstep
          exact stepped_test (decide_eq_true rfl) (.inl hpc)
      · cases hstep
  | unlockFile t path =>
      rw [step, AccessMonitor.unlockFile] at hstep
      split at hstep
      · next hpc =>
          obtain rfl := Option.some.inj hstep
          exact .unlocks t path _ hpc
      · cases hstep
  | notifyOne t sleeper =>
      cases sleeper with
      | some u =>
          rw [step, AccessMonitor.notifyOne] at hstep
          split at hstep
          · next key hpc =>
              have hne : u ≠ t := by
                rintro rfl
                rw [wake, pc_goTo_self] at hstep
                cases hstep
              rw [wake, pc_goTo_of_ne hne] at hstep
              split at hstep
              · next other hu =>
                  obtain rfl := Option.some.inj hstep
                  exact .notifies t u key other hpc hu
              · cases hstep
          · cases hstep
      | none =>
          rw [step, AccessMonitor.notifyOne] at hstep
          split at hstep
          · next key hpc =>
              split at hstep
              · next hnobody =>
                  obtain rfl := Option.some.inj hstep
                  refine .notifiesNobody t key hpc fun u key hu => ?_
                  have hasleep := hnobody u
                  rw [hu] at hasleep
                  cases hasleep
              · cases hstep
          · cases hstep
  | resume t =>
      rw [step, AccessMonitor.resume] at hstep
      split at hstep
      · next key hpc =>
          obtain rfl := Option.some.inj hstep
          exact stepped_test (decide_eq_true rfl) (.inr hpc)
      · cases hstep
  | spuriousWakeup t =>
      rw [step, wake] at hstep
      split at hstep
      · next key hu =>
          obtain rfl := Option.some.inj hstep
          exact .spuriousWakeup t key hu
      · cases hstep

end AccessMonitor

end Csci6780
