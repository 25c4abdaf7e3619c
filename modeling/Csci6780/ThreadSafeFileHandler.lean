import Csci6780.FileAccessManager
import Csci6780.FileHandler
import Csci6780.Lib.Locks

/-!
# The Thread-Safe File Handler

This module embeds `server::file_handler::ThreadSafeFileHandler`: several threads, each with a
handler of its own, share the file system and two `FileAccessManager`s. Every operation takes the
read lock of its path, those that change the file system the write lock after it, and the locks are
released in the other order when the operation returns or throws, by the destructors of the guards.

To take a lock is one step, which cannot be taken while the path is locked: how a thread that waits
is woken is for `AccessMonitor`. The operation on the file system is one step.

An operation that has the read lock of its path is the only one to ask for the write lock, so nobody
ever waits for a write lock, and whoever holds the lock that others wait for can go on.

## Main results

* `FileThreads.guarded_step`: every step keeps the locks right.
* `FileThreads.file_operations_exclude`: one operation at a time works on a path, an operation
  unlocks only what it has locked, and some holder of a lock does not wait.
-/

namespace Csci6780

/-! ### Operations -/

/-- An operation of the handler that takes locks. -/
inductive FileOperation
  | get (filename : String)
  | put (filename : String) (contents : List UInt8)
  | delete (filename : String)
  | makeDir (name : String)
  deriving DecidableEq, Repr

/-- What an operation of the handler returns, or that it throws. -/
inductive FileResult
  | contents (bytes : List UInt8)
  | success (value : Bool)
  | throws
  deriving DecidableEq, Repr

namespace FileOperation

/-- The name that the operation is given. -/
def filename : FileOperation → String
  | .get filename | .put filename _ | .delete filename | .makeDir filename => filename

/-- The operation takes the write lock as well. -/
def writes : FileOperation → Bool
  | .get _ => false
  | .put _ _ | .delete _ | .makeDir _ => true

/-- What an operation of `FileHandler` returns, or that it throws and leaves the files alone. -/
def resultOf (fs : FileSystem) : Option (Bool × FileHandler) → FileResult × FileSystem
  | some (value, handler) => (.success value, handler.fs)
  | none => (.throws, fs)

/-- The operation of `FileHandler`, and the file system after it. -/
def body (handler : FileHandler) : FileOperation → FileResult × FileSystem
  | .get filename => (.contents (handler.get filename), handler.fs)
  | .put filename contents => resultOf handler.fs (some (handler.put filename contents))
  | .delete filename => resultOf handler.fs (handler.delete filename)
  | .makeDir name => resultOf handler.fs (handler.makeDir name)

end FileOperation

/-- `ToAbsolute`. -/
def FileHandler.toAbsolute (handler : FileHandler) (path : List Char) : List Char :=
  joinPath handler.getCurrentDir path

/-! ### The threads -/

/-- The two managers. -/
inductive LockKind
  | read
  | write
  deriving DecidableEq, Repr

/-- Where a thread stands: in no operation, before `LockFile` of one manager or the other, in the
operation on the file system, or before `UnlockFile` of one manager or the other, with what the
operation returns. -/
inductive FileOpPc
  | idle
  | lockRead (op : FileOperation) (path : List Char)
  | lockWrite (op : FileOperation) (path : List Char)
  | body (op : FileOperation) (path : List Char)
  | unlockWrite (path : List Char) (result : FileResult)
  | unlockRead (path : List Char) (result : FileResult)
  deriving DecidableEq, Repr

/-- The path for which a thread that stands there holds a lock. -/
def FileOpPc.holds : LockKind → FileOpPc → Option (List Char)
  | .read, .lockWrite _ path | .read, .body _ path | .read, .unlockWrite path _
  | .read, .unlockRead path _ => some path
  | .write, .body op path => if op.writes then some path else none
  | .write, .unlockWrite path _ => some path
  | _, _ => none

/-- Threads with a handler each, the managers and the file system that they share. -/
structure FileThreads (Thread : Type) where
  manager : LockKind → FileAccessManager := fun _ => {}
  fs : FileSystem := .empty
  currentDir : Thread → List Char
  pc : Thread → FileOpPc := fun _ => .idle

namespace FileThreads

variable {Thread : Type}

/-- The handler of a thread. -/
def handler (s : FileThreads Thread) (t : Thread) : FileHandler where
  currentDir := s.currentDir t
  fs := s.fs

section

variable [DecidableEq Thread]

/-- A thread goes on at `pc`. -/
def goTo (s : FileThreads Thread) (t : Thread) (pc : FileOpPc) : FileThreads Thread :=
  { s with pc := Function.update s.pc t pc }

/-- The manager is another one afterwards. -/
def setManager (s : FileThreads Thread) (kind : LockKind) (manager : FileAccessManager) :
    FileThreads Thread :=
  { s with manager := Function.update s.manager kind manager }

/-- A thread calls an operation. -/
def start (s : FileThreads Thread) (t : Thread) (op : FileOperation) :
    Option (FileThreads Thread) :=
  match s.pc t with
  | .idle => some (s.goTo t (.lockRead op ((s.handler t).toAbsolute op.filename.toList)))
  | _ => none

/-- A thread calls `ChangeDir` or `UpDir`, which take no locks. -/
def changeDir (s : FileThreads Thread) (t : Thread) (change : FileHandler → Bool × FileHandler) :
    Option (FileThreads Thread) :=
  match s.pc t with
  | .idle =>
      some { s with
        currentDir := Function.update s.currentDir t (change (s.handler t)).2.currentDir }
  | _ => none

/-- The next step of a thread in an operation. -/
def next (currentPath : List Char) (s : FileThreads Thread) (t : Thread) :
    Option (FileThreads Thread) :=
  match s.pc t with
  | .idle => none
  | .lockRead op path =>
      ((s.manager .read).lockFile (uniquePath currentPath path)).map fun manager =>
        (s.setManager .read manager).goTo t
          (if op.writes then .lockWrite op path else .body op path)
  | .lockWrite op path =>
      ((s.manager .write).lockFile (uniquePath currentPath path)).map fun manager =>
        (s.setManager .write manager).goTo t (.body op path)
  | .body op path =>
      let after := op.body (s.handler t)
      some ({ s with fs := after.2 }.goTo t
        (if op.writes then .unlockWrite path after.1 else .unlockRead path after.1))
  | .unlockWrite path result =>
      some ((s.setManager .write
        ((s.manager .write).unlockFile (uniquePath currentPath path)).1).goTo t
          (.unlockRead path result))
  | .unlockRead path _ =>
      some ((s.setManager .read ((s.manager .read).unlockFile (uniquePath currentPath path)).1).goTo
        t .idle)

/-- Who goes on. -/
inductive Action (Thread : Type)
  | start (thread : Thread) (op : FileOperation)
  | changeDir (thread : Thread) (subFolder : String)
  | upDir (thread : Thread)
  | next (thread : Thread)
  deriving DecidableEq, Repr

/-- One step of a thread. -/
def step (currentPath : List Char) (s : FileThreads Thread) :
    Action Thread → Option (FileThreads Thread)
  | .start t op => s.start t op
  | .changeDir t subFolder => s.changeDir t fun handler => handler.changeDir subFolder
  | .upDir t => s.changeDir t FileHandler.upDir
  | .next t => s.next currentPath t

end

/-! ### The locks -/

/-- What a thread that stands there locks or unlocks next. -/
def lockEventsOf (currentPath : List Char) (t : Thread) :
    LockKind → FileOpPc → List (LockEvent Thread (List Char))
  | .read, .lockRead _ path | .write, .lockWrite _ path => [.locks t (uniquePath currentPath path)]
  | .write, .unlockWrite path _ | .read, .unlockRead path _ =>
      [.unlocks t (uniquePath currentPath path)]
  | _, _ => []

/-- What a step locks and unlocks. -/
def lockEvents (currentPath : List Char) (kind : LockKind) (s : FileThreads Thread) :
    Action Thread → List (LockEvent Thread (List Char))
  | .next t => lockEventsOf currentPath t kind (s.pc t)
  | _ => []

/-- The key for which a thread holds a lock. -/
def holds (currentPath : List Char) (kind : LockKind) (s : FileThreads Thread) (t : Thread) :
    Option (List Char) :=
  ((s.pc t).holds kind).map (uniquePath currentPath)

/-- The managers are right about what has been locked, and the threads hold what they should. -/
structure Guarded (currentPath : List Char)
    (events : LockKind → List (LockEvent Thread (List Char))) (s : FileThreads Thread) : Prop where
  locks : ∀ kind, Locks (events kind) (s.manager kind).lockedFiles (s.holds currentPath kind)
  writes : ∀ t op path, s.pc t = .lockWrite op path → op.writes = true

variable {currentPath : List Char} {s s' : FileThreads Thread} {a : Action Thread} {t u : Thread}
  {kind : LockKind} {events : LockKind → List (LockEvent Thread (List Char))} {pc pc' : FileOpPc}
  {path : List Char}

@[simp] theorem manager_setManager_self (s : FileThreads Thread) (kind : LockKind)
    (manager : FileAccessManager) : (s.setManager kind manager).manager kind = manager :=
  Function.update_self ..

theorem manager_setManager_of_ne {k : LockKind} (hk : k ≠ kind) (s : FileThreads Thread)
    (manager : FileAccessManager) : (s.setManager kind manager).manager k = s.manager k :=
  Function.update_of_ne hk ..

theorem Guarded.start (fs : FileSystem) (dirs : Thread → List Char) :
    Guarded currentPath (fun _ => []) { fs := fs, currentDir := dirs : FileThreads Thread } where
  locks kind := by cases kind <;> exact .start
  writes _ _ _ h := nomatch h

/-- What a thread holds can be read off where it stands. -/
theorem holds_eq (hpc : s.pc t = pc) (kind : LockKind) :
    s.holds currentPath kind t = (pc.holds kind).map (uniquePath currentPath) := by
  rw [holds, hpc]

/-- A thread holds the lock for a key. -/
theorem holds_iff {key : List Char} : s.holds currentPath kind t = some key ↔
    ∃ path, (s.pc t).holds kind = some path ∧ uniquePath currentPath path = key :=
  Option.map_eq_some_iff

/-- Nobody waits for a write lock: whoever asks for it has the read lock of its path. -/
theorem Guarded.write_free (h : Guarded currentPath events s) {op : FileOperation}
    (hpc : s.pc t = .lockWrite op path) :
    uniquePath currentPath path ∉ (s.manager .write).lockedFiles := by
  intro hlocked
  obtain ⟨u, hu⟩ := (h.locks .write).exists_holder hlocked
  have hread : s.holds currentPath .read t = some (uniquePath currentPath path) := by
    rw [holds, hpc]
    rfl
  have hboth : s.holds currentPath .read u = some (uniquePath currentPath path) := by
    obtain ⟨path', hpath, hkey⟩ := holds_iff.mp hu
    refine holds_iff.mpr ⟨path', ?_, hkey⟩
    cases hpcu : s.pc u with
    | body op' p =>
        rw [hpcu, FileOpPc.holds] at hpath
        split at hpath
        · exact hpath
        · cases hpath
    | unlockWrite p result =>
        rw [hpcu] at hpath
        exact hpath
    | _ =>
        rw [hpcu] at hpath
        cases hpath
  obtain rfl := (h.locks .read).unique hread hboth
  rw [holds, hpc] at hu
  cases hu

/-- **An operation unlocks only what it has locked.** -/
theorem Guarded.unlocks_own (h : Guarded currentPath events s) {key : List Char}
    (hevent : .unlocks t key ∈ s.lockEvents currentPath kind a) :
    ((s.manager kind).unlockFile key).2 = false ∧ owner (events kind) key = some t := by
  have hholds : s.holds currentPath kind t = some key := by
    cases a with
    | next u =>
        cases kind with
        | read =>
            cases hpc : s.pc u with
            | unlockRead path result =>
                rw [lockEvents, hpc] at hevent
                obtain ⟨rfl, rfl⟩ := LockEvent.unlocks.inj (List.mem_singleton.mp hevent)
                exact holds_eq hpc .read
            | _ => simp [lockEvents, lockEventsOf, hpc] at hevent
        | write =>
            cases hpc : s.pc u with
            | unlockWrite path result =>
                rw [lockEvents, hpc] at hevent
                obtain ⟨rfl, rfl⟩ := LockEvent.unlocks.inj (List.mem_singleton.mp hevent)
                exact holds_eq hpc .write
            | _ => simp [lockEvents, lockEventsOf, hpc] at hevent
    | _ => cases hevent
  refine ⟨?_, ((h.locks kind).holds_iff t key).mp hholds⟩
  exact decide_eq_false (not_not.mpr ((h.locks kind).mem hholds))

variable [DecidableEq Thread]

@[simp] theorem pc_goTo_self (s : FileThreads Thread) (t : Thread) (pc : FileOpPc) :
    (s.goTo t pc).pc t = pc :=
  Function.update_self ..

theorem pc_goTo_of_ne (hne : u ≠ t) (s : FileThreads Thread) (pc : FileOpPc) :
    (s.goTo t pc).pc u = s.pc u :=
  Function.update_of_ne hne ..

@[simp] theorem manager_goTo (s : FileThreads Thread) (t : Thread) (pc : FileOpPc) :
    (s.goTo t pc).manager = s.manager :=
  rfl

theorem holds_goTo (s : FileThreads Thread) (t : Thread) (pc : FileOpPc) :
    (s.goTo t pc).holds currentPath kind =
      Function.update (s.holds currentPath kind) t
        ((pc.holds kind).map (uniquePath currentPath)) := by
  funext u
  by_cases hu : u = t
  · subst hu
    rw [Function.update_self, holds, pc_goTo_self]
  · rw [Function.update_of_ne hu, holds, pc_goTo_of_ne hu, holds]

namespace Guarded

/-- A thread that goes on comes to the write lock only if its operation writes. -/
theorem writes_goTo (h : Guarded currentPath events s)
    (hwrites : ∀ op path, pc' = .lockWrite op path → op.writes = true) (u : Thread)
    (op : FileOperation) (path : List Char) (hu : (s.goTo t pc').pc u = .lockWrite op path) :
    op.writes = true := by
  by_cases hut : u = t
  · subst hut
    rw [pc_goTo_self] at hu
    exact hwrites op path hu
  · rw [pc_goTo_of_ne hut] at hu
    exact h.writes u op path hu

/-- A thread goes on and holds what it held in one of the managers. -/
theorem same (h : Guarded currentPath events s) (hpc : s.pc t = pc) (kind : LockKind)
    (hsame : pc'.holds kind = pc.holds kind) :
    Locks (events kind ++ []) (s.manager kind).lockedFiles
      ((s.goTo t pc').holds currentPath kind) := by
  rw [List.append_nil, holds_goTo]
  exact (h.locks kind).update ((holds_eq hpc kind).trans (congrArg _ hsame.symm))

/-- A thread goes on and locks nothing. -/
theorem keeps (h : Guarded currentPath events s) (hpc : s.pc t = pc)
    (hsame : ∀ kind, pc'.holds kind = pc.holds kind)
    (hevents : ∀ kind, s.lockEvents currentPath kind a = [])
    (hwrites : ∀ op path, pc' = .lockWrite op path → op.writes = true) :
    Guarded currentPath (fun kind => events kind ++ s.lockEvents currentPath kind a)
      (s.goTo t pc') where
  locks kind := by
    rw [hevents]
    exact h.same hpc kind (hsame kind)
  writes := h.writes_goTo hwrites

/-- A thread takes a lock. -/
theorem takes (h : Guarded currentPath events s) (hpc : s.pc t = pc) (kind : LockKind)
    (hnone : pc.holds kind = none) (hsome : pc'.holds kind = some path)
    (hsame : ∀ k, k ≠ kind → pc'.holds k = pc.holds k) {manager : FileAccessManager}
    (hlock : (s.manager kind).lockFile (uniquePath currentPath path) = some manager)
    (hevents : ∀ k, s.lockEvents currentPath k a =
      if k = kind then [.locks t (uniquePath currentPath path)] else [])
    (hwrites : ∀ op path, pc' = .lockWrite op path → op.writes = true) :
    Guarded currentPath (fun kind => events kind ++ s.lockEvents currentPath kind a)
      ((s.setManager kind manager).goTo t pc') where
  locks k := by
    rw [hevents]
    by_cases hk : k = kind
    · subst hk
      have ht : s.holds currentPath k t = none := by
        rw [holds_eq hpc, hnone]
        rfl
      obtain ⟨hfree, rfl⟩ := FileAccessManager.lockFile_eq_some hlock
      rw [if_pos rfl, holds_goTo, hsome, manager_goTo, manager_setManager_self]
      exact (h.locks k).lock ht hfree
    · rw [if_neg hk, manager_goTo, manager_setManager_of_ne hk]
      exact h.same hpc k (hsame k hk)
  writes := h.writes_goTo hwrites

/-- A thread releases a lock. -/
theorem releases (h : Guarded currentPath events s) (hpc : s.pc t = pc) (kind : LockKind)
    (hsome : pc.holds kind = some path) (hnone : pc'.holds kind = none)
    (hsame : ∀ k, k ≠ kind → pc'.holds k = pc.holds k)
    (hevents : ∀ k, s.lockEvents currentPath k a =
      if k = kind then [.unlocks t (uniquePath currentPath path)] else [])
    (hwrites : ∀ op path, pc' = .lockWrite op path → op.writes = true) :
    Guarded currentPath (fun kind => events kind ++ s.lockEvents currentPath kind a)
      ((s.setManager kind ((s.manager kind).unlockFile (uniquePath currentPath path)).1).goTo t
        pc') where
  locks k := by
    rw [hevents]
    by_cases hk : k = kind
    · subst hk
      have ht : s.holds currentPath k t = some (uniquePath currentPath path) := by
        rw [holds_eq hpc, hsome]
        rfl
      rw [if_pos rfl, holds_goTo, hnone, manager_goTo, manager_setManager_self]
      exact (h.locks k).unlock ht
    · rw [if_neg hk, manager_goTo, manager_setManager_of_ne hk]
      exact h.same hpc k (hsame k hk)
  writes := h.writes_goTo hwrites

end Guarded

/-- **Every step keeps the locks right.** -/
theorem guarded_step (h : Guarded currentPath events s) (hstep : s.step currentPath a = some s') :
    Guarded currentPath (fun kind => events kind ++ s.lockEvents currentPath kind a) s' := by
  cases a with
  | start t op =>
      rw [step, FileThreads.start] at hstep
      split at hstep
      · next hpc =>
          obtain rfl := Option.some.inj hstep
          exact h.keeps hpc (by rintro (_ | _) <;> rfl) (fun _ => rfl) fun _ _ h => nomatch h
      · cases hstep
  | changeDir t subFolder =>
      rw [step, changeDir] at hstep
      split at hstep
      · obtain rfl := Option.some.inj hstep
        exact ⟨fun kind => (List.append_nil (events kind)).symm ▸ h.locks kind, h.writes⟩
      · cases hstep
  | upDir t =>
      rw [step, changeDir] at hstep
      split at hstep
      · obtain rfl := Option.some.inj hstep
        exact ⟨fun kind => (List.append_nil (events kind)).symm ▸ h.locks kind, h.writes⟩
      · cases hstep
  | next t =>
      rw [step, next] at hstep
      split at hstep
      · cases hstep
      · next op path hpc =>
          obtain ⟨manager, hlock, rfl⟩ := Option.map_eq_some_iff.mp hstep
          refine h.takes hpc .read rfl ?_ ?_ hlock ?_ ?_
          · split <;> rfl
          · rintro (_ | _) hk
            · exact absurd rfl hk
            · cases hw : op.writes with
              | true => rfl
              | false => simp [FileOpPc.holds, hw]
          · rintro (_ | _) <;> simp [lockEvents, lockEventsOf, hpc]
          · rintro op' path' hpc'
            split at hpc'
            · next hw =>
                obtain ⟨rfl, -⟩ := FileOpPc.lockWrite.inj hpc'
                exact hw
            · cases hpc'
      · next op path hpc =>
          obtain ⟨manager, hlock, rfl⟩ := Option.map_eq_some_iff.mp hstep
          refine h.takes hpc .write rfl ?_ ?_ hlock ?_ fun _ _ h => nomatch h
          · exact if_pos (h.writes t op path hpc)
          · rintro (_ | _) hk
            · rfl
            · exact absurd rfl hk
          · rintro (_ | _) <;> simp [lockEvents, lockEventsOf, hpc]
      · next op path hpc =>
          obtain rfl := Option.some.inj hstep
          have hs : Guarded currentPath events { s with fs := (op.body (s.handler t)).2 } :=
            ⟨h.locks, h.writes⟩
          refine hs.keeps (a := .next t) hpc ?_ ?_ ?_
          · rintro (_ | _) <;> cases hw : op.writes <;> simp [FileOpPc.holds, hw]
          · rintro (_ | _) <;> simp [lockEvents, lockEventsOf, hpc]
          · intro op' path' hpc'
            split at hpc' <;> cases hpc'
      · next path result hpc =>
          obtain rfl := Option.some.inj hstep
          refine h.releases hpc .write rfl rfl ?_ ?_ fun _ _ h => nomatch h
          · rintro (_ | _) hk
            · rfl
            · exact absurd rfl hk
          · rintro (_ | _) <;> simp [lockEvents, lockEventsOf, hpc]
      · next path result hpc =>
          obtain rfl := Option.some.inj hstep
          refine h.releases hpc .read rfl rfl ?_ ?_ fun _ _ h => nomatch h
          · rintro (_ | _) hk
            · exact absurd rfl hk
            · rfl
          · rintro (_ | _) <;> simp [lockEvents, lockEventsOf, hpc]

/-! ### What the locks are for -/

/-- The thread waits for a path that is locked. -/
def Waits (currentPath : List Char) (s : FileThreads Thread) (t : Thread) : Prop :=
  match s.pc t with
  | .lockRead _ path => uniquePath currentPath path ∈ (s.manager .read).lockedFiles
  | .lockWrite _ path => uniquePath currentPath path ∈ (s.manager .write).lockedFiles
  | _ => False

/-- Operations on one path exclude each other, and when one waits, there is one that holds a lock,
does not wait, and can go on. -/
structure Excludes (currentPath : List Char) (s : FileThreads Thread) : Prop where
  alone : ∀ t u op op' path path', s.pc t = .body op path → s.pc u = .body op' path' →
    uniquePath currentPath path = uniquePath currentPath path' → t = u
  goesOn : ∀ t, s.Waits currentPath t →
    ∃ u kind path, (s.pc u).holds kind = some path ∧ ¬s.Waits currentPath u ∧
      (s.next currentPath u).isSome = true

/-- **Locks that are right exclude, and do not block.** -/
theorem Guarded.excludes (h : Guarded currentPath events s) : Excludes currentPath s := by
  refine ⟨fun t u op op' path path' ht hu hkey => ?_, fun t hwaits => ?_⟩
  · refine (h.locks .read).unique (k := uniquePath currentPath path) ?_ ?_
    · rw [holds, ht]
      rfl
    · rw [holds, hu, hkey]
      rfl
  · have hread : ∃ op path, s.pc t = .lockRead op path ∧
        uniquePath currentPath path ∈ (s.manager .read).lockedFiles := by
      cases hpc : s.pc t with
      | lockRead op path =>
          rw [Waits, hpc] at hwaits
          exact ⟨op, path, rfl, hwaits⟩
      | lockWrite op path =>
          rw [Waits, hpc] at hwaits
          exact absurd hwaits (h.write_free hpc)
      | _ =>
          rw [Waits, hpc] at hwaits
          exact hwaits.elim
    obtain ⟨op, path, hpc, hlocked⟩ := hread
    obtain ⟨u, hu⟩ := (h.locks .read).exists_holder hlocked
    obtain ⟨path', hpath, -⟩ := holds_iff.mp hu
    refine ⟨u, .read, path', hpath, ?_, ?_⟩
    · cases hpcu : s.pc u with
      | lockRead op' p =>
          rw [hpcu] at hpath
          cases hpath
      | lockWrite op' p =>
          rw [Waits, hpcu]
          exact h.write_free hpcu
      | _ => simp [Waits, hpcu]
    · cases hpcu : s.pc u with
      | lockRead op' p =>
          rw [hpcu] at hpath
          cases hpath
      | idle =>
          rw [hpcu] at hpath
          cases hpath
      | lockWrite op' p => simp [next, hpcu, FileAccessManager.lockFile, h.write_free hpcu]
      | _ => simp [next, hpcu]

/-- What has been locked and unlocked in a run. -/
def history (currentPath : List Char) (start : FileThreads Thread) (acts : List (Action Thread))
    (kind : LockKind) : List (LockEvent Thread (List Char)) :=
  collect (step currentPath) (lockEvents currentPath kind) start acts

/-- The locks are right after every run. -/
theorem guarded_of_run (fs : FileSystem) (dirs : Thread → List Char) {acts : List (Action Thread)}
    (hrun : runFrom (step currentPath) { fs := fs, currentDir := dirs } acts = some s) :
    Guarded currentPath (history currentPath { fs := fs, currentDir := dirs } acts) s := by
  refine history_inv
    (fun acts s =>
      Guarded currentPath (history currentPath { fs := fs, currentDir := dirs } acts) s)
    (.start fs dirs) (fun pre m a m' hm ih hstep => ?_) hrun
  have hhistory : history currentPath { fs := fs, currentDir := dirs } (pre ++ [a]) =
      fun kind => history currentPath { fs := fs, currentDir := dirs } pre kind ++
        m.lockEvents currentPath kind a :=
    funext fun kind => collect_concat hm a
  rw [hhistory]
  exact guarded_step ih hstep

/-- **File operations exclude each other and do not deadlock.** For any threads with a handler each,
any paths and any order of steps: in every state at most one operation works on a path, and if one
waits, another one that holds a lock does not and can go on; and every step that unlocks a path
takes away what the same operation has put into the set. -/
theorem file_operations_exclude (currentPath : List Char) (fs : FileSystem)
    (dirs : Thread → List Char) (acts : List (Action Thread)) :
    EachState (step currentPath) (Excludes currentPath) { fs := fs, currentDir := dirs } acts ∧
    ∀ pre a m, pre ++ [a] <+: acts →
      runFrom (step currentPath) { fs := fs, currentDir := dirs } pre = some m →
      ∀ kind t key, .unlocks t key ∈ m.lockEvents currentPath kind a →
        ((m.manager kind).unlockFile key).2 = false ∧
          owner (history currentPath { fs := fs, currentDir := dirs } pre kind) key = some t := by
  constructor
  · exact fun pre m _ hm => (guarded_of_run fs dirs hm).excludes
  · exact fun pre a m _ hm kind t key hevent => (guarded_of_run fs dirs hm).unlocks_own hevent

end FileThreads

end Csci6780
