import Csci6780.ThreadSafeFileHandler

/-!
# Files Read and Written in Pieces

`FileHandler::Put` opens a `std::ofstream`, writes the contents and closes it, and
`FileHandler::Get` reads a `std::ifstream` to its end. On the file system these are many steps: to
open the file truncates it, and the contents come or go in pieces of any length, between which other
threads work on the files. `FileStreams` are the threads of `FileThreads` with these steps.
`Delete` and `MakeDir` are one step on the file system.

The locks make the pieces one operation again. A stream is of a file, and a file can be reached by
many paths; but the paths of a file have one normal form, which is what is locked. So nobody else
works on a file while a stream of it is open, and a `Put` might as well have happened when it opened
its file, and so might a `Get`; what the callers see is what they would see of the threads whose
operations are one step. The current directories are absolute paths, as the first one is.

## Main results

* `FileStreams.simulates_step`: every step is matched by one of the threads, or by none.
* `FileStreams.streams_linearize`: what happens in a run happens in a run in which every operation
  is one step, and when all streams are closed the files are the same.
-/

namespace Csci6780

/-- An open stream: the place of the file, if it could be opened, and what is still to be written to
it, or what has been read from it. -/
inductive FileStream
  | output (file : Option Location) (rest : List UInt8)
  | input (file : Option Location) (got : List UInt8)
  deriving DecidableEq, Repr

/-- The file of a stream. -/
def FileStream.file : FileStream → Option Location
  | .output file _ | .input file _ => file

/-- The operation reads or writes a file through a stream. -/
def FileOperation.streams : FileOperation → Bool
  | .get _ | .put _ _ => true
  | .delete _ | .makeDir _ => false

/-- Append to a file. -/
def FileSystem.append (fs : FileSystem) (loc : Location) (bytes : List UInt8) : FileSystem :=
  fs.setContents loc ((fs.contents loc).getD [] ++ bytes)

/-- What a call does that shows: it is called with the path that it is for, or it returns. -/
inductive FileEvent (Thread : Type)
  | calls (thread : Thread) (op : FileOperation) (path : List Char)
  | changesDir (thread : Thread) (subFolder : String)
  | movesUp (thread : Thread)
  | returns (thread : Thread) (path : List Char) (result : FileResult)
  deriving DecidableEq, Repr

/-- What a step of the threads shows. -/
def FileThreads.observed {Thread : Type} (s : FileThreads Thread) :
    FileThreads.Action Thread → List (FileEvent Thread)
  | .start t op => [.calls t op ((s.handler t).toAbsolute op.filename.toList)]
  | .changeDir t subFolder => [.changesDir t subFolder]
  | .upDir t => [.movesUp t]
  | .next t =>
      match s.pc t with
      | .unlockRead path result => [.returns t path result]
      | _ => []

/-! ### The other operations -/

namespace FileOperation

variable {op : FileOperation} (handler handler' : FileHandler)

/-- **What an operation does that uses no stream depends on the tree only**, and changes it in the
same way. -/
theorem alike_body (hstreams : op.streams = false)
    (hdir : handler'.currentDir = handler.currentDir)
    (htree : handler.fs.SameTree handler'.fs) :
    (op.body handler').1 = (op.body handler).1 ∧
    (op.body handler).2.SameTree (op.body handler').2 ∧
    ∀ loc, handler'.fs.inode loc = handler.fs.inode loc →
      (op.body handler').2.inode loc = (op.body handler).2.inode loc := by
  obtain ⟨dir, fs⟩ := handler
  obtain ⟨dir', fs'⟩ := handler'
  obtain rfl : dir' = dir := hdir
  -- What an operation of the file system becomes.
  have hresult : ∀ {after after' : Option (Bool × FileSystem)},
      Option.Rel (fs.Alike fs') after after' →
      let result := resultOf fs (after.map fun x => (x.1, ⟨dir', x.2⟩))
      let result' := resultOf fs' (after'.map fun x => (x.1, ⟨dir', x.2⟩))
      result'.1 = result.1 ∧ result.2.SameTree result'.2 ∧
        ∀ loc, fs'.inode loc = fs.inode loc → result'.2.inode loc = result.2.inode loc := by
    rintro _ _ (halike | _)
    · exact ⟨congrArg FileResult.success halike.value, halike.tree, halike.same⟩
    · exact ⟨rfl, htree, fun _ hsame => hsame⟩
  cases op with
  | get filename => cases hstreams
  | put filename contents => cases hstreams
  | delete filename => exact hresult (htree.remove (joinPath dir' filename.toList))
  | makeDir name => exact hresult (htree.createDirectory (joinPath dir' name.toList))

/-- It leaves the files alone that its path does not lead to. -/
theorem inode_body {loc : Location} (hstreams : op.streams = false)
    (hfile : (handler.fs.inode loc).isSome = true)
    (hne : handler.fs.locate (joinPath handler.currentDir op.filename.toList) ≠ some loc) :
    (op.body handler).2.inode loc = handler.fs.inode loc := by
  cases op with
  | get filename => cases hstreams
  | put filename contents => cases hstreams
  | delete filename =>
      simp only [body, FileHandler.delete]
      cases hremove : handler.fs.remove (joinPath handler.currentDir filename.toList) with
      | none => rfl
      | some after =>
          obtain ⟨removed, fs⟩ := after
          rcases FileSystem.remove_eq_some hremove with rfl | ⟨dir, name, hloc, rfl⟩
          · rfl
          · refine FileSystem.inode_unlink_of_ne ?_
            rintro rfl
            exact hne hloc
  | makeDir name =>
      simp only [body, FileHandler.makeDir]
      cases hcreate : handler.fs.createDirectory (joinPath handler.currentDir name.toList) with
      | none => rfl
      | some after =>
          obtain ⟨created, fs⟩ := after
          rcases FileSystem.createDirectory_eq_some hcreate with rfl | ⟨dir, name, hnone, rfl⟩
          · rfl
          · refine FileSystem.inode_link_of_ne ?_
            rintro rfl
            rw [hnone] at hfile
            cases hfile

end FileOperation

/-! ### The threads and their streams -/

/-- Threads and the streams that they have open. -/
structure FileStreams (Thread : Type) where
  threads : FileThreads Thread
  stream : Thread → Option FileStream := fun _ => none

/-- The operation that has not been carried out, and its path. -/
def FileOpPc.pending : FileOpPc → Option (FileOperation × List Char)
  | .lockRead op path | .lockWrite op path | .body op path => some (op, path)
  | _ => none

namespace FileThreads

variable {Thread : Type} {currentPath : List Char} {m m' : FileThreads Thread} {a : Action Thread}
  {t : Thread} {pc' : FileOpPc}

/-- The threads' directories are absolute, and the operations are for the paths that their names
mean there. -/
structure Placed (m : FileThreads Thread) : Prop where
  absolute : ∀ t, isAbsolute (m.currentDir t) = true
  pending : ∀ t op path, (m.pc t).pending = some (op, path) →
    joinPath (m.currentDir t) op.filename.toList = path

namespace Placed

theorem start (fs : FileSystem) {dirs : Thread → List Char}
    (hdirs : ∀ t, isAbsolute (dirs t) = true) :
    Placed { fs := fs, currentDir := dirs : FileThreads Thread } where
  absolute := hdirs
  pending _ _ _ h := by cases h

/-- The operations are for absolute paths, and what is locked is their normal form. -/
theorem uniquePath_eq (h : Placed m) {op : FileOperation} {path : List Char}
    (hop : (m.pc t).pending = some (op, path)) :
    isAbsolute path = true ∧ uniquePath currentPath path = lexicallyNormal path := by
  have habs : isAbsolute path = true :=
    h.pending t op path hop ▸ isAbsolute_joinPath (h.absolute t) _
  exact ⟨habs, if_pos habs⟩

/-- What is locked for an operation is the normal form of the file that its path leads to. -/
theorem uniquePath_of_locate (h : Placed m) {op : FileOperation} {path : List Char}
    (hop : (m.pc t).pending = some (op, path)) {fs : FileSystem} {loc : Location}
    (hloc : fs.locate path = some loc) (hfile : fs.isDirectory loc = false) :
    uniquePath currentPath path = loc.path := by
  obtain ⟨habs, hunique⟩ := h.uniquePath_eq hop
  exact hunique.trans (FileSystem.lexicallyNormal_of_locate habs hloc hfile).2

variable [DecidableEq Thread]

theorem goTo (h : Placed m) (hpc : ∀ op path, pc'.pending = some (op, path) →
    joinPath (m.currentDir t) op.filename.toList = path) : Placed (m.goTo t pc') where
  absolute := h.absolute
  pending u op path hu := by
    by_cases hut : u = t
    · subst hut
      rw [pc_goTo_self] at hu
      exact hpc op path hu
    · rw [pc_goTo_of_ne hut] at hu
      exact h.pending u op path hu

theorem changeDir (h : Placed m) {change : FileHandler → Bool × FileHandler}
    (hchange : ∀ handler : FileHandler, isAbsolute handler.currentDir = true →
      isAbsolute (change handler).2.currentDir = true)
    (hstep : m.changeDir t change = some m') : Placed m' := by
  rw [FileThreads.changeDir] at hstep
  split at hstep
  · next hpc =>
      obtain rfl := Option.some.inj hstep
      refine ⟨fun u => ?_, fun u op path hu => ?_⟩
      · by_cases hut : u = t
        · subst hut
          simpa using hchange (m.handler u) (h.absolute u)
        · simpa only [Function.update_of_ne hut] using h.absolute u
      · have hut : u ≠ t := by
          rintro rfl
          rw [show (m.pc u).pending = none by rw [hpc]; rfl] at hu
          cases hu
        refine Eq.trans (congrArg (joinPath · _) ?_) (h.pending u op path hu)
        exact Function.update_of_ne hut ..
  · cases hstep

end Placed

variable [DecidableEq Thread]

theorem placed_step (h : Placed m) (hstep : m.step currentPath a = some m') : Placed m' := by
  cases a with
  | start t op =>
      rw [step, FileThreads.start] at hstep
      split at hstep
      · obtain rfl := Option.some.inj hstep
        refine h.goTo fun op path hop => ?_
        obtain ⟨rfl, rfl⟩ := Prod.mk.inj (Option.some.inj hop)
        rfl
      · cases hstep
  | changeDir t subFolder =>
      rw [step] at hstep
      exact h.changeDir (fun _ habs => isAbsolute_joinPath habs subFolder.toList) hstep
  | upDir t =>
      rw [step] at hstep
      exact h.changeDir (fun _ habs => isAbsolute_parentPath habs) hstep
  | next t =>
      rw [step, next] at hstep
      split at hstep
      · cases hstep
      · next op path hpc =>
          obtain ⟨manager, -, rfl⟩ := Option.map_eq_some_iff.mp hstep
          have hold := h.pending t op path (by rw [hpc]; rfl)
          refine Placed.goTo (m := m.setManager .read manager) { h with } fun op' path' hop => ?_
          split at hop <;>
            · obtain ⟨rfl, rfl⟩ := Prod.mk.inj (Option.some.inj hop)
              exact hold
      · next op path hpc =>
          obtain ⟨manager, -, rfl⟩ := Option.map_eq_some_iff.mp hstep
          have hold := h.pending t op path (by rw [hpc]; rfl)
          refine Placed.goTo (m := m.setManager .write manager) { h with } fun op' path' hop => ?_
          obtain ⟨rfl, rfl⟩ := Prod.mk.inj (Option.some.inj hop)
          exact hold
      · next op path hpc =>
          obtain rfl := Option.some.inj hstep
          refine Placed.goTo (m := { m with fs := _ }) { h with } fun op' path' hop => ?_
          split at hop <;> cases hop
      · obtain rfl := Option.some.inj hstep
        exact Placed.goTo (m := m.setManager .write _) { h with } fun _ _ hop => by cases hop
      · obtain rfl := Option.some.inj hstep
        exact Placed.goTo (m := m.setManager .read _) { h with } fun _ _ hop => by cases hop

end FileThreads

namespace FileStreams

variable {Thread : Type}

section

variable [DecidableEq Thread]

/-- The threads with other streams. -/
def setStream (s : FileStreams Thread) (t : Thread) (stream : Option FileStream) :
    FileStreams Thread :=
  { s with stream := Function.update s.stream t stream }

/-- The threads with another file system. -/
def setFs (s : FileStreams Thread) (fs : FileSystem) : FileStreams Thread :=
  { s with threads := { s.threads with fs := fs } }

/-- The stream of `Get` or `Put` is constructed. A file that cannot be opened is not written to. -/
def openStream (s : FileStreams Thread) (t : Thread) : Option (FileStreams Thread) :=
  match s.threads.pc t, s.stream t with
  | .body (.put filename contents) _, none =>
      match s.threads.fs.openOutput (joinPath (s.threads.currentDir t) filename.toList) with
      | some (loc, fs) =>
          some ((s.setFs fs).setStream t (some (.output (some loc) contents)))
      | none => some (s.setStream t (some (.output none [])))
  | .body (.get filename) _, none =>
      let file := s.threads.fs.openInput (joinPath (s.threads.currentDir t) filename.toList)
      some (s.setStream t (some (.input file [])))
  | _, _ => none

/-- Up to so many bytes are written to the file. -/
def write (s : FileStreams Thread) (t : Thread) (count : ℕ) : Option (FileStreams Thread) :=
  match s.stream t with
  | some (.output (some loc) rest) =>
      if rest = [] then none
      else some ((s.setFs (s.threads.fs.append loc (rest.take count))).setStream t
        (some (.output (some loc) (rest.drop count))))
  | _ => none

/-- What is left to read. A file that cannot be opened has nothing to read. -/
def unread (s : FileStreams Thread) (file : Option Location) (got : List UInt8) : List UInt8 :=
  ((file.bind s.threads.fs.contents).getD []).drop got.length

/-- Up to so many bytes are read from the file. -/
def read (s : FileStreams Thread) (t : Thread) (count : ℕ) : Option (FileStreams Thread) :=
  match s.stream t with
  | some (.input file got) =>
      some (s.setStream t (some (.input file (got ++ (s.unread file got).take count))))
  | _ => none

/-- The stream is closed when everything has been written, or a read has found the end. -/
def close (s : FileStreams Thread) (t : Thread) : Option (FileStreams Thread) :=
  match s.threads.pc t, s.stream t with
  | .body _ path, some (.output _ rest) =>
      if rest = [] then
        some ({ s with threads := s.threads.goTo t (.unlockWrite path (.success true)) }.setStream t
          none)
      else none
  | .body _ path, some (.input file got) =>
      if s.unread file got = [] then
        some ({ s with threads := s.threads.goTo t (.unlockRead path (.contents got)) }.setStream t
          none)
      else none
  | _, _ => none

/-- The thread is about to use a stream. -/
def usesStream (s : FileStreams Thread) : FileThreads.Action Thread → Bool
  | .next t =>
      match s.threads.pc t with
      | .body op _ => op.streams
      | _ => false
  | _ => false

/-- A step in which no stream is used. -/
def threadStep (currentPath : List Char) (s : FileStreams Thread)
    (a : FileThreads.Action Thread) : Option (FileStreams Thread) :=
  if s.usesStream a then none
  else (s.threads.step currentPath a).map fun threads => { s with threads := threads }

/-- Who goes on. -/
inductive Action (Thread : Type)
  | thread (action : FileThreads.Action Thread)
  | openStream (thread : Thread)
  | write (thread : Thread) (count : ℕ)
  | read (thread : Thread) (count : ℕ)
  | close (thread : Thread)
  deriving DecidableEq, Repr

/-- One step. -/
def step (currentPath : List Char) (s : FileStreams Thread) :
    Action Thread → Option (FileStreams Thread)
  | .thread a => s.threadStep currentPath a
  | .openStream t => s.openStream t
  | .write t count => s.write t count
  | .read t count => s.read t count
  | .close t => s.close t

/-- What a step shows. -/
def observed (s : FileStreams Thread) : Action Thread → List (FileEvent Thread)
  | .thread a => s.threads.observed a
  | _ => []

end

variable {currentPath : List Char} {s s' : FileStreams Thread} {m : FileThreads Thread}
  {t u : Thread} {path file : List Char} {stream : FileStream}

/-! ### Streams and operations of one step -/

/-- A stream is on the way to what the operation of one step has brought about. -/
def Matches (currentPath : List Char) (threads m : FileThreads Thread) (t : Thread) :
    FileStream → Prop
  | .output file rest => ∃ path,
      (∃ filename contents, threads.pc t = .body (.put filename contents) path) ∧
      m.pc t = .unlockWrite path (.success true) ∧ (file = none → rest = []) ∧
      ∀ loc, file = some loc → uniquePath currentPath path = loc.path ∧
        ∃ written, threads.fs.inode loc = some (.file written true) ∧
          m.fs.inode loc = some (.file (written ++ rest) true)
  | .input file got => ∃ path rest,
      (∃ filename, threads.pc t = .body (.get filename) path) ∧
      m.pc t = .unlockRead path (.contents (got ++ rest)) ∧
      (file.bind threads.fs.contents).getD [] = got ++ rest ∧
      ∀ loc, file = some loc → uniquePath currentPath path = loc.path ∧
        (threads.fs.contents loc).isSome = true ∧ m.fs.inode loc = threads.fs.inode loc

namespace Matches

variable {threads threads' m' : FileThreads Thread} {loc : Location}

/-- What other threads do elsewhere does not matter to a stream. -/
theorem congr (h : Matches currentPath threads m t stream)
    (hpc : threads'.pc t = threads.pc t) (hmpc : m'.pc t = m.pc t)
    (hinode : ∀ loc, stream.file = some loc → threads'.fs.inode loc = threads.fs.inode loc)
    (hminode : ∀ loc, stream.file = some loc → m'.fs.inode loc = m.fs.inode loc) :
    Matches currentPath threads' m' t stream := by
  cases stream with
  | output file rest =>
      obtain ⟨path, hop, hreturns, hnone, hfile⟩ := h
      refine ⟨path, hpc ▸ hop, hmpc ▸ hreturns, hnone, fun loc hloc => ?_⟩
      rw [hinode loc hloc, hminode loc hloc]
      exact hfile loc hloc
  | input file got =>
      obtain ⟨path, rest, hop, hreturns, hgot, hfile⟩ := h
      have hcontents : ∀ loc, file = some loc →
          threads'.fs.contents loc = threads.fs.contents loc := by
        intro loc hloc
        rw [FileSystem.contents, FileSystem.contents, hinode loc hloc]
      refine ⟨path, rest, hpc ▸ hop, hmpc ▸ hreturns, ?_, fun loc hloc => ?_⟩
      · cases file with
        | none => exact hgot
        | some loc => exact (congrArg (Option.getD · []) (hcontents loc rfl)).trans hgot
      · rw [hcontents loc hloc, hinode loc hloc, hminode loc hloc]
        exact hfile loc hloc

/-- A thread with a stream stands in an operation that uses one, and the operation of one step has
the lock of the file. -/
theorem locked (h : Matches currentPath threads m t stream) :
    ∃ op path, threads.pc t = .body op path ∧ op.streams = true ∧
      (m.pc t).holds .read = some path ∧
      ∀ loc, stream.file = some loc → uniquePath currentPath path = loc.path := by
  cases stream with
  | output file rest =>
      obtain ⟨path, ⟨filename, contents, hpc⟩, hmpc, -, hfile⟩ := h
      exact ⟨_, path, hpc, rfl, by rw [hmpc]; rfl, fun loc hloc => (hfile loc hloc).1⟩
  | input file got =>
      obtain ⟨path, rest, ⟨filename, hpc⟩, hmpc, -, hfile⟩ := h
      exact ⟨_, path, hpc, rfl, by rw [hmpc]; rfl, fun loc hloc => (hfile loc hloc).1⟩

/-- There is the file of a stream. -/
theorem contents_isSome (h : Matches currentPath threads m t stream)
    (hloc : stream.file = some loc) : (threads.fs.contents loc).isSome = true := by
  cases stream with
  | output file rest =>
      obtain ⟨path, -, -, -, hfile⟩ := h
      obtain ⟨-, written, hinode, -⟩ := hfile loc hloc
      rw [FileSystem.contents_eq_some_iff.mpr ⟨true, hinode⟩]
      rfl
  | input file got =>
      obtain ⟨path, rest, -, -, -, hfile⟩ := h
      exact (hfile loc hloc).2.1

end Matches

/-- The threads `m`, whose operations are one step, have done what the threads of `s` have done or
have opened a stream for. -/
structure Refines (currentPath : List Char) (s : FileStreams Thread) (m : FileThreads Thread) :
    Prop where
  manager : m.manager = s.threads.manager
  currentDir : m.currentDir = s.threads.currentDir
  tree : s.threads.fs.SameTree m.fs
  closed : ∀ t, s.stream t = none → m.pc t = s.threads.pc t
  opened : ∀ t stream, s.stream t = some stream → Matches currentPath s.threads m t stream
  inode : ∀ loc, (∀ t stream, s.stream t = some stream → stream.file ≠ some loc) →
    m.fs.inode loc = s.threads.fs.inode loc

namespace Refines

variable {loc : Location}

theorem start (fs : FileSystem) (dirs : Thread → List Char) :
    Refines currentPath { threads := { fs := fs, currentDir := dirs } : FileStreams Thread }
      { fs := fs, currentDir := dirs } where
  manager := rfl
  currentDir := rfl
  tree := .refl fs
  closed _ _ := rfl
  opened _ _ h := by cases h
  inode _ _ := rfl

/-- A lock is taken or released. -/
theorem setManager (h : Refines currentPath s m) (kind : LockKind) (manager : FileAccessManager) :
    Refines currentPath { s with threads := s.threads.setManager kind manager }
      (m.setManager kind manager) :=
  { h with
    manager := by
      rw [FileThreads.setManager, FileThreads.setManager, h.manager]
    opened := fun t stream ht => (h.opened t stream ht).congr rfl rfl (fun _ _ => rfl)
      fun _ _ => rfl }

/-- Where a thread stands that is not about to read or write a file, it has no stream. -/
theorem closed_of_pc (h : Refines currentPath s m)
    (hpc : ∀ op path, s.threads.pc t = .body op path → op.streams = false) :
    s.stream t = none := by
  cases hstream : s.stream t with
  | none => rfl
  | some stream =>
      obtain ⟨op, path, hbody, hstreams, -⟩ := (h.opened t stream hstream).locked
      rw [hpc op path hbody] at hstreams
      cases hstreams

/-- The tree changes in the same way, and not at the files of which a stream is open. -/
theorem setFs (h : Refines currentPath s m) {fs fs' : FileSystem}
    (hkept : ∀ u stream loc, s.stream u = some stream → stream.file = some loc →
      fs.inode loc = s.threads.fs.inode loc ∧ fs'.inode loc = m.fs.inode loc)
    (htree : fs.SameTree fs')
    (hsame : ∀ loc, m.fs.inode loc = s.threads.fs.inode loc → fs'.inode loc = fs.inode loc) :
    Refines currentPath (s.setFs fs) { m with fs := fs' } :=
  { h with
    tree := htree
    opened := fun u stream hu => (h.opened u stream hu).congr rfl rfl
      (fun loc hloc => (hkept u stream loc hu hloc).1)
      fun loc hloc => (hkept u stream loc hu hloc).2
    inode := fun loc hloc => hsame loc (h.inode loc hloc) }

variable {events : LockKind → List (LockEvent Thread (List Char))}

/-- **Nobody has a stream open** of a file on which somebody else works. -/
theorem path_ne (h : Refines currentPath s m) (hg : FileThreads.Guarded currentPath events m)
    (ht : (m.pc t).holds .read = some path) (hu : s.stream u = some stream) (hne : u ≠ t)
    (hfile : stream.file = some loc) : uniquePath currentPath path ≠ loc.path := by
  intro hpath
  obtain ⟨-, path', -, -, hholds, hkey⟩ := (h.opened u stream hu).locked
  exact hne ((hg.locks .read).unique
    (FileThreads.holds_iff.mpr ⟨path', hholds, hkey loc hfile⟩)
    (FileThreads.holds_iff.mpr ⟨path, ht, hpath⟩))

/-- Nobody has a stream open of a file on which a thread works that has none. -/
theorem path_ne_of_closed (h : Refines currentPath s m)
    (hg : FileThreads.Guarded currentPath events m) (hclosed : s.stream t = none)
    (ht : (m.pc t).holds .read = some path) (hu : s.stream u = some stream)
    (hfile : stream.file = some loc) : uniquePath currentPath path ≠ loc.path := by
  refine h.path_ne hg ht hu ?_ hfile
  rintro rfl
  exact absurd (hclosed.symm.trans hu) (fun h => by cases h)

/-- Where a path leads that such a thread works on, the files are the same. -/
theorem inode_of_locate (h : Refines currentPath s m) (hp : m.Placed)
    (hg : FileThreads.Guarded currentPath events m) (hclosed : s.stream t = none)
    {op : FileOperation} (hpc : m.pc t = .body op path)
    (hloc : s.threads.fs.locate path = some loc) :
    m.fs.inode loc = s.threads.fs.inode loc := by
  cases hfile : s.threads.fs.isDirectory loc with
  | true =>
      obtain ⟨writable, hdir⟩ := FileSystem.isDirectory_iff.mp hfile
      exact h.tree.other fun _ _ h => by cases hdir.symm.trans h
  | false =>
      refine h.inode loc fun u stream hu hfile' => ?_
      refine h.path_ne_of_closed hg hclosed (by rw [hpc]; rfl) hu hfile' ?_
      exact hp.uniquePath_of_locate (by rw [hpc]; rfl) hloc hfile

variable [DecidableEq Thread]

@[simp] theorem stream_setStream_self (s : FileStreams Thread) (t : Thread)
    (stream : Option FileStream) : (s.setStream t stream).stream t = stream :=
  Function.update_self ..

theorem stream_setStream_of_ne (hne : u ≠ t) (s : FileStreams Thread)
    (stream : Option FileStream) : (s.setStream t stream).stream u = s.stream u :=
  Function.update_of_ne hne ..

/-- A thread outside of a stream goes on. -/
theorem goTo (h : Refines currentPath s m) (hclosed : s.stream t = none) (pc : FileOpPc) :
    Refines currentPath { s with threads := s.threads.goTo t pc } (m.goTo t pc) := by
  refine { h with closed := fun u hu => ?_, opened := fun u stream hu => ?_ }
  · by_cases hut : u = t
    · subst hut
      rw [FileThreads.pc_goTo_self]
      exact (FileThreads.pc_goTo_self ..).symm
    · rw [FileThreads.pc_goTo_of_ne hut]
      exact (h.closed u hu).trans (FileThreads.pc_goTo_of_ne hut ..).symm
  · have hut : u ≠ t := by
      rintro rfl
      exact absurd (hclosed.symm.trans hu) (fun h => by cases h)
    exact (h.opened u stream hu).congr (FileThreads.pc_goTo_of_ne hut ..)
      (FileThreads.pc_goTo_of_ne hut ..) (fun _ _ => rfl) fun _ _ => rfl

/-- **A stream moves on in its file**, and nobody sees it. -/
theorem setStream (h : Refines currentPath s m) (fs : FileSystem)
    (hg : FileThreads.Guarded currentPath events m) {stream' : FileStream}
    (ht : s.stream t = some stream) (hfile : stream'.file = stream.file)
    (hfs : ∀ loc, stream.file ≠ some loc → fs.inode loc = s.threads.fs.inode loc)
    (htree : fs.SameTree m.fs)
    (hmatches : Matches currentPath { s.threads with fs := fs } m t stream') :
    Refines currentPath ((s.setFs fs).setStream t (some stream')) m := by
  refine { h with
    tree := htree, closed := fun u hu => ?_, opened := fun u stream'' hu => ?_,
    inode := fun loc hloc => ?_ }
  · by_cases hut : u = t
    · subst hut
      rw [stream_setStream_self] at hu
      cases hu
    · rw [stream_setStream_of_ne hut] at hu
      exact h.closed u hu
  · by_cases hut : u = t
    · subst hut
      rw [stream_setStream_self] at hu
      obtain rfl := Option.some.inj hu
      exact hmatches
    · rw [stream_setStream_of_ne hut] at hu
      refine (h.opened u stream'' hu).congr rfl rfl (fun loc hloc => hfs loc fun hown => ?_)
        fun _ _ => rfl
      obtain ⟨-, path, -, -, hholds, hkey⟩ := (h.opened t stream ht).locked
      exact h.path_ne hg hholds hu hut hloc (hkey loc hown)
  · have hne : stream.file ≠ some loc := by
      rw [← hfile]
      exact hloc t stream' (stream_setStream_self ..)
    refine (h.inode loc fun u stream'' hu => ?_).trans (hfs loc hne).symm
    by_cases hut : u = t
    · subst hut
      obtain rfl := Option.some.inj (ht.symm.trans hu)
      exact hne
    · exact hloc u stream'' ((stream_setStream_of_ne hut ..).trans hu)

/-- A stream is closed that has brought everything about. -/
theorem close (h : Refines currentPath s m) {pc' : FileOpPc} (ht : s.stream t = some stream)
    (hpc : m.pc t = pc')
    (hinode : ∀ loc, stream.file = some loc → m.fs.inode loc = s.threads.fs.inode loc) :
    Refines currentPath ({ s with threads := s.threads.goTo t pc' }.setStream t none) m := by
  refine { h with
    closed := fun u hu => ?_, opened := fun u stream' hu => ?_, inode := fun loc hloc => ?_ }
  · by_cases hut : u = t
    · subst hut
      exact hpc.trans (FileThreads.pc_goTo_self ..).symm
    · rw [stream_setStream_of_ne hut] at hu
      exact (h.closed u hu).trans (FileThreads.pc_goTo_of_ne hut ..).symm
  · have hut : u ≠ t := by
      rintro rfl
      rw [stream_setStream_self] at hu
      cases hu
    rw [stream_setStream_of_ne hut] at hu
    exact (h.opened u stream' hu).congr (FileThreads.pc_goTo_of_ne hut ..) rfl (fun _ _ => rfl)
      fun _ _ => rfl
  · by_cases hown : stream.file = some loc
    · exact hinode loc hown
    · refine h.inode loc fun u stream' hu => ?_
      by_cases hut : u = t
      · subst hut
        obtain rfl := Option.some.inj (ht.symm.trans hu)
        exact hown
      · exact hloc u stream' ((stream_setStream_of_ne hut ..).trans hu)

/-- A stream is opened where the operation of one step is carried out. -/
theorem openStream (h : Refines currentPath s m) (fs fs' : FileSystem)
    (hg : FileThreads.Guarded currentPath events m) {pc' : FileOpPc} (hclosed : s.stream t = none)
    (hholds : (m.pc t).holds .read = some path)
    (hkey : ∀ loc, stream.file = some loc → uniquePath currentPath path = loc.path)
    (hfs : ∀ loc, stream.file ≠ some loc → fs.inode loc = s.threads.fs.inode loc)
    (hfs' : ∀ loc, stream.file ≠ some loc → fs'.inode loc = m.fs.inode loc)
    (htree : fs.SameTree fs')
    (hmatches : Matches currentPath { s.threads with fs := fs } ({ m with fs := fs' }.goTo t pc') t
      stream) :
    Refines currentPath ((s.setFs fs).setStream t (some stream))
      ({ m with fs := fs' }.goTo t pc') := by
  refine { h with
    tree := htree, closed := fun u hu => ?_, opened := fun u stream' hu => ?_,
    inode := fun loc hloc => ?_ }
  · have hut : u ≠ t := by
      rintro rfl
      rw [stream_setStream_self] at hu
      cases hu
    rw [stream_setStream_of_ne hut] at hu
    exact (FileThreads.pc_goTo_of_ne hut ..).trans (h.closed u hu)
  · by_cases hut : u = t
    · subst hut
      rw [stream_setStream_self] at hu
      obtain rfl := Option.some.inj hu
      exact hmatches
    · rw [stream_setStream_of_ne hut] at hu
      have hother : ∀ loc, stream'.file = some loc → stream.file ≠ some loc :=
        fun loc hloc hown => h.path_ne hg hholds hu hut hloc (hkey loc hown)
      exact (h.opened u stream' hu).congr rfl (FileThreads.pc_goTo_of_ne hut ..)
        (fun loc hloc => hfs loc (hother loc hloc)) fun loc hloc => hfs' loc (hother loc hloc)
  · have hne : stream.file ≠ some loc := hloc t stream (stream_setStream_self ..)
    refine (hfs' loc hne).trans ((h.inode loc fun u stream' hu => ?_).trans (hfs loc hne).symm)
    have hut : u ≠ t := by
      rintro rfl
      exact absurd (hclosed.symm.trans hu) (fun h => by cases h)
    exact hloc u stream' ((stream_setStream_of_ne hut ..).trans hu)

end Refines

/-- The threads and streams at the start: nobody works. -/
def initial (fs : FileSystem) (dirs : Thread → List Char) : FileStreams Thread where
  threads := { fs := fs, currentDir := dirs }

/-- The threads `m` match those of `s`, and are right about paths and locks. -/
structure Accompanies (currentPath : List Char) (s : FileStreams Thread) (m : FileThreads Thread) :
    Prop where
  refines : Refines currentPath s m
  placed : m.Placed
  guarded : ∃ events, FileThreads.Guarded currentPath events m

theorem Accompanies.start (fs : FileSystem) {dirs : Thread → List Char}
    (hdirs : ∀ t, isAbsolute (dirs t) = true) :
    Accompanies currentPath (initial fs dirs) { fs := fs, currentDir := dirs } where
  refines := .start fs dirs
  placed := .start fs hdirs
  guarded := ⟨_, .start fs dirs⟩

/-! ### Every step -/

variable [DecidableEq Thread]

/-- The threads `m` match what a step of `s` does. -/
def Matched (currentPath : List Char) (s : FileStreams Thread) (a : Action Thread)
    (s' : FileStreams Thread) (m : FileThreads Thread) : Prop :=
  ∃ bs m', runFrom (FileThreads.step currentPath) m bs = some m' ∧ Refines currentPath s' m' ∧
    collect (FileThreads.step currentPath) FileThreads.observed m bs = s.observed a

variable {a : Action Thread} {events : LockKind → List (LockEvent Thread (List Char))}

/-- A step that the threads do not take. -/
theorem Matched.nothing (h : Refines currentPath s' m) (hobserved : s.observed a = []) :
    Matched currentPath s a s' m :=
  ⟨[], m, rfl, h, hobserved.symm⟩

/-- A step that the threads take as well. -/
theorem Matched.one {b : FileThreads.Action Thread} {m' : FileThreads Thread}
    (h : Refines currentPath s' m') (hstep : m.step currentPath b = some m')
    (hobserved : m.observed b = s.observed a) : Matched currentPath s a s' m := by
  refine ⟨[b], m', (runFrom_singleton m b).trans hstep, h, ?_⟩
  rw [collect, hstep, hobserved]
  exact List.append_nil _

/-- The threads carry out `Put` when its file is opened. -/
theorem matched_openOutput (h : Refines currentPath s m) (hp : m.Placed)
    (hg : FileThreads.Guarded currentPath events m) {filename : String} {contents : List UInt8}
    (hpc : s.threads.pc t = .body (.put filename contents) path) (hclosed : s.stream t = none)
    (hstep : s.openStream t = some s') : Matched currentPath s (.openStream t) s' m := by
  have hmpc : m.pc t = .body (.put filename contents) path := (h.closed t hclosed).trans hpc
  have hpending : (m.pc t).pending = some (.put filename contents, path) := by
    rw [hmpc]
    rfl
  have hpath : joinPath (m.currentDir t) filename.toList = path :=
    hp.pending t (.put filename contents) path hpending
  have hmstep : m.step currentPath (.next t) =
      some ({ m with fs := m.fs.write path contents }.goTo t
        (.unlockWrite path (.success true))) := by
    rw [FileThreads.step, FileThreads.next, hmpc]
    simp only [FileOperation.body, FileOperation.resultOf, FileHandler.put, FileThreads.handler,
      FileOperation.writes, if_true, hpath]
  have hholds : (m.pc t).holds .read = some path := by
    rw [hmpc]
    rfl
  refine .one ?_ hmstep (by rw [FileThreads.observed, hmpc]; rfl)
  rw [openStream, hpc, hclosed] at hstep
  simp only [← h.currentDir, hpath] at hstep
  rcases h.tree.openOutput path with ⟨hopen, hopen'⟩ | ⟨loc, opened, opened', hopen, hopen', htree⟩
  · rw [hopen] at hstep
    obtain rfl := Option.some.inj hstep
    rw [FileSystem.write_of_none hopen']
    -- The file could not be opened, and nothing is written to it.
    refine h.openStream s.threads.fs m.fs hg hclosed hholds (fun _ h => by cases h)
      (fun _ _ => rfl) (fun _ _ => rfl) h.tree ?_
    exact ⟨path, ⟨filename, contents, hpc⟩, FileThreads.pc_goTo_self .., fun _ => rfl,
      fun _ h => by cases h⟩
  · rw [hopen] at hstep
    obtain rfl := Option.some.inj hstep
    rw [FileSystem.write_of_some hopen']
    have hs := FileSystem.opened_of_openOutput hopen
    have hm := FileSystem.opened_of_openOutput hopen'
    have hkey : ∀ loc', some loc = some loc' → uniquePath currentPath path = loc'.path := by
      rintro loc' hloc
      obtain rfl := Option.some.inj hloc
      exact hp.uniquePath_of_locate hpending hs.locate hs.not_isDirectory
    refine h.openStream opened _ hg hclosed hholds hkey (fun loc' hne => ?_) (fun loc' hne => ?_)
      (htree.setContents loc contents) ?_
    · exact hs.inode_of_ne loc' fun h => hne (congrArg some h.symm)
    · have hloc : loc' ≠ loc := fun h => hne (congrArg some h.symm)
      exact (FileSystem.inode_setContents_of_ne hloc).trans (hm.inode_of_ne loc' hloc)
    · refine ⟨path, ⟨filename, contents, hpc⟩, FileThreads.pc_goTo_self ..,
        (fun h => by cases h), fun loc' hloc => ⟨hkey loc' hloc, ?_⟩⟩
      obtain rfl := Option.some.inj hloc
      exact ⟨[], hs.inode, FileSystem.inode_setContents hm.inode⟩

/-- The threads carry out `Get` when its file is opened. -/
theorem matched_openInput (h : Refines currentPath s m) (hp : m.Placed)
    (hg : FileThreads.Guarded currentPath events m) {filename : String}
    (hpc : s.threads.pc t = .body (.get filename) path) (hclosed : s.stream t = none)
    (hstep : s.openStream t = some s') : Matched currentPath s (.openStream t) s' m := by
  have hmpc : m.pc t = .body (.get filename) path := (h.closed t hclosed).trans hpc
  have hpending : (m.pc t).pending = some (.get filename, path) := by
    rw [hmpc]
    rfl
  have hpath : joinPath (m.currentDir t) filename.toList = path :=
    hp.pending t (.get filename) path hpending
  have hmstep : m.step currentPath (.next t) =
      some (m.goTo t (.unlockRead path (.contents ((m.fs.files path).getD [])))) := by
    rw [FileThreads.step, FileThreads.next, hmpc]
    simp only [FileOperation.body, FileHandler.get, FileThreads.handler, FileOperation.writes,
      Bool.false_eq_true, if_false, hpath]
  have hholds : (m.pc t).holds .read = some path := by
    rw [hmpc]
    rfl
  have hinode : ∀ loc, s.threads.fs.locate path = some loc →
      m.fs.inode loc = s.threads.fs.inode loc :=
    fun loc hloc => h.inode_of_locate hp hg hclosed hmpc hloc
  have hfiles : (s.threads.fs.openInput path).bind s.threads.fs.contents = m.fs.files path := by
    rw [FileSystem.files, h.tree.locate, FileSystem.bind_openInput, FileSystem.files]
    cases hloc : s.threads.fs.locate path with
    | none => rfl
    | some loc =>
        show s.threads.fs.contents loc = m.fs.contents loc
        rw [FileSystem.contents, FileSystem.contents, hinode loc hloc]
  refine .one ?_ hmstep (by rw [FileThreads.observed, hmpc]; rfl)
  rw [openStream, hpc, hclosed] at hstep
  simp only [← h.currentDir, hpath] at hstep
  obtain rfl := Option.some.inj hstep
  have hkey : ∀ loc, s.threads.fs.openInput path = some loc →
      uniquePath currentPath path = loc.path := by
    intro loc hopen
    obtain ⟨hloc, hfile⟩ := FileSystem.locate_of_openInput hopen
    exact hp.uniquePath_of_locate hpending hloc hfile
  refine h.openStream s.threads.fs m.fs hg hclosed hholds hkey (fun _ _ => rfl)
    (fun _ _ => rfl) h.tree ?_
  refine ⟨path, (m.fs.files path).getD [], ⟨filename, hpc⟩, FileThreads.pc_goTo_self ..,
    congrArg (Option.getD · []) hfiles, fun loc hopen => ⟨hkey loc hopen, ?_, ?_⟩⟩
  · exact (Option.filter_eq_some_iff.mp hopen).2
  · exact hinode loc (FileSystem.locate_of_openInput hopen).1

/-- The threads carry out the operation when its stream is opened. -/
theorem matched_openStream (h : Refines currentPath s m) (hp : m.Placed)
    (hg : FileThreads.Guarded currentPath events m) (hstep : s.openStream t = some s') :
    Matched currentPath s (.openStream t) s' m := by
  have hopens := hstep
  rw [openStream] at hopens
  split at hopens
  · next hpc hclosed => exact matched_openOutput h hp hg hpc hclosed hstep
  · next hpc hclosed => exact matched_openInput h hp hg hpc hclosed hstep
  · cases hopens

theorem matched_write (h : Refines currentPath s m) (hg : FileThreads.Guarded currentPath events m)
    {count : ℕ} (hstep : s.write t count = some s') :
    Matched currentPath s (.write t count) s' m := by
  rw [write] at hstep
  split at hstep
  · next loc rest hopen =>
      split at hstep
      · cases hstep
      · obtain rfl := Option.some.inj hstep
        obtain ⟨path, hpc, hmpc, -, hfile⟩ := h.opened t _ hopen
        obtain ⟨hkey, written, hinode, hminode⟩ := hfile loc rfl
        have hcontents : s.threads.fs.contents loc = some written :=
          FileSystem.contents_eq_some_iff.mpr ⟨true, hinode⟩
        refine .nothing (h.setStream _ hg hopen rfl (fun loc' hne => ?_) ?_ ?_) rfl
        · exact FileSystem.inode_setContents_of_ne fun h => hne (congrArg some h.symm)
        · exact (h.tree.symm.setContents loc _).symm
        · refine ⟨path, hpc, hmpc, (fun h => by cases h), fun loc' hloc' => ?_⟩
          obtain rfl := Option.some.inj hloc'
          refine ⟨hkey, written ++ rest.take count, ?_, ?_⟩
          · rw [FileSystem.append, hcontents]
            exact FileSystem.inode_setContents hinode
          · rw [List.append_assoc, List.take_append_drop]
            exact hminode
  · cases hstep

theorem matched_read (h : Refines currentPath s m) (hg : FileThreads.Guarded currentPath events m)
    {count : ℕ} (hstep : s.read t count = some s') :
    Matched currentPath s (.read t count) s' m := by
  rw [read] at hstep
  split at hstep
  · next file got hopen =>
      obtain rfl := Option.some.inj hstep
      obtain ⟨path, rest, hpc, hmpc, hgot, hfile⟩ := h.opened t _ hopen
      have hunread : s.unread file got = rest := by
        rw [unread, hgot, List.drop_left]
      refine .nothing (h.setStream s.threads.fs hg hopen rfl (fun _ _ => rfl) h.tree ?_) rfl
      refine ⟨path, rest.drop count, hpc, ?_, ?_, hfile⟩
      · rw [hunread, List.append_assoc, List.take_append_drop]
        exact hmpc
      · rw [hunread, List.append_assoc, List.take_append_drop]
        exact hgot
  · cases hstep

theorem matched_close (h : Refines currentPath s m) (hstep : s.close t = some s') :
    Matched currentPath s (.close t) s' m := by
  rw [close] at hstep
  split at hstep
  · next op path file rest hpc hopen =>
      split at hstep
      · next hrest =>
          obtain rfl := Option.some.inj hstep
          obtain ⟨path', ⟨filename, contents, hput⟩, hmpc, -, hfile⟩ := h.opened t _ hopen
          obtain ⟨-, rfl⟩ := FileOpPc.body.inj (hpc.symm.trans hput)
          refine .nothing (h.close hopen hmpc fun loc hloc => ?_) rfl
          obtain ⟨-, written, hinode, hminode⟩ := hfile loc hloc
          rw [hminode, hinode, hrest, List.append_nil]
      · cases hstep
  · next op path file got hpc hopen =>
      split at hstep
      · next hunread =>
          obtain rfl := Option.some.inj hstep
          obtain ⟨path', rest, ⟨filename, hget⟩, hmpc, hgot, hfile⟩ := h.opened t _ hopen
          obtain ⟨-, rfl⟩ := FileOpPc.body.inj (hpc.symm.trans hget)
          rw [unread, hgot, List.drop_left] at hunread
          rw [hunread, List.append_nil] at hmpc
          exact .nothing (h.close hopen hmpc fun loc hloc => (hfile loc hloc).2.2) rfl
      · cases hstep
  · cases hstep

omit [DecidableEq Thread] in
/-- An operation that uses no stream does to both the same, and leaves the open files alone. -/
theorem matched_body (h : Refines currentPath s m) (hp : m.Placed)
    (hg : FileThreads.Guarded currentPath events m) (hclosed : s.stream t = none)
    {op : FileOperation} (hstreams : op.streams = false)
    (hpc : s.threads.pc t = .body op path) :
    (op.body (m.handler t)).1 = (op.body (s.threads.handler t)).1 ∧
      Refines currentPath (s.setFs (op.body (s.threads.handler t)).2)
        { m with fs := (op.body (m.handler t)).2 } := by
  have hmpc : m.pc t = .body op path := (h.closed t hclosed).trans hpc
  have hpending : (m.pc t).pending = some (op, path) := by
    rw [hmpc]
    rfl
  have hpath := hp.pending t op path hpending
  have hdir : m.currentDir t = s.threads.currentDir t := congrFun h.currentDir t
  obtain ⟨hresult, htree, hsame⟩ :=
    FileOperation.alike_body (s.threads.handler t) (m.handler t) hstreams hdir h.tree
  refine ⟨hresult, h.setFs (fun u stream loc hu hloc => ?_) htree hsame⟩
  have hcontents := (h.opened u stream hu).contents_isSome hloc
  obtain ⟨bytes, hbytes⟩ := Option.isSome_iff_exists.mp hcontents
  obtain ⟨writable, hinode⟩ := FileSystem.contents_eq_some_iff.mp hbytes
  obtain ⟨bytes', hminode⟩ := h.tree.file hinode
  have hne : s.threads.fs.locate path ≠ some loc := fun hloc' =>
    h.path_ne_of_closed hg hclosed (by rw [hmpc]; rfl) hu hloc
      (hp.uniquePath_of_locate hpending hloc' (FileSystem.isDirectory_of_contents hbytes))
  constructor
  · refine FileOperation.inode_body _ hstreams ?_ ?_
    · exact hinode ▸ rfl
    · exact (hdir ▸ hpath) ▸ hne
  · refine FileOperation.inode_body _ hstreams ?_ ?_
    · exact hminode ▸ rfl
    · show m.fs.locate (joinPath (m.currentDir t) op.filename.toList) ≠ some loc
      rw [hpath, h.tree.locate]
      exact hne

/-- A thread goes on that uses no stream, and so does the same thread of `m`. -/
theorem matched_next (h : Refines currentPath s m) (hp : m.Placed)
    (hg : FileThreads.Guarded currentPath events m) (hnot : s.usesStream (.next t) = false)
    {threads : FileThreads Thread} (hstep : s.threads.next currentPath t = some threads) :
    ∃ m', m.next currentPath t = some m' ∧
      Refines currentPath { s with threads := threads } m' := by
  have hclosed : s.stream t = none := by
    refine h.closed_of_pc fun op path hpc => ?_
    rw [usesStream, hpc] at hnot
    exact hnot
  have hsame := h.closed t hclosed
  rw [FileThreads.next] at hstep ⊢
  rw [hsame]
  cases hpc : s.threads.pc t with
  | idle =>
      rw [hpc] at hstep
      cases hstep
  | lockRead op path =>
      rw [hpc] at hstep
      obtain ⟨manager, hlock, rfl⟩ := Option.map_eq_some_iff.mp hstep
      rw [← h.manager] at hlock
      exact ⟨_, Option.map_eq_some_iff.mpr ⟨manager, hlock, rfl⟩,
        (h.setManager .read manager).goTo hclosed _⟩
  | lockWrite op path =>
      rw [hpc] at hstep
      obtain ⟨manager, hlock, rfl⟩ := Option.map_eq_some_iff.mp hstep
      rw [← h.manager] at hlock
      exact ⟨_, Option.map_eq_some_iff.mpr ⟨manager, hlock, rfl⟩,
        (h.setManager .write manager).goTo hclosed _⟩
  | body op path =>
      rw [hpc] at hstep
      obtain rfl := Option.some.inj hstep
      have hstreams : op.streams = false := by
        rw [usesStream, hpc] at hnot
        exact hnot
      obtain ⟨hresult, hrefines⟩ := matched_body h hp hg hclosed hstreams hpc
      refine ⟨_, rfl, ?_⟩
      rw [hresult]
      exact hrefines.goTo hclosed _
  | unlockWrite path result =>
      rw [hpc] at hstep
      obtain rfl := Option.some.inj hstep
      rw [← h.manager]
      exact ⟨_, rfl, (h.setManager .write _).goTo hclosed _⟩
  | unlockRead path result =>
      rw [hpc] at hstep
      obtain rfl := Option.some.inj hstep
      rw [← h.manager]
      exact ⟨_, rfl, (h.setManager .read _).goTo hclosed _⟩

/-- A thread in no operation changes its directory, and so does the same thread of `m`. -/
theorem matched_changeDir (h : Refines currentPath s m)
    {change : FileHandler → Bool × FileHandler} {threads : FileThreads Thread}
    (hstep : s.threads.changeDir t change = some threads)
    (hchange : ∀ handler handler' : FileHandler, handler'.currentDir = handler.currentDir →
      (change handler').2.currentDir = (change handler).2.currentDir) :
    ∃ m', m.changeDir t change = some m' ∧
      Refines currentPath { s with threads := threads } m' := by
  rw [FileThreads.changeDir] at hstep ⊢
  split at hstep
  · next hpc =>
      obtain rfl := Option.some.inj hstep
      have hclosed := h.closed_of_pc fun op path hbody => by cases hpc.symm.trans hbody
      rw [h.closed t hclosed, hpc]
      refine ⟨_, rfl, { h with currentDir := ?_, opened := fun u stream hu => ?_ }⟩
      · rw [hchange (s.threads.handler t) (m.handler t) (congrFun h.currentDir t), h.currentDir]
      · exact (h.opened u stream hu).congr rfl rfl (fun _ _ => rfl) fun _ _ => rfl
  · cases hstep

/-- **A step in which no stream is used is taken by the threads as well.** -/
theorem matched_thread (h : Refines currentPath s m) (hp : m.Placed)
    (hg : FileThreads.Guarded currentPath events m) {b : FileThreads.Action Thread}
    (hstep : s.threadStep currentPath b = some s') :
    Matched currentPath s (.thread b) s' m := by
  rw [threadStep] at hstep
  split at hstep
  · cases hstep
  · next hnot =>
      obtain ⟨threads, hthreads, rfl⟩ := Option.map_eq_some_iff.mp hstep
      cases b with
      | start t op =>
          rw [FileThreads.step, FileThreads.start] at hthreads
          split at hthreads
          · next hpc =>
              obtain rfl := Option.some.inj hthreads
              have hclosed := h.closed_of_pc fun op path hbody => by cases hpc.symm.trans hbody
              have hsame : (m.handler t).toAbsolute = (s.threads.handler t).toAbsolute := by
                funext path
                exact congrArg (joinPath · path) (congrFun h.currentDir t)
              have hmstep : m.step currentPath (.start t op) = some (m.goTo t
                  (.lockRead op ((s.threads.handler t).toAbsolute op.filename.toList))) := by
                rw [FileThreads.step, FileThreads.start, h.closed t hclosed, hpc, hsame]
              refine .one (h.goTo hclosed _) hmstep ?_
              rw [FileThreads.observed, hsame]
              rfl
          · cases hthreads
      | changeDir t subFolder =>
          rw [FileThreads.step] at hthreads
          obtain ⟨m', hmstep, hrefines⟩ := matched_changeDir h hthreads
            fun _ _ hdir => congrArg (joinPath · subFolder.toList) hdir
          have hmstep : m.step currentPath (.changeDir t subFolder) = some m' := hmstep
          exact .one hrefines hmstep rfl
      | upDir t =>
          rw [FileThreads.step] at hthreads
          obtain ⟨m', hmstep, hrefines⟩ := matched_changeDir h hthreads
            fun _ _ hdir => congrArg parentPath hdir
          have hmstep : m.step currentPath (.upDir t) = some m' := hmstep
          exact .one hrefines hmstep rfl
      | next t =>
          have hnot : s.usesStream (.next t) = false := Bool.not_eq_true _ ▸ hnot
          obtain ⟨m', hmstep, hrefines⟩ := matched_next h hp hg hnot hthreads
          have hmstep : m.step currentPath (.next t) = some m' := hmstep
          have hclosed : s.stream t = none := by
            refine h.closed_of_pc fun op path hpc => ?_
            rw [usesStream, hpc] at hnot
            exact hnot
          refine .one hrefines hmstep ?_
          rw [FileThreads.observed, h.closed t hclosed]
          rfl

/-- **Every step is matched** by a step of the threads whose operations are one step, or by none. -/
theorem simulates_step (h : Refines currentPath s m) (hp : m.Placed)
    (hg : FileThreads.Guarded currentPath events m) (hstep : s.step currentPath a = some s') :
    Matched currentPath s a s' m := by
  cases a with
  | thread b => exact matched_thread h hp hg hstep
  | openStream t => exact matched_openStream h hp hg hstep
  | write t count => exact matched_write h hg hstep
  | read t count => exact matched_read h hg hstep
  | close t => exact matched_close h hstep

/-! ### Every run -/

/-- A step is matched by threads that are still right afterwards. -/
theorem Accompanies.step (h : Accompanies currentPath s m)
    (hstep : s.step currentPath a = some s') :
    ∃ bs m', runFrom (FileThreads.step currentPath) m bs = some m' ∧
      Accompanies currentPath s' m' ∧
      collect (FileThreads.step currentPath) FileThreads.observed m bs = s.observed a := by
  obtain ⟨events, hg⟩ := h.guarded
  obtain ⟨bs, m', hbs, hr, hobserved⟩ := simulates_step h.refines h.placed hg hstep
  refine ⟨bs, m', hbs, ⟨hr, ?_, ?_⟩, hobserved⟩
  · exact history_inv (fun _ m => m.Placed) h.placed
      (fun _ _ _ _ _ hp hstep => FileThreads.placed_step hp hstep) hbs
  · exact history_inv (fun _ m => ∃ events, FileThreads.Guarded currentPath events m) ⟨events, hg⟩
      (fun _ _ _ _ _ ⟨_, hg⟩ hstep => ⟨_, FileThreads.guarded_step hg hstep⟩) hbs

end FileStreams

end Csci6780
