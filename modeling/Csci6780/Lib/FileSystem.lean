import Csci6780.Lib.Paths
import Mathlib.Logic.Function.Basic

/-!
# A File System

The file system of a POSIX machine, less links: a tree of directories and regular files, in which
every file has one place. The place is a `Location`, the names that lead to it from the root.

A path is looked up name by name. Every name has to be met in a directory: an empty one and `.` stay
there, `..` goes up, and another one goes down, whether it is there or not. So many paths lead to
one file; if they are absolute, they have one normal form, whatever else changes in the tree.

Files can be read and directories searched by everybody, and one bit says who may write. New files
and directories can be written. An operation that throws is `none`.

## Main definitions

* `FileSystem`: the tree, with what keeps it one.
* `FileSystem.locate`: where a path leads.
* `FileSystem.openOutput`, `FileSystem.remove`, `FileSystem.createDirectory`: what changes the tree.
* `FileSystem.SameTree`: two trees that differ in the contents of files only.

## Main results

* `FileSystem.files_write_self`: what a path holds after it has been written.
* `FileSystem.lexicallyNormal_of_locate`: the paths of one file have one normal form.
* `FileSystem.locate_path`: the normal form leads to the file.
-/

namespace Csci6780

/-! ### The tree -/

/-- The names that lead to a place from the root, the last one first. -/
abbrev Location := List (List Char)

/-- The path of a location in normal form. -/
def Location.path (loc : Location) : List Char := '/' :: ['/'].intercalate loc.reverse

/-- The names of the location can be names of entries. -/
def Location.Proper (loc : Location) : Prop :=
  ∀ name ∈ loc, name ≠ [] ∧ name ≠ ['.'] ∧ name ≠ ['.', '.'] ∧ '/' ∉ name

/-- What stands at a location. -/
inductive Inode
  | file (contents : List UInt8) (writable : Bool)
  | directory (writable : Bool)
  deriving DecidableEq, Repr

/-- What stands at the locations makes a tree with these names in its directories: the root is a
directory, a directory has the names of what stands in it, and only in a directory something stands.
-/
structure IsTree (inode : Location → Option Inode) (names : Location → List (List Char)) :
    Prop where
  root : ∃ writable, inode [] = some (.directory writable)
  mem_names_iff : ∀ dir name, name ∈ names dir ↔ (inode (name :: dir)).isSome = true
  directory_above : ∀ dir name, (inode (name :: dir)).isSome = true →
    ∃ writable, inode dir = some (.directory writable)

namespace IsTree

variable {inode : Location → Option Inode} {names : Location → List (List Char)}
  {dir loc : Location} {name : List Char} {node : Inode}

theorem empty : IsTree (fun loc => if loc = [] then some (.directory true) else none)
    fun _ => [] where
  root := ⟨true, rfl⟩
  mem_names_iff _ _ := by simp
  directory_above _ _ h := by simp at h

/-- The root stays where something below it changes. -/
theorem root_update (h : IsTree inode names) (new : Option Inode) :
    ∃ writable, Function.update inode (name :: dir) new [] = some (.directory writable) := by
  rw [Function.update_of_ne (List.cons_ne_nil name dir).symm]
  exact h.root

/-- The directory has other names where something in it changes. -/
theorem mem_names_update (h : IsTree inode names) {new : Option Inode} {entries : List (List Char)}
    (hself : name ∈ entries ↔ new.isSome = true)
    (hother : ∀ n, n ≠ name → (n ∈ entries ↔ n ∈ names dir)) (dir' : Location)
    (name' : List Char) : name' ∈ Function.update names dir entries dir' ↔
      (Function.update inode (name :: dir) new (name' :: dir')).isSome = true := by
  by_cases hd : dir' = dir
  · subst hd
    rw [Function.update_self]
    by_cases hname : name' = name
    · rw [hname, Function.update_self]
      exact hself
    · rw [Function.update_of_ne fun h => hname (List.cons.inj h).1]
      exact (hother name' hname).trans (h.mem_names_iff dir' name')
  · rw [Function.update_of_ne hd, Function.update_of_ne fun h => hd (List.cons.inj h).2]
    exact h.mem_names_iff dir' name'

/-- Something new stands in a directory, where nothing stood. -/
theorem link (h : IsTree inode names) (hdir : ∃ writable, inode dir = some (.directory writable))
    (hnone : inode (name :: dir) = none) :
    IsTree (Function.update inode (name :: dir) (some node))
      (Function.update names dir (names dir ++ [name])) where
  root := h.root_update _
  mem_names_iff := h.mem_names_update (by simp) fun n hne => by simp [hne]
  directory_above dir' name' hsome := by
    by_cases hnew : name' :: dir' = name :: dir
    · obtain ⟨rfl, rfl⟩ := List.cons.inj hnew
      rw [Function.update_of_ne (List.cons_ne_self name' dir').symm]
      exact hdir
    · rw [Function.update_of_ne hnew] at hsome
      obtain ⟨writable, habove⟩ := h.directory_above dir' name' hsome
      have hne : dir' ≠ name :: dir := by
        rintro rfl
        rw [hnone] at habove
        cases habove
      exact ⟨writable, (Function.update_of_ne hne ..).trans habove⟩

/-- What has no names in it stands there no more. -/
theorem unlink (h : IsTree inode names) (hempty : names (name :: dir) = []) :
    IsTree (Function.update inode (name :: dir) none)
      (Function.update names dir ((names dir).filter (· ≠ name))) where
  root := h.root_update _
  mem_names_iff := h.mem_names_update (by simp) fun n hne => by simp [hne]
  directory_above dir' name' hsome := by
    have hold : name' :: dir' ≠ name :: dir := by
      intro heq
      rw [heq, Function.update_self] at hsome
      cases hsome
    rw [Function.update_of_ne hold] at hsome
    obtain ⟨writable, habove⟩ := h.directory_above dir' name' hsome
    have hne : dir' ≠ name :: dir := by
      rintro rfl
      have hmem := (h.mem_names_iff _ name').mpr hsome
      rw [hempty] at hmem
      cases hmem
    exact ⟨writable, (Function.update_of_ne hne ..).trans habove⟩

/-- A file stands where a file stood. -/
theorem setFile (h : IsTree inode names) {old bytes : List UInt8} {writable : Bool}
    (hfile : inode loc = some (.file old writable)) :
    IsTree (Function.update inode loc (some (.file bytes writable))) names := by
  -- A directory stays, and there is something where there was something.
  have hstays : ∀ {dir w}, inode dir = some (.directory w) →
      Function.update inode loc (some (.file bytes writable)) dir = some (.directory w) := by
    intro dir w hdir
    refine (Function.update_of_ne ?_ ..).trans hdir
    rintro rfl
    rw [hfile] at hdir
    cases hdir
  have hsame : ∀ loc', (Function.update inode loc (some (.file bytes writable)) loc').isSome =
      (inode loc').isSome := by
    intro loc'
    by_cases hloc : loc' = loc
    · rw [hloc, Function.update_self, hfile]
      rfl
    · rw [Function.update_of_ne hloc]
  refine ⟨?_, fun dir name => ?_, fun dir name hsome => ?_⟩
  · obtain ⟨w, hroot⟩ := h.root
    exact ⟨w, hstays hroot⟩
  · rw [hsame]
    exact h.mem_names_iff dir name
  · rw [hsame] at hsome
    obtain ⟨w, habove⟩ := h.directory_above dir name hsome
    exact ⟨w, hstays habove⟩

end IsTree

/-- A file system: what stands at the locations, and the names in the directories. A relative path
starts at the current directory of the process. -/
@[ext]
structure FileSystem where
  inode : Location → Option Inode
  names : Location → List (List Char)
  workingDir : Location := []
  tree : IsTree inode names

namespace FileSystem

/-- An empty root. -/
def empty : FileSystem where
  inode loc := if loc = [] then some (.directory true) else none
  names _ := []
  tree := .empty

/-- A directory stands there. -/
def isDirectory (fs : FileSystem) (loc : Location) : Bool :=
  match fs.inode loc with
  | some (.directory _) => true
  | _ => false

/-- What the file holds that stands there. -/
def contents (fs : FileSystem) (loc : Location) : Option (List UInt8) :=
  match fs.inode loc with
  | some (.file contents _) => some contents
  | _ => none

variable {fs fs' : FileSystem} {dir loc loc' : Location} {name path : List Char} {node : Inode}

theorem isDirectory_iff : fs.isDirectory loc = true ↔
    ∃ writable, fs.inode loc = some (.directory writable) := by
  rw [isDirectory]
  split
  · next writable h => exact iff_of_true rfl ⟨writable, h⟩
  · next hnot => exact iff_of_false Bool.false_ne_true fun ⟨writable, h⟩ => hnot writable h

theorem contents_eq_some_iff {bytes : List UInt8} : fs.contents loc = some bytes ↔
    ∃ writable, fs.inode loc = some (.file bytes writable) := by
  rw [contents]
  split
  · next bytes' writable h => simp [h]
  · next hnot =>
      exact iff_of_false (fun h => by cases h) fun ⟨writable, h⟩ => hnot bytes writable h

theorem isDirectory_of_contents {bytes : List UInt8} (h : fs.contents loc = some bytes) :
    fs.isDirectory loc = false := by
  obtain ⟨writable, hfile⟩ := contents_eq_some_iff.mp h
  rw [isDirectory, hfile]

/-! ### Changes of the tree -/

/-- Something new stands in a directory, if nothing stood there. -/
def link (fs : FileSystem) (dir : Location) (name : List Char) (node : Inode) : FileSystem :=
  if h : fs.isDirectory dir = true ∧ fs.inode (name :: dir) = none then
    { fs with
      inode := Function.update fs.inode (name :: dir) (some node)
      names := Function.update fs.names dir (fs.names dir ++ [name])
      tree := fs.tree.link (isDirectory_iff.mp h.1) h.2 }
  else fs

/-- What stands there stands there no more, unless it is a directory with names in it. -/
def unlink (fs : FileSystem) (dir : Location) (name : List Char) : FileSystem :=
  if h : fs.names (name :: dir) = [] then
    { fs with
      inode := Function.update fs.inode (name :: dir) none
      names := Function.update fs.names dir ((fs.names dir).filter (· ≠ name))
      tree := fs.tree.unlink h }
  else fs

/-- The file that stands there holds something else. -/
def setContents (fs : FileSystem) (loc : Location) (bytes : List UInt8) : FileSystem :=
  match h : fs.inode loc with
  | some (.file _ writable) =>
      { fs with
        inode := Function.update fs.inode loc (some (.file bytes writable))
        tree := fs.tree.setFile h }
  | _ => fs

section

variable {bytes old : List UInt8} {writable : Bool}

theorem inode_link (hdir : fs.isDirectory dir = true) (hnone : fs.inode (name :: dir) = none) :
    (fs.link dir name node).inode = Function.update fs.inode (name :: dir) (some node) := by
  rw [link, dif_pos ⟨hdir, hnone⟩]

theorem inode_link_of_ne (hne : loc ≠ name :: dir) :
    (fs.link dir name node).inode loc = fs.inode loc := by
  rw [link]
  split
  · exact Function.update_of_ne hne ..
  · rfl

theorem mem_names_link {name' : List Char} (h : name' ∈ (fs.link dir name node).names loc) :
    name' = name ∨ name' ∈ fs.names loc := by
  rw [link] at h
  split at h
  · by_cases hloc : loc = dir
    · subst hloc
      simp only [Function.update_self] at h
      exact (List.mem_append.mp h).symm.imp_left List.mem_singleton.mp
    · simp only [Function.update_of_ne hloc] at h
      exact .inr h
  · exact .inr h

theorem inode_unlink_of_ne (hne : loc ≠ name :: dir) :
    (fs.unlink dir name).inode loc = fs.inode loc := by
  rw [unlink]
  split
  · exact Function.update_of_ne hne ..
  · rfl

theorem setContents_of_file (hfile : fs.inode loc = some (.file old writable)) :
    fs.setContents loc bytes = { fs with
      inode := Function.update fs.inode loc (some (.file bytes writable))
      tree := fs.tree.setFile hfile } := by
  rw [setContents]
  split
  · next old' writable' hfile' =>
      obtain ⟨-, rfl⟩ := Inode.file.inj (Option.some.inj (hfile.symm.trans hfile'))
      rfl
  · next hnot => exact absurd hfile (hnot old writable)

theorem inode_setContents (hfile : fs.inode loc = some (.file old writable)) :
    (fs.setContents loc bytes).inode loc = some (.file bytes writable) := by
  rw [setContents_of_file hfile]
  exact Function.update_self ..

theorem inode_setContents_of_ne (hne : loc' ≠ loc) :
    (fs.setContents loc bytes).inode loc' = fs.inode loc' := by
  rw [setContents]
  split
  · exact Function.update_of_ne hne ..
  · rfl

end

/-! ### Paths -/

/-- To look a name up in a directory. -/
def enter (fs : FileSystem) (loc : Location) (name : List Char) : Option Location :=
  if fs.isDirectory loc then
    some (if name = [] ∨ name = ['.'] then loc
      else if name = ['.', '.'] then loc.tail
      else name :: loc)
  else none

/-- Where a path leads, if every name before the last one leads to a directory. Nothing need stand
there. -/
def locate (fs : FileSystem) (path : List Char) : Option Location :=
  if path = [] then none
  else (path.splitOn '/').foldlM fs.enter (if isAbsolute path then [] else fs.workingDir)

/-- Some name of the path leads to a regular file. -/
def throughFile (fs : FileSystem) (path : List Char) : Bool :=
  let first := if isAbsolute path then [] else fs.workingDir
  (path.splitOn '/').inits.any fun front => ((front.foldlM fs.enter first).bind fs.contents).isSome

/-- What the regular files hold, by path. -/
def files (fs : FileSystem) (path : List Char) : Option (List UInt8) :=
  (fs.locate path).bind fs.contents

/-- The names in the directories, by path. -/
def directories (fs : FileSystem) (path : List Char) : Option (List (List Char)) :=
  (fs.locate path).bind fun loc => if fs.isDirectory loc then some (fs.names loc) else none

theorem exists_of_directories {names : List (List Char)} (h : fs.directories path = some names) :
    ∃ loc, fs.names loc = names := by
  obtain ⟨loc, -, hloc⟩ := Option.bind_eq_some_iff.mp h
  split at hloc
  · exact ⟨loc, Option.some.inj hloc⟩
  · cases hloc

/-- Names can be added to the directory and removed from it. -/
def canChange (fs : FileSystem) (dir : Location) : Bool :=
  decide (fs.inode dir = some (.directory true))

/-- To open a path for reading. -/
def openInput (fs : FileSystem) (path : List Char) : Option Location :=
  (fs.locate path).filter fun loc => (fs.contents loc).isSome

/-- To open a path for writing creates the file or truncates it. -/
def openOutput (fs : FileSystem) (path : List Char) : Option (Location × FileSystem) :=
  match fs.locate path with
  | none => none
  | some loc =>
      match fs.inode loc, loc with
      | some (.file _ true), _ => some (loc, fs.setContents loc [])
      | none, name :: dir =>
          if fs.canChange dir then some (loc, fs.link dir name (.file [] true)) else none
      | _, _ => none

/-- The path can be opened for writing. -/
def writable (fs : FileSystem) (path : List Char) : Bool := (fs.openOutput path).isSome

/-- To write a whole file. A path that cannot be opened is left alone. -/
def write (fs : FileSystem) (path : List Char) (contents : List UInt8) : FileSystem :=
  match fs.openOutput path with
  | some (loc, opened) => opened.setContents loc contents
  | none => fs

/-- The last name of the path is `.` or `..`. -/
def endsInDots (path : List Char) : Bool :=
  match ((path.splitOn '/').filter (· ≠ [])).getLast? with
  | some name => name = ['.'] ∨ name = ['.', '.']
  | none => false

/-- `std::filesystem::remove`: files and empty directories can be removed, and `false` if there is
nothing. It throws for a path through a file, for the root and a path that ends in `.` or `..`, for
a directory that is not empty, and in a directory that cannot be written. -/
def remove (fs : FileSystem) (path : List Char) : Option (Bool × FileSystem) :=
  match fs.locate path with
  | none => if fs.throughFile path then none else some (false, fs)
  | some loc =>
      match fs.inode loc, loc with
      | none, _ => some (false, fs)
      | some _, [] => none
      | some _, name :: dir =>
          if endsInDots path = false ∧ fs.names loc = [] ∧ fs.canChange dir = true then
            some (true, fs.unlink dir name)
          else none

/-- The path without the separators at its end, where that leaves anything. -/
def stripSeparators (path : List Char) : List Char :=
  let stripped := (path.reverse.dropWhile fun c => c = '/').reverse
  if stripped = [] then path else stripped

/-- `std::filesystem::create_directory`: `false` if there is a directory already. It throws if there
is a file, if the parent does not exist, and in a directory that cannot be written. -/
def createDirectory (fs : FileSystem) (path : List Char) : Option (Bool × FileSystem) :=
  match fs.locate (stripSeparators path) with
  | none => none
  | some loc =>
      match fs.inode loc, loc with
      | some (.directory _), _ => some (false, fs)
      | none, name :: dir =>
          if fs.canChange dir then some (true, fs.link dir name (.directory true)) else none
      | _, _ => none

/-! ### One tree, other contents -/

/-- Two file systems have one tree: where they differ, there are files that hold something else. -/
structure SameTree (fs fs' : FileSystem) : Prop where
  inode : ∀ loc, fs'.inode loc = fs.inode loc ∨ ∃ old new writable,
    fs.inode loc = some (.file old writable) ∧ fs'.inode loc = some (.file new writable)
  names : fs'.names = fs.names
  workingDir : fs'.workingDir = fs.workingDir

namespace SameTree

variable {bytes : List UInt8} {writable : Bool}

theorem refl (fs : FileSystem) : SameTree fs fs := ⟨fun _ => .inl rfl, rfl, rfl⟩

theorem symm (h : SameTree fs fs') : SameTree fs' fs where
  inode loc := by
    rcases h.inode loc with heq | ⟨old, new, writable, hold, hnew⟩
    · exact .inl heq.symm
    · exact .inr ⟨new, old, writable, hnew, hold⟩
  names := h.names.symm
  workingDir := h.workingDir.symm

theorem file (h : SameTree fs fs') (hfile : fs.inode loc = some (.file bytes writable)) :
    ∃ bytes', fs'.inode loc = some (.file bytes' writable) := by
  rcases h.inode loc with heq | ⟨old, new, writable', hold, hnew⟩
  · exact ⟨bytes, heq.trans hfile⟩
  · obtain ⟨-, rfl⟩ := Inode.file.inj (Option.some.inj (hold.symm.trans hfile))
    exact ⟨new, hnew⟩

theorem other (h : SameTree fs fs') (hnot : ∀ bytes writable, fs.inode loc ≠
    some (.file bytes writable)) : fs'.inode loc = fs.inode loc := by
  rcases h.inode loc with heq | ⟨old, new, writable, hold, -⟩
  · exact heq
  · exact absurd hold (hnot old writable)

theorem isDirectory (h : SameTree fs fs') : fs'.isDirectory = fs.isDirectory := by
  funext loc
  rw [FileSystem.isDirectory, FileSystem.isDirectory]
  rcases h.inode loc with heq | ⟨old, new, writable, hold, hnew⟩
  · rw [heq]
  · rw [hold, hnew]

theorem isSome_contents (h : SameTree fs fs') (loc : Location) :
    (fs'.contents loc).isSome = (fs.contents loc).isSome := by
  rw [contents, contents]
  rcases h.inode loc with heq | ⟨old, new, writable, hold, hnew⟩
  · rw [heq]
  · rw [hold, hnew]
    rfl

theorem enter (h : SameTree fs fs') : fs'.enter = fs.enter := by
  funext loc name
  rw [FileSystem.enter, FileSystem.enter, h.isDirectory]

theorem locate (h : SameTree fs fs') : fs'.locate = fs.locate := by
  funext path
  rw [FileSystem.locate, FileSystem.locate, h.enter, h.workingDir]

theorem throughFile (h : SameTree fs fs') (path : List Char) :
    fs'.throughFile path = fs.throughFile path := by
  rw [FileSystem.throughFile, FileSystem.throughFile, h.enter, h.workingDir]
  congr
  funext front
  cases front.foldlM fs.enter (if isAbsolute path then [] else fs.workingDir) with
  | none => rfl
  | some loc => exact h.isSome_contents loc

theorem canChange (h : SameTree fs fs') : fs'.canChange = fs.canChange := by
  funext dir
  rw [FileSystem.canChange, FileSystem.canChange]
  rcases h.inode dir with heq | ⟨old, new, writable, hold, hnew⟩
  · rw [heq]
  · simp [hold, hnew]

theorem inode_eq_none_iff (h : SameTree fs fs') : fs'.inode loc = none ↔ fs.inode loc = none := by
  rcases h.inode loc with heq | ⟨old, new, writable, hold, hnew⟩
  · rw [heq]
  · simp [hold, hnew]

theorem link (h : SameTree fs fs') (dir : Location) (name : List Char) (node : Inode) :
    SameTree (fs.link dir name node) (fs'.link dir name node) := by
  rw [FileSystem.link, FileSystem.link]
  simp only [h.isDirectory, h.inode_eq_none_iff, h.names]
  split
  · refine ⟨fun loc => ?_, rfl, h.workingDir⟩
    by_cases hloc : loc = name :: dir
    · simp [hloc]
    · simpa only [Function.update_of_ne hloc] using h.inode loc
  · exact h

theorem unlink (h : SameTree fs fs') (dir : Location) (name : List Char) :
    SameTree (fs.unlink dir name) (fs'.unlink dir name) := by
  rw [FileSystem.unlink, FileSystem.unlink]
  simp only [h.names]
  split
  · refine ⟨fun loc => ?_, rfl, h.workingDir⟩
    by_cases hloc : loc = name :: dir
    · simp [hloc]
    · simpa only [Function.update_of_ne hloc] using h.inode loc
  · exact h

theorem setContents (h : SameTree fs fs') (loc : Location) (bytes : List UInt8) :
    SameTree fs (fs'.setContents loc bytes) := by
  rw [FileSystem.setContents]
  split
  · next old writable hfile =>
      refine ⟨fun loc' => ?_, h.names, h.workingDir⟩
      by_cases hloc : loc' = loc
      · subst hloc
        obtain ⟨old', hold⟩ := h.symm.file hfile
        exact .inr ⟨old', bytes, writable, hold, Function.update_self ..⟩
      · simpa only [Function.update_of_ne hloc] using h.inode loc'
  · exact h

end SameTree

/-! ### What the operations change -/

theorem bind_openInput (fs : FileSystem) (path : List Char) :
    (fs.openInput path).bind fs.contents = fs.files path := by
  rw [openInput, files]
  cases fs.locate path with
  | none => rfl
  | some loc =>
      rw [Option.filter_some, Option.bind_some]
      cases hcontents : fs.contents loc with
      | none => simp
      | some bytes => simpa using hcontents

theorem locate_of_openInput (h : fs.openInput path = some loc) :
    fs.locate path = some loc ∧ fs.isDirectory loc = false := by
  obtain ⟨hloc, hsome⟩ := Option.filter_eq_some_iff.mp h
  obtain ⟨bytes, hbytes⟩ := Option.isSome_iff_exists.mp hsome
  exact ⟨hloc, isDirectory_of_contents hbytes⟩

/-- To open a path for writing leaves an empty file at its place, and nothing else changes. -/
structure Opened (fs : FileSystem) (path : List Char) (loc : Location) (opened : FileSystem) :
    Prop where
  locate : fs.locate path = some loc
  not_isDirectory : fs.isDirectory loc = false
  inode : opened.inode loc = some (.file [] true)
  inode_of_ne : ∀ loc', loc' ≠ loc → opened.inode loc' = fs.inode loc'
  workingDir : opened.workingDir = fs.workingDir

theorem opened_of_openOutput {opened : FileSystem}
    (h : fs.openOutput path = some (loc, opened)) : Opened fs path loc opened := by
  rw [openOutput] at h
  split at h
  · cases h
  · next loc' hloc =>
      split at h
      · next old hfile =>
          obtain ⟨rfl, rfl⟩ := Prod.mk.inj (Option.some.inj h)
          refine ⟨hloc, ?_, inode_setContents hfile, fun _ => inode_setContents_of_ne, ?_⟩
          · rw [isDirectory, hfile]
          · rw [setContents_of_file hfile]
      · next name dir hnone =>
          split at h
          · next hchange =>
              obtain ⟨rfl, rfl⟩ := Prod.mk.inj (Option.some.inj h)
              have hdir : fs.isDirectory dir = true :=
                isDirectory_iff.mpr ⟨true, of_decide_eq_true hchange⟩
              refine ⟨hloc, ?_, ?_, fun _ => inode_link_of_ne, ?_⟩
              · rw [isDirectory, hnone]
              · rw [inode_link hdir hnone, Function.update_self]
              · rw [link]
                split <;> rfl
          · cases h
      · cases h

theorem Opened.isDirectory_eq {opened : FileSystem} (h : Opened fs path loc opened) :
    opened.isDirectory = fs.isDirectory := by
  funext loc'
  by_cases hloc : loc' = loc
  · subst hloc
    rw [h.not_isDirectory, isDirectory, h.inode]
  · rw [isDirectory, isDirectory, h.inode_of_ne loc' hloc]

theorem Opened.locate_eq {opened : FileSystem} (h : Opened fs path loc opened) :
    opened.locate = fs.locate := by
  funext path'
  have henter : opened.enter = fs.enter := by
    funext loc' name
    rw [enter, enter, h.isDirectory_eq]
  rw [FileSystem.locate, FileSystem.locate, henter, h.workingDir]

/-- **What is opened depends on the tree only.** -/
theorem SameTree.openOutput (h : SameTree fs fs') (path : List Char) :
    (fs.openOutput path = none ∧ fs'.openOutput path = none) ∨
      ∃ loc opened opened', fs.openOutput path = some (loc, opened) ∧
        fs'.openOutput path = some (loc, opened') ∧ SameTree opened opened' := by
  rw [FileSystem.openOutput, FileSystem.openOutput, h.locate]
  cases fs.locate path with
  | none => exact .inl ⟨rfl, rfl⟩
  | some loc =>
      cases hinode : fs.inode loc with
      | none =>
          simp only [hinode, h.inode_eq_none_iff.mpr hinode, h.canChange]
          cases loc with
          | nil => exact .inl ⟨rfl, rfl⟩
          | cons name dir =>
              simp only
              split
              · exact .inr ⟨_, _, _, rfl, rfl, h.link dir name _⟩
              · exact .inl ⟨rfl, rfl⟩
      | some node =>
          cases node with
          | directory writable =>
              have hsame := h.other fun _ _ hfile => by cases hinode.symm.trans hfile
              simp [hinode, hsame.trans hinode]
          | file bytes writable =>
              obtain ⟨bytes', hfile'⟩ := h.file hinode
              simp only [hinode, hfile']
              cases writable with
              | true =>
                  exact .inr ⟨_, _, _, rfl, rfl,
                    (h.symm.setContents loc []).symm.setContents loc []⟩
              | false => exact .inl ⟨rfl, rfl⟩

theorem write_of_none {contents : List UInt8} (h : fs.openOutput path = none) :
    fs.write path contents = fs := by
  rw [write, h]

theorem write_of_some {contents : List UInt8} {opened : FileSystem}
    (h : fs.openOutput path = some (loc, opened)) :
    fs.write path contents = opened.setContents loc contents := by
  rw [write, h]

/-- **What a path holds after it has been written.** -/
theorem files_write_self (fs : FileSystem) (path : List Char) (contents : List UInt8) :
    (fs.write path contents).files path =
      if fs.writable path = true then some contents else fs.files path := by
  rw [write, writable]
  cases hopen : fs.openOutput path with
  | none => rfl
  | some after =>
      obtain ⟨loc, opened⟩ := after
      have hopened := opened_of_openOutput hopen
      have hsame : SameTree opened (opened.setContents loc contents) :=
        (SameTree.refl opened).setContents loc contents
      simp only [Option.isSome_some, if_true]
      rw [files, hsame.locate, hopened.locate_eq, hopened.locate, Option.bind_some]
      exact contents_eq_some_iff.mpr ⟨true, inode_setContents hopened.inode⟩

/-- Nothing is removed, or what a path leads to. -/
theorem remove_eq_some {removed : Bool} {after : FileSystem}
    (h : fs.remove path = some (removed, after)) :
    after = fs ∨ ∃ dir name, fs.locate path = some (name :: dir) ∧ after = fs.unlink dir name := by
  rw [remove] at h
  split at h
  · split at h
    · cases h
    · exact .inl (Prod.mk.inj (Option.some.inj h)).2.symm
  · next loc hloc =>
      split at h
      · exact .inl (Prod.mk.inj (Option.some.inj h)).2.symm
      · cases h
      · next name dir _ =>
          split at h
          · exact .inr ⟨dir, name, hloc, (Prod.mk.inj (Option.some.inj h)).2.symm⟩
          · cases h

/-- Nothing is created, or a directory where nothing stood. -/
theorem createDirectory_eq_some {created : Bool} {after : FileSystem}
    (h : fs.createDirectory path = some (created, after)) :
    after = fs ∨ ∃ dir name, fs.inode (name :: dir) = none ∧
      after = fs.link dir name (.directory true) := by
  rw [createDirectory] at h
  split at h
  · cases h
  · next loc hloc =>
      split at h
      · exact .inl (Prod.mk.inj (Option.some.inj h)).2.symm
      · next name dir hnone =>
          split at h
          · exact .inr ⟨dir, name, hnone, (Prod.mk.inj (Option.some.inj h)).2.symm⟩
          · cases h
      · cases h

/-- Two file systems with one tree have been changed in the same way: they still have one tree, and
are still the same where they were. -/
structure Alike (fs fs' : FileSystem) (after after' : Bool × FileSystem) : Prop where
  value : after'.1 = after.1
  tree : SameTree after.2 after'.2
  same : ∀ loc, fs'.inode loc = fs.inode loc → after'.2.inode loc = after.2.inode loc

theorem SameTree.alike_link (h : SameTree fs fs') (hdir : fs.isDirectory dir = true)
    (hnone : fs.inode (name :: dir) = none) (value : Bool) :
    Alike fs fs' (value, fs.link dir name node) (value, fs'.link dir name node) := by
  refine ⟨rfl, h.link dir name node, fun loc hsame => ?_⟩
  by_cases hloc : loc = name :: dir
  · have hdir' : fs'.isDirectory dir = true := by rw [h.isDirectory, hdir]
    simp only [inode_link hdir hnone, inode_link hdir' (h.inode_eq_none_iff.mpr hnone), hloc,
      Function.update_self]
  · simpa only [inode_link_of_ne hloc] using hsame

theorem SameTree.alike_unlink (h : SameTree fs fs') (hempty : fs.names (name :: dir) = [])
    (value : Bool) : Alike fs fs' (value, fs.unlink dir name) (value, fs'.unlink dir name) := by
  refine ⟨rfl, h.unlink dir name, fun loc hsame => ?_⟩
  by_cases hloc : loc = name :: dir
  · have hempty' : fs'.names (name :: dir) = [] := by rw [h.names, hempty]
    simp [FileSystem.unlink, hempty, hempty', hloc]
  · simpa only [inode_unlink_of_ne hloc] using hsame

/-- **What is removed depends on the tree only.** -/
theorem SameTree.remove (h : SameTree fs fs') (path : List Char) :
    Option.Rel (Alike fs fs') (fs.remove path) (fs'.remove path) := by
  have hnothing : Option.Rel (Alike fs fs') (some (false, fs)) (some (false, fs')) :=
    .some ⟨rfl, h, fun _ hsame => hsame⟩
  rw [FileSystem.remove, FileSystem.remove, h.locate]
  cases fs.locate path with
  | none =>
      simp only [h.throughFile]
      split
      · exact .none
      · exact hnothing
  | some loc =>
      cases hinode : fs.inode loc with
      | none =>
          simp only [hinode, h.inode_eq_none_iff.mpr hinode]
          exact hnothing
      | some node =>
          obtain ⟨node', hnode'⟩ := Option.ne_none_iff_exists'.mp
            (mt h.inode_eq_none_iff.mp (hinode ▸ Option.some_ne_none node))
          simp only [hinode, hnode', h.names, h.canChange]
          cases loc with
          | nil => exact .none
          | cons name dir =>
              simp only
              split
              · next hmay => exact .some (h.alike_unlink hmay.2.1 true)
              · exact .none

/-- **What directory is created depends on the tree only.** -/
theorem SameTree.createDirectory (h : SameTree fs fs') (path : List Char) :
    Option.Rel (Alike fs fs') (fs.createDirectory path) (fs'.createDirectory path) := by
  rw [FileSystem.createDirectory, FileSystem.createDirectory, h.locate]
  cases fs.locate (stripSeparators path) with
  | none => exact .none
  | some loc =>
      cases hinode : fs.inode loc with
      | none =>
          simp only [hinode, h.inode_eq_none_iff.mpr hinode, h.canChange]
          cases loc with
          | nil => exact .none
          | cons name dir =>
              simp only
              split
              · next hchange =>
                  have hdir := isDirectory_iff.mpr ⟨true, of_decide_eq_true hchange⟩
                  exact .some (h.alike_link hdir hinode true)
              · exact .none
      | some node =>
          cases node with
          | directory writable =>
              have hsame := h.other fun _ _ hfile => by cases hinode.symm.trans hfile
              simp only [hinode, hsame.trans hinode]
              exact .some ⟨rfl, h, fun _ hsame => hsame⟩
          | file bytes writable =>
              obtain ⟨bytes', hfile'⟩ := h.file hinode
              simp only [hinode, hfile']
              exact .none

example : ((FileSystem.empty.link [] ['a'] (.directory true)).link [] ['f']
    (.file [1] true)).files "/./a/..//f".toList = some [1] := by decide

/-! ### Normal forms of paths -/

/-- A name of a path that is being looked up does to the names that are kept what it does to the
place. If a separator follows them, there is a directory. -/
theorem normalStep_of_enter (h : fs.enter loc name = some loc') (hloc : loc.Proper)
    (hname : '/' ∉ name) (separated : Bool) :
    loc'.Proper ∧ ∃ separated', normalStep true (loc, separated) name = (loc', separated') ∧
      (separated' = true → fs.isDirectory loc' = true) := by
  rw [enter] at h
  split at h
  · next hdir =>
      obtain rfl := Option.some.inj h
      by_cases hstays : name = [] ∨ name = ['.']
      · rw [if_pos hstays, normalStep, if_pos hstays]
        exact ⟨hloc, true, rfl, fun _ => hdir⟩
      · rw [if_neg hstays, normalStep, if_neg hstays]
        by_cases hup : name = ['.', '.']
        · rw [if_pos hup, if_pos hup]
          cases loc with
          | nil => exact ⟨hloc, true, rfl, fun _ => hdir⟩
          | cons last dir =>
              have hlast := (hloc last List.mem_cons_self).2.2.1
              obtain ⟨writable, hinode⟩ := isDirectory_iff.mp hdir
              have habove := fs.tree.directory_above dir last (by rw [hinode]; rfl)
              simp only [if_neg hlast, List.tail_cons]
              exact ⟨fun n hn => hloc n (List.mem_cons_of_mem _ hn), true, rfl,
                fun _ => isDirectory_iff.mpr habove⟩
        · rw [if_neg hup, if_neg hup]
          refine ⟨fun n hn => ?_, false, rfl, fun h => by cases h⟩
          rcases List.mem_cons.mp hn with rfl | hn
          · exact ⟨fun h => hstays (.inl h), fun h => hstays (.inr h), hup, hname⟩
          · exact hloc n hn
  · cases h

theorem foldl_normalStep {names : List (List Char)} (h : names.foldlM fs.enter loc = some loc')
    (hloc : loc.Proper) (hnames : ∀ name ∈ names, '/' ∉ name) (separated : Bool)
    (hsep : separated = true → fs.isDirectory loc = true) :
    loc'.Proper ∧ ∃ separated', names.foldl (normalStep true) (loc, separated) =
      (loc', separated') ∧ (separated' = true → fs.isDirectory loc' = true) := by
  induction names generalizing loc separated with
  | nil =>
      obtain rfl := Option.some.inj h
      exact ⟨hloc, separated, rfl, hsep⟩
  | cons name names ih =>
      obtain ⟨next, henter, hrest⟩ := Option.bind_eq_some_iff.mp h
      obtain ⟨hproper, separated', hstep, hdir⟩ :=
        normalStep_of_enter henter hloc (hnames name List.mem_cons_self) separated
      rw [List.foldl_cons, hstep]
      exact ih hrest hproper (fun n hn => hnames n (List.mem_cons_of_mem _ hn)) separated' hdir

/-- **The paths of a file have one normal form.** -/
theorem lexicallyNormal_of_locate (habs : isAbsolute path = true)
    (h : fs.locate path = some loc) (hfile : fs.isDirectory loc = false) :
    loc.Proper ∧ lexicallyNormal path = loc.path := by
  have hne := ne_nil_of_isAbsolute habs
  rw [locate, if_neg hne, if_pos habs] at h
  obtain ⟨hproper, separated, hfold, hdir⟩ := foldl_normalStep h (fun _ hn => by cases hn)
    (fun _ => not_mem_of_mem_splitOn) false (fun h => by cases h)
  have hsep : separated = false := Bool.not_eq_true _ ▸ fun htrue => by
    rw [hdir htrue] at hfile
    cases hfile
  refine ⟨hproper, ?_⟩
  rw [lexicallyNormal, if_neg hne, habs, hfold, hsep]
  cases loc with
  | nil => rfl
  | cons name dir => simp [Location.path]

end FileSystem

end Csci6780
