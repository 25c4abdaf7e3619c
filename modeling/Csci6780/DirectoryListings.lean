import Csci6780.FileHandler
import Csci6780.Lib.Runs

/-!
# What `ls` Shows

`FileHandler::List` takes the paths of the entries of the current directory and cuts off as many
characters as the directory's path has, and one more for the separator. But `operator/` puts a
separator only after a path that does not end in one; after one that does, the character that goes
is the first one of the name. Such a path is the root, and one that `ChangeDir` has come to by a
name that is empty or ends in a separator.

## Main results

* `list_eq_iff`: when one listing shows the names.
* `endsInSeparator_target_iff`: which moves lead to a path that ends in a separator.
* `list_shows_names_iff`: when every listing along a run of `ChangeDir` and `UpDir` does.
-/

namespace Csci6780

/-! ### One listing -/

/-- The names in a directory are not empty and have no separator in them. -/
def FileSystem.WellNamed (fs : FileSystem) : Prop :=
  ∀ dir names, fs.directories dir = some names → ∀ name ∈ names, name ≠ [] ∧ '/' ∉ name

/-- The path is a directory with an entry. -/
def FileSystem.HasEntries (fs : FileSystem) (dir : List Char) : Prop :=
  ∃ name names, fs.directories dir = some (name :: names)

namespace FileHandler

/-- `List` returns exactly the names of the entries of the current directory. -/
def ShowsNames (handler : FileHandler) : Prop :=
  handler.list = handler.fs.directories handler.currentDir

variable {handler : FileHandler}

/-- What is left of the path of an entry. -/
theorem drop_joinPath {dir name : List Char} (hdir : dir ≠ []) (hname : '/' ∉ name) :
    (joinPath dir name).drop (dir.length + 1) =
      if EndsInSeparator dir then name.drop 1 else name := by
  rw [joinPath_of_relative hdir hname]
  split
  · exact List.drop_length_add_append 1
  · exact List.drop_length_add_append 1

/-- The names as `List` returns them. -/
theorem list_of_directory {names : List (List Char)} (hnames : handler.fs.WellNamed)
    (habs : isAbsolute handler.currentDir = true)
    (h : handler.fs.directories handler.currentDir = some names) :
    handler.list = some (names.map fun name =>
      if EndsInSeparator handler.currentDir then name.drop 1 else name) := by
  rw [list, h, Option.map_some]
  refine congrArg some (List.map_congr_left fun name hname => ?_)
  exact drop_joinPath (ne_nil_of_isAbsolute habs) (hnames _ names h name hname).2

/-- **When a listing shows the names**: the directory's path does not end in a separator, or there
is nothing to show. -/
theorem list_eq_iff (hnames : handler.fs.WellNamed) (habs : isAbsolute handler.currentDir = true) :
    handler.ShowsNames ↔
      ¬(EndsInSeparator handler.currentDir ∧ handler.fs.HasEntries handler.currentDir) := by
  rw [ShowsNames]
  cases hdir : handler.fs.directories handler.currentDir with
  | none =>
      refine iff_of_true (by rw [list, hdir, Option.map_none]) ?_
      rintro ⟨-, name, names, hsome⟩
      rw [hdir] at hsome
      cases hsome
  | some names =>
      rw [list_of_directory hnames habs hdir]
      by_cases hsep : EndsInSeparator handler.currentDir
      · simp only [if_pos hsep]
        cases names with
        | nil =>
            refine iff_of_true rfl ?_
            rintro ⟨-, name, names, hsome⟩
            rw [hdir] at hsome
            cases hsome
        | cons name names =>
            refine iff_of_false (fun heq => ?_) fun hnot => hnot ⟨hsep, name, names, hdir⟩
            -- The first name has lost a character.
            have hname : name.drop 1 = name := (List.cons.inj (Option.some.inj heq)).1
            have hne := (hnames _ _ hdir name List.mem_cons_self).1
            have hlength := congrArg List.length hname
            have hpos := List.length_pos_iff.mpr hne
            rw [List.length_drop] at hlength
            omega
      · simp only [if_neg hsep, List.map_id']
        exact iff_of_true trivial fun h => hsep h.1

end FileHandler

/-! ### Moves -/

/-- A call of `ChangeDir` or `UpDir`. -/
inductive Move
  | changeDir (subFolder : String)
  | upDir
  deriving DecidableEq, Repr

/-- The path that a move leads to. -/
def Move.target (dir : List Char) : Move → List Char
  | .changeDir subFolder => joinPath dir subFolder.toList
  | .upDir => parentPath dir

/-- The move leads to a path that ends in a separator: the name is empty or ends in one, or the
parent is the root. -/
def Move.Spoils (dir : List Char) : Move → Prop
  | .changeDir subFolder => subFolder = "" ∨ EndsInSeparator subFolder.toList
  | .upDir => hasUpperComponent dir = false

instance (dir : List Char) : DecidablePred (Move.Spoils dir)
  | .changeDir subFolder =>
      inferInstanceAs (Decidable (subFolder = "" ∨ EndsInSeparator subFolder.toList))
  | .upDir => inferInstanceAs (Decidable (hasUpperComponent dir = false))

/-- **Which moves lead to a path that ends in a separator.** -/
theorem endsInSeparator_target_iff {dir : List Char} (h : isAbsolute dir = true) (move : Move) :
    EndsInSeparator (move.target dir) ↔ move.Spoils dir := by
  cases move with
  | changeDir subFolder =>
      rw [Move.target, Move.Spoils, endsInSeparator_joinPath (ne_nil_of_isAbsolute h),
        String.toList_eq_nil_iff]
  | upDir => exact endsInSeparator_parentPath h

theorem isAbsolute_target {dir : List Char} (h : isAbsolute dir = true) (move : Move) :
    isAbsolute (move.target dir) = true := by
  cases move with
  | changeDir subFolder => exact isAbsolute_joinPath h subFolder.toList
  | upDir => exact isAbsolute_parentPath h

namespace FileHandler

/-- The handler after a move. -/
def move (handler : FileHandler) : Move → FileHandler
  | .changeDir subFolder => (handler.changeDir subFolder).2
  | .upDir => handler.upDir.2

/-- A move is a step of the system. -/
def step (handler : FileHandler) (move : Move) : Option FileHandler := some (handler.move move)

theorem move_eq (handler : FileHandler) (move : Move) :
    handler.move move = { handler with currentDir := move.target handler.currentDir } := by
  cases move <;> rfl

/-- What no move changes: the file system has well-formed names, and the path is absolute. -/
structure Placed (handler : FileHandler) : Prop where
  wellNamed : handler.fs.WellNamed
  absolute : isAbsolute handler.currentDir = true

variable {handler : FileHandler}

theorem Placed.move (h : handler.Placed) (m : Move) : (handler.move m).Placed := by
  rw [move_eq]
  exact ⟨h.wellNamed, isAbsolute_target h.absolute m⟩

/-- After one move the listing is right exactly if the move does not lead to a path that ends in a
separator, or leads to where there is nothing to show. -/
theorem Placed.showsNames_move_iff (h : handler.Placed) (m : Move) :
    (handler.move m).ShowsNames ↔
      ¬(m.Spoils handler.currentDir ∧ handler.fs.HasEntries (m.target handler.currentDir)) := by
  have hmove := h.move m
  rw [list_eq_iff hmove.wellNamed hmove.absolute, move_eq]
  simp only [endsInSeparator_target_iff h.absolute]

/-- **When `ls` shows the real names**, all along a run of moves. -/
theorem list_shows_names_iff (hnames : handler.fs.WellNamed)
    (habs : isAbsolute handler.currentDir = true) (moves : List Move) :
    EachState step ShowsNames handler moves ↔
      ¬(EndsInSeparator handler.currentDir ∧ handler.fs.HasEntries handler.currentDir) ∧
      EachStep step (fun h m => ¬(m.Spoils h.currentDir ∧
        h.fs.HasEntries (m.target h.currentDir))) handler moves := by
  have hnext : ∀ (h : FileHandler) m, step h m = some (h.move m) := fun _ _ => rfl
  rw [← list_eq_iff hnames habs]
  refine eachState_iff_first_and_eachStep Placed ?_ ?_ ⟨hnames, habs⟩ (runFrom_total hnext _ _)
  · rintro h m h' hh hstep
    obtain rfl : h.move m = h' := Option.some.inj hstep
    exact hh.move m
  · rintro h m h' hh hstep
    obtain rfl : h.move m = h' := Option.some.inj hstep
    exact hh.showsNames_move_iff m

/-- Two directories under the root, and one in the first of them. -/
def servedFiles : FileSystem :=
  ((FileSystem.empty.link [] "srv".toList (.directory true)).link [] "tmp".toList
    (.directory true)).link ["srv".toList] "data".toList (.directory true)

/-- A server in `/srv`. -/
def served : FileHandler where
  currentDir := "/srv".toList
  fs := servedFiles

theorem wellNamed_served : served.fs.WellNamed := by
  intro dir names hdir name hname
  obtain ⟨loc, rfl⟩ := FileSystem.exists_of_directories hdir
  change name ∈ servedFiles.names loc at hname
  rw [servedFiles] at hname
  rcases FileSystem.mem_names_link hname with rfl | hname
  · decide
  rcases FileSystem.mem_names_link hname with rfl | hname
  · decide
  rcases FileSystem.mem_names_link hname with rfl | hname
  · decide
  · cases hname

theorem list_shows_names_iff_served :
    EachState step ShowsNames served [.changeDir "data", .upDir] ↔
      ¬(EndsInSeparator served.currentDir ∧ served.fs.HasEntries served.currentDir) ∧
      EachStep step (fun h m => ¬(m.Spoils h.currentDir ∧
        h.fs.HasEntries (m.target h.currentDir))) served [.changeDir "data", .upDir] :=
  list_shows_names_iff wellNamed_served (by decide) _

/-- One `UpDir` leads to the root, and `ls` shows `rv` and `mp`. -/
theorem root_listing_cut :
    served.fs.WellNamed ∧ isAbsolute served.currentDir = true ∧
      (served.move .upDir).fs.directories (served.move .upDir).currentDir =
        some ["srv".toList, "tmp".toList] ∧
      (served.move .upDir).list = some ["rv".toList, "mp".toList] ∧
      ¬EachState step ShowsNames served [.upDir] := by
  refine ⟨wellNamed_served, by decide, by decide, by decide, fun hstates => ?_⟩
  have hshows : (served.move .upDir).ShowsNames := hstates.last rfl
  revert hshows
  rw [ShowsNames]
  decide

end FileHandler

end Csci6780
