import Mathlib.Algebra.Ring.Nat
import Mathlib.Data.List.Basic
import Mathlib.Data.List.TakeWhile
import Mathlib.Tactic.Common

/-!
# Paths

The operations of `std::filesystem::path` that look at the characters of a path only: to join two
paths, to drop the last component, and to bring a path to its normal form. Paths are lists of
characters, with `/` as the separator.

## Main definitions

* `joinPath`, `parentPath`: `operator/` and `parent_path`.
* `lexicallyNormal`: the normal form.

## Main results

* `isAbsolute_joinPath`, `isAbsolute_parentPath`: absolute paths stay absolute.
* `endsInSeparator_joinPath`, `endsInSeparator_parentPath`: how joined paths and parents end.
-/

namespace Csci6780

/-! ### Joining paths -/

/-- `path::is_absolute`. -/
def isAbsolute (path : List Char) : Bool := path.head? == some '/'

/-- `operator/` of paths: an absolute second path replaces the first, and a separator is put
in between unless the first is empty or ends with one. -/
def joinPath (dir name : List Char) : List Char :=
  if name.head? = some '/' then name
  else if dir = [] ∨ dir.getLast? = some '/' then dir ++ name
  else dir ++ '/' :: name

/-- `parent_path`: drop the last component and the separators before it; a path of separators alone
is its own parent. -/
def parentPath (path : List Char) : List Char :=
  let dir := path.reverse.dropWhile fun c => c ≠ '/'
  let stripped := dir.dropWhile fun c => c = '/'
  if stripped = [] then if dir = path.reverse then path else dir.take 1 else stripped.reverse

/-- The path ends in a separator. -/
def EndsInSeparator (path : List Char) : Prop := path.getLast? = some '/'

instance : DecidablePred EndsInSeparator :=
  fun path => inferInstanceAs (Decidable (path.getLast? = some '/'))

/-- A component stands before the last separator of the path. -/
def hasUpperComponent (path : List Char) : Bool :=
  (path.reverse.dropWhile fun c => c ≠ '/').any fun c => c ≠ '/'

example : hasUpperComponent "/srv/files".toList = true ∧ hasUpperComponent "/srv/".toList = true ∧
    hasUpperComponent "/srv".toList = false := by decide

/-! ### Last characters -/

theorem ne_nil_of_isAbsolute {path : List Char} (h : isAbsolute path = true) : path ≠ [] := by
  rintro rfl
  cases h

theorem isAbsolute_iff {path : List Char} : isAbsolute path = true ↔ path.head? = some '/' :=
  beq_iff_eq

theorem joinPath_of_relative {dir name : List Char} (hdir : dir ≠ []) (hname : '/' ∉ name) :
    joinPath dir name = if EndsInSeparator dir then dir ++ name else dir ++ '/' :: name := by
  have hrelative : name.head? ≠ some '/' := fun h => hname (List.mem_of_head? h)
  rw [joinPath, if_neg hrelative]
  simp only [hdir, false_or]
  rfl

/-- The last character of a joined path. -/
theorem endsInSeparator_joinPath {dir : List Char} (hdir : dir ≠ []) (name : List Char) :
    EndsInSeparator (joinPath dir name) ↔ name = [] ∨ EndsInSeparator name := by
  by_cases hname : name = []
  · subst hname
    rw [joinPath_of_relative hdir List.not_mem_nil]
    refine iff_of_true ?_ (.inl rfl)
    split
    · next h => rwa [List.append_nil]
    · exact List.getLast?_concat
  · have hlast : ∀ front : List Char, EndsInSeparator (front ++ name) ↔ EndsInSeparator name := by
      intro front
      rw [EndsInSeparator, List.getLast?_append_of_ne_nil front hname]
      rfl
    rw [or_iff_right hname, joinPath]
    split
    · rfl
    · split
      · exact hlast dir
      · rw [List.append_cons]
        exact hlast (dir ++ ['/'])

theorem isAbsolute_joinPath {dir : List Char} (h : isAbsolute dir = true) (name : List Char) :
    isAbsolute (joinPath dir name) = true := by
  have hhead := isAbsolute_iff.mp h
  rw [isAbsolute_iff, joinPath]
  split
  · next hname => exact hname
  · split
    · rw [List.head?_append, hhead, Option.some_or]
    · rw [List.head?_append, hhead, Option.some_or]

/-- The path from its last separator on backwards starts with that separator. -/
theorem head?_dropWhile_reverse {path : List Char} (h : isAbsolute path = true) :
    (path.reverse.dropWhile fun c => c ≠ '/').head? = some '/' := by
  have hmem : '/' ∈ path := List.mem_of_head? (isAbsolute_iff.mp h)
  have hhead := List.head?_dropWhile_not (fun c : Char => decide (c ≠ '/')) path.reverse
  cases hdir : path.reverse.dropWhile fun c => c ≠ '/' with
  | nil =>
      have hall := List.dropWhile_eq_nil_iff.mp hdir '/' (List.mem_reverse.mpr hmem)
      exact absurd rfl (of_decide_eq_true hall)
  | cons c rest =>
      rw [hdir] at hhead
      exact congrArg some (not_not.mp (of_decide_eq_false hhead))

/-- With no upper component, the parent is a root. -/
theorem parentPath_of_root {path : List Char} (h : isAbsolute path = true)
    (hup : hasUpperComponent path = false) :
    EndsInSeparator (parentPath path) ∧ isAbsolute (parentPath path) = true := by
  have hhead := head?_dropWhile_reverse h
  have hstripped : ((path.reverse.dropWhile fun c => c ≠ '/').dropWhile fun c => c = '/') = [] := by
    rw [List.dropWhile_eq_nil_iff]
    intro c hc
    rw [hasUpperComponent, List.any_eq_false] at hup
    exact decide_eq_true (not_not.mp fun hne => hup c hc (decide_eq_true hne))
  rw [parentPath]
  simp only [hstripped, if_true]
  split
  · next hdir =>
      rw [hdir, List.head?_reverse] at hhead
      exact ⟨hhead, h⟩
  · obtain ⟨rest, hrest⟩ := List.head?_eq_some_iff.mp hhead
    rw [hrest]
    exact ⟨rfl, rfl⟩

/-- With an upper component, the parent ends with it. -/
theorem parentPath_of_upper {path : List Char} (h : isAbsolute path = true)
    (hup : hasUpperComponent path = true) :
    ¬EndsInSeparator (parentPath path) ∧ isAbsolute (parentPath path) = true := by
  have hstripped : ((path.reverse.dropWhile fun c => c ≠ '/').dropWhile fun c => c = '/') ≠ [] := by
    intro hnil
    rw [List.dropWhile_eq_nil_iff] at hnil
    rw [hasUpperComponent, List.any_eq_true] at hup
    obtain ⟨c, hc, hne⟩ := hup
    exact of_decide_eq_true hne (of_decide_eq_true (hnil c hc))
  have hsuffix : ((path.reverse.dropWhile fun c => c ≠ '/').dropWhile fun c => c = '/') <:+
      path.reverse :=
    (List.dropWhile_suffix _).trans (List.dropWhile_suffix _)
  have hhead := List.head?_dropWhile_not (fun c : Char => decide (c = '/'))
    (path.reverse.dropWhile fun c => c ≠ '/')
  rw [parentPath]
  simp only [if_neg hstripped]
  constructor
  · rw [EndsInSeparator, List.getLast?_reverse]
    intro hsep
    rw [hsep] at hhead
    exact absurd rfl (of_decide_eq_false hhead)
  · obtain ⟨front, hfront⟩ := hsuffix
    rw [isAbsolute_iff, List.head?_reverse, ← List.getLast?_append_of_ne_nil front hstripped,
      hfront, List.getLast?_reverse]
    exact isAbsolute_iff.mp h

/-- The parent of an absolute path ends in a separator when it is the root. -/
theorem endsInSeparator_parentPath {path : List Char} (h : isAbsolute path = true) :
    EndsInSeparator (parentPath path) ↔ hasUpperComponent path = false := by
  cases hup : hasUpperComponent path with
  | true => exact iff_of_false (parentPath_of_upper h hup).1 Bool.true_eq_false.mp
  | false => exact iff_of_true (parentPath_of_root h hup).1 rfl

theorem isAbsolute_parentPath {path : List Char} (h : isAbsolute path = true) :
    isAbsolute (parentPath path) = true := by
  cases hup : hasUpperComponent path with
  | true => exact (parentPath_of_upper h hup).2
  | false => exact (parentPath_of_root h hup).2

/-! ### Normal form -/

/-- Between the separators there is none. -/
theorem not_mem_of_mem_splitOn {path name : List Char} (h : name ∈ path.splitOn '/') :
    '/' ∉ name := by
  induction path generalizing name with
  | nil =>
      rw [List.splitOn_nil] at h
      rw [List.mem_singleton.mp h]
      exact List.not_mem_nil
  | cons c path ih =>
      rw [List.splitOn_cons_eq_if_modifyHead] at h
      split at h
      · rcases List.mem_cons.mp h with rfl | h
        · exact List.not_mem_nil
        · exact ih h
      · next hc =>
          cases hsplit : path.splitOn '/' with
          | nil => exact absurd hsplit (List.splitOn_ne_nil '/' path)
          | cons first rest =>
              rw [hsplit] at h ih
              rcases List.mem_cons.mp h with rfl | h
              · intro hmem
                rcases List.mem_cons.mp hmem with rfl | hmem
                · exact hc (beq_self_eq_true '/')
                · exact ih List.mem_cons_self hmem
              · exact ih (List.mem_cons_of_mem _ h)

/-- One more name of a path that is being brought to its normal form: the names that are kept, the
last one first, and whether a separator follows them. An empty name stands between two separators.
A `..` takes the name before it away, unless that is a `..` too. -/
def normalStep (absolute : Bool) (kept : List (List Char) × Bool) (name : List Char) :
    List (List Char) × Bool :=
  if name = [] ∨ name = ['.'] then (kept.1, true)
  else if name = ['.', '.'] then
    match kept.1 with
    | [] => if absolute then ([], true) else ([name], false)
    | last :: names => if last = ['.', '.'] then (name :: last :: names, false) else (names, true)
  else (name :: kept.1, false)

/-- `path::lexically_normal`: a `..` at the end has no separator after it, and where nothing is left
the path is the root or `.`. -/
def lexicallyNormal (path : List Char) : List Char :=
  if path = [] then []
  else
    let kept := (path.splitOn '/').foldl (normalStep (isAbsolute path)) ([], false)
    let root := if isAbsolute path then ['/'] else []
    match kept.1 with
    | [] => if isAbsolute path then ['/'] else ['.']
    | last :: names =>
        root ++ ['/'].intercalate (last :: names).reverse ++
          if kept.2 = true ∧ last ≠ ['.', '.'] then ['/'] else []

example : lexicallyNormal "/srv//files/./a/../b.txt".toList = "/srv/files/b.txt".toList := by decide

end Csci6780
