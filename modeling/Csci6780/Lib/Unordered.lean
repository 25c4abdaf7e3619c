import Mathlib.Algebra.Ring.Nat
import Mathlib.Data.List.Nodup
import Mathlib.Data.List.Perm.Basic
import Mathlib.Tactic.Common

/-!
# Unordered Containers

A hash set compares its elements by a key: the first element of a key that is inserted stays,
later ones are dropped. `UnorderedSet key` is such a set, as the list of its elements with the
proof that their keys differ. A hash map is such a set of pairs (`UnorderedMap`).

In which order a program that iterates over a hash set sees the elements is not fixed.
`IterationOrder` is one such order: a rearrangement of whatever elements there are. A theorem
for every `IterationOrder` holds for every order the container may have.

A program may keep a set beside a map, for those entries of the map that meet a condition
(`UnorderedSet.Selects`).
-/

namespace Csci6780

/-- The order in which an iteration sees the elements of a container. -/
structure IterationOrder (α : Type) where
  enumerate : List α → List α
  perm : ∀ xs, (enumerate xs).Perm xs

namespace IterationOrder

variable {α : Type}

/-- The order in which the elements were inserted. -/
def ofInsertion (α : Type) : IterationOrder α := ⟨id, fun xs => List.Perm.refl xs⟩

@[simp] theorem mem_enumerate (order : IterationOrder α) (xs : List α) (x : α) :
    x ∈ order.enumerate xs ↔ x ∈ xs :=
  (order.perm xs).mem_iff

/-- Every rearrangement of some elements is seen along some order. -/
theorem exists_enumerate_eq [DecidableEq α] {xs ys : List α} (h : ys.Perm xs) :
    ∃ order : IterationOrder α, order.enumerate xs = ys := by
  refine ⟨⟨fun zs => if zs = xs then ys else zs, fun zs => ?_⟩, if_pos rfl⟩
  split
  · next heq => exact heq ▸ h
  · exact List.Perm.refl zs

/-- The other way round. -/
def reverse (order : IterationOrder α) : IterationOrder α where
  enumerate xs := (order.enumerate xs).reverse
  perm xs      := (List.reverse_perm _).trans (order.perm xs)

/-- Elements are related along every order only if any two of them are related. -/
theorem forall_pairwise_iff {R : α → α → Prop} {xs : List α} (hrefl : ∀ x ∈ xs, R x x) :
    (∀ order : IterationOrder α, (order.enumerate xs).Pairwise R) ↔
      ∀ x ∈ xs, ∀ y ∈ xs, R x y := by
  constructor
  · intro h
    have hthere : xs.Pairwise R := h (ofInsertion α)
    have hback : xs.reverse.Pairwise R := h (ofInsertion α).reverse
    exact hthere.forall_of_forall_of_flip hrefl (List.pairwise_reverse.mp hback)
  · intro h order
    refine List.pairwise_of_forall_mem_list fun x hx y hy => ?_
    exact h x ((order.mem_enumerate xs x).mp hx) y ((order.mem_enumerate xs y).mp hy)

end IterationOrder

/-- A set whose elements are told apart by `key`. -/
structure UnorderedSet {α κ : Type} (key : α → κ) where
  elements : List α
  nodup : (elements.map key).Nodup

namespace UnorderedSet

variable {α κ : Type} {key : α → κ}

/-- The empty set. -/
def empty : UnorderedSet key := ⟨[], List.nodup_nil⟩

/-- Two sets with the same elements are the same. -/
theorem ext_elements {s t : UnorderedSet key} (h : s.elements = t.elements) : s = t := by
  cases s
  cases t
  congr

instance [DecidableEq α] : DecidableEq (UnorderedSet key) := fun s t =>
  decidable_of_iff (s.elements = t.elements) ⟨ext_elements, congrArg elements⟩

/-- The elements that meet a condition. -/
def filter (s : UnorderedSet key) (p : α → Bool) : UnorderedSet key :=
  ⟨s.elements.filter p, s.nodup.sublist (List.filter_sublist.map key)⟩

@[simp] theorem mem_filter (s : UnorderedSet key) (p : α → Bool) (x : α) :
    x ∈ (s.filter p).elements ↔ x ∈ s.elements ∧ p x = true :=
  List.mem_filter

variable [DecidableEq κ]

/-- Whether some element has the key. -/
def contains (s : UnorderedSet key) (k : κ) : Bool := decide (k ∈ s.elements.map key)

/-- Insert an element, unless there is one of its key. -/
def insert (s : UnorderedSet key) (x : α) : UnorderedSet key :=
  if h : key x ∈ s.elements.map key then s
  else
    ⟨s.elements ++ [x], by
      rw [List.map_append, List.map_singleton]
      refine s.nodup.append (List.nodup_singleton _) ?_
      exact List.disjoint_singleton.mpr h⟩

/-- Erase the element of a key. -/
def erase (s : UnorderedSet key) (k : κ) : UnorderedSet key :=
  s.filter fun x => key x ≠ k

theorem contains_iff (s : UnorderedSet key) (k : κ) :
    s.contains k = true ↔ ∃ x ∈ s.elements, key x = k := by
  rw [contains, decide_eq_true_iff, List.mem_map]

theorem contains_of_mem {s : UnorderedSet key} {x : α} (h : x ∈ s.elements) :
    s.contains (key x) = true :=
  (s.contains_iff (key x)).mpr ⟨x, h, rfl⟩

/-- Inserting an element of a known key changes nothing. -/
theorem insert_of_contains {s : UnorderedSet key} {x : α} (h : s.contains (key x) = true) :
    s.insert x = s := by
  rw [insert, dif_pos (of_decide_eq_true h)]

/-- An element of a new key goes in. -/
theorem elements_insert {s : UnorderedSet key} {x : α} (h : s.contains (key x) = false) :
    (s.insert x).elements = s.elements ++ [x] := by
  rw [insert, dif_neg (of_decide_eq_false h)]

@[simp] theorem contains_insert (s : UnorderedSet key) (x : α) (k : κ) :
    (s.insert x).contains k = (decide (k = key x) || s.contains k) := by
  cases h : s.contains (key x) with
  | true =>
      rw [insert_of_contains h]
      by_cases hk : k = key x
      · rw [hk, h, decide_eq_true rfl, Bool.true_or]
      · rw [decide_eq_false hk, Bool.false_or]
  | false =>
      rw [contains, elements_insert h, contains, List.map_append, List.map_singleton]
      by_cases hk : k = key x <;> simp [hk]

theorem mem_of_mem_insert {s : UnorderedSet key} {x y : α} (h : y ∈ (s.insert x).elements) :
    y ∈ s.elements ∨ y = x := by
  cases hx : s.contains (key x) with
  | true => exact .inl (insert_of_contains hx ▸ h)
  | false =>
      rw [elements_insert hx, List.mem_append, List.mem_singleton] at h
      exact h

theorem mem_insert_of_mem {s : UnorderedSet key} {x y : α} (h : y ∈ s.elements) :
    y ∈ (s.insert x).elements := by
  cases hx : s.contains (key x) with
  | true => rwa [insert_of_contains hx]
  | false =>
      rw [elements_insert hx]
      exact List.mem_append_left [x] h

@[simp] theorem mem_erase (s : UnorderedSet key) (k : κ) (x : α) :
    x ∈ (s.erase k).elements ↔ x ∈ s.elements ∧ key x ≠ k := by
  simp [erase]

@[simp] theorem contains_erase (s : UnorderedSet key) (k other : κ) :
    (s.erase k).contains other = (decide (other ≠ k) && s.contains other) := by
  rw [Bool.eq_iff_iff, Bool.and_eq_true, contains_iff, contains_iff, decide_eq_true_iff]
  constructor
  · rintro ⟨x, hx, rfl⟩
    rw [mem_erase] at hx
    exact ⟨hx.2, x, hx.1, rfl⟩
  · rintro ⟨hne, x, hx, rfl⟩
    exact ⟨x, (mem_erase s k x).mpr ⟨hx, hne⟩, rfl⟩

/-- Erasing a key that no element has changes nothing. -/
theorem erase_of_not_contains {s : UnorderedSet key} {k : κ} (h : s.contains k = false) :
    s.erase k = s := by
  refine ext_elements (List.filter_eq_self.mpr fun x hx => ?_)
  rw [decide_eq_true_iff]
  rintro rfl
  rw [contains_of_mem hx] at h
  cases h

/-- Insert those of some elements that meet a condition, one after the other. -/
def insertIf (p : α → Bool) : List α → UnorderedSet key → UnorderedSet key
  | [], s => s
  | x :: xs, s => if p x then insertIf p xs (s.insert x) else insertIf p xs s

/-- Elements with keys of their own all go in. -/
theorem elements_insertIf {p : α → Bool} {xs : List α} {s : UnorderedSet key}
    (h : ((s.elements ++ xs).map key).Nodup) :
    (insertIf p xs s).elements = s.elements ++ xs.filter p := by
  induction xs generalizing s with
  | nil => rw [insertIf, List.filter_nil, List.append_nil]
  | cons x xs ih =>
      rw [insertIf, List.filter_cons]
      cases hp : p x with
      | false =>
          have hsub : List.Sublist (s.elements ++ xs) (s.elements ++ x :: xs) :=
            (List.sublist_cons_self x xs).append_left _
          exact ih (h.sublist (hsub.map key))
      | true =>
          have hnew : s.contains (key x) = false := by
            rw [Bool.eq_false_iff]
            intro hc
            rw [List.map_append, List.map_cons, List.nodup_append] at h
            rw [contains, decide_eq_true_iff] at hc
            exact h.2.2 (key x) hc (key x) List.mem_cons_self rfl
          have helements := elements_insert hnew
          simp only [if_true]
          rw [ih (by rwa [helements, List.append_assoc, List.singleton_append]), helements,
            List.append_assoc, List.singleton_append]

/-! ### A set beside a map -/

/-- An entry that goes under its own key keeps a map keyed. -/
theorem keyed_update {map : κ → Option α} (h : ∀ k x, map k = some x → key x = k) {k : κ}
    {new : Option α} (hnew : ∀ x, new = some x → key x = k) (k' : κ) (x : α)
    (hx : Function.update map k new k' = some x) : key x = k' := by
  rw [Function.update_apply] at hx
  split at hx
  · next heq => exact (hnew x hx).trans heq.symm
  · exact h k' x hx

/-- The set has just those entries of the map that meet a condition, and every entry of the map is
kept under its own key. -/
structure Selects (s : UnorderedSet key) (map : κ → Option α) (p : α → Bool) : Prop where
  keyed : ∀ k x, map k = some x → key x = k
  mem_iff : ∀ x, x ∈ s.elements ↔ map (key x) = some x ∧ p x = true

namespace Selects

variable {s : UnorderedSet key} {map : κ → Option α} {p : α → Bool}

omit [DecidableEq κ] in
theorem empty (p : α → Bool) : Selects (.empty : UnorderedSet key) (fun _ => none) p where
  keyed _ _ h := nomatch h
  mem_iff _ := iff_of_false List.not_mem_nil fun h => nomatch h.1

theorem contains_iff (h : Selects s map p) (k : κ) :
    s.contains k = true ↔ ∃ x, map k = some x ∧ p x = true := by
  rw [UnorderedSet.contains_iff]
  constructor
  · rintro ⟨x, hx, rfl⟩
    exact ⟨x, (h.mem_iff x).mp hx⟩
  · rintro ⟨x, hx, hp⟩
    obtain rfl := h.keyed k x hx
    exact ⟨x, (h.mem_iff x).mpr ⟨hx, hp⟩, rfl⟩

/-- An entry that meets the condition, under a key that the set does not have yet. -/
theorem insert (h : Selects s map p) {x : α} {k : κ} (hkey : key x = k) (hx : p x = true)
    (hnew : s.contains k = false) : Selects (s.insert x) (Function.update map k (some x)) p where
  keyed := keyed_update h.keyed fun y hy => Option.some.inj hy ▸ hkey
  mem_iff y := by
    rw [elements_insert (hkey ▸ hnew), List.mem_append, List.mem_singleton, h.mem_iff]
    by_cases hy : key y = k
    · have hout : ¬(map (key y) = some y ∧ p y = true) := by
        intro hin
        have hcontains := contains_of_mem ((h.mem_iff y).mpr hin)
        rw [hy, hnew] at hcontains
        cases hcontains
      rw [or_iff_right hout, hy, Function.update_self]
      constructor
      · rintro rfl
        exact ⟨rfl, hx⟩
      · exact fun hin => (Option.some.inj hin.1).symm
    · have hne : y ≠ x := fun heq => hy (heq ▸ hkey)
      rw [Function.update_of_ne hy, or_iff_left hne]

/-- A key whose entry goes, or is replaced by one that does not meet the condition. -/
theorem erase (h : Selects s map p) {k : κ} {new : Option α}
    (hnew : ∀ x, new = some x → key x = k ∧ p x = false) :
    Selects (s.erase k) (Function.update map k new) p where
  keyed := keyed_update h.keyed fun y hy => (hnew y hy).1
  mem_iff y := by
    rw [mem_erase, h.mem_iff]
    by_cases hkey : key y = k
    · refine iff_of_false (fun hy => hy.2 hkey) fun hy => ?_
      rw [hkey, Function.update_self] at hy
      rw [(hnew y hy.1).2] at hy
      exact Bool.false_ne_true hy.2
    · rw [Function.update_of_ne hkey]
      exact and_iff_left hkey

end Selects

end UnorderedSet

/-- A map: a set of pairs that are told apart by their first component. -/
abbrev UnorderedMap (κ ν : Type) := UnorderedSet (Prod.fst : κ × ν → κ)

namespace UnorderedMap

variable {κ ν : Type} [DecidableEq κ]

/-- The value of a key. -/
def find (m : UnorderedMap κ ν) (k : κ) : Option ν := m.elements.lookup k

theorem find_eq_some_iff (m : UnorderedMap κ ν) (k : κ) (v : ν) :
    m.find k = some v ↔ (k, v) ∈ m.elements := by
  obtain ⟨elements, hnodup⟩ := m
  rw [find]
  induction elements with
  | nil => exact iff_of_false (by simp) List.not_mem_nil
  | cons p elements ih =>
      obtain ⟨k', v'⟩ := p
      rw [List.map_cons, List.nodup_cons] at hnodup
      rw [List.lookup_cons, List.mem_cons]
      by_cases hk : k = k'
      · subst hk
        have hnew : (k, v) ∉ elements := fun h =>
          hnodup.1 (List.mem_map.mpr ⟨(k, v), h, rfl⟩)
        simp [hnew, eq_comm]
      · rw [beq_false_of_ne hk, ih hnodup.2]
        simp [hk]

theorem find_eq_none_iff (m : UnorderedMap κ ν) (k : κ) :
    m.find k = none ↔ m.contains k = false := by
  rw [← Bool.not_eq_true, UnorderedSet.contains_iff, Option.eq_none_iff_forall_ne_some]
  constructor
  · rintro h ⟨⟨k', v⟩, hmem, rfl⟩
    exact h v ((m.find_eq_some_iff k' v).mpr hmem)
  · intro h v hv
    exact h ⟨(k, v), (m.find_eq_some_iff k v).mp hv, rfl⟩

/-- A pair of a new key goes in, and changes no other. -/
theorem find_insert {m : UnorderedMap κ ν} {k : κ} (h : m.find k = none) (v : ν) :
    find (UnorderedSet.insert m (k, v)) = Function.update m.find k (some v) := by
  have hnew : m.contains k = false := (m.find_eq_none_iff k).mp h
  funext k'
  by_cases hk : k' = k
  · subst hk
    rw [Function.update_self, find_eq_some_iff, UnorderedSet.elements_insert hnew]
    exact List.mem_append_right _ (List.mem_singleton_self _)
  · rw [Function.update_of_ne hk]
    refine Option.ext fun v' => ?_
    rw [find_eq_some_iff, find_eq_some_iff, UnorderedSet.elements_insert hnew, List.mem_append,
      List.mem_singleton]
    simp [hk]

/-- A pair of a known key does not go in. -/
theorem insert_of_find {m : UnorderedMap κ ν} {k : κ} {old : ν} (h : m.find k = some old) (v : ν) :
    UnorderedSet.insert m (k, v) = m := by
  have hmem : (k, old) ∈ m.elements := (m.find_eq_some_iff k old).mp h
  have hcontains : m.contains k = true := UnorderedSet.contains_of_mem hmem
  exact UnorderedSet.insert_of_contains hcontains

/-- The value that is there stays. -/
theorem find_insert_self (m : UnorderedMap κ ν) (k : κ) (v : ν) :
    find (UnorderedSet.insert m (k, v)) k = some ((m.find k).getD v) := by
  cases h : m.find k with
  | none => rw [find_insert h, Function.update_self, Option.getD_none]
  | some old => rw [insert_of_find h, h, Option.getD_some]

theorem find_insert_of_ne (m : UnorderedMap κ ν) {k k' : κ} (hne : k' ≠ k) (v : ν) :
    find (UnorderedSet.insert m (k, v)) k' = m.find k' := by
  cases h : m.find k with
  | none => rw [find_insert h, Function.update_of_ne hne]
  | some old => rw [insert_of_find h]

/-- Erasing a key changes no other. -/
theorem find_erase (m : UnorderedMap κ ν) (k : κ) :
    find (UnorderedSet.erase m k) = Function.update m.find k none := by
  funext k'
  refine Option.ext fun v => ?_
  rw [find_eq_some_iff, UnorderedSet.mem_erase]
  by_cases hk : k' = k
  · subst hk
    simp
  · rw [Function.update_of_ne hk, find_eq_some_iff]
    exact and_iff_left hk

end UnorderedMap

end Csci6780
