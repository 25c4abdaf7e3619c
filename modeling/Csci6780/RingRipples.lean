import Csci6780.Nameserver

/-!
# Ripples through the Ring

A `LookUpResult`, an `InsertResult` or a `DeleteResult` is passed from server to server around the
ring, and each server decides by its own bounds whether the message concerns it. A `Ring` is a row
of servers whose ranges are disjoint, with every key in its owner's range; what it stores as a
whole is one map, `Ring.contents`. Messages are taken to reach the successor's handler.

## Main results

* `ripples_find_owner`: an insertion changes the owner of the key only, a look-up answers from it,
  a deletion removes the key from it, each message collects the ids of all servers in order, and
  the ring is still a `Ring` afterwards.
* `contents_insert`, `contents_delete`, `lookUp_contents`: the ripples are the operations of the
  one map.
-/

namespace Csci6780.HashRing

/-- A row of servers with different ids and disjoint ranges, every key in its owner's range. -/
structure Ring where
  servers : List Nameserver
  ids_nodup : (servers.map Nameserver.id).Nodup
  disjoint : servers.Pairwise fun s t => ∀ key, ¬(s.Owns key ∧ t.Owns key)
  placed : ∀ s ∈ servers, ∀ key, s.pairs.contains key = true → s.Owns key

/-- Pass an `InsertResult` through all servers. -/
def rippleInsert : List Nameserver → InsertResult → List Nameserver × InsertResult :=
  ripple fun ns m => (ns.handleInsertResult m).pass

/-- Pass a `LookUpResult` through all servers. -/
def rippleLookUp : List Nameserver → LookUpResult → List Nameserver × LookUpResult :=
  ripple fun ns m => (ns.handleLookUpResult m).pass

/-- Pass a `DeleteResult` through all servers. -/
def rippleDelete : List Nameserver → DeleteResult → List Nameserver × DeleteResult :=
  ripple fun ns m => (ns.handleDeleteResult m).pass

/-! ### The owner of a key -/

/-- Replacing an element by one that is alike leaves what they are alike in. -/
theorem map_set_of_eq {α β : Type} {f : α → β} {xs : List α} {i : ℕ} {x x' : α}
    (hi : xs[i]? = some x) (h : f x' = f x) : (xs.set i x').map f = xs.map f := by
  obtain ⟨hlt, rfl⟩ := List.getElem?_eq_some_iff.mp hi
  have hlt' : i < (xs.map f).length := by rwa [List.length_map]
  have hself : (xs.map f)[i] = f xs[i] := List.getElem_map f
  rw [List.map_set, h, ← hself, List.set_getElem_self]

namespace Ring

variable {ring : Ring} {i : ℕ} {s s' : Nameserver} {key : UInt32}

theorem find_eq_none (hs : s ∈ ring.servers) (h : ¬s.Owns key) : s.pairs.find key = none := by
  rw [UnorderedMap.find_eq_none_iff, ← Bool.not_eq_true]
  exact fun hc => h (ring.placed s hs key hc)

theorem owns_of_find {v : String} (hs : s ∈ ring.servers) (h : s.pairs.find key = some v) :
    s.Owns key := by
  by_contra hnot
  rw [find_eq_none hs hnot] at h
  cases h

/-- Two owners of a key are one server. -/
theorem owner_unique {j : ℕ} {t : Nameserver} (hi : ring.servers[i]? = some s)
    (hj : ring.servers[j]? = some t) (hs : s.Owns key) (ht : t.Owns key) : i = j := by
  have hdisjoint := List.pairwise_iff_getElem.mp ring.disjoint
  obtain ⟨hlt, rfl⟩ := List.getElem?_eq_some_iff.mp hi
  obtain ⟨hlt', rfl⟩ := List.getElem?_eq_some_iff.mp hj
  rcases Nat.lt_trichotomy i j with hij | hij | hij
  · exact absurd ⟨hs, ht⟩ (hdisjoint _ _ hlt hlt' hij key)
  · exact hij
  · exact absurd ⟨ht, hs⟩ (hdisjoint _ _ hlt' hlt hij key)

/-- Nobody before and nobody after a key's owner owns the key. -/
theorem split (hi : ring.servers[i]? = some s) (hs : s.Owns key) :
    ∃ pre post, ring.servers = pre ++ s :: post ∧ pre.length = i ∧
      (∀ t ∈ pre, ¬t.Owns key) ∧ ∀ t ∈ post, ¬t.Owns key := by
  obtain ⟨hlt, rfl⟩ := List.getElem?_eq_some_iff.mp hi
  have hsplit : ring.servers =
      ring.servers.take i ++ ring.servers[i] :: ring.servers.drop (i + 1) := by
    rw [← List.drop_eq_getElem_cons hlt, List.take_append_drop]
  have hdisjoint := ring.disjoint
  rw [hsplit, List.pairwise_append, List.pairwise_cons] at hdisjoint
  obtain ⟨-, ⟨hpost, -⟩, hpre⟩ := hdisjoint
  refine ⟨_, _, hsplit, List.length_take_of_le (Nat.le_of_lt hlt), ?_, ?_⟩
  · exact fun t ht hown => hpre t ht _ List.mem_cons_self key ⟨hown, hs⟩
  · exact fun t ht hown => hpost t ht key ⟨hs, hown⟩

/-- One server replaced by one with the same id and range, whose keys lie in it. -/
def replace (ring : Ring) (i : ℕ) (s s' : Nameserver) (hi : ring.servers[i]? = some s)
    (hid : s'.id = s.id) (hbounds : s'.bounds = s.bounds)
    (hplaced : ∀ key, s'.pairs.contains key = true → s'.Owns key) : Ring where
  servers := ring.servers.set i s'
  ids_nodup := by
    rw [map_set_of_eq hi hid]
    exact ring.ids_nodup
  disjoint := by
    have h : (ring.servers.map Nameserver.bounds).Pairwise fun b c => ∀ key,
        ¬((b.1 ≤ key ∧ key ≤ b.2) ∧ (c.1 ≤ key ∧ key ≤ c.2)) :=
      List.pairwise_map.mpr ring.disjoint
    rw [← map_set_of_eq hi hbounds] at h
    exact List.pairwise_map.mp h
  placed := by
    intro t ht key hc
    rcases List.mem_or_eq_of_mem_set ht with ht | rfl
    · exact ring.placed t ht key hc
    · exact hplaced key hc

theorem replace_pre_post {pre post : List Nameserver} (h : ring.servers = pre ++ s :: post) :
    ring.servers.set pre.length s' = pre ++ s' :: post := by
  rw [h, List.set_append_right _ _ (Nat.le_refl _), Nat.sub_self, List.set_cons_zero]

/-- What the ring stores for a key. -/
def contents (ring : Ring) (key : UInt32) : Option String :=
  ring.servers.findSome? fun s => s.pairs.find key

/-- A server that stores a key stores what the ring does. -/
theorem contents_of_find {v : String} (hs : s ∈ ring.servers) (h : s.pairs.find key = some v) :
    ring.contents key = some v := by
  obtain ⟨i, hi⟩ := List.mem_iff_getElem?.mp hs
  obtain ⟨pre, post, hservers, -, hpre, -⟩ := split hi (owns_of_find hs h)
  have hnone : pre.findSome? (fun t => t.pairs.find key) = none := by
    rw [List.findSome?_eq_none_iff]
    intro t ht
    have hmem : t ∈ ring.servers := hservers ▸ List.mem_append_left _ ht
    exact find_eq_none hmem (hpre t ht)
  rw [contents, hservers, List.findSome?_append, hnone, Option.none_or, List.findSome?_cons, h]

theorem contents_eq_none : ring.contents key = none ↔
    ∀ s ∈ ring.servers, s.pairs.find key = none := by
  rw [contents, List.findSome?_eq_none_iff]

theorem contents_eq_some {v : String} : ring.contents key = some v ↔
    ∃ s ∈ ring.servers, s.pairs.find key = some v := by
  refine ⟨List.exists_of_findSome?_eq_some, ?_⟩
  rintro ⟨s, hs, h⟩
  exact contents_of_find hs h

/-- What happens to one key at its owner happens to the contents. -/
theorem contents_replace {ring' : Ring} {o : Option String} (hi : ring.servers[i]? = some s)
    (hown : s.Owns key) (hs' : s'.pairs.find = Function.update s.pairs.find key o)
    (hring' : ring'.servers = ring.servers.set i s') :
    ring'.contents = Function.update ring.contents key o := by
  obtain ⟨pre, post, hservers, rfl, hpre, hpost⟩ := split hi hown
  have hnone : ∀ t ∈ pre ++ post, t.pairs.find key = none := by
    intro t ht
    rcases List.mem_append.mp ht with ht | ht
    · exact find_eq_none (hservers ▸ List.mem_append_left _ ht) (hpre t ht)
    · refine find_eq_none (hservers ▸ List.mem_append_right _ ?_) (hpost t ht)
      exact List.mem_cons_of_mem s ht
  funext k
  rw [contents, hring', replace_pre_post hservers, List.findSome?_append, List.findSome?_cons, hs']
  by_cases hk : k = key
  · subst hk
    have hpre' : pre.findSome? (fun t => t.pairs.find k) = none :=
      List.findSome?_eq_none_iff.mpr fun t ht => hnone t (List.mem_append_left _ ht)
    have hpost' : post.findSome? (fun t => t.pairs.find k) = none :=
      List.findSome?_eq_none_iff.mpr fun t ht => hnone t (List.mem_append_right _ ht)
    rw [Function.update_self, Function.update_self, hpre', hpost', Option.none_or]
    cases o <;> rfl
  · rw [Function.update_of_ne hk, Function.update_of_ne hk, contents, hservers,
      List.findSome?_append, List.findSome?_cons]

end Ring

/-! ### What one server does -/

section OneServer

variable {ns : Nameserver}

/-- A message after servers have added their ids to it. -/
def LookUpResult.contacted (m : LookUpResult) (ids : List UInt32) : LookUpResult :=
  { m with serverIds := m.serverIds ++ ids }

def InsertResult.contacted (m : InsertResult) (ids : List UInt32) : InsertResult :=
  { m with serverIds := m.serverIds ++ ids }

def DeleteResult.contacted (m : DeleteResult) (ids : List UInt32) : DeleteResult :=
  { m with serverIds := m.serverIds ++ ids }

theorem LookUpResult.contacted_nil (m : LookUpResult) : m.contacted [] = m := by
  simp [contacted]

theorem InsertResult.contacted_nil (m : InsertResult) : m.contacted [] = m := by
  simp [contacted]

theorem DeleteResult.contacted_nil (m : DeleteResult) : m.contacted [] = m := by
  simp [contacted]

theorem handleInsertResult_pass {m : InsertResult} (h : ¬ns.Owns m.key) (ids : List UInt32) :
    (ns.handleInsertResult (m.contacted ids)).pass = (ns, m.contacted (ids ++ [ns.id])) := by
  simp [Nameserver.handleInsertResult, Handled.pass, InsertResult.contacted, h]

theorem handleInsertResult_store {m : InsertResult} (h : ns.Owns m.key) (ids : List UInt32) :
    (ns.handleInsertResult (m.contacted ids)).pass =
      ({ ns with pairs := ns.pairs.insert (m.key, m.value) },
        { m with id := ns.id }.contacted (ids ++ [ns.id])) := by
  simp [Nameserver.handleInsertResult, Handled.pass, InsertResult.contacted, h]

theorem handleLookUpResult_pass {m : LookUpResult} (h : ns.pairs.find m.key = none)
    (ids : List UInt32) :
    (ns.handleLookUpResult (m.contacted ids)).pass = (ns, m.contacted (ids ++ [ns.id])) := by
  simp [Nameserver.handleLookUpResult, Handled.pass, LookUpResult.contacted, h]

theorem handleLookUpResult_answer {m : LookUpResult} {v : String} (hown : ns.Owns m.key)
    (h : ns.pairs.find m.key = some v) (ids : List UInt32) :
    (ns.handleLookUpResult (m.contacted ids)).pass =
      (ns, { m with value := v, id := ns.id }.contacted (ids ++ [ns.id])) := by
  simp [Nameserver.handleLookUpResult, Handled.pass, LookUpResult.contacted, h, hown]

theorem handleDeleteResult_pass {m : DeleteResult} (h : ns.pairs.find m.key = none)
    (ids : List UInt32) :
    (ns.handleDeleteResult (m.contacted ids)).pass = (ns, m.contacted (ids ++ [ns.id])) := by
  simp [Nameserver.handleDeleteResult, Handled.pass, DeleteResult.contacted, h]

theorem handleDeleteResult_remove {m : DeleteResult} {v : String} (hown : ns.Owns m.key)
    (h : ns.pairs.find m.key = some v) (ids : List UInt32) :
    (ns.handleDeleteResult (m.contacted ids)).pass =
      ({ ns with pairs := ns.pairs.erase m.key },
        { m with deleteSuccess := true }.contacted (ids ++ [ns.id])) := by
  simp [Nameserver.handleDeleteResult, Handled.pass, DeleteResult.contacted, h, hown]

end OneServer

/-! ### What the ring does -/

section TheRing

variable (ring : Ring)

/-- The ids that every ripple collects. -/
def Ring.ids : List UInt32 := ring.servers.map Nameserver.id

/-- What became of an insertion: the owner of the key stores the pair and is named as the one that
does; where nobody owns the key, nothing has changed. -/
structure InsertRipple (m : InsertResult) (ring' : Ring) (m' : InsertResult) : Prop where
  stored : ∀ i s, ring.servers[i]? = some s → s.Owns m.key →
    ring'.servers = ring.servers.set i { s with pairs := s.pairs.insert (m.key, m.value) } ∧
      UnorderedMap.find (s.pairs.insert (m.key, m.value)) =
        Function.update s.pairs.find m.key (some m.value) ∧
      m'.id = s.id
  passed : (∀ s ∈ ring.servers, ¬s.Owns m.key) → ring' = ring ∧ m'.id = m.id
  message : m' = { m with id := m'.id, serverIds := m.serverIds ++ ring.ids }

/-- What became of a look-up: the server that stores the key has answered, if there is one. -/
structure LookUpRipple (m : LookUpResult) (m' : LookUpResult) : Prop where
  found : ∀ s ∈ ring.servers, ∀ v, s.pairs.find m.key = some v → m'.value = v ∧ m'.id = s.id
  passed : (∀ s ∈ ring.servers, s.pairs.find m.key = none) → m'.value = m.value ∧ m'.id = m.id
  message : m' =
    { m with value := m'.value, id := m'.id, serverIds := m.serverIds ++ ring.ids }

/-- What became of a deletion: the server that stored the key does so no longer. -/
structure DeleteRipple (m : DeleteResult) (ring' : Ring) (m' : DeleteResult) : Prop where
  removed : ∀ i s v, ring.servers[i]? = some s → s.pairs.find m.key = some v →
    ring'.servers = ring.servers.set i { s with pairs := s.pairs.erase m.key } ∧
      UnorderedMap.find (s.pairs.erase m.key) = Function.update s.pairs.find m.key none ∧
      m'.deleteSuccess = true
  passed : (∀ s ∈ ring.servers, s.pairs.find m.key = none) →
    ring' = ring ∧ m'.deleteSuccess = m.deleteSuccess
  message : m' =
    { m with deleteSuccess := m'.deleteSuccess, serverIds := m.serverIds ++ ring.ids }

variable {ring}

/-- Where nobody owns the key, an insertion is only passed on. -/
theorem rippleInsert_pass {m : InsertResult} (h : ∀ s ∈ ring.servers, ¬s.Owns m.key) :
    rippleInsert ring.servers m = (ring.servers, m.contacted ring.ids) := by
  have hpass : rippleInsert ring.servers (m.contacted []) =
      (ring.servers, m.contacted ([] ++ ring.ids)) :=
    ripple_pass (fun s hs => handleInsertResult_pass (h s hs)) []
  rw [InsertResult.contacted_nil, List.nil_append] at hpass
  exact hpass

/-- The owner of the key stores the pair. -/
theorem rippleInsert_store {m : InsertResult} {pre post : List Nameserver} {s : Nameserver}
    (hservers : ring.servers = pre ++ s :: post) (hs : s.Owns m.key)
    (hpre : ∀ t ∈ pre, ¬t.Owns m.key) (hpost : ∀ t ∈ post, ¬t.Owns m.key) :
    rippleInsert ring.servers m =
      (pre ++ { s with pairs := s.pairs.insert (m.key, m.value) } :: post,
        { m with id := s.id }.contacted ring.ids) := by
  have hanswer : rippleInsert (pre ++ s :: post) (m.contacted []) =
      (pre ++ { s with pairs := s.pairs.insert (m.key, m.value) } :: post,
        { m with id := s.id }.contacted ([] ++ (pre ++ s :: post).map Nameserver.id)) :=
    ripple_answer (fun t ht => handleInsertResult_pass (hpre t ht)) (handleInsertResult_store hs)
      (fun t ht => handleInsertResult_pass (m := { m with id := s.id }) (hpost t ht)) []
  rw [InsertResult.contacted_nil, List.nil_append, ← hservers] at hanswer
  exact hanswer

theorem rippleLookUp_pass {m : LookUpResult}
    (h : ∀ s ∈ ring.servers, s.pairs.find m.key = none) :
    rippleLookUp ring.servers m = (ring.servers, m.contacted ring.ids) := by
  have hpass : rippleLookUp ring.servers (m.contacted []) =
      (ring.servers, m.contacted ([] ++ ring.ids)) :=
    ripple_pass (fun s hs => handleLookUpResult_pass (h s hs)) []
  rw [LookUpResult.contacted_nil, List.nil_append] at hpass
  exact hpass

theorem rippleLookUp_answer {m : LookUpResult} {pre post : List Nameserver} {s : Nameserver}
    {v : String} (hservers : ring.servers = pre ++ s :: post) (hown : s.Owns m.key)
    (hs : s.pairs.find m.key = some v) (hpre : ∀ t ∈ pre, t.pairs.find m.key = none)
    (hpost : ∀ t ∈ post, t.pairs.find m.key = none) :
    rippleLookUp ring.servers m =
      (ring.servers, { m with value := v, id := s.id }.contacted ring.ids) := by
  have hanswer : rippleLookUp (pre ++ s :: post) (m.contacted []) =
      (pre ++ s :: post,
        { m with value := v, id := s.id }.contacted ([] ++ (pre ++ s :: post).map Nameserver.id)) :=
    ripple_answer (fun t ht => handleLookUpResult_pass (hpre t ht))
      (handleLookUpResult_answer hown hs)
      (fun t ht => handleLookUpResult_pass (m := { m with value := v, id := s.id }) (hpost t ht))
      []
  rw [LookUpResult.contacted_nil, List.nil_append, ← hservers] at hanswer
  exact hanswer

theorem rippleDelete_pass {m : DeleteResult}
    (h : ∀ s ∈ ring.servers, s.pairs.find m.key = none) :
    rippleDelete ring.servers m = (ring.servers, m.contacted ring.ids) := by
  have hpass : rippleDelete ring.servers (m.contacted []) =
      (ring.servers, m.contacted ([] ++ ring.ids)) :=
    ripple_pass (fun s hs => handleDeleteResult_pass (h s hs)) []
  rw [DeleteResult.contacted_nil, List.nil_append] at hpass
  exact hpass

theorem rippleDelete_remove {m : DeleteResult} {pre post : List Nameserver} {s : Nameserver}
    {v : String} (hservers : ring.servers = pre ++ s :: post) (hown : s.Owns m.key)
    (hs : s.pairs.find m.key = some v) (hpre : ∀ t ∈ pre, t.pairs.find m.key = none)
    (hpost : ∀ t ∈ post, t.pairs.find m.key = none) :
    rippleDelete ring.servers m =
      (pre ++ { s with pairs := s.pairs.erase m.key } :: post,
        { m with deleteSuccess := true }.contacted ring.ids) := by
  have hanswer : rippleDelete (pre ++ s :: post) (m.contacted []) =
      (pre ++ { s with pairs := s.pairs.erase m.key } :: post,
        { m with deleteSuccess := true }.contacted ([] ++ (pre ++ s :: post).map Nameserver.id)) :=
    ripple_answer (fun t ht => handleDeleteResult_pass (hpre t ht))
      (handleDeleteResult_remove hown hs)
      (fun t ht => handleDeleteResult_pass (m := { m with deleteSuccess := true }) (hpost t ht)) []
  rw [DeleteResult.contacted_nil, List.nil_append, ← hservers] at hanswer
  exact hanswer

/-- A server that stores a key is the only one. -/
theorem Ring.split_find {i : ℕ} {s : Nameserver} {key : UInt32} {v : String}
    (hi : ring.servers[i]? = some s) (h : s.pairs.find key = some v) :
    ∃ pre post, ring.servers = pre ++ s :: post ∧ pre.length = i ∧
      (∀ t ∈ pre, t.pairs.find key = none) ∧ ∀ t ∈ post, t.pairs.find key = none := by
  obtain ⟨pre, post, hservers, hlen, hpre, hpost⟩ :=
    split hi (owns_of_find (List.mem_of_getElem? hi) h)
  have hmem : ∀ t ∈ pre ++ post, t ∈ ring.servers := by
    intro t ht
    rw [hservers]
    rcases List.mem_append.mp ht with ht | ht
    · exact List.mem_append_left _ ht
    · exact List.mem_append_right _ (List.mem_cons_of_mem s ht)
  refine ⟨pre, post, hservers, hlen, fun t ht => ?_, fun t ht => ?_⟩
  · exact find_eq_none (hmem t (List.mem_append_left _ ht)) (hpre t ht)
  · exact find_eq_none (hmem t (List.mem_append_right _ ht)) (hpost t ht)

/-- **An insertion.** -/
theorem exists_insertRipple {m : InsertResult}
    (hnew : ∀ s ∈ ring.servers, s.pairs.find m.key = none) :
    ∃ ring' m', rippleInsert ring.servers m = (ring'.servers, m') ∧
      InsertRipple ring m ring' m' := by
  by_cases hown : ∃ s ∈ ring.servers, s.Owns m.key
  · obtain ⟨s, hs, hown⟩ := hown
    obtain ⟨i, hi⟩ := List.mem_iff_getElem?.mp hs
    obtain ⟨pre, post, hservers, rfl, hpre, hpost⟩ := Ring.split hi hown
    have hplaced : ∀ key, UnorderedSet.contains (s.pairs.insert (m.key, m.value)) key = true →
        s.Owns key := by
      intro key hc
      rw [UnorderedSet.contains_insert, Bool.or_eq_true, decide_eq_true_iff] at hc
      rcases hc with rfl | hc
      · exact hown
      · exact ring.placed s hs key hc
    let s' : Nameserver := { s with pairs := s.pairs.insert (m.key, m.value) }
    refine ⟨ring.replace pre.length s s' hi rfl rfl hplaced,
      { m with id := s.id }.contacted ring.ids, ?_, ?_⟩
    · rw [rippleInsert_store hservers hown hpre hpost]
      exact congrArg (·, _) (Ring.replace_pre_post hservers).symm
    · refine ⟨fun j t hj hown' => ?_, fun hnobody => ?_, rfl⟩
      · obtain rfl := Ring.owner_unique hi hj hown hown'
        obtain rfl : s = t := Option.some.inj (hi.symm.trans hj)
        exact ⟨rfl, UnorderedMap.find_insert (hnew s hs) m.value, rfl⟩
      · exact absurd hown (hnobody s hs)
  · have hnobody : ∀ s ∈ ring.servers, ¬s.Owns m.key := fun s hs h => hown ⟨s, hs, h⟩
    refine ⟨ring, _, rippleInsert_pass hnobody, fun i s hi hs => ?_, fun _ => ⟨rfl, rfl⟩, rfl⟩
    exact absurd hs (hnobody s (List.mem_of_getElem? hi))

/-- **A look-up.** -/
theorem exists_lookUpRipple (m : LookUpResult) :
    ∃ m', rippleLookUp ring.servers m = (ring.servers, m') ∧ LookUpRipple ring m m' := by
  cases hc : ring.contents m.key with
  | none =>
      have hnobody := Ring.contents_eq_none.mp hc
      refine ⟨_, rippleLookUp_pass hnobody, fun s hs v hv => ?_, fun _ => ⟨rfl, rfl⟩, rfl⟩
      rw [hnobody s hs] at hv
      cases hv
  | some v =>
      obtain ⟨s, hs, hv⟩ := Ring.contents_eq_some.mp hc
      obtain ⟨i, hi⟩ := List.mem_iff_getElem?.mp hs
      have hown := Ring.owns_of_find hs hv
      obtain ⟨pre, post, hservers, -, hpre, hpost⟩ := Ring.split_find hi hv
      refine ⟨_, rippleLookUp_answer hservers hown hv hpre hpost, fun t ht w hw => ?_,
        fun hnobody => ?_, rfl⟩
      · obtain ⟨j, hj⟩ := List.mem_iff_getElem?.mp ht
        obtain rfl := Ring.owner_unique hi hj hown (Ring.owns_of_find ht hw)
        obtain rfl : s = t := Option.some.inj (hi.symm.trans hj)
        exact ⟨Option.some.inj (hv.symm.trans hw), rfl⟩
      · rw [hnobody s hs] at hv
        cases hv

/-- **A deletion.** -/
theorem exists_deleteRipple (m : DeleteResult) :
    ∃ ring' m', rippleDelete ring.servers m = (ring'.servers, m') ∧
      DeleteRipple ring m ring' m' := by
  cases hc : ring.contents m.key with
  | none =>
      have hnobody := Ring.contents_eq_none.mp hc
      refine ⟨ring, _, rippleDelete_pass hnobody, fun i s v hi hv => ?_, fun _ => ⟨rfl, rfl⟩, rfl⟩
      rw [hnobody s (List.mem_of_getElem? hi)] at hv
      cases hv
  | some v =>
      obtain ⟨s, hs, hv⟩ := Ring.contents_eq_some.mp hc
      obtain ⟨i, hi⟩ := List.mem_iff_getElem?.mp hs
      have hown := Ring.owns_of_find hs hv
      obtain ⟨pre, post, hservers, rfl, hpre, hpost⟩ := Ring.split_find hi hv
      have hplaced : ∀ key, UnorderedSet.contains (s.pairs.erase m.key) key = true →
          s.Owns key := by
        intro key hc'
        rw [UnorderedSet.contains_erase, Bool.and_eq_true] at hc'
        exact ring.placed s hs key hc'.2
      let s' : Nameserver := { s with pairs := s.pairs.erase m.key }
      refine ⟨ring.replace pre.length s s' hi rfl rfl hplaced,
        { m with deleteSuccess := true }.contacted ring.ids, ?_, ?_⟩
      · rw [rippleDelete_remove hservers hown hv hpre hpost]
        exact congrArg (·, _) (Ring.replace_pre_post hservers).symm
      · refine ⟨fun j t w hj hw => ?_, fun hnobody => ?_, rfl⟩
        · have ht := List.mem_of_getElem? hj
          obtain rfl := Ring.owner_unique hi hj hown (Ring.owns_of_find ht hw)
          obtain rfl : s = t := Option.some.inj (hi.symm.trans hj)
          exact ⟨rfl, UnorderedMap.find_erase _ _, rfl⟩
        · rw [hnobody s hs] at hv
          cases hv

/-! ### The one map -/

section TheMap

variable {ring' : Ring}

/-- **An insertion into the map**, where somebody owns the key. -/
theorem contents_insert {m m' : InsertResult} {s : Nameserver} (h : InsertRipple ring m ring' m')
    (hs : s ∈ ring.servers) (hown : s.Owns m.key) :
    ring'.contents = Function.update ring.contents m.key (some m.value) := by
  obtain ⟨i, hi⟩ := List.mem_iff_getElem?.mp hs
  obtain ⟨hservers, hfind, -⟩ := h.stored i s hi hown
  exact Ring.contents_replace hi hown hfind hservers

/-- **A deletion from the map**, with whether the key was in it. -/
theorem contents_delete {m m' : DeleteResult} (h : DeleteRipple ring m ring' m') :
    ring'.contents = Function.update ring.contents m.key none ∧
      m'.deleteSuccess = (m.deleteSuccess || (ring.contents m.key).isSome) := by
  cases hc : ring.contents m.key with
  | none =>
      obtain ⟨rfl, hsuccess⟩ := h.passed (Ring.contents_eq_none.mp hc)
      refine ⟨?_, by rw [hsuccess, Option.isSome_none, Bool.or_false]⟩
      rw [← hc, Function.update_eq_self]
  | some v =>
      obtain ⟨s, hs, hv⟩ := Ring.contents_eq_some.mp hc
      obtain ⟨i, hi⟩ := List.mem_iff_getElem?.mp hs
      obtain ⟨hservers, hfind, hsuccess⟩ := h.removed i s v hi hv
      refine ⟨Ring.contents_replace hi (Ring.owns_of_find hs hv) hfind hservers, ?_⟩
      rw [hsuccess, Option.isSome_some, Bool.or_true]

/-- **A look-up in the map.** -/
theorem lookUp_contents {m m' : LookUpResult} (h : LookUpRipple ring m m') :
    m'.value = (ring.contents m.key).getD m.value := by
  cases hc : ring.contents m.key with
  | none => exact (h.passed (Ring.contents_eq_none.mp hc)).1
  | some v =>
      obtain ⟨s, hs, hv⟩ := Ring.contents_eq_some.mp hc
      exact (h.found s hs v hv).1

end TheMap

/-- **The ripples implement a distributed map.** In every ring, an `InsertResult` of a new key, a
`LookUpResult` and a `DeleteResult` of any key do what `InsertRipple`, `LookUpRipple` and
`DeleteRipple` say. -/
theorem ripples_find_owner (ring : Ring) :
    (∀ m : InsertResult, (∀ s ∈ ring.servers, s.pairs.find m.key = none) →
      ∃ ring' m', rippleInsert ring.servers m = (ring'.servers, m') ∧
        InsertRipple ring m ring' m') ∧
    (∀ m : LookUpResult, ∃ m', rippleLookUp ring.servers m = (ring.servers, m') ∧
      LookUpRipple ring m m') ∧
    ∀ m : DeleteResult, ∃ ring' m', rippleDelete ring.servers m = (ring'.servers, m') ∧
      DeleteRipple ring m ring' m' :=
  ⟨fun _ hnew => exists_insertRipple hnew, exists_lookUpRipple, exists_deleteRipple⟩

end TheRing

/-- A ring of a server with the keys up to 511 and one with those up to 1023. -/
def twoServers : Ring where
  servers := [
    { pairs := ⟨[(7, "seven")], by decide⟩, bounds := (0, 511), successorId := 2
      predecessorId := 2, bootstrap := ⟨"b", 4⟩, port := 5, id := 1 },
    { pairs := .empty, bounds := (512, 1023), successorId := 1, predecessorId := 1
      bootstrap := ⟨"b", 4⟩, port := 6, id := 2 }]
  ids_nodup := by decide
  disjoint := by
    rw [List.pairwise_pair]
    rintro key ⟨⟨-, hle⟩, ⟨hge, -⟩⟩
    exact absurd (UInt32.le_trans hge hle) (by decide)
  placed := by
    intro s hs key hc
    rcases List.mem_cons.mp hs with rfl | hs
    · have hkey : key = 7 := by simpa [UnorderedSet.contains] using hc
      subst hkey
      decide
    · obtain rfl := List.mem_singleton.mp hs
      cases hc

theorem ripples_find_owner_twoServers :
    ∃ ring' m', rippleInsert twoServers.servers ⟨600, "new", 0, []⟩ = (ring'.servers, m') ∧
      InsertRipple twoServers ⟨600, "new", 0, []⟩ ring' m' :=
  (ripples_find_owner twoServers).1 ⟨600, "new", 0, []⟩ (by decide)

end Csci6780.HashRing
