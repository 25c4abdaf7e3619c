import Csci6780.Bootstrap
import Csci6780.Lib.Runs

/-!
# Joining the Ring

A server that enters the ring asks its successor for the lower half of the successor's range. The
successor answers with bounds and pairs, which the entering server takes over, and keeps the upper
half itself.

The bounds of the answer are computed as `lower - (lower - upper) / 2` on unsigned 32-bit numbers,
where `lower - upper` wraps around: the upper bound that is given away is 2^31 too high. And the
loop over the pairs cannot move a pair: it sets an element that the answer does not have, and
erases the pair that it is at.

## Main results

* `join_moves_right_keys_iff`: a join moves the right keys exactly when there are none to move.
* `ranges_partition_iff`: after any sequence of joins, the ranges of the servers partition the key
  space exactly when nobody has joined.
-/

namespace Csci6780.HashRing

open Nameserver

/-! ### What the successor answers -/

section Answer

variable {ns : Nameserver}

/-- The loop over the pairs gets to its end exactly when it moves none. -/
theorem giveAway_eq {upper : UInt32} {rest : List (UInt32 × String)}
    {pairs : UnorderedMap UInt32 String} {res : UpdatePredecessorResponse} (hres : res.keys = [])
    (hrest : ∀ p ∈ rest, pairs.contains p.1 = true) :
    giveAway upper rest pairs res =
      if ∀ p ∈ rest, upper / 2 + 1 ≤ p.1 then some (pairs, res) else none := by
  induction rest with
  | nil => rfl
  | cons p rest ih =>
      have hcontains := hrest p List.mem_cons_self
      have ih := ih fun q hq => hrest q (List.mem_cons_of_mem p hq)
      by_cases hp : p.1 < upper / 2 + 1
      · have hnot : ¬∀ q ∈ p :: rest, upper / 2 + 1 ≤ q.1 := fun h =>
          UInt32.not_le.mpr hp (h p List.mem_cons_self)
        rw [if_neg hnot]
        simp [giveAway, hp, setAt, hres]
      · have hle : upper / 2 + 1 ≤ p.1 := UInt32.not_lt.mp hp
        have hcons : (∀ q ∈ p :: rest, upper / 2 + 1 ≤ q.1) ↔ ∀ q ∈ rest, upper / 2 + 1 ≤ q.1 := by
          simp [hle]
        simp only [hcons, ← ih]
        simp [giveAway, hp, hcontains]

/-- The answer without pairs. -/
def emptyAnswer (ns : Nameserver) : UpdatePredecessorResponse where
  lowerBounds := ns.bounds.1
  upperBounds := ns.bounds.1 - (ns.bounds.1 - ns.bounds.2) / 2

/-- The first key of the upper half, which the server keeps. -/
def keptLower (ns : Nameserver) : UInt32 := ns.bounds.1 + ((ns.bounds.2 - ns.bounds.1) / 2 + 1)

/-- **What the handler does**: it is undefined where a key lies below half of the upper bound, and
otherwise keeps all pairs. -/
theorem handleUpdatePredecessorRequest_eq (order : IterationOrder (UInt32 × String))
    (request : UpdatePredecessorRequest) (source : Endpoint) :
    ns.handleUpdatePredecessorRequest order request source =
      if ∀ p ∈ ns.pairs.elements, ns.bounds.2 / 2 + 1 ≤ p.1 then
        some {
          server :=
            { ns with
              predecessor := ⟨source.hostname, (info request.predecessorInfo).port.toUInt16⟩
              predecessorId := (info request.predecessorInfo).id
              bounds := (keptLower ns, ns.bounds.2) }
          destination := ⟨source.hostname, (info request.predecessorInfo).port.toUInt16⟩
          message := emptyAnswer ns }
      else none := by
  have hloop : giveAway ns.bounds.2 (order.enumerate ns.pairs.elements) ns.pairs (emptyAnswer ns) =
      if ∀ p ∈ order.enumerate ns.pairs.elements, ns.bounds.2 / 2 + 1 ≤ p.1 then
        some (ns.pairs, emptyAnswer ns)
      else none :=
    giveAway_eq rfl fun p hp => UnorderedSet.contains_of_mem ((order.mem_enumerate _ _).mp hp)
  simp only [IterationOrder.mem_enumerate] at hloop
  rw [handleUpdatePredecessorRequest, ← emptyAnswer, hloop]
  split <;> rfl

end Answer

/-! ### Which keys move -/

/-- What a join should do with the pairs of a server: they are the kept and the transferred ones
together, without loss or duplicate; the entering server has taken over the transferred ones, and
each pair lies in the range of the server that has it now. -/
structure KeysMoved (before kept entered : Nameserver) (res : UpdatePredecessorResponse) :
    Prop where
  union : before.pairs.elements.Perm (kept.pairs.elements ++ res.keys.zip res.values)
  lengths : res.keys.length = res.values.length
  taken : entered.pairs.elements.Perm (res.keys.zip res.values)
  range_given : entered.bounds = (res.lowerBounds, res.upperBounds)
  kept_owned : ∀ p ∈ kept.pairs.elements, kept.Owns p.1
  given_owned : ∀ p ∈ entered.pairs.elements, entered.Owns p.1

/-- The join of a server `entering` before `ns` goes as it should. -/
def JoinMovesKeys (order : IterationOrder (UInt32 × String)) (ns entering : Nameserver)
    (request : UpdatePredecessorRequest) (source : Endpoint) : Prop :=
  ∃ h entered, ns.handleUpdatePredecessorRequest order request source = some h ∧
    entering.takeOver h.message = some entered ∧ KeysMoved ns h.server entered h.message

section Arithmetic

variable {ns : Nameserver} {key : UInt32}

/-- Half of a 32-bit number, and one: this does not overflow. -/
theorem toNat_half_add_one (n : UInt32) : (n / 2 + 1).toNat = n.toNat / 2 + 1 := by
  have hn := n.toNat_lt
  have htwo : (2 : UInt32).toNat = 2 := rfl
  have hone : (1 : UInt32).toNat = 1 := rfl
  rw [UInt32.toNat_add, UInt32.toNat_div, htwo, hone]
  omega

/-- In 32-bit arithmetic the first key kept is the one after the middle, but for the range of the
last key alone. -/
theorem toNat_keptLower (hown : ns.Owns key) (hmax : ns.bounds.1.toNat ≠ 2 ^ 32 - 1) :
    (keptLower ns).toNat = (ns.bounds.1.toNat + ns.bounds.2.toNat) / 2 + 1 := by
  have hlower := UInt32.le_iff_toNat_le.mp hown.1
  have hupper := UInt32.le_iff_toNat_le.mp hown.2
  have h1 := ns.bounds.1.toNat_lt
  have h2 := ns.bounds.2.toNat_lt
  rw [keptLower, UInt32.toNat_add, toNat_half_add_one, UInt32.toNat_sub]
  omega

theorem keptLower_of_max (hown : ns.Owns key) (hmax : ns.bounds.1.toNat = 2 ^ 32 - 1) :
    (keptLower ns).toNat = 0 := by
  have hlower := UInt32.le_iff_toNat_le.mp hown.1
  have hupper := UInt32.le_iff_toNat_le.mp hown.2
  have h1 := key.toNat_lt
  have h2 := ns.bounds.2.toNat_lt
  rw [keptLower, UInt32.toNat_add, toNat_half_add_one, UInt32.toNat_sub]
  omega

theorem half_le_iff : ns.bounds.2 / 2 + 1 ≤ key ↔ ns.bounds.2.toNat / 2 < key.toNat := by
  rw [UInt32.le_iff_toNat_le, toNat_half_add_one]
  omega

end Arithmetic

/-- **A join moves the right keys exactly when there are none to move**: every stored key lies in
the upper half of the range, or the range starts at the last key there is. -/
theorem join_moves_right_keys_iff (order : IterationOrder (UInt32 × String))
    (ns entering : Nameserver) (request : UpdatePredecessorRequest) (source : Endpoint)
    (hplaced : ∀ p ∈ ns.pairs.elements, ns.Owns p.1) (hnew : entering.pairs = .empty) :
    JoinMovesKeys order ns entering request source ↔
      ns.bounds.1.toNat = 2 ^ 32 - 1 ∨
        ∀ p ∈ ns.pairs.elements, (ns.bounds.1.toNat + ns.bounds.2.toNat) / 2 < p.1.toNat := by
  rw [JoinMovesKeys, handleUpdatePredecessorRequest_eq]
  constructor
  · rintro ⟨h, entered, hhandle, -, hmoved⟩
    by_cases hmax : ns.bounds.1.toNat = 2 ^ 32 - 1
    · exact .inl hmax
    · right
      intro p hp
      split at hhandle
      · obtain rfl := Option.some.inj hhandle
        have hkept : keptLower ns ≤ p.1 := (hmoved.kept_owned p hp).1
        have hlower := toNat_keptLower (hplaced p hp) hmax
        have := UInt32.le_iff_toNat_le.mp hkept
        omega
      · cases hhandle
  · intro hright
    have hkeep : ∀ p ∈ ns.pairs.elements, ns.bounds.2 / 2 + 1 ≤ p.1 := by
      intro p hp
      have hlower := UInt32.le_iff_toNat_le.mp (hplaced p hp).1
      have hlt := p.1.toNat_lt
      rw [half_le_iff]
      rcases hright with hmax | hhigh
      · have := ns.bounds.2.toNat_lt
        omega
      · have := hhigh p hp
        omega
    rw [if_pos hkeep]
    refine ⟨_, { entering with bounds := _, pairs := entering.pairs }, rfl, rfl, ?_⟩
    refine ⟨by simp [emptyAnswer], rfl, by simp [emptyAnswer, hnew, UnorderedSet.empty], rfl, ?_,
      by simp [hnew, UnorderedSet.empty]⟩
    intro p hp
    refine ⟨UInt32.le_iff_toNat_le.mpr ?_, (hplaced p hp).2⟩
    by_cases hmax : ns.bounds.1.toNat = 2 ^ 32 - 1
    · show (keptLower ns).toNat ≤ _
      rw [keptLower_of_max (hplaced p hp) hmax]
      exact Nat.zero_le _
    · have := (hright.resolve_left hmax) p hp
      show (keptLower ns).toNat ≤ _
      rw [toNat_keptLower (hplaced p hp) hmax]
      omega

/-- A server with one pair, and all keys up to 1023. -/
def oneKey (key : UInt32) (value : String) : Nameserver where
  pairs := ⟨[(key, value)], List.nodup_singleton _⟩
  bounds := (0, 1023)
  successorId := 0
  predecessorId := 0
  bootstrap := ⟨"b", 4⟩
  port := 4
  id := 0

/-- A server that has just been started. -/
def fresh : Nameserver := .construct 5 ⟨"b", 4⟩ 1 0 0

theorem join_moves_right_keys_oneKey :
    JoinMovesKeys (.ofInsertion _) (oneKey 700 "high") fresh fresh.updatePredReq ⟨"n", 9⟩ ↔
      (oneKey 700 "high").bounds.1.toNat = 2 ^ 32 - 1 ∨
        ∀ p ∈ (oneKey 700 "high").pairs.elements,
          ((oneKey 700 "high").bounds.1.toNat + (oneKey 700 "high").bounds.2.toNat) / 2 <
            p.1.toNat :=
  join_moves_right_keys_iff (.ofInsertion _) (oneKey 700 "high") fresh fresh.updatePredReq
    ⟨"n", 9⟩ (by decide) rfl

/-- A key of the lower half cannot be moved. -/
theorem low_key_not_moved : ¬∀ (order : IterationOrder (UInt32 × String)) (ns entering : Nameserver)
    (request : UpdatePredecessorRequest) (source : Endpoint),
    (∀ p ∈ ns.pairs.elements, ns.Owns p.1) → entering.pairs = .empty →
      JoinMovesKeys order ns entering request source := by
  intro h
  obtain ⟨handled, -, hhandle, -⟩ :=
    h (.ofInsertion _) (oneKey 7 "low") fresh fresh.updatePredReq ⟨"n", 9⟩ (by decide) rfl
  cases hhandle

/-! ### Which ranges the servers have -/

/-- A server enters before the server at a place of the ring. -/
structure Join where
  target : ℕ
  entering : Nameserver
  source : Endpoint
  order : IterationOrder (UInt32 × String)

/-- One join: the server asked has at least two keys, and the entering one adopts the bounds of
its answer. -/
def join (servers : List Nameserver) (j : Join) : Option (List Nameserver) := do
  let ns ← servers[j.target]?
  if ns.bounds.1 < ns.bounds.2 then do
    let h ← ns.handleUpdatePredecessorRequest j.order j.entering.updatePredReq j.source
    let entered ← j.entering.takeOver h.message
    return servers.set j.target h.server ++ [entered]
  else none

/-- The ranges of the servers are a partition of the keys up to 1023. -/
structure Partitioned (servers : List Nameserver) : Prop where
  covered : ∀ key, (∃ s ∈ servers, s.Owns key) ↔ key ≤ 1023
  disjoint : servers.Pairwise fun s t => ∀ key, ¬(s.Owns key ∧ t.Owns key)

/-- Some server owns a key that the key space does not have. -/
def Overreaching (servers : List Nameserver) : Prop :=
  ∃ s ∈ servers, s.bounds.1 ≤ s.bounds.2 ∧ 1023 < s.bounds.2

/-- What one join does to the servers. -/
theorem join_eq {servers servers' : List Nameserver} {j : Join}
    (h : join servers j = some servers') :
    ∃ ns kept entered, servers[j.target]? = some ns ∧ ns.bounds.1 < ns.bounds.2 ∧
      kept.bounds = (keptLower ns, ns.bounds.2) ∧
      entered.bounds = ((emptyAnswer ns).lowerBounds, (emptyAnswer ns).upperBounds) ∧
      servers' = servers.set j.target kept ++ [entered] := by
  rw [join, Option.bind_eq_bind, Option.bind_eq_some_iff] at h
  obtain ⟨ns, hns, h⟩ := h
  split at h
  · rename_i hlt
    rw [handleUpdatePredecessorRequest_eq] at h
    split at h
    · obtain rfl := Option.some.inj h
      exact ⟨ns, _, _, hns, hlt, rfl, rfl, rfl⟩
    · cases h
  · cases h

/-- A server that was split keeps its upper bound, and at least one key. -/
theorem keptLower_le {ns : Nameserver} (h : ns.bounds.1 < ns.bounds.2) :
    keptLower ns ≤ ns.bounds.2 := by
  have hlt := UInt32.lt_iff_toNat_lt.mp h
  have hown : ns.Owns ns.bounds.1 := ⟨UInt32.le_refl _, UInt32.le_of_lt h⟩
  have hmax : ns.bounds.1.toNat ≠ 2 ^ 32 - 1 := by
    have := ns.bounds.2.toNat_lt
    omega
  rw [UInt32.le_iff_toNat_le, toNat_keptLower hown hmax]
  omega

/-- Once a server overreaches, some server does after every join. -/
theorem Overreaching.after_join {servers servers' : List Nameserver} {j : Join}
    (hover : Overreaching servers) (h : join servers j = some servers') :
    Overreaching servers' := by
  obtain ⟨s, hs, hle, hgt⟩ := hover
  obtain ⟨ns, kept, entered, hns, hlt, hkept, -, rfl⟩ := join_eq h
  obtain ⟨i, hi⟩ := List.mem_iff_getElem?.mp hs
  have hlen : i < servers.length := (List.getElem?_eq_some_iff.mp hi).1
  by_cases hit : j.target = i
  · -- the server itself is split: its upper half still reaches beyond
    subst hit
    obtain rfl : s = ns := Option.some.inj (hi.symm.trans hns)
    refine ⟨kept, List.mem_append_left _ (List.mem_set hlen kept), ?_, ?_⟩
    · rw [hkept]
      exact keptLower_le hlt
    · rw [hkept]
      exact hgt
  · refine ⟨s, List.mem_append_left _ ?_, hle, hgt⟩
    refine List.mem_iff_getElem?.mpr ⟨i, ?_⟩
    rw [List.getElem?_set_ne hit]
    exact hi

theorem Overreaching.not_partitioned {servers : List Nameserver} (hover : Overreaching servers) :
    ¬Partitioned servers := by
  obtain ⟨s, hs, hle, hgt⟩ := hover
  intro h
  have hin := (h.covered s.bounds.2).mp ⟨s, hs, hle, UInt32.le_refl _⟩
  exact absurd hgt (UInt32.not_lt.mpr hin)

/-- The first server to enter overreaches: it is given the bounds 0 and 2147484160. -/
theorem overreaching_of_first_join {ns : Nameserver} {servers : List Nameserver} {j : Join}
    (hns : ns.bounds = (0, 1023)) (h : join [ns] j = some servers) : Overreaching servers := by
  obtain ⟨ns', kept, entered, hget, -, -, hentered, rfl⟩ := join_eq h
  obtain rfl : ns' = ns := List.mem_singleton.mp (List.mem_of_getElem? hget)
  have hbounds : entered.bounds = (0, 2147484160) := by
    rw [hentered, emptyAnswer, hns]
    decide
  refine ⟨entered, List.mem_append_right _ (List.mem_singleton_self _), ?_, ?_⟩
  · rw [hbounds]
    decide
  · rw [hbounds]
    decide

/-- Before anybody has joined, the bootstrap server has all keys. -/
theorem partitioned_singleton {ns : Nameserver} (hns : ns.bounds = (0, 1023)) :
    Partitioned [ns] where
  covered key := by
    constructor
    · rintro ⟨s, hs, -, hle⟩
      obtain rfl := List.mem_singleton.mp hs
      rw [hns] at hle
      exact hle
    · intro hle
      refine ⟨ns, List.mem_singleton_self ns, ?_, ?_⟩
      · rw [hns]
        exact UInt32.zero_le
      · rw [hns]
        exact hle
  disjoint := List.pairwise_singleton _ ns

/-- **The ranges partition the key space exactly as long as nobody has joined**: for every
sequence of joins that starts with the bootstrap server alone. -/
theorem ranges_partition_iff (port : Int32) (kvs : UnorderedMap UInt32 String)
    (id successorId predecessorId : UInt32) (joins : List Join) (servers : List Nameserver)
    (hrun : runFrom join
      [(Bootstrap.construct port kvs id successorId predecessorId).toNameserver] joins =
        some servers) :
    Partitioned servers ↔ joins = [] := by
  set bs := (Bootstrap.construct port kvs id successorId predecessorId).toNameserver with hbs
  have hbounds : bs.bounds = (0, 1023) := rfl
  constructor
  · intro hpart
    cases joins with
    | nil => rfl
    | cons j joins =>
        obtain ⟨first, hfirst, hrest⟩ := runFrom_cons_eq_some hrun
        have hover : EachState join Overreaching first joins :=
          EachState.of_inv_always Overreaching (fun _ _ _ ho h => ho.after_join h)
            (overreaching_of_first_join hbounds hfirst) joins
        exact absurd hpart (hover.last hrest).not_partitioned
  · rintro rfl
    obtain rfl : [bs] = servers := Option.some.inj hrun
    exact partitioned_singleton hbounds

/-- The servers after a first join. -/
def afterOneJoin : List Nameserver :=
  [{ Nameserver.construct 4 ⟨"127.0.0.1", 4⟩ 0 0 0 with
      bounds := (512, 1023), successor := ⟨"127.0.0.1", 4⟩, predecessor := ⟨"n", 5⟩
      predecessorId := 1 },
    { fresh with bounds := (0, 2147484160) }]

theorem ranges_partition_iff_one :
    Partitioned afterOneJoin ↔ [Join.mk 0 fresh ⟨"n", 9⟩ (.ofInsertion _)] = [] :=
  ranges_partition_iff 4 .empty 0 0 0 [⟨0, fresh, ⟨"n", 9⟩, .ofInsertion _⟩] afterOneJoin rfl

/-- After one join, the key 512 has two owners. -/
theorem ranges_overlap : ¬∀ (port : Int32) (kvs : UnorderedMap UInt32 String)
    (id successorId predecessorId : UInt32) (joins : List Join) (servers : List Nameserver),
    runFrom join [(Bootstrap.construct port kvs id successorId predecessorId).toNameserver] joins =
      some servers → Partitioned servers := by
  intro h
  have hpart := h 4 .empty 0 0 0 [⟨0, fresh, ⟨"n", 9⟩, .ofInsertion _⟩] afterOneJoin rfl
  have hdisjoint := List.pairwise_pair.mp hpart.disjoint 512
  exact hdisjoint (by decide)

end Csci6780.HashRing
