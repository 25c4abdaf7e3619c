import Csci6780.Nameserver

/-!
# Leaving the Ring

A server that leaves the ring sends its range and its pairs to its successor, with the place of
its predecessor, and the place of its successor to its predecessor.

The links are right afterwards. The rest is not: `Exit` sets elements that the message's repeated
members do not have, and the successor takes over the upper bound of the one that leaves where it
should take over the lower one.

## Main results

* `exit_links`: the neighbours of the one that left know each other.
* `exit_hands_over_iff`: an exit hands everything over exactly when there was nothing to hand over.
-/

namespace Csci6780.HashRing

open Nameserver

/-- The pairs are packed exactly when there are none. -/
theorem packPairs_eq {exitInfo : ExitInformation} (hkeys : exitInfo.keys = [])
    (pairs : List (UInt32 × String)) :
    packPairs pairs 0 exitInfo = if pairs = [] then some exitInfo else none := by
  cases pairs with
  | nil => rfl
  | cons p rest => simp [packPairs, setAt, hkeys]

/-- **What `Exit` sends**: nothing is, where the server has a pair. -/
theorem exit_eq (order : IterationOrder (UInt32 × String)) (ns : Nameserver) :
    ns.exit order =
      if ns.pairs.elements = [] then
        some ((ns.successor,
            { lowerBounds := ns.bounds.1, upperBounds := ns.bounds.2
              predecessorInfo := some ns.predecessorInfo }),
          (ns.predecessor, { successorInfo := some ns.successorInfo }))
      else none := by
  have hnil : order.enumerate ns.pairs.elements = [] ↔ ns.pairs.elements = [] := by
    have hperm := order.perm ns.pairs.elements
    constructor
    · intro h
      rw [h] at hperm
      exact hperm.nil_eq.symm
    · intro h
      rw [h] at hperm ⊢
      exact hperm.eq_nil
  rw [exit, exitInformation, packPairs_eq rfl]
  simp only [hnil]
  split <;> rfl

/-- The successor `b` and the predecessor `p` of a server `a` that leaves, after they have handled
what it sent them: `b` has both ranges and both servers' pairs, and `b` and `p` are neighbours. -/
structure HandedOver (a b b' p' : Nameserver) : Prop where
  range : b'.bounds = (a.bounds.1, b.bounds.2)
  pairs : b'.pairs.elements.Perm (b.pairs.elements ++ a.pairs.elements)
  predecessor : b'.predecessor = a.predecessor ∧ b'.predecessorId = a.predecessorId
  successor : p'.successor = a.successor ∧ p'.successorId = b.id

/-- The exit of `a`, with its successor `b` and its predecessor `p`, goes as it should. -/
def ExitHandsOver (order : IterationOrder (UInt32 × String)) (a b p : Nameserver) : Prop :=
  ∃ exitInfo updateSuccReq b',
    a.exit order = some ((a.successor, exitInfo), (a.predecessor, updateSuccReq)) ∧
      b.handleExitInformation exitInfo = some b' ∧
      HandedOver a b b' (p.handleUpdateSuccessorRequest updateSuccReq)

variable {order : IterationOrder (UInt32 × String)} {a b p : Nameserver}

/-- **The neighbours of the one that left know each other.** -/
theorem exit_links {exitInfo : Endpoint × ExitInformation}
    {updateSuccReq : Endpoint × UpdateSuccessorRequest} {b' : Nameserver}
    (hexit : a.exit order = some (exitInfo, updateSuccReq))
    (hb' : b.handleExitInformation exitInfo.2 = some b') :
    b'.predecessor = a.predecessor ∧ b'.predecessorId = a.predecessorId ∧
      (p.handleUpdateSuccessorRequest updateSuccReq.2).successor = a.successor ∧
      (p.handleUpdateSuccessorRequest updateSuccReq.2).successorId = a.successorId := by
  rw [exit_eq] at hexit
  split at hexit
  · obtain ⟨rfl, rfl⟩ := Prod.mk.inj (Option.some.inj hexit)
    obtain rfl := Option.some.inj hb'
    refine ⟨?_, rfl, ?_, rfl⟩
    · exact endpoint_serverInfo _ _
    · exact endpoint_serverInfo _ _
  · cases hexit

/-- **An exit hands everything over exactly when there is nothing to hand over**: with `b`'s range
starting after `a`'s, exactly when both ranges are empty. -/
theorem exit_hands_over_iff (order : IterationOrder (UInt32 × String)) (a b p : Nameserver)
    (hnext : b.bounds.1.toNat = a.bounds.2.toNat + 1) (hid : a.successorId = b.id)
    (ha : ∀ q ∈ a.pairs.elements, a.Owns q.1) :
    ExitHandsOver order a b p ↔
      a.bounds.1.toNat = a.bounds.2.toNat + 1 ∧ b.bounds.2 = a.bounds.2 := by
  rw [ExitHandsOver, exit_eq]
  constructor
  · rintro ⟨exitInfo, updateSuccReq, b', hexit, hb', hover⟩
    split at hexit
    · obtain ⟨hfst, -⟩ := Prod.mk.inj (Option.some.inj hexit)
      obtain ⟨-, rfl⟩ := Prod.mk.inj hfst
      obtain rfl := Option.some.inj hb'
      obtain ⟨hlower, hupper⟩ := Prod.mk.inj hover.range
      rw [← hlower, ← hupper]
      exact ⟨hnext, rfl⟩
    · cases hexit
  · rintro ⟨hempty, hupper⟩
    have hnone : a.pairs.elements = [] := by
      refine List.eq_nil_iff_forall_not_mem.mpr fun q hq => ?_
      obtain ⟨hlower, hle⟩ := ha q hq
      have h1 := UInt32.le_iff_toNat_le.mp hlower
      have h2 := UInt32.le_iff_toNat_le.mp hle
      omega
    rw [if_pos hnone]
    refine ⟨_, _, _, rfl, rfl, ?_, ?_, ⟨endpoint_serverInfo _ _, rfl⟩,
      ⟨endpoint_serverInfo _ _, hid⟩⟩
    · rw [hupper]
      exact Prod.ext (UInt32.toNat_inj.mp (hnext.trans hempty.symm)) rfl
    · rw [hnone, List.append_nil]

/-- A server without pairs, between servers 0 and 2. -/
def leaving : Nameserver where
  bounds := (0, 511)
  successor := ⟨"n2", 6⟩
  successorId := 2
  predecessor := ⟨"b", 4⟩
  predecessorId := 0
  bootstrap := ⟨"b", 4⟩
  port := 5
  id := 1

/-- Its successor. -/
def remaining : Nameserver where
  bounds := (512, 1023)
  successor := ⟨"b", 4⟩
  successorId := 0
  predecessor := ⟨"n1", 5⟩
  predecessorId := 1
  bootstrap := ⟨"b", 4⟩
  port := 6
  id := 2

theorem exit_hands_over_iff_leaving :
    ExitHandsOver (.ofInsertion _) leaving remaining remaining ↔
      leaving.bounds.1.toNat = leaving.bounds.2.toNat + 1 ∧ remaining.bounds.2 = leaving.bounds.2 :=
  exit_hands_over_iff (.ofInsertion _) leaving remaining remaining rfl rfl
    fun _ hq => absurd hq List.not_mem_nil

/-- Even without pairs, the successor does not get the range: it loses its own. -/
theorem range_not_handed_over : ¬∀ (order : IterationOrder (UInt32 × String))
    (a b p : Nameserver), b.bounds.1.toNat = a.bounds.2.toNat + 1 → a.successorId = b.id →
    (∀ q ∈ a.pairs.elements, a.Owns q.1) → (∀ q ∈ b.pairs.elements, b.Owns q.1) →
      ExitHandsOver order a b p := by
  intro h
  obtain ⟨exitInfo, updateSuccReq, b', hexit, hb', hover⟩ :=
    h (.ofInsertion _) leaving remaining remaining rfl rfl
      (fun _ hq => absurd hq List.not_mem_nil) fun _ hq => absurd hq List.not_mem_nil
  obtain ⟨hfst, -⟩ := Prod.mk.inj (Option.some.inj hexit)
  obtain ⟨-, rfl⟩ := Prod.mk.inj hfst
  obtain rfl := Option.some.inj hb'
  have hrange := hover.range
  revert hrange
  decide

end Csci6780.HashRing
