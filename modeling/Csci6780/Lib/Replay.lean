import Mathlib.Algebra.Ring.Nat
import Mathlib.Data.List.Nodup
import Mathlib.Logic.Function.Basic
import Mathlib.Tactic.Common

/-!
# Broadcasts with a Replay

A broadcaster numbers its items and delivers each to the members that are present. It logs items
with a time; a member that comes back is delivered the entries that are later than the time it
went away. `Feed` is the state of such a broadcaster, and its operations are stated with what a
user has to see to: an item goes to present members only and to none twice, and a member goes
away after every entry of the log.

The members `ι` and the times `τ` are arbitrary.

## Main results

* `Feed.AtMostOnce`: no member is delivered an item twice, none an item from before it joined,
  and nothing that a replay may still deliver has been delivered. Every operation keeps it.
-/

namespace Csci6780

/-- A broadcaster: who has joined, with the number of items before that; who is away, and since
when; the log; the number of items; the deliveries so far. -/
structure Feed (ι τ : Type) where
  joined : ι → Option ℕ
  away : ι → Option τ
  log : List (ℕ × τ)
  count : ℕ
  sent : List (ℕ × ι)

namespace Feed

variable {ι τ : Type}

/-- A broadcaster without members. -/
def empty : Feed ι τ := ⟨fun _ => none, fun _ => none, [], 0, []⟩

section Operations

variable [DecidableEq ι]

/-- A new member. -/
def join (f : Feed ι τ) (i : ι) : Feed ι τ :=
  { f with joined := Function.update f.joined i (some f.count) }

/-- A member goes away, at a time. -/
def depart (f : Feed ι τ) (i : ι) (now : τ) : Feed ι τ :=
  { f with away := Function.update f.away i (some now) }

/-- A member leaves for good. -/
def leave (f : Feed ι τ) (i : ι) : Feed ι τ :=
  { f with away := Function.update f.away i none }

/-- A member comes back and is delivered some entries of the log. -/
def comeBack (f : Feed ι τ) (i : ι) (missed : List (ℕ × τ)) : Feed ι τ :=
  { f with
    away := Function.update f.away i none
    sent := f.sent ++ missed.map fun entry => (entry.1, i) }

variable (f : Feed ι τ) (i : ι)

theorem joined_join : (f.join i).joined = Function.update f.joined i (some f.count) := rfl

theorem away_depart (now : τ) :
    (f.depart i now).away = Function.update f.away i (some now) := rfl

end Operations

/-- An item is delivered to members, and perhaps logged. -/
def broadcast (f : Feed ι τ) (members : List ι) (logged : Option τ) : Feed ι τ :=
  { f with
    log := f.log ++ (logged.toList.map fun time => (f.count, time))
    count := f.count + 1
    sent := f.sent ++ members.map fun i => (f.count, i) }

/-- The members that were delivered an item, with an entry for each time. -/
def receivers (f : Feed ι τ) (n : ℕ) : List ι :=
  f.sent.filterMap fun d => if d.1 = n then some d.2 else none

/-- The item came after the member had joined. -/
def After (f : Feed ι τ) (i : ι) (n : ℕ) : Prop := ∃ k, f.joined i = some k ∧ k ≤ n

/-- The deliveries so far are right, and a replay keeps them so. -/
structure AtMostOnce [LT τ] (f : Feed ι τ) : Prop where
  log_nodup : (f.log.map Prod.fst).Nodup
  log_lt : ∀ entry ∈ f.log, entry.1 < f.count
  joined_le : ∀ i k, f.joined i = some k → k ≤ f.count
  sent_lt : ∀ d ∈ f.sent, d.1 < f.count
  sent_after : ∀ d ∈ f.sent, f.After d.2 d.1
  sent_nodup : f.sent.Nodup
  away_joined : ∀ i since, f.away i = some since → f.joined i ≠ none
  away_open : ∀ i since, f.away i = some since → ∀ entry ∈ f.log, since < entry.2 →
    (entry.1, i) ∉ f.sent ∧ f.After i entry.1

section

variable {f : Feed ι τ} {i : ι}

theorem mem_receivers {n : ℕ} : i ∈ f.receivers n ↔ (n, i) ∈ f.sent := by
  rw [receivers, List.mem_filterMap]
  constructor
  · rintro ⟨⟨m, j⟩, hd, h⟩
    rw [Option.ite_none_right_eq_some] at h
    obtain ⟨rfl, h⟩ := h
    exact Option.some.inj h ▸ hd
  · intro hd
    exact ⟨(n, i), hd, if_pos rfl⟩

theorem receivers_comeBack [DecidableEq ι] (f : Feed ι τ) (i : ι) (missed : List (ℕ × τ))
    (n : ℕ) : (f.comeBack i missed).receivers n =
      f.receivers n ++ (missed.filter fun entry => entry.1 = n).map fun _ => i := by
  rw [receivers, comeBack, List.filterMap_append]
  refine congrArg (f.receivers n ++ ·) ?_
  induction missed with
  | nil => rfl
  | cons entry missed ih =>
      rw [List.map_cons, List.filterMap_cons, ih]
      by_cases h : entry.1 = n <;> simp [h]

theorem receivers_broadcast (f : Feed ι τ) (members : List ι) (logged : Option τ) (n : ℕ) :
    (f.broadcast members logged).receivers n =
      f.receivers n ++ if f.count = n then members else [] := by
  rw [receivers, broadcast, List.filterMap_append]
  refine congrArg (f.receivers n ++ ·) ?_
  induction members with
  | nil => simp
  | cons i members ih =>
      rw [List.map_cons, List.filterMap_cons, ih]
      by_cases h : f.count = n <;> simp [h]

end

section

variable [DecidableEq ι] {f : Feed ι τ} {i : ι}

theorem After.join {j : ι} {n : ℕ} (h : f.After j n) (hi : f.joined i = none) :
    (f.join i).After j n := by
  obtain ⟨k, hk, hle⟩ := h
  have hne : j ≠ i := by
    rintro rfl
    rw [hi] at hk
    cases hk
  exact ⟨k, (Function.update_of_ne hne _ _).trans hk, hle⟩

/-- Who is away after another has left or come back was away before. -/
theorem away_of_update {j : ι} {since : τ}
    (h : Function.update f.away i none j = some since) : j ≠ i ∧ f.away j = some since := by
  by_cases heq : j = i
  · rw [heq, Function.update_self] at h
    cases h
  · exact ⟨heq, (Function.update_of_ne heq _ _).symm.trans h⟩

end

variable [LT τ] {f : Feed ι τ}

/-- Nobody is delivered an item twice. -/
theorem AtMostOnce.nodup_receivers (h : f.AtMostOnce) (n : ℕ) : (f.receivers n).Nodup := by
  refine h.sent_nodup.filterMap ?_
  rintro ⟨m, i⟩ ⟨m', j⟩ k hm hm'
  rw [Option.mem_def, Option.ite_none_right_eq_some] at hm hm'
  obtain ⟨rfl, hi⟩ := hm
  obtain ⟨rfl, hj⟩ := hm'
  rw [Prod.mk.injEq]
  exact ⟨rfl, Option.some.inj (hi.trans hj.symm)⟩

/-- Nobody is delivered an item from before it joined. -/
theorem AtMostOnce.after (h : f.AtMostOnce) {i : ι} {n : ℕ} (hi : i ∈ f.receivers n) :
    f.After i n :=
  h.sent_after (n, i) (mem_receivers.mp hi)

theorem atMostOnce_empty : (empty : Feed ι τ).AtMostOnce where
  log_nodup := List.nodup_nil
  log_lt _ h := absurd h List.not_mem_nil
  joined_le _ _ h := nomatch h
  sent_lt _ h := absurd h List.not_mem_nil
  sent_after _ h := absurd h List.not_mem_nil
  sent_nodup := List.nodup_nil
  away_joined _ _ h := nomatch h
  away_open _ _ h := nomatch h

section

variable [DecidableEq ι] {i : ι}

/-- A new member has been delivered nothing. -/
theorem AtMostOnce.join (h : f.AtMostOnce) (hi : f.joined i = none) :
    (f.join i).AtMostOnce where
  log_nodup := h.log_nodup
  log_lt := h.log_lt
  joined_le j k hk := by
    rw [joined_join, Function.update_apply] at hk
    split at hk
    · exact Nat.le_of_eq (Option.some.inj hk).symm
    · exact h.joined_le j k hk
  sent_lt := h.sent_lt
  sent_after d hd := (h.sent_after d hd).join hi
  sent_nodup := h.sent_nodup
  away_joined j since hj := by
    rw [joined_join, Function.update_apply]
    split
    · exact Option.some_ne_none _
    · exact h.away_joined j since hj
  away_open j since hj entry hentry hlt := by
    obtain ⟨hsent, hafter⟩ := h.away_open j since hj entry hentry hlt
    exact ⟨hsent, hafter.join hi⟩

/-- Who goes away later than every entry of the log has missed none of them. -/
theorem AtMostOnce.depart {now : τ} (h : f.AtMostOnce) (hi : f.joined i ≠ none)
    (hnow : ∀ entry ∈ f.log, ¬ now < entry.2) : (f.depart i now).AtMostOnce where
  log_nodup := h.log_nodup
  log_lt := h.log_lt
  joined_le := h.joined_le
  sent_lt := h.sent_lt
  sent_after := h.sent_after
  sent_nodup := h.sent_nodup
  away_joined j since hj := by
    by_cases heq : j = i
    · rwa [heq]
    · exact h.away_joined j since ((Function.update_of_ne heq _ _).symm.trans hj)
  away_open j since hj entry hentry hlt := by
    by_cases heq : j = i
    · rw [away_depart, heq, Function.update_self] at hj
      obtain rfl := Option.some.inj hj
      exact absurd hlt (hnow entry hentry)
    · exact h.away_open j since ((Function.update_of_ne heq _ _).symm.trans hj) entry hentry hlt

theorem AtMostOnce.leave (h : f.AtMostOnce) : (f.leave i).AtMostOnce where
  log_nodup := h.log_nodup
  log_lt := h.log_lt
  joined_le := h.joined_le
  sent_lt := h.sent_lt
  sent_after := h.sent_after
  sent_nodup := h.sent_nodup
  away_joined j since hj := h.away_joined j since (away_of_update hj).2
  away_open j since hj := h.away_open j since (away_of_update hj).2

/-- A replay of entries from after the departure delivers nothing for the second time. -/
theorem AtMostOnce.comeBack {since : τ} {missed : List (ℕ × τ)} (h : f.AtMostOnce)
    (hi : f.away i = some since) (hmissed : ∀ entry ∈ missed, entry ∈ f.log ∧ since < entry.2)
    (hnodup : (missed.map Prod.fst).Nodup) : (f.comeBack i missed).AtMostOnce where
  log_nodup := h.log_nodup
  log_lt := h.log_lt
  joined_le := h.joined_le
  sent_lt d hd := by
    rcases List.mem_append.mp hd with hd | hd
    · exact h.sent_lt d hd
    · obtain ⟨entry, hentry, rfl⟩ := List.mem_map.mp hd
      exact h.log_lt entry (hmissed entry hentry).1
  sent_after d hd := by
    rcases List.mem_append.mp hd with hd | hd
    · exact h.sent_after d hd
    · obtain ⟨entry, hentry, rfl⟩ := List.mem_map.mp hd
      obtain ⟨hlog, hlt⟩ := hmissed entry hentry
      exact (h.away_open i since hi entry hlog hlt).2
  sent_nodup := by
    refine h.sent_nodup.append ?_ ?_
    · have hpairs : missed.map (fun entry => (entry.1, i)) =
          (missed.map Prod.fst).map fun n => (n, i) := by
        rw [List.map_map]
        rfl
      rw [hpairs]
      exact hnodup.map fun _ _ heq => (Prod.mk.inj heq).1
    · intro d hd hnew
      obtain ⟨entry, hentry, rfl⟩ := List.mem_map.mp hnew
      obtain ⟨hlog, hlt⟩ := hmissed entry hentry
      exact (h.away_open i since hi entry hlog hlt).1 hd
  away_joined j since hj := h.away_joined j since (away_of_update hj).2
  away_open j since hj entry hentry hlt := by
    obtain ⟨hne, haway⟩ := away_of_update hj
    obtain ⟨hsent, hafter⟩ := h.away_open j since haway entry hentry hlt
    refine ⟨fun hmem => ?_, hafter⟩
    rcases List.mem_append.mp hmem with hold | hnew
    · exact hsent hold
    · obtain ⟨_, _, heq⟩ := List.mem_map.mp hnew
      exact hne (Prod.mk.inj heq).2.symm

end

/-- A new item that goes to present members, to each once. -/
theorem AtMostOnce.broadcast {members : List ι} {logged : Option τ} (h : f.AtMostOnce)
    (hnodup : members.Nodup) (hjoined : ∀ i ∈ members, f.joined i ≠ none)
    (hpresent : ∀ i ∈ members, f.away i = none) : (f.broadcast members logged).AtMostOnce where
  log_nodup := by
    rw [Feed.broadcast, List.map_append, List.map_map]
    refine h.log_nodup.append ?_ ?_
    · cases logged with
      | none => exact List.nodup_nil
      | some time => exact List.nodup_singleton _
    · intro n hold hnew
      obtain ⟨entry, hentry, rfl⟩ := List.mem_map.mp hold
      obtain ⟨_, _, heq⟩ := List.mem_map.mp hnew
      exact Nat.ne_of_lt (h.log_lt entry hentry) heq.symm
  log_lt entry hentry := by
    rcases List.mem_append.mp hentry with hold | hnew
    · exact Nat.lt_succ_of_lt (h.log_lt entry hold)
    · obtain ⟨_, _, rfl⟩ := List.mem_map.mp hnew
      exact Nat.lt_succ_self _
  joined_le i k hk := Nat.le_succ_of_le (h.joined_le i k hk)
  sent_lt d hd := by
    rcases List.mem_append.mp hd with hold | hnew
    · exact Nat.lt_succ_of_lt (h.sent_lt d hold)
    · obtain ⟨_, _, rfl⟩ := List.mem_map.mp hnew
      exact Nat.lt_succ_self _
  sent_after d hd := by
    rcases List.mem_append.mp hd with hold | hnew
    · exact h.sent_after d hold
    · obtain ⟨i, hi, rfl⟩ := List.mem_map.mp hnew
      obtain ⟨k, hk⟩ := Option.ne_none_iff_exists'.mp (hjoined i hi)
      exact ⟨k, hk, h.joined_le i k hk⟩
  sent_nodup := by
    refine h.sent_nodup.append (hnodup.map fun _ _ heq => (Prod.mk.inj heq).2) ?_
    intro d hold hnew
    obtain ⟨_, _, rfl⟩ := List.mem_map.mp hnew
    exact Nat.lt_irrefl _ (h.sent_lt _ hold)
  away_joined := h.away_joined
  away_open i since (hi : f.away i = some since) entry hentry hlt := by
    have hnot : ∀ n, (n, i) ∉ members.map fun j => (f.count, j) := by
      intro n hmem
      obtain ⟨j, hj, heq⟩ := List.mem_map.mp hmem
      obtain ⟨-, rfl⟩ := Prod.mk.inj heq
      rw [hpresent j hj] at hi
      cases hi
    rcases List.mem_append.mp hentry with hold | hnew
    · obtain ⟨hsent, hafter⟩ := h.away_open i since hi entry hold hlt
      refine ⟨fun hmem => ?_, hafter⟩
      exact (List.mem_append.mp hmem).elim hsent (hnot entry.1)
    · obtain ⟨_, _, rfl⟩ := List.mem_map.mp hnew
      refine ⟨fun hmem => ?_, ?_⟩
      · refine (List.mem_append.mp hmem).elim (fun hold => ?_) (hnot f.count)
        exact Nat.lt_irrefl _ (h.sent_lt _ hold)
      · obtain ⟨k, hk⟩ := Option.ne_none_iff_exists'.mp (h.away_joined i since hi)
        exact ⟨k, hk, h.joined_le i k hk⟩

end Feed

end Csci6780
