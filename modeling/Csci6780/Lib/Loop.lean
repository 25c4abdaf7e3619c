import Mathlib.Algebra.Ring.Nat
import Mathlib.Data.Nat.Find
import Mathlib.Tactic.Common

/-!
# Loops that May Not Return

A `while` loop of a program that talks to its surroundings ends in one of three ways: it
returns, it waits for something that never comes, or it goes on for ever. `whileLoop` runs
such a loop for at most `fuel` rounds; the body says for a state whether the loop goes on
(`Sum.inl`), returns (`Sum.inr`) or blocks (`none`). The result is `none` when the loop has
not returned by then.

A loop that never blocks and has a variant returns with enough fuel (`whileLoop_returns`);
what is known of a result (`whileLoop_inv`) does not depend on the fuel it took.

## Main results

* `whileLoop_inv`: the invariant rule.
* `whileLoop_map`: the simulation rule.
* `whileLoop_returns`: the rule for total correctness.
* `GoesOn.returns_iff`: several rounds at once.
* `whileLoop_returns_iff`: the rule for when a loop returns.
* `Searches.returnsIn_iff`: the rule for a loop that tries one candidate a round.
-/

namespace Csci6780

variable {σ ρ : Type}

/-- Run the body `step` until it returns, at most `fuel` times. -/
def whileLoop (step : σ → Option (σ ⊕ ρ)) : ℕ → σ → Option ρ
  | 0, _ => none
  | fuel + 1, s =>
      match step s with
      | none => none
      | some (.inl s') => whileLoop step fuel s'
      | some (.inr r) => some r

variable {step : σ → Option (σ ⊕ ρ)}

/-- A round after which the loop goes on. -/
theorem whileLoop_continue {s s' : σ} (h : step s = some (.inl s')) (fuel : ℕ) :
    whileLoop step (fuel + 1) s = whileLoop step fuel s' := by
  rw [whileLoop, h]

/-- A round in which the loop returns. -/
theorem whileLoop_return {s : σ} {r : ρ} (h : step s = some (.inr r)) (fuel : ℕ) :
    whileLoop step (fuel + 1) s = some r := by
  rw [whileLoop, h]

/-- **The simulation rule.** A map that carries every round of one loop to a round of
another carries its result. -/
theorem whileLoop_map {σ' ρ' : Type} {step' : σ' → Option (σ' ⊕ ρ')} (f : σ → σ') (g : ρ → ρ')
    (hstep : ∀ s, step' (f s) = (step s).map (Sum.map f g)) (fuel : ℕ) (s : σ) :
    whileLoop step' fuel (f s) = (whileLoop step fuel s).map g := by
  induction fuel generalizing s with
  | zero => rfl
  | succ fuel ih =>
      rw [whileLoop, whileLoop, hstep]
      cases step s with
      | none => rfl
      | some out =>
          cases out with
          | inl s' => exact ih s'
          | inr r => rfl

/-- **The invariant rule.** What holds at the start and after every round that goes on
holds when the loop returns. -/
theorem whileLoop_inv (Inv : σ → Prop) (Post : ρ → Prop)
    (hcontinue : ∀ s s', Inv s → step s = some (.inl s') → Inv s')
    (hreturn : ∀ s r, Inv s → step s = some (.inr r) → Post r) {fuel : ℕ} {s : σ} {r : ρ}
    (hinv : Inv s) (h : whileLoop step fuel s = some r) : Post r := by
  induction fuel generalizing s with
  | zero => cases h
  | succ fuel ih =>
      rw [whileLoop] at h
      split at h
      · cases h
      · next s' hs => exact ih (hcontinue s s' hinv hs) h
      · next r' hs =>
          obtain rfl : r' = r := Option.some.inj h
          exact hreturn s r' hinv hs

/-- **The rule for total correctness.** `Inv n` says that the loop returns after at most `n`
more rounds: it keeps a round from blocking, and a round that goes on lowers `n`. -/
theorem whileLoop_returns (Inv : ℕ → σ → Prop) (Post : ρ → Prop)
    (hstep : ∀ n s, Inv n s →
      (∃ m s', m < n ∧ step s = some (.inl s') ∧ Inv m s') ∨
        ∃ r, step s = some (.inr r) ∧ Post r) {n : ℕ} {s : σ} (hinv : Inv n s) :
    ∃ fuel r, whileLoop step fuel s = some r ∧ Post r := by
  induction n using Nat.strongRecOn generalizing s with
  | ind n ih =>
      rcases hstep n s hinv with ⟨m, s', hlt, hs, hinv'⟩ | ⟨r, hs, hpost⟩
      · obtain ⟨fuel, r, hrun, hpost⟩ := ih m hlt hinv'
        exact ⟨fuel + 1, r, (whileLoop_continue hs fuel).trans hrun, hpost⟩
      · exact ⟨1, r, whileLoop_return hs 0, hpost⟩

/-! ### Several rounds -/

/-- A loop that returns does so with more fuel as well. -/
theorem whileLoop_add {fuel : ℕ} {s : σ} {r : ρ} (h : whileLoop step fuel s = some r) (n : ℕ) :
    whileLoop step (fuel + n) s = some r := by
  induction fuel generalizing s with
  | zero => cases h
  | succ fuel ih =>
      rw [whileLoop] at h
      rw [Nat.succ_add, whileLoop]
      split at h
      · cases h
      · exact ih h
      · exact h

/-- A loop returns one result only. -/
theorem whileLoop_unique {fuel fuel' : ℕ} {s : σ} {r r' : ρ} (h : whileLoop step fuel s = some r)
    (h' : whileLoop step fuel' s = some r') : r = r' := by
  have hmore := whileLoop_add h fuel'
  rw [Nat.add_comm, whileLoop_add h' fuel] at hmore
  exact (Option.some.inj hmore).symm

/-- The loop goes on from `s` to `s'` in `n` rounds. -/
def GoesOn (step : σ → Option (σ ⊕ ρ)) (n : ℕ) (s s' : σ) : Prop :=
  ∀ fuel, whileLoop step (fuel + n) s = whileLoop step fuel s'

theorem GoesOn.refl (s : σ) : GoesOn step 0 s s := fun _ => rfl

theorem GoesOn.head {n : ℕ} {s s' s'' : σ} (h : step s = some (.inl s'))
    (hrest : GoesOn step n s' s'') : GoesOn step (n + 1) s s'' :=
  fun fuel => (whileLoop_continue h (fuel + n)).trans (hrest fuel)

theorem GoesOn.trans {m n : ℕ} {s s' s'' : σ} (h : GoesOn step m s s')
    (h' : GoesOn step n s' s'') : GoesOn step (n + m) s s'' := by
  intro fuel
  rw [← Nat.add_assoc, h (fuel + n), h' fuel]

/-- The rounds do not change what the loop returns. -/
theorem GoesOn.returns_iff {n : ℕ} {s s' : σ} (h : GoesOn step n s s') {r : ρ} :
    (∃ fuel, whileLoop step fuel s = some r) ↔ ∃ fuel, whileLoop step fuel s' = some r := by
  constructor
  · rintro ⟨fuel, hrun⟩
    exact ⟨fuel, by rw [← h fuel, whileLoop_add hrun]⟩
  · rintro ⟨fuel, hrun⟩
    exact ⟨fuel + n, by rw [h fuel, hrun]⟩

/-- **When a loop returns.** If a round that goes on is a step towards an end and does not change
whether `Ends` holds, a round that returns has `Ends` and one that blocks has not, then the loop
returns exactly if `Ends` holds. -/
theorem whileLoop_returns_iff (Inv Ends : σ → Prop) (size : σ → ℕ)
    (hstep : ∀ s, Inv s →
      (∃ r, step s = some (.inr r) ∧ Ends s) ∨
      (∃ s', step s = some (.inl s') ∧ Inv s' ∧ (Ends s' ↔ Ends s) ∧ size s' < size s) ∨
      (step s = none ∧ ¬ Ends s)) {s : σ} (hinv : Inv s) :
    (∃ fuel r, whileLoop step fuel s = some r) ↔ Ends s := by
  induction hn : size s using Nat.strongRecOn generalizing s with
  | ind n ih =>
      rcases hstep s hinv with ⟨r, hs, hends⟩ | ⟨s', hs, hinv', hiff, hlt⟩ | ⟨hs, hnot⟩
      · exact ⟨fun _ => hends, fun _ => ⟨1, r, whileLoop_return hs 0⟩⟩
      · have hrest := ih (size s') (hn ▸ hlt) hinv' rfl
        have hround : GoesOn step 1 s s' := .head hs (.refl s')
        rw [← hiff, ← hrest]
        constructor
        · rintro ⟨fuel, r, hrun⟩
          obtain ⟨fuel', hrun'⟩ := hround.returns_iff.mp ⟨fuel, hrun⟩
          exact ⟨fuel', r, hrun'⟩
        · rintro ⟨fuel, r, hrun⟩
          exact ⟨fuel + 1, r, (whileLoop_continue hs fuel).trans hrun⟩
      · refine ⟨?_, fun hends => absurd hends hnot⟩
        rintro ⟨fuel, r, hrun⟩
        cases fuel with
        | zero => cases hrun
        | succ fuel =>
            rw [whileLoop, hs] at hrun
            cases hrun

/-! ### Loops that search -/

/-- The loop returns in its round `n`, the rounds counted from 0. -/
def ReturnsIn (step : σ → Option (σ ⊕ ρ)) (n : ℕ) (s : σ) (r : ρ) : Prop :=
  whileLoop step n s = none ∧ whileLoop step (n + 1) s = some r

/-- A loop that returns within some rounds does so in one of them. -/
theorem whileLoop_eq_some_iff {fuel : ℕ} {s : σ} {r : ρ} :
    whileLoop step fuel s = some r ↔ ∃ n < fuel, ReturnsIn step n s r := by
  constructor
  · intro h
    induction fuel with
    | zero => cases h
    | succ fuel ih =>
        cases hbefore : whileLoop step fuel s with
        | none => exact ⟨fuel, Nat.lt_succ_self fuel, hbefore, h⟩
        | some r' =>
            have hmore := whileLoop_add hbefore 1
            obtain rfl : r' = r := Option.some.inj (hmore.symm.trans h)
            obtain ⟨n, hn, hreturns⟩ := ih hbefore
            exact ⟨n, Nat.lt_succ_of_lt hn, hreturns⟩
  · rintro ⟨n, hn, -, hreturn⟩
    have hmore := whileLoop_add hreturn (fuel - (n + 1))
    rwa [Nat.add_sub_cancel' hn] at hmore

/-- `n` is the first number with the property. -/
def IsFirst (P : ℕ → Prop) (n : ℕ) : Prop := P n ∧ ∀ k < n, ¬P k

instance (P : ℕ → Prop) [DecidablePred P] : DecidablePred (IsFirst P) :=
  fun n => inferInstanceAs (Decidable (P n ∧ ∀ k < n, ¬P k))

theorem IsFirst.unique {P : ℕ → Prop} {m n : ℕ} (hm : IsFirst P m) (hn : IsFirst P n) : m = n := by
  rcases Nat.lt_trichotomy m n with hlt | heq | hlt
  · exact absurd hm.1 (hn.2 m hlt)
  · exact heq
  · exact absurd hn.1 (hm.2 n hlt)

/-- There is a first number with a property that some number has, and it is no greater. -/
theorem exists_isFirst {P : ℕ → Prop} {m : ℕ} (h : P m) : ∃ n ≤ m, IsFirst P n := by
  classical
  have hex : ∃ n, P n := ⟨m, h⟩
  exact ⟨Nat.find hex, Nat.find_min' hex h, Nat.find_spec hex, fun k hk => Nat.find_min hex hk⟩

/-- A loop that goes through the states `state 0`, `state 1`, ..., until it stops in one of them. -/
structure Searches (step : σ → Option (σ ⊕ ρ)) (state : ℕ → σ) (result : ℕ → ρ)
    (Stops : ℕ → Prop) : Prop where
  goes_on : ∀ k, ¬Stops k → step (state k) = some (.inl (state (k + 1)))
  stops : ∀ k, Stops k → step (state k) = some (.inr (result k))

namespace Searches

variable {state : ℕ → σ} {result : ℕ → ρ} {Stops : ℕ → Prop}

theorem goesOn (h : Searches step state result Stops) {n : ℕ} (hbefore : ∀ k < n, ¬Stops k) :
    GoesOn step n (state 0) (state n) := by
  induction n with
  | zero => exact .refl (state 0)
  | succ n ih =>
      have hfirst := ih fun k hk => hbefore k (Nat.lt_succ_of_lt hk)
      have hlast : GoesOn step 1 (state n) (state (n + 1)) :=
        .head (h.goes_on n (hbefore n (Nat.lt_succ_self n))) (.refl _)
      have hboth := hfirst.trans hlast
      rwa [Nat.add_comm 1 n] at hboth

theorem returnsIn (h : Searches step state result Stops) {n : ℕ} (hn : IsFirst Stops n) :
    ReturnsIn step n (state 0) (result n) := by
  have hrounds := h.goesOn hn.2
  constructor
  · rw [← Nat.zero_add n, hrounds 0]
    rfl
  · rw [Nat.add_comm n 1, hrounds 1]
    exact whileLoop_return (h.stops n hn.1) 0

/-- A search that stops nowhere goes on for ever. -/
theorem not_returns (h : Searches step state result Stops) (hnever : ∀ k, ¬Stops k) (fuel : ℕ) :
    whileLoop step fuel (state 0) = none := by
  have hrounds := h.goesOn (n := fuel) fun k _ => hnever k
  rw [← Nat.zero_add fuel, hrounds 0]
  rfl

/-- **The rule for a search.** It returns in the first round in which it stops. -/
theorem returnsIn_iff (h : Searches step state result Stops) {n : ℕ} {r : ρ} :
    ReturnsIn step n (state 0) r ↔ IsFirst Stops n ∧ r = result n := by
  constructor
  · rintro ⟨hnot, hreturn⟩
    have hbefore : ∀ k < n, ¬Stops k := by
      intro k hk hstops
      obtain ⟨m, hmk, hfirst⟩ := exists_isFirst hstops
      have hmore := whileLoop_add (h.returnsIn hfirst).2 (n - (m + 1))
      rw [Nat.add_sub_cancel' (by omega), hnot] at hmore
      cases hmore
    by_cases hstops : Stops n
    · have hthere := (h.returnsIn ⟨hstops, hbefore⟩).2
      exact ⟨⟨hstops, hbefore⟩, Option.some.inj (hreturn.symm.trans hthere)⟩
    · have hrounds := h.goesOn (n := n + 1) fun k hk => by
        rcases Nat.lt_succ_iff_lt_or_eq.mp hk with hlt | rfl
        · exact hbefore k hlt
        · exact hstops
      have hnone := hrounds 0
      rw [Nat.zero_add, hreturn] at hnone
      cases hnone
  · rintro ⟨hfirst, rfl⟩
    exact h.returnsIn hfirst

/-- A search does not return exactly if it stops nowhere. -/
theorem not_returns_iff (h : Searches step state result Stops) :
    (∀ fuel, whileLoop step fuel (state 0) = none) ↔ ∀ k, ¬Stops k := by
  refine ⟨fun hnone k hstops => ?_, h.not_returns⟩
  obtain ⟨n, -, hfirst⟩ := exists_isFirst hstops
  have hreturn := (h.returnsIn hfirst).2
  rw [hnone] at hreturn
  cases hreturn

end Searches

end Csci6780
