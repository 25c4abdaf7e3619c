import Mathlib.Algebra.Ring.Nat
import Mathlib.Data.List.Infix
import Mathlib.Tactic.Common

/-!
# Runs of a System

A system is a function `step`: from a state, an action leads to one state, or cannot be taken
(`none`). A server that handles requests one after another is such a system, with the requests
and what its surroundings answer as actions; so are several threads over shared state, with the
name of the thread that goes next in the action.

A property of a run is one of its states (`EachState`) or of its steps, seen from the state
before the step (`EachStep`). A safety theorem is `EachState`; the condition under which a
program keeps it is `EachStep`.

## Main results

* `EachState.of_inv`: the invariant rule, and `history_inv` for an invariant that also speaks of
  what has happened.
* `runFrom_collect`: a system whose steps are runs of another one refines it.
* `runFrom_simulates`: a system whose steps are matched by runs of another one shows nothing that
  the other does not show.
* `collect_fifo`: a system whose steps let things out in the order in which they came in does so in
  every run.
* `eachState_iff_eachStep`: when one step keeps a property exactly under a condition, a run has
  it everywhere exactly when all its steps meet the condition.
* `runFrom_length_le`: a run whose steps do some of the work that is left comes to an end.
* `EachState.of_inv_total`: the invariant rule for a system in which every action can be taken.
-/

namespace Csci6780

variable {σ α : Type}

/-- The state in which the actions end. -/
def runFrom (step : σ → α → Option σ) : σ → List α → Option σ
  | s, [] => some s
  | s, a :: as => (step s a).bind fun s' => runFrom step s' as

variable {step : σ → α → Option σ}

theorem runFrom_cons {s s' : σ} {a : α} (h : step s a = some s') (as : List α) :
    runFrom step s (a :: as) = runFrom step s' as := by
  rw [runFrom, h, Option.bind_some]

theorem runFrom_singleton (s : σ) (a : α) : runFrom step s [a] = step s a := by
  rw [runFrom]
  cases step s a <;> rfl

/-- A run is cut anywhere. -/
theorem runFrom_append (s : σ) (as bs : List α) :
    runFrom step s (as ++ bs) = (runFrom step s as).bind fun m => runFrom step m bs := by
  induction as generalizing s with
  | nil => rfl
  | cons a as ih =>
      rw [List.cons_append, runFrom, runFrom]
      cases step s a with
      | none => rfl
      | some m => exact ih m

/-- The two halves of a run, and the state between them. -/
theorem runFrom_append_eq_some {s s' : σ} {as bs : List α}
    (h : runFrom step s (as ++ bs) = some s') :
    ∃ m, runFrom step s as = some m ∧ runFrom step m bs = some s' := by
  rw [runFrom_append] at h
  exact Option.bind_eq_some_iff.mp h

/-- The first step of a run. -/
theorem runFrom_cons_eq_some {s s' : σ} {a : α} {as : List α}
    (h : runFrom step s (a :: as) = some s') :
    ∃ m, step s a = some m ∧ runFrom step m as = some s' := by
  rw [runFrom] at h
  exact Option.bind_eq_some_iff.mp h

/-- Every state of the run, the first and the last included, has `Q`. -/
def EachState (step : σ → α → Option σ) (Q : σ → Prop) (s : σ) (as : List α) : Prop :=
  ∀ pre m, pre <+: as → runFrom step s pre = some m → Q m

/-- Every action of the run meets `P` in the state in which it is taken. -/
def EachStep (step : σ → α → Option σ) (P : σ → α → Prop) (s : σ) (as : List α) : Prop :=
  ∀ pre a m, pre ++ [a] <+: as → runFrom step s pre = some m → P m a

variable {P : σ → α → Prop} {Q : σ → Prop}

theorem EachState.first {s : σ} {as : List α} (h : EachState step Q s as) : Q s :=
  h [] s List.nil_prefix rfl

theorem EachState.last {s s' : σ} {as : List α} (h : EachState step Q s as)
    (hrun : runFrom step s as = some s') : Q s' :=
  h as s' (List.prefix_refl as) hrun

theorem EachState.tail {s m : σ} {a : α} {as : List α} (h : EachState step Q s (a :: as))
    (hstep : step s a = some m) : EachState step Q m as := by
  intro pre m' hpre hm'
  exact h (a :: pre) m' (List.cons_prefix_cons.mpr ⟨rfl, hpre⟩)
    ((runFrom_cons hstep pre).trans hm')

theorem EachState.cons {s : σ} {a : α} {as : List α} (hs : Q s)
    (h : ∀ m, step s a = some m → EachState step Q m as) :
    EachState step Q s (a :: as) := by
  intro pre m hpre hm
  cases pre with
  | nil => exact Option.some.inj hm ▸ hs
  | cons b pre =>
      obtain ⟨rfl, htail⟩ := List.cons_prefix_cons.mp hpre
      obtain ⟨m', hstep, hm⟩ := runFrom_cons_eq_some hm
      exact h m' hstep pre m htail hm

theorem EachState.mono {R : σ → Prop} {s : σ} {as : List α} (h : EachState step Q s as)
    (himp : ∀ m, Q m → R m) : EachState step R s as :=
  fun pre m hpre hm => himp m (h pre m hpre hm)

theorem EachState.and {R : σ → Prop} {s : σ} {as : List α} (hq : EachState step Q s as)
    (hr : EachState step R s as) : EachState step (fun m => Q m ∧ R m) s as :=
  fun pre m hpre hm => ⟨hq pre m hpre hm, hr pre m hpre hm⟩

theorem EachStep.first {s : σ} {a : α} {as : List α} (h : EachStep step P s (a :: as)) :
    P s a :=
  h [] a s (List.cons_prefix_cons.mpr ⟨rfl, List.nil_prefix⟩) rfl

theorem EachStep.tail {s m : σ} {a : α} {as : List α} (h : EachStep step P s (a :: as))
    (hstep : step s a = some m) : EachStep step P m as := by
  intro pre b m' hpre hm'
  exact h (a :: pre) b m' (List.cons_prefix_cons.mpr ⟨rfl, hpre⟩)
    ((runFrom_cons hstep pre).trans hm')

theorem EachStep.cons {s : σ} {a : α} {as : List α} (hs : P s a)
    (h : ∀ m, step s a = some m → EachStep step P m as) : EachStep step P s (a :: as) := by
  intro pre b m hpre hm
  cases pre with
  | nil =>
      obtain ⟨rfl, -⟩ := List.cons_prefix_cons.mp hpre
      exact Option.some.inj hm ▸ hs
  | cons c pre =>
      obtain ⟨rfl, htail⟩ := List.cons_prefix_cons.mp hpre
      obtain ⟨m', hstep, hm⟩ := runFrom_cons_eq_some hm
      exact h m' hstep pre b m htail hm

theorem EachStep.nil (s : σ) : EachStep step P s [] := by
  intro pre a m hpre _
  exact absurd (List.prefix_nil.mp hpre) (List.append_ne_nil_of_right_ne_nil _ (by simp))

/-- What holds of every action holds of every step. -/
theorem EachStep.of_forall {p : α → Prop} (s : σ) {as : List α} (h : ∀ a ∈ as, p a) :
    EachStep step (fun _ a => p a) s as :=
  fun pre a _ hpre _ => h a (hpre.subset (List.mem_append_right pre (List.mem_singleton_self a)))

theorem EachState.nil {s : σ} (h : Q s) : EachState step Q s [] := by
  intro pre m hpre hm
  obtain rfl := List.prefix_nil.mp hpre
  exact Option.some.inj hm ▸ h

/-- Check the steps of a run, one after the other. -/
def checkSteps (step : σ → α → Option σ) (p : σ → α → Bool) : σ → List α → Bool
  | _, [] => true
  | s, a :: as => p s a && (step s a).all fun m => checkSteps step p m as

/-- **A run's condition can be computed.** -/
theorem eachStep_iff_checkSteps [∀ m a, Decidable (P m a)] (s : σ) (as : List α) :
    checkSteps step (fun m a => decide (P m a)) s as = true ↔ EachStep step P s as := by
  induction as generalizing s with
  | nil => exact iff_of_true rfl (.nil s)
  | cons a as ih =>
      rw [checkSteps, Bool.and_eq_true, decide_eq_true_iff]
      constructor
      · rintro ⟨hs, hrest⟩
        refine .cons hs fun m hm => (ih m).mp ?_
        rw [hm] at hrest
        exact hrest
      · intro h
        refine ⟨h.first, ?_⟩
        cases hm : step s a with
        | none => rfl
        | some m => exact (ih m).mpr (h.tail hm)

instance [∀ m a, Decidable (P m a)] (s : σ) (as : List α) : Decidable (EachStep step P s as) :=
  decidable_of_iff _ (eachStep_iff_checkSteps s as)

/-- Some action of the run meets `P` in the state in which it is taken. -/
def SomeStep (step : σ → α → Option σ) (P : σ → α → Prop) (s : σ) (as : List α) : Prop :=
  ∃ pre a m, pre ++ [a] <+: as ∧ runFrom step s pre = some m ∧ P m a

theorem not_someStep_nil (s : σ) : ¬SomeStep step P s [] := by
  rintro ⟨pre, a, m, hpre, -⟩
  exact absurd (List.prefix_nil.mp hpre) (List.append_ne_nil_of_right_ne_nil _ (by simp))

/-- A run goes on from each of its actions. -/
theorem runFrom_after {s s' m : σ} {as pre : List α} {a : α} (hrun : runFrom step s as = some s')
    (hpre : pre ++ [a] <+: as) (hm : runFrom step s pre = some m) :
    ∃ m' rest, step m a = some m' ∧ runFrom step s (pre ++ [a]) = some m' ∧
      pre ++ [a] ++ rest = as ∧ runFrom step m' rest = some s' := by
  obtain ⟨rest, rfl⟩ := hpre
  obtain ⟨m', hm', hrest⟩ := runFrom_append_eq_some hrun
  have hstep := hm'
  rw [runFrom_append, hm, Option.bind_some, runFrom_singleton] at hstep
  exact ⟨m', rest, hstep, hm', rfl, hrest⟩

/-- The last action of a run is a step of it. -/
theorem someStep_concat {s m : σ} {as : List α} (hm : runFrom step s as = some m) (a : α) :
    SomeStep step P s (as ++ [a]) ↔ SomeStep step P s as ∨ P m a := by
  constructor
  · rintro ⟨pre, b, m', hpre, hm', hP⟩
    rcases List.prefix_concat_iff.mp hpre with heq | hpre
    · obtain ⟨rfl, hb⟩ := List.append_inj' heq rfl
      obtain rfl := List.singleton_inj.mp hb
      obtain rfl : m' = m := Option.some.inj (hm'.symm.trans hm)
      exact .inr hP
    · exact .inl ⟨pre, b, m', hpre, hm', hP⟩
  · rintro (⟨pre, b, m', hpre, hm', hP⟩ | hP)
    · exact ⟨pre, b, m', hpre.trans (List.prefix_append as [a]), hm', hP⟩
    · exact ⟨as, a, m, List.prefix_refl _, hm, hP⟩

instance [∀ m a, Decidable (P m a)] (s : σ) (as : List α) : Decidable (SomeStep step P s as) :=
  decidable_of_iff (¬EachStep step (fun m a => ¬P m a) s as) (by
    rw [EachStep, SomeStep]
    constructor
    · intro h
      by_contra hnot
      exact h fun pre a m hpre hm hP => hnot ⟨pre, a, m, hpre, hm, hP⟩
    · rintro ⟨pre, a, m, hpre, hm, hP⟩ h
      exact h pre a m hpre hm hP)

theorem decide_someStep_concat {p : σ → α → Bool} {s m : σ} {as : List α}
    (hm : runFrom step s as = some m) (a : α) :
    decide (SomeStep step (fun m a => p m a = true) s (as ++ [a])) =
      (decide (SomeStep step (fun m a => p m a = true) s as) || p m a) := by
  rw [Bool.eq_iff_iff, decide_eq_true_iff, Bool.or_eq_true, decide_eq_true_iff]
  exact someStep_concat hm a

/-- **The invariant rule with histories.** What holds of the empty history and the start, and is
kept when a history is extended by a step that meets the condition, holds of every run whose steps
meet it. -/
theorem history_inv_of {s s' : σ} {as : List α} (Inv : List α → σ → Prop) (h0 : Inv [] s)
    (hkeep : ∀ pre m a m', runFrom step s pre = some m → Inv pre m → P m a →
      step m a = some m' → Inv (pre ++ [a]) m')
    (hP : ∀ pre a m, pre ++ [a] <+: as → runFrom step s pre = some m → P m a)
    (hrun : runFrom step s as = some s') : Inv as s' := by
  induction as using List.reverseRecOn generalizing s' with
  | nil => exact Option.some.inj hrun ▸ h0
  | append_singleton as a ih =>
      obtain ⟨m, hm, hstep⟩ := runFrom_append_eq_some hrun
      rw [runFrom_singleton] at hstep
      have hbefore : Inv as m :=
        ih (fun pre b n hpre => hP pre b n (hpre.trans (List.prefix_append as [a]))) hm
      exact hkeep as m a s' hm hbefore (hP as a m (List.prefix_refl _) hm) hstep

/-- The invariant rule with histories, for steps without a condition. -/
theorem history_inv {s s' : σ} {as : List α} (Inv : List α → σ → Prop) (h0 : Inv [] s)
    (hkeep : ∀ pre m a m', runFrom step s pre = some m → Inv pre m → step m a = some m' →
      Inv (pre ++ [a]) m')
    (hrun : runFrom step s as = some s') : Inv as s' :=
  history_inv_of (P := fun _ _ => True) Inv h0
    (fun pre m a m' hm hbefore _ => hkeep pre m a m' hm hbefore) (fun _ _ _ _ _ => trivial) hrun

/-- What the steps of a run bring about, in order. -/
def collect {β : Type} (step : σ → α → Option σ) (f : σ → α → List β) : σ → List α → List β
  | _, [] => []
  | s, a :: as => f s a ++ (step s a).elim [] fun m => collect step f m as

/-- What a run brings about is cut where the run is. -/
theorem collect_append {β : Type} {f : σ → α → List β} {s m : σ} {as : List α}
    (hm : runFrom step s as = some m) (bs : List α) :
    collect step f s (as ++ bs) = collect step f s as ++ collect step f m bs := by
  induction as generalizing s with
  | nil =>
      obtain rfl : s = m := Option.some.inj hm
      rfl
  | cons a as ih =>
      obtain ⟨m', hstep, hm⟩ := runFrom_cons_eq_some hm
      rw [List.cons_append, collect, collect, hstep, Option.elim_some, Option.elim_some, ih hm,
        List.append_assoc]

theorem collect_concat {β : Type} {f : σ → α → List β} {s m : σ} {as : List α}
    (hm : runFrom step s as = some m) (a : α) :
    collect step f s (as ++ [a]) = collect step f s as ++ f m a := by
  rw [collect_append hm, collect]
  cases step m a <;> simp [collect]

/-- A run none of whose steps brings anything about. -/
theorem collect_eq_nil {β : Type} {f : σ → α → List β} {s : σ} {as : List α}
    (h : EachStep step (fun m a => f m a = []) s as) : collect step f s as = [] := by
  induction as generalizing s with
  | nil => rfl
  | cons a as ih =>
      rw [collect, h.first, List.nil_append]
      cases hm : step s a with
      | none => rfl
      | some m => exact ih (h.tail hm)

/-- **The simulation rule.** When every step is a run of another system, on what the states have in
common, so is every run. -/
theorem runFrom_collect {τ β : Type} {step' : τ → β → Option τ} {abs : σ → τ} {f : σ → α → List β}
    (hsim : ∀ m a m', step m a = some m' → runFrom step' (abs m) (f m a) = some (abs m'))
    {s s' : σ} {as : List α} (hrun : runFrom step s as = some s') :
    runFrom step' (abs s) (collect step f s as) = some (abs s') := by
  induction as generalizing s with
  | nil => exact congrArg (fun m => some (abs m)) (Option.some.inj hrun)
  | cons a as ih =>
      obtain ⟨m, hstep, hrun⟩ := runFrom_cons_eq_some hrun
      rw [collect, hstep, Option.elim_some, runFrom_append, hsim s a m hstep, Option.bind_some]
      exact ih hrun

/-- **The refinement rule.** When every step that meets the condition is a given run of another
system, so is every run. -/
theorem runFrom_refines {τ β : Type} {step' : τ → β → Option τ} {f : σ → α → List β}
    (R : σ → τ → Prop)
    (hsim : ∀ m n a m', R m n → P m a → step m a = some m' →
      ∃ n', runFrom step' n (f m a) = some n' ∧ R m' n')
    {s s' : σ} {t : τ} {as : List α} (h0 : R s t) (hP : EachStep step P s as)
    (hrun : runFrom step s as = some s') :
    ∃ t', runFrom step' t (collect step f s as) = some t' ∧ R s' t' := by
  induction as generalizing s t with
  | nil =>
      obtain rfl : s = s' := Option.some.inj hrun
      exact ⟨t, rfl, h0⟩
  | cons a as ih =>
      obtain ⟨m, hstep, hrun⟩ := runFrom_cons_eq_some hrun
      obtain ⟨n, hfirst, hn⟩ := hsim s t a m h0 hP.first hstep
      obtain ⟨t', hrest, ht'⟩ := ih hn (hP.tail hstep) hrun
      refine ⟨t', ?_, ht'⟩
      rw [collect, hstep, Option.elim_some, runFrom_append, hfirst, Option.bind_some, hrest]

/-- **The forward simulation rule.** When every step is matched by a run of another system that
brings the same things about, so is every run. -/
theorem runFrom_simulates {τ β γ : Type} {step' : τ → β → Option τ} {f : σ → α → List γ}
    {g : τ → β → List γ} (R : σ → τ → Prop)
    (hsim : ∀ m n a m', R m n → step m a = some m' →
      ∃ bs n', runFrom step' n bs = some n' ∧ R m' n' ∧ collect step' g n bs = f m a)
    {s s' : σ} {t : τ} {as : List α} (h0 : R s t) (hrun : runFrom step s as = some s') :
    ∃ bs t', runFrom step' t bs = some t' ∧ R s' t' ∧
      collect step' g t bs = collect step f s as := by
  induction as generalizing s t with
  | nil =>
      obtain rfl : s = s' := Option.some.inj hrun
      exact ⟨[], t, rfl, h0, rfl⟩
  | cons a as ih =>
      obtain ⟨m, hstep, hrun⟩ := runFrom_cons_eq_some hrun
      obtain ⟨bs, n, hbs, hn, hfirst⟩ := hsim s t a m h0 hstep
      obtain ⟨cs, t', hcs, ht', hrest⟩ := ih hn hrun
      refine ⟨bs ++ cs, t', ?_, ht', ?_⟩
      · rw [runFrom_append, hbs, Option.bind_some, hcs]
      · rw [collect_append hbs, hfirst, hrest, collect, hstep, Option.elim_some]

/-- **The rule of first in, first out.** When every step that meets the condition lets out the first
of what is held, and adds what it takes in at the end, what a run lets out and what is held then are
what was held and what the run took in. -/
theorem collect_fifo {β : Type} {f g : σ → α → List β} (Holds : σ → List β → Prop)
    (hkeep : ∀ m xs a m', Holds m xs → P m a → step m a = some m' →
      ∃ ys, Holds m' ys ∧ xs ++ f m a = g m a ++ ys)
    {s s' : σ} {xs : List β} {as : List α} (h0 : Holds s xs) (hP : EachStep step P s as)
    (hrun : runFrom step s as = some s') :
    ∃ ys, Holds s' ys ∧ xs ++ collect step f s as = collect step g s as ++ ys := by
  induction as generalizing s xs with
  | nil =>
      obtain rfl : s = s' := Option.some.inj hrun
      exact ⟨xs, h0, List.append_nil xs⟩
  | cons a as ih =>
      obtain ⟨m, hstep, hrun⟩ := runFrom_cons_eq_some hrun
      obtain ⟨ys, hm, hfirst⟩ := hkeep s xs a m h0 hP.first hstep
      obtain ⟨zs, hs', hrest⟩ := ih hm (hP.tail hstep) hrun
      refine ⟨zs, hs', ?_⟩
      rw [collect, collect, hstep, Option.elim_some, Option.elim_some, ← List.append_assoc, hfirst,
        List.append_assoc, hrest, List.append_assoc]

/-- What holds of the parts of a run holds of the run. -/
theorem EachStep.append {s : σ} {as bs : List α} (h : EachStep step P s as)
    (hrest : ∀ m, runFrom step s as = some m → EachStep step P m bs) :
    EachStep step P s (as ++ bs) := by
  induction as generalizing s with
  | nil => exact hrest s rfl
  | cons a as ih =>
      refine .cons h.first fun m hm => ih (h.tail hm) fun m' hm' => hrest m' ?_
      exact (runFrom_cons hm as).trans hm'

/-- What holds of every run holds of the part of it up to a cut. -/
theorem EachStep.left {s : σ} {as bs : List α} (h : EachStep step P s (as ++ bs)) :
    EachStep step P s as :=
  fun pre a m hpre hm => h pre a m (hpre.trans (List.prefix_append as bs)) hm

/-- What holds of every run holds of the part of it after a cut. -/
theorem EachStep.right {s m : σ} {as bs : List α} (h : EachStep step P s (as ++ bs))
    (hm : runFrom step s as = some m) : EachStep step P m bs := by
  intro pre a m' hpre hm'
  refine h (as ++ pre) a m' ?_ ?_
  · rw [List.append_assoc]
    exact (List.prefix_append_right_inj as).mpr hpre
  · rw [runFrom_append, hm]
    exact hm'

/-- What holds in every state holds after every step. -/
theorem EachState.next {s : σ} {as : List α} (h : EachState step Q s as) :
    EachStep step (fun m a => ∀ m', step m a = some m' → Q m') s as := by
  intro pre a m hpre hm m' hstep
  refine h (pre ++ [a]) m' hpre ?_
  rw [runFrom_append, hm, Option.bind_some, runFrom_singleton, hstep]

/-- What holds in every state of a run holds in those after a cut. -/
theorem EachState.right {s m : σ} {as bs : List α} (h : EachState step Q s (as ++ bs))
    (hm : runFrom step s as = some m) : EachState step Q m bs := by
  intro pre m' hpre hm'
  refine h (as ++ pre) m' ((List.prefix_append_right_inj as).mpr hpre) ?_
  rw [runFrom_append, hm]
  exact hm'

theorem EachStep.and {R : σ → α → Prop} {s : σ} {as : List α} (hp : EachStep step P s as)
    (hr : EachStep step R s as) : EachStep step (fun m a => P m a ∧ R m a) s as :=
  fun pre a m hpre hm => ⟨hp pre a m hpre hm, hr pre a m hpre hm⟩

/-- **The invariant rule.** What holds at the start and is kept by every step that meets the
condition holds in every state of a run whose steps meet it. -/
theorem EachState.of_inv {s : σ} {as : List α} (Inv : σ → Prop)
    (hkeep : ∀ m a m', Inv m → P m a → step m a = some m' → Inv m') (h0 : Inv s)
    (hP : EachStep step P s as) : EachState step Inv s as := by
  induction as generalizing s with
  | nil => exact .nil h0
  | cons a as ih =>
      refine .cons h0 fun m hm => ?_
      exact ih (hkeep s a m h0 hP.first hm) (hP.tail hm)

/-- The invariant rule for a step that keeps the invariant without a condition. -/
theorem EachState.of_inv_always {s : σ} (Inv : σ → Prop)
    (hkeep : ∀ m a m', Inv m → step m a = some m' → Inv m') (h0 : Inv s) (as : List α) :
    EachState step Inv s as :=
  EachState.of_inv (P := fun _ _ => True) Inv (fun m a m' hm _ => hkeep m a m' hm) h0
    fun _ _ _ _ _ => trivial

/-- A property that no step makes true again, once it is lost, holds all along a run that ends
with it. -/
theorem EachState.of_back {s s' : σ} {as : List α} (hrun : runFrom step s as = some s')
    (hback : ∀ m a m', step m a = some m' → Q m' → Q m) (h : Q s') :
    EachState step Q s as := by
  induction as generalizing s with
  | nil =>
      obtain rfl : s = s' := Option.some.inj hrun
      exact .nil h
  | cons a as ih =>
      obtain ⟨m, hm, hrun⟩ := runFrom_cons_eq_some hrun
      have hrest := ih hrun
      refine .cons (hback s a m hm hrest.first) fun m' hm' => ?_
      obtain rfl : m = m' := Option.some.inj (hm.symm.trans hm')
      exact hrest

/-- **Exactly when.** If, in the states with `Inv` and `Q`, one step keeps `Q` exactly when it
meets `P`, then a run has `Q` in every state exactly when every step meets `P`. -/
theorem eachState_iff_eachStep {s s' : σ} {as : List α} {Ok : σ → α → Prop} (Inv : σ → Prop)
    (hkeep : ∀ m a m', Inv m → Ok m a → step m a = some m' → Inv m')
    (hiff : ∀ m a m', Inv m → Q m → Ok m a → step m a = some m' → (Q m' ↔ P m a))
    (h0 : Inv s) (hq : Q s) (hok : EachStep step Ok s as)
    (hrun : runFrom step s as = some s') :
    EachState step Q s as ↔ EachStep step P s as := by
  induction as generalizing s with
  | nil => exact ⟨fun _ => .nil s, fun _ => .nil hq⟩
  | cons a as ih =>
      obtain ⟨m, hm, hrun⟩ := runFrom_cons_eq_some hrun
      have hok1 := hok.first
      have hone := hiff s a m h0 hq hok1 hm
      have hm_only : ∀ m', step s a = some m' → m' = m :=
        fun m' hm' => Option.some.inj (hm'.symm.trans hm)
      constructor
      · intro hstates
        have hqm : Q m := (hstates.tail hm).first
        have hrest := ih (hkeep s a m h0 hok1 hm) hqm (hok.tail hm) hrun
        refine .cons (hone.mp hqm) fun m' hm' => ?_
        obtain rfl := hm_only m' hm'
        exact hrest.mp (hstates.tail hm)
      · intro hsteps
        have hqm : Q m := hone.mpr hsteps.first
        have hrest := ih (hkeep s a m h0 hok1 hm) hqm (hok.tail hm) hrun
        refine .cons hq fun m' hm' => ?_
        obtain rfl := hm_only m' hm'
        exact hrest.mpr (hsteps.tail hm)

/-- The same where one step brings `Q` about exactly when it meets `P`, whether `Q` held before it
or not. -/
theorem eachState_iff_first_and_eachStep {s s' : σ} {as : List α} (Inv : σ → Prop)
    (hkeep : ∀ m a m', Inv m → step m a = some m' → Inv m')
    (hiff : ∀ m a m', Inv m → step m a = some m' → (Q m' ↔ P m a)) (h0 : Inv s)
    (hrun : runFrom step s as = some s') :
    EachState step Q s as ↔ Q s ∧ EachStep step P s as := by
  have hiff_of_first : Q s → (EachState step Q s as ↔ EachStep step P s as) := fun hq =>
    eachState_iff_eachStep Inv (fun m a m' hm _ => hkeep m a m' hm)
      (fun m a m' hm _ _ => hiff m a m' hm) h0 hq
      (EachStep.of_forall (p := fun _ => True) s fun _ _ => trivial) hrun
  constructor
  · exact fun h => ⟨h.first, (hiff_of_first h.first).mp h⟩
  · exact fun h => (hiff_of_first h.1).mpr h.2

/-! ### Runs that come to an end -/

/-- **The work rule.** When every step that meets the condition does some of the work that is left,
but for what it renews, a run is no longer than the work at the start and what its steps renew. -/
theorem runFrom_length_le {β : Type} {f : σ → α → List β} {s s' : σ} {as : List α} {k : ℕ}
    (Inv : σ → Prop) (work : σ → ℕ) (hkeep : ∀ m a m', Inv m → P m a → step m a = some m' → Inv m')
    (hwork : ∀ m a m', Inv m → P m a → step m a = some m' →
      work m' + 1 ≤ work m + k * (f m a).length)
    (h0 : Inv s) (hP : EachStep step P s as) (hrun : runFrom step s as = some s') :
    as.length + work s' ≤ work s + k * (collect step f s as).length := by
  induction as generalizing s with
  | nil =>
      obtain rfl : s = s' := Option.some.inj hrun
      exact Nat.le_of_eq (Nat.zero_add _)
  | cons a as ih =>
      obtain ⟨m, hstep, hrun⟩ := runFrom_cons_eq_some hrun
      have hfirst := hwork s a m h0 hP.first hstep
      have hrest := ih (hkeep s a m h0 hP.first hstep) (hP.tail hstep) hrun
      rw [collect, hstep, Option.elim_some, List.length_append, Nat.mul_add, List.length_cons]
      omega

/-! ### Systems in which every action can be taken -/

variable {next : σ → α → σ}

theorem runFrom_total (hnext : ∀ m a, step m a = some (next m a)) (s : σ) (as : List α) :
    runFrom step s as = some (as.foldl next s) := by
  induction as generalizing s with
  | nil => rfl
  | cons a as ih => rw [runFrom_cons (hnext s a), ih, List.foldl_cons]

/-- The invariant rule for such a system. -/
theorem EachState.of_inv_total (hnext : ∀ m a, step m a = some (next m a)) {s : σ} {as : List α}
    (Inv : σ → Prop) (hkeep : ∀ m a, Inv m → P m a → Inv (next m a)) (h0 : Inv s)
    (hP : EachStep step P s as) : EachState step Inv s as := by
  refine .of_inv Inv (fun m a m' hm hp hstep => ?_) h0 hP
  obtain rfl : next m a = m' := Option.some.inj ((hnext m a).symm.trans hstep)
  exact hkeep m a hm hp

end Csci6780
