import Mathlib.Tactic.Common

/-!
# Things in One Place

Things lie in places, and each thing has a key. When two things with one key are always one thing in
one place, a key is enough to find a thing, and a thing that is moved leaves nothing with its key
behind.

## Main results

* `Exclusive.of_moved`: a thing comes to a place, and nothing else has its key.
-/

namespace Csci6780

variable {π ι κ : Type} {key : ι → κ} {holds holds' : π → ι → Prop} {p q : π} {x y : ι}

/-- Two things with one key are one thing, in one place. -/
def Exclusive (key : ι → κ) (holds : π → ι → Prop) : Prop :=
  ∀ ⦃p q x y⦄, holds p x → holds q y → key x = key y → p = q ∧ x = y

/-- `x` has come to `p`; whatever lies anywhere else was there before, and has another key. -/
def Moved (key : ι → κ) (holds holds' : π → ι → Prop) (p : π) (x : ι) : Prop :=
  ∀ ⦃q y⦄, holds' q y → (q = p ∧ y = x) ∨ (holds q y ∧ key y ≠ key x)

/-- Nothing has come anywhere. -/
theorem Exclusive.mono (h : Exclusive key holds) (hsub : ∀ ⦃p x⦄, holds' p x → holds p x) :
    Exclusive key holds' :=
  fun _ _ _ _ hx hy heq => h (hsub hx) (hsub hy) heq

/-- What is another thing, or lies in another place, has another key. -/
theorem Exclusive.key_ne (h : Exclusive key holds) (hx : holds p x) (hy : holds q y)
    (hne : q ≠ p ∨ y ≠ x) : key y ≠ key x := by
  intro heq
  obtain ⟨rfl, rfl⟩ := h hy hx heq
  exact hne.elim (absurd rfl) (absurd rfl)

/-- **A thing comes to a place**, from another one or from nowhere. -/
theorem Exclusive.of_moved (h : Exclusive key holds) (hmoved : Moved key holds holds' p x) :
    Exclusive key holds' := by
  intro q r y z hy hz heq
  rcases hmoved hy with ⟨rfl, rfl⟩ | ⟨hy, hyne⟩
  · rcases hmoved hz with ⟨rfl, rfl⟩ | ⟨-, hzne⟩
    · exact ⟨rfl, rfl⟩
    · exact absurd heq.symm hzne
  · rcases hmoved hz with ⟨-, rfl⟩ | ⟨hz, -⟩
    · exact absurd heq hyne
    · exact h hy hz heq

/-- A thing leaves its place for another one. -/
theorem Exclusive.moved (h : Exclusive key holds) {x' : ι} {p' : π} (hx : holds p x)
    (hkey : key x' = key x)
    (hholds : ∀ ⦃q y⦄, holds' q y → (q = p' ∧ y = x') ∨ (holds q y ∧ (q ≠ p ∨ y ≠ x))) :
    Moved key holds holds' p' x' := by
  intro q y hy
  rcases hholds hy with hhere | ⟨hy, hne⟩
  · exact .inl hhere
  · exact .inr ⟨hy, hkey ▸ h.key_ne hx hy hne⟩

end Csci6780
