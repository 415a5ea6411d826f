import Mathlib.Order.Basic

/-!
# Measures that never fall

A computation with a state, which may fail, under which a measure of the state never falls. The
rules follow the way in which a computation is built up, so that a measure is checked where the
state is changed and nowhere else.
-/

universe u v w

variable {σ : Type u} {ε : Type v} {α β : Type u} {γ : Type w} [Preorder γ] {f : σ → γ}

/-- If the computation comes to its end, the measure has not fallen. -/
def Grows (f : σ → γ) (x : StateT σ (Except ε) α) : Prop :=
  ∀ s a s', x s = .ok (a, s') → f s ≤ f s'

namespace Grows

theorem pure (a : α) : Grows f (Pure.pure a : StateT σ (Except ε) α) := by
  intro s b s' h
  obtain ⟨-, rfl⟩ := Prod.mk.inj (Except.ok.inj h)
  exact le_rfl

theorem throw (e : ε) : Grows f (MonadExcept.throw e : StateT σ (Except ε) α) := by
  intro s a s' h
  exact absurd h (by rintro ⟨⟩)

theorem bind {x : StateT σ (Except ε) α} {g : α → StateT σ (Except ε) β} (hx : Grows f x)
    (hg : ∀ a, Grows f (g a)) : Grows f (x >>= g) := by
  intro s b s' h
  change (x s >>= fun r ↦ g r.1 r.2) = _ at h
  cases hxs : x s with
  | error e =>
    rw [hxs] at h
    exact absurd h (by rintro ⟨⟩)
  | ok r =>
    obtain ⟨a, s₁⟩ := r
    rw [hxs] at h
    exact (hx s a s₁ hxs).trans (hg a s₁ b s' h)

theorem ite {c : Prop} [Decidable c] {x y : StateT σ (Except ε) α} (hx : Grows f x)
    (hy : Grows f y) : Grows f (if c then x else y) := by
  split
  · exact hx
  · exact hy

end Grows
