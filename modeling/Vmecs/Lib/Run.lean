import Mathlib.Data.List.Basic

/-!
# Runs

A system is a relation between a state, an event and the next state. A run is a sequence of steps,
with its events in order; what has been observed in it is what its events say. So an invariant of a
run speaks of the events so far and the state they have led to, and is shown by one induction
(`Run.invariant`). `Run.invariant_of_forall` is the same for the runs all of whose steps satisfy a
condition on the events before, the state and the event.
-/

universe u v

/-- A run from one state to another. -/
inductive Run {σ : Type u} {ε : Type v} (step : σ → ε → σ → Prop) (s : σ) : List ε → σ → Prop where
  | nil : Run step s [] s
  | snoc {es s' e s''} (h : Run step s es s') (he : step s' e s'') : Run step s (es ++ [e]) s''

namespace Run

variable {σ : Type u} {ε : Type v} {step : σ → ε → σ → Prop} {s s' : σ} {es : List ε}

theorem trans {es' : List ε} {s'' : σ} (h : Run step s es s') (h' : Run step s' es' s'') :
    Run step s (es ++ es') s'' := by
  induction h' with
  | nil => rwa [List.append_nil]
  | snoc _ he ih => exact List.append_assoc es _ _ ▸ ih.snoc he

theorem cons {e : ε} {s'' : σ} (he : step s e s') (h : Run step s' es s'') :
    Run step s (e :: es) s'' :=
  (nil.snoc he).trans h

/-- The steps of a run may say less. -/
theorem mono {step' : σ → ε → σ → Prop} (h : Run step s es s')
    (hstep : ∀ s₁ e s₂, step s₁ e s₂ → step' s₁ e s₂) : Run step' s es s' := by
  induction h with
  | nil => exact .nil
  | snoc _ he ih => exact ih.snoc (hstep _ _ _ he)

/-- **Invariants**: what holds at first and is kept by every step holds at the end. -/
theorem invariant {I : List ε → σ → Prop} (h : Run step s es s') (hinit : I [] s)
    (hstep : ∀ es s₁ e s₂, I es s₁ → step s₁ e s₂ → I (es ++ [e]) s₂) : I es s' := by
  induction h with
  | nil => exact hinit
  | snoc _ he ih => exact hstep _ _ _ _ ih he

/-- Every event of a run is that of a step. -/
theorem exists_step_of_mem (h : Run step s es s') {e : ε} (he : e ∈ es) :
    ∃ s₁ s₂, step s₁ e s₂ := by
  induction h with
  | nil => exact absurd he List.not_mem_nil
  | snoc _ hstep ih =>
    rcases List.mem_append.1 he with he | he
    · exact ih he
    · exact List.mem_singleton.1 he ▸ ⟨_, _, hstep⟩

/-- All steps of a run satisfy a condition on the events before and the event. -/
def Forall (cond : List ε → ε → Prop) (es : List ε) : Prop :=
  ∀ es₁ e es₂, es = es₁ ++ e :: es₂ → cond es₁ e

theorem Forall.nil {cond : List ε → ε → Prop} : Forall cond [] := by
  intro es₁ e es₂ h
  exact absurd h (by simp)

theorem Forall.snoc {cond : List ε → ε → Prop} {e : ε} (h : Forall cond es) (he : cond es e) :
    Forall cond (es ++ [e]) := by
  intro es₁ e' es₂ heq
  rcases List.eq_nil_or_concat es₂ with rfl | ⟨es₃, e₃, rfl⟩
  · obtain ⟨rfl, heq'⟩ := List.append_inj' heq rfl
    obtain rfl := List.singleton_inj.1 heq'
    exact he
  · rw [List.concat_eq_append, ← List.cons_append, ← List.append_assoc] at heq
    exact h es₁ e' es₃ (List.append_inj' heq rfl).1

theorem Forall.left {cond : List ε → ε → Prop} {e : ε} (h : Forall cond (es ++ [e])) :
    Forall cond es := by
  rintro es₁ e' es₂ rfl
  exact h es₁ e' (es₂ ++ [e]) (by simp)

theorem Forall.last {cond : List ε → ε → Prop} {e : ε} (h : Forall cond (es ++ [e])) :
    cond es e := h es e [] rfl

/-- Invariants of the runs whose steps all satisfy a condition. -/
theorem invariant_of_forall {cond : List ε → ε → Prop} {I : List ε → σ → Prop}
    (h : Run step s es s') (hc : Forall cond es) (hinit : I [] s)
    (hstep : ∀ es s₁ e s₂, I es s₁ → cond es e → step s₁ e s₂ → I (es ++ [e]) s₂) : I es s' := by
  induction h with
  | nil => exact hinit
  | snoc _ he ih => exact hstep _ _ _ _ (ih hc.left) hc.last he

end Run
