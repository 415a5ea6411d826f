import Mathlib.Data.List.Basic
import Mathlib.Tactic.Common

/-!
# Recursive descent

A recursive descent parser takes tokens off the front of a list and gives a value, or does not
match. Alternatives are an ordered choice: the second is tried at the same position, and only if the
first does not match; once an alternative has matched, none of its parts is tried again.

`Within p D` is that what `p` takes is a word of the language `D`, whose words have values. Its
rules follow a parser through its sequences and choices: the language of what is still to come is
that of the whole with the words already taken put before it. The other direction, that a word is
taken whole, depends on what follows the word; there the rules `run_bind_of`, `run_orElse_left` and
`run_orElse_right` compute the run on a list of a known form.
-/

universe u

/-- A parser of tokens `τ`. -/
abbrev Descent (τ : Type u) : Type u → Type u := StateT (List τ) Option

namespace Descent

variable {τ α β : Type u}

/-- One token. -/
def term (t : τ → Bool) : Descent τ τ := fun
  | [] => none
  | tok :: l => if t tok then some (tok, l) else none

/-! ### Runs -/

section Runs

variable {p q : Descent τ α} {f : α → Descent τ β} {t : τ → Bool} {tok : τ} {a a' : α} {b : β}
  {l m r : List τ}

@[simp] theorem run_term_nil : (term t).run [] = none := rfl

theorem run_term_of (h : t tok = true) : (term t).run (tok :: l) = some (tok, l) := by
  simp [StateT.run, term, h]

theorem run_term_of_not (h : ∀ tok ∈ l.head?, t tok = false) : (term t).run l = none := by
  cases l with
  | nil => rfl
  | cons tok l => simp [StateT.run, term, h tok rfl]

theorem run_term_eq_some : (term t).run l = some (tok, r) ↔ t tok = true ∧ l = tok :: r := by
  cases l with
  | nil => simp
  | cons tok' l =>
    by_cases h : t tok' = true
    · rw [run_term_of h]
      grind
    · simp [StateT.run, term, h]
      grind

theorem run_bind_of (h : p.run l = some (a, m)) : (p >>= f).run l = (f a).run m := by
  rw [StateT.run_bind, h]
  rfl

theorem run_bind_none (h : p.run l = none) : (p >>= f).run l = none := by
  rw [StateT.run_bind, h]
  rfl

theorem run_bind_eq_some : (p >>= f).run l = some (b, r) ↔
    ∃ a m, p.run l = some (a, m) ∧ (f a).run m = some (b, r) := by
  rw [StateT.run_bind, Option.bind_eq_bind, Option.bind_eq_some_iff, Prod.exists]

theorem run_pure_eq_some : (pure a : Descent τ α).run l = some (a', r) ↔ a = a' ∧ l = r := by
  simp [StateT.run_pure]

theorem run_orElse_left (h : p.run l = some (a, r)) : (p <|> q).run l = some (a, r) := by
  rw [StateT.run_orElse, h]
  rfl

theorem run_orElse_right (h : p.run l = none) : (p <|> q).run l = q.run l := by
  rw [StateT.run_orElse, h]
  rfl

theorem run_orElse_eq_some : (p <|> q).run l = some (a, r) ↔
    p.run l = some (a, r) ∨ p.run l = none ∧ q.run l = some (a, r) := by
  rw [StateT.run_orElse]
  cases p.run l <;> simp [Option.orElse]

end Runs

/-! ### The words a parser takes -/

/-- What `p` takes is a word of `D`, with its value. -/
def Within (p : Descent τ α) (D : List τ → α → Prop) : Prop :=
  ∀ l a r, p.run l = some (a, r) → ∃ w, l = w ++ r ∧ D w a

section Within

variable {p q : Descent τ α} {f : α → Descent τ β} {t : τ → Bool} {a : α}
  {D D' : List τ → α → Prop} {E : List τ → β → Prop}

theorem Within.mono (h : Within p D) (hD : ∀ w a, D w a → D' w a) : Within p D' := by
  intro l a r hrun
  obtain ⟨w, hl, hw⟩ := h l a r hrun
  exact ⟨w, hl, hD w a hw⟩

theorem Within.term : Within (term t) fun w tok ↦ t tok = true ∧ w = [tok] := by
  intro l tok r hrun
  obtain ⟨ht, rfl⟩ := run_term_eq_some.1 hrun
  exact ⟨[tok], rfl, ht, rfl⟩

theorem Within.pure (h : D [] a) : Within (pure a) D := by
  intro l a' r hrun
  obtain ⟨rfl, rfl⟩ := run_pure_eq_some.1 hrun
  exact ⟨[], rfl, h⟩

theorem Within.failure : Within (failure : Descent τ α) D := by
  intro l a r hrun
  exact absurd hrun (by simp [StateT.run_failure])

/-- Once `p` has taken the word `w`, the rest has to complete it to a word of the whole. -/
theorem Within.bind (hp : Within p D) (hf : ∀ a w, D w a → Within (f a) fun w' b ↦ E (w ++ w') b) :
    Within (p >>= f) E := by
  intro l b r hrun
  obtain ⟨a, m, hpa, hfb⟩ := run_bind_eq_some.1 hrun
  obtain ⟨w, rfl, hw⟩ := hp l a m hpa
  obtain ⟨w', rfl, hw'⟩ := hf a w hw m b r hfb
  exact ⟨w ++ w', (List.append_assoc w w' r).symm, hw'⟩

theorem Within.orElse (hp : Within p D) (hq : Within q D) : Within (p <|> q) D := by
  intro l a r hrun
  rcases run_orElse_eq_some.1 hrun with h | ⟨-, h⟩
  · exact hp l a r h
  · exact hq l a r h

end Within

end Descent
