import Mathlib.Data.List.Basic
import Mathlib.Tactic.Common

/-!
# Scanners

A scanner cuts a text into tokens. It is an automaton that does one thing in each state at each
symbol (`Move`): it takes the symbol into the token it is reading, or ends this token with it or
before it, or goes to another state without having taken it.

The run of a scanner (`run`) is bounded by the number of its moves, since one that only changes its
state may go on for ever. What a scanner does is put together from stretches of known length
(`Reaches`): it takes a word into its token (`reaches_of_absorbs`), and ends the token in one of the
two ways (`AbsorbsAll.reaches_of_cut`, `AbsorbsAll.reaches_of_emit`). A run with moves enough for
the stretches ends as the last of them does (`run_of_reaches`).
-/

universe u

namespace Scanner

/-- A token: its class, and its text. -/
structure Lexeme (τ α : Type u) where
  token : τ
  str : List α
  deriving DecidableEq

/-- What a scanner does in a state at a symbol. -/
inductive Move (σ τ ε : Type u) where
  /-- takes the symbol -/
  | shift (next : σ)
  /-- takes the symbol as the last of the token -/
  | emit (token : τ) (next : σ)
  /-- ends the token before the symbol -/
  | cut (token : τ) (next : σ)
  /-- changes its state -/
  | stay (next : σ)
  /-- gives up -/
  | fail (err : ε)

variable {α σ τ ε : Type u}

/-- The texts of these tokens, put together. -/
def texts (toks : List (Lexeme τ α)) : List α := toks.flatMap (·.str)

@[simp] theorem texts_nil : texts ([] : List (Lexeme τ α)) = [] := rfl

@[simp] theorem texts_cons (tok : Lexeme τ α) (toks : List (Lexeme τ α)) :
    texts (tok :: toks) = tok.str ++ texts toks := rfl

@[simp] theorem texts_append (toks toks' : List (Lexeme τ α)) :
    texts (toks ++ toks') = texts toks ++ texts toks' := List.flatMap_append

/-- A scanner under way: its state, the tokens so far, what it has taken of the next one, and what
is still to come. -/
structure Config (α σ τ : Type u) where
  state : σ
  out : List (Lexeme τ α)
  pend : List α
  rest : List α

/-- What has been taken. -/
def Config.consumed (c : Config α σ τ) : List α := texts c.out ++ c.pend

/-- The run of a scanner: its tokens, or the error and its position; nothing at all after as many
moves as there is fuel. -/
def run (δ : σ → α → Move σ τ ε) :
    ℕ → Config α σ τ → Option (Except (ε × ℕ) (List (Lexeme τ α)))
  | 0, _ => none
  | fuel + 1, c =>
    match c.rest with
    | [] => some (.ok c.out)
    | a :: rest =>
      match δ c.state a with
      | .shift next => run δ fuel ⟨next, c.out, c.pend ++ [a], rest⟩
      | .emit token next => run δ fuel ⟨next, c.out ++ [⟨token, c.pend ++ [a]⟩], [], rest⟩
      | .cut token next => run δ fuel ⟨next, c.out ++ [⟨token, c.pend⟩], [], a :: rest⟩
      | .stay next => run δ fuel ⟨next, c.out, c.pend, a :: rest⟩
      | .fail err => some (.error (err, c.consumed.length))

/-! ### Stretches of a run -/

variable {δ : σ → α → Move σ τ ε}

/-- From one configuration to another in at most `k` moves. -/
def Reaches (δ : σ → α → Move σ τ ε) (k : ℕ) (c c' : Config α σ τ) : Prop :=
  ∃ n ≤ k, ∀ fuel, run δ (fuel + n) c = run δ fuel c'

theorem Reaches.refl (c : Config α σ τ) : Reaches δ 0 c c := ⟨0, Nat.le_refl _, fun _ ↦ rfl⟩

theorem Reaches.trans {k k' : ℕ} {c c' c'' : Config α σ τ} (h : Reaches δ k c c')
    (h' : Reaches δ k' c' c'') : Reaches δ (k + k') c c'' := by
  obtain ⟨n, hn, hrun⟩ := h
  obtain ⟨n', hn', hrun'⟩ := h'
  refine ⟨n' + n, by omega, fun fuel ↦ ?_⟩
  rw [← Nat.add_assoc, hrun, hrun']

theorem Reaches.mono {k k' : ℕ} {c c' : Config α σ τ} (h : Reaches δ k c c') (hk : k ≤ k') :
    Reaches δ k' c c' := by
  obtain ⟨n, hn, hrun⟩ := h
  exact ⟨n, Nat.le_trans hn hk, hrun⟩

/-- **With moves enough** a run goes on from where it gets to. -/
theorem run_of_reaches {k fuel : ℕ} {c c' : Config α σ τ} (h : Reaches δ k c c') (hk : k ≤ fuel) :
    ∃ fuel', fuel - k ≤ fuel' ∧ run δ fuel c = run δ fuel' c' := by
  obtain ⟨n, hn, hrun⟩ := h
  refine ⟨fuel - n, by omega, ?_⟩
  rw [← hrun, Nat.sub_add_cancel (Nat.le_trans hn hk)]

section

variable {s s' : σ} {a : α} {out : List (Lexeme τ α)} {pend rest : List α} {t : τ}

theorem reaches_of_shift (h : δ s a = .shift s') :
    Reaches δ 1 ⟨s, out, pend, a :: rest⟩ ⟨s', out, pend ++ [a], rest⟩ :=
  ⟨1, Nat.le_refl _, fun fuel ↦ by rw [run]; dsimp only; rw [h]⟩

theorem reaches_of_stay (h : δ s a = .stay s') :
    Reaches δ 1 ⟨s, out, pend, a :: rest⟩ ⟨s', out, pend, a :: rest⟩ :=
  ⟨1, Nat.le_refl _, fun fuel ↦ by rw [run]; dsimp only; rw [h]⟩

/-- The token ends with the symbol. -/
theorem reaches_of_emit (h : δ s a = .emit t s') :
    Reaches δ 1 ⟨s, out, pend, a :: rest⟩ ⟨s', out ++ [⟨t, pend ++ [a]⟩], [], rest⟩ :=
  ⟨1, Nat.le_refl _, fun fuel ↦ by rw [run]; dsimp only; rw [h]⟩

/-- The token ends before the symbol. -/
theorem reaches_of_cut (h : δ s a = .cut t s') :
    Reaches δ 1 ⟨s, out, pend, a :: rest⟩ ⟨s', out ++ [⟨t, pend⟩], [], a :: rest⟩ :=
  ⟨1, Nat.le_refl _, fun fuel ↦ by rw [run]; dsimp only; rw [h]⟩

end

/-! ### Words that are taken into one token -/

/-- The symbol is taken, perhaps after a change of the state. -/
inductive Absorbs (δ : σ → α → Move σ τ ε) (s : σ) (a : α) (s' : σ) : Prop where
  | shift (h : δ s a = .shift s')
  | stay {t} (h : δ s a = .stay t) (h' : δ t a = .shift s')

/-- The symbols of a word are taken one after the other. -/
inductive AbsorbsAll (δ : σ → α → Move σ τ ε) : σ → List α → σ → Prop where
  | nil {s} : AbsorbsAll δ s [] s
  | cons {s a s' w s''} (h : Absorbs δ s a s') (hw : AbsorbsAll δ s' w s'') :
    AbsorbsAll δ s (a :: w) s''

theorem AbsorbsAll.append {s s' s'' : σ} {w w' : List α} (h : AbsorbsAll δ s w s')
    (h' : AbsorbsAll δ s' w' s'') : AbsorbsAll δ s (w ++ w') s'' := by
  induction h with
  | nil => exact h'
  | cons ha _ ih => exact .cons ha (ih h')

/-- A state that keeps taking symbols. -/
theorem absorbsAll_of_forall {s : σ} {w : List α} (h : ∀ a ∈ w, δ s a = .shift s) :
    AbsorbsAll δ s w s := by
  induction w with
  | nil => exact .nil
  | cons a w ih =>
    exact .cons (.shift (h a List.mem_cons_self)) (ih fun b hb ↦ h b (List.mem_cons_of_mem a hb))

/-- **A word is taken** in at most two moves for each symbol. -/
theorem reaches_of_absorbs {s s' : σ} {w : List α} (h : AbsorbsAll δ s w s')
    (out : List (Lexeme τ α)) (pend rest : List α) :
    Reaches δ (2 * w.length) ⟨s, out, pend, w ++ rest⟩ ⟨s', out, pend ++ w, rest⟩ := by
  induction h generalizing pend with
  | nil =>
    rw [List.append_nil]
    exact .refl _
  | @cons s a s₁ w s' ha _ ih =>
    have hw := ih (pend ++ [a])
    rw [List.append_assoc, List.singleton_append] at hw
    have hfirst : Reaches δ 2 ⟨s, out, pend, a :: (w ++ rest)⟩
        ⟨s₁, out, pend ++ [a], w ++ rest⟩ := by
      rcases ha with h | ⟨h, h'⟩
      · exact (reaches_of_shift h).mono (by omega)
      · exact (reaches_of_stay h).trans (reaches_of_shift h')
    exact (hfirst.trans hw).mono (by rw [List.length_cons]; omega)

section

variable {s s' s'' : σ} {w : List α} {a : α} {t : τ}

/-- **A token by what follows it**: a word, and a symbol before which the token ends. -/
theorem AbsorbsAll.reaches_of_cut (h : AbsorbsAll δ s w s') (hcut : δ s' a = .cut t s'')
    (out : List (Lexeme τ α)) (rest : List α) :
    Reaches δ (2 * w.length + 1) ⟨s, out, [], w ++ a :: rest⟩
      ⟨s'', out ++ [⟨t, w⟩], [], a :: rest⟩ :=
  (reaches_of_absorbs h out [] (a :: rest)).trans (Scanner.reaches_of_cut hcut)

/-- **A token by its last symbol.** -/
theorem AbsorbsAll.reaches_of_emit (h : AbsorbsAll δ s w s') (hemit : δ s' a = .emit t s'')
    (out : List (Lexeme τ α)) (rest : List α) :
    Reaches δ (2 * w.length + 1) ⟨s, out, [], w ++ [a] ++ rest⟩
      ⟨s'', out ++ [⟨t, w ++ [a]⟩], [], rest⟩ := by
  rw [List.append_assoc]
  exact (reaches_of_absorbs h out [] ([a] ++ rest)).trans (Scanner.reaches_of_emit hemit)

/-- A word that is the last. -/
theorem AbsorbsAll.run_nil (h : AbsorbsAll δ s w s') (out : List (Lexeme τ α)) {fuel : ℕ}
    (hfuel : 2 * w.length < fuel) : run δ fuel ⟨s, out, [], w⟩ = some (.ok out) := by
  have hreach := reaches_of_absorbs h out [] []
  rw [List.append_nil] at hreach
  obtain ⟨fuel', hpos, hrun⟩ := run_of_reaches hreach (Nat.le_of_lt hfuel)
  obtain ⟨n, rfl⟩ := Nat.exists_eq_succ_of_ne_zero (show fuel' ≠ 0 by omega)
  rw [hrun, run]

/-- A word, and a symbol at which the scanner gives up. -/
theorem AbsorbsAll.run_fail (h : AbsorbsAll δ s w s') {err : ε} (hfail : δ s' a = .fail err)
    (out : List (Lexeme τ α)) (rest : List α) {fuel : ℕ} (hfuel : 2 * w.length < fuel) :
    ∃ pos, run δ fuel ⟨s, out, [], w ++ a :: rest⟩ = some (.error (err, pos)) := by
  obtain ⟨fuel', hpos, hrun⟩ := run_of_reaches (reaches_of_absorbs h out [] (a :: rest))
    (Nat.le_of_lt hfuel)
  obtain ⟨n, rfl⟩ := Nat.exists_eq_succ_of_ne_zero (show fuel' ≠ 0 by omega)
  refine ⟨(texts out ++ ([] ++ w)).length, ?_⟩
  rw [hrun, run]
  dsimp only
  rw [hfail]
  rfl

end

end Scanner
