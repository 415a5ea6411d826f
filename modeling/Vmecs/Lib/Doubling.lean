import Mathlib.Algebra.Order.Ring.Nat
import Mathlib.Tactic.Common
import Mathlib.Tactic.Ring

/-!
# Growing a capacity by doubling

The loop `while (size < need) size <<= 1`, run on a positive size. It ends (`le_doubleUntil`), the
result is the old size times a power of two (`doubleUntil_eq_mul_pow`), and it is the loop:
`doubleUntil_eq` unrolls one turn.
-/

/-- Double `size` until it is at least `need`, in at most `fuel` turns. -/
def doubleFor (need : ℕ) : ℕ → ℕ → ℕ
  | 0, size => size
  | fuel + 1, size => if size < need then doubleFor need fuel (2 * size) else size

/-- Double `size` until it is at least `need`. A positive size gets there in `need` turns. -/
def doubleUntil (need size : ℕ) : ℕ := doubleFor need need size

theorem le_doubleFor (need : ℕ) :
    ∀ (fuel : ℕ) {size : ℕ}, 0 < size → need ≤ size + fuel → need ≤ doubleFor need fuel size
  | 0, size, _, h => by simpa [doubleFor] using h
  | fuel + 1, size, hs, h => by
    unfold doubleFor
    split
    · exact le_doubleFor need fuel (by omega) (by omega)
    · omega

/-- More turns than needed change nothing. -/
theorem doubleFor_eq_of_le (need : ℕ) :
    ∀ (fuel fuel' : ℕ) {size : ℕ}, 0 < size → need ≤ size + fuel → need ≤ size + fuel' →
      doubleFor need fuel size = doubleFor need fuel' size
  | 0, 0, _, _, _, _ => rfl
  | 0, fuel' + 1, size, _, h, _ => by
    rw [doubleFor, doubleFor, if_neg (by omega)]
  | fuel + 1, 0, size, _, _, h => by
    rw [doubleFor, doubleFor, if_neg (by omega)]
  | fuel + 1, fuel' + 1, size, hs, h, h' => by
    rw [doubleFor, doubleFor]
    split
    · exact doubleFor_eq_of_le need fuel fuel' (by omega) (by omega) (by omega)
    · rfl

/-- **The loop ends with enough room.** -/
theorem le_doubleUntil (need : ℕ) {size : ℕ} (hs : 0 < size) : need ≤ doubleUntil need size :=
  le_doubleFor need need hs (by omega)

/-- One turn of the loop. -/
theorem doubleUntil_eq (need : ℕ) {size : ℕ} (hs : 0 < size) :
    doubleUntil need size = if size < need then doubleUntil need (2 * size) else size := by
  cases need with
  | zero => rfl
  | succ need =>
    rw [doubleUntil, doubleFor]
    split
    · exact doubleFor_eq_of_le _ _ _ (by omega) (by omega) (by omega)
    · rfl

theorem doubleFor_eq_mul_pow (need : ℕ) :
    ∀ (fuel size : ℕ), ∃ k, doubleFor need fuel size = size * 2 ^ k
  | 0, size => ⟨0, by simp [doubleFor]⟩
  | fuel + 1, size => by
    unfold doubleFor
    split
    · obtain ⟨k, hk⟩ := doubleFor_eq_mul_pow need fuel (2 * size)
      exact ⟨k + 1, by rw [hk, pow_succ]; ring⟩
    · exact ⟨0, by simp⟩

theorem doubleUntil_eq_mul_pow (need size : ℕ) : ∃ k, doubleUntil need size = size * 2 ^ k :=
  doubleFor_eq_mul_pow need need size

theorem doubleFor_turns (need : ℕ) :
    ∀ (fuel : ℕ) {size : ℕ}, 0 < size → need ≤ size + fuel →
      ∃ turns, doubleFor need fuel size = size * 2 ^ turns ∧ need ≤ size * 2 ^ turns ∧
        ∀ j < turns, size * 2 ^ j < need
  | 0, size, _, h => ⟨0, by simp [doubleFor], by simpa using h, by simp⟩
  | fuel + 1, size, hs, h => by
    unfold doubleFor
    split
    case isTrue hlt =>
      obtain ⟨turns, heq, hle, hbefore⟩ :=
        doubleFor_turns need fuel (show 0 < 2 * size by omega) (by omega)
      have hdouble (j : ℕ) : 2 * size * 2 ^ j = size * 2 ^ (j + 1) := by rw [pow_succ]; ring
      refine ⟨turns + 1, heq.trans (hdouble turns), hdouble turns ▸ hle, fun j hj ↦ ?_⟩
      match j with
      | 0 => simpa using hlt
      | j + 1 => exact hdouble j ▸ hbefore j (Nat.lt_of_succ_lt_succ hj)
    case isFalse hge => exact ⟨0, by simp, by simpa using hge, by simp⟩

/-- **The turns of the loop**: the size is doubled as long as it is too small. -/
theorem doubleUntil_turns (need : ℕ) {size : ℕ} (hs : 0 < size) :
    ∃ turns, doubleUntil need size = size * 2 ^ turns ∧ need ≤ size * 2 ^ turns ∧
      ∀ j < turns, size * 2 ^ j < need :=
  doubleFor_turns need need hs (by omega)

/-- The capacity never shrinks. -/
theorem self_le_doubleUntil (need size : ℕ) : size ≤ doubleUntil need size := by
  obtain ⟨k, hk⟩ := doubleUntil_eq_mul_pow need size
  rw [hk]
  exact Nat.le_mul_of_pos_right size (Nat.two_pow_pos k)
