import Mathlib.Data.Nat.Basic
import Mathlib.Tactic.Common

/-!
# Random draws (`pub/random.c`)

`random_in` scales one result of `rand()` to a range. The result of `rand()` is an argument here,
any number up to `RAND_MAX`; a function that draws several numbers takes the sequence of results.
-/

namespace Vmecs

/-- `RAND_MAX` of the C library. -/
def randMax : ℕ := 2147483647

/-- A result of `rand()`. -/
abbrev Rand := Fin (randMax + 1)

/-- `random_in(a, b)` when `rand()` returns `r`: `a + rand() / (RAND_MAX / (b - a + 1) + 1)`. -/
def randomIn (a b : ℕ) (r : Rand) : ℕ := a + r.1 / (randMax / (b - a + 1) + 1)

theorem le_randomIn (a b : ℕ) (r : Rand) : a ≤ randomIn a b r := Nat.le_add_right _ _

/-- A draw does not leave its range. -/
theorem randomIn_le {a b : ℕ} (h : a ≤ b) (r : Rand) : randomIn a b r ≤ b := by
  have hr : r.1 ≤ randMax := Nat.lt_succ_iff.1 r.2
  have hdiv : randMax < (b - a + 1) * (randMax / (b - a + 1) + 1) := by
    have := Nat.lt_mul_div_succ randMax (Nat.succ_pos (b - a))
    exact this
  have : r.1 / (randMax / (b - a + 1) + 1) < b - a + 1 :=
    Nat.div_lt_of_lt_mul (by rw [Nat.mul_comm]; omega)
  rw [randomIn]
  omega

end Vmecs
