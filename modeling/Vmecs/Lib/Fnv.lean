import Mathlib.Data.List.Basic
import Mathlib.Logic.Function.Basic

/-!
# Hashes that fold over a string, and FNV-1a

A hash that takes the symbols of a string one after the other into a running value tells apart any
two strings that differ in one place, if each of its steps is injective in the running value and in
the symbol (`foldl_ne_of_oneOff`): the place makes the values differ, and no symbol behind it makes
them meet again.

`Fnv.hash1a` is the published 32-bit FNV-1a, whose step multiplies by a prime.
-/

universe u v

/-! ### Strings that differ in one place -/

/-- The strings differ in exactly one place. -/
def OneOff {α : Type u} (x y : List α) : Prop :=
  ∃ u a b v, a ≠ b ∧ x = u ++ a :: v ∧ y = u ++ b :: v

theorem OneOff.length_eq {α : Type u} {x y : List α} (h : OneOff x y) : x.length = y.length := by
  obtain ⟨u, a, b, v, -, rfl, rfl⟩ := h
  simp

theorem OneOff.ne {α : Type u} {x y : List α} (h : OneOff x y) : x ≠ y := by
  obtain ⟨u, a, b, v, hne, rfl, rfl⟩ := h
  exact fun heq ↦ hne (List.cons.inj (List.append_cancel_left heq)).1

/-- Of two parts, one is changed and the other is not. -/
theorem OneOff.of_append {α : Type u} {x y z : List α} (h : OneOff (x ++ y) z) :
    (∃ x', OneOff x x' ∧ z = x' ++ y) ∨ ∃ y', OneOff y y' ∧ z = x ++ y' := by
  obtain ⟨u, a, b, v, hne, heq, rfl⟩ := h
  rcases List.append_eq_append_iff.1 heq with ⟨w, rfl, rfl⟩ | ⟨w, rfl, hw⟩
  · exact .inr ⟨w ++ b :: v, ⟨w, a, b, v, hne, rfl, rfl⟩, by rw [List.append_assoc]⟩
  · match w, hw with
    | [], hw =>
      rw [List.nil_append] at hw
      exact .inr ⟨b :: v, ⟨[], a, b, v, hne, hw.symm, rfl⟩, by rw [List.append_nil]⟩
    | c :: w, hw =>
      obtain ⟨rfl, rfl⟩ := List.cons.inj hw
      exact .inl ⟨u ++ b :: w, ⟨u, a, b, w, hne, rfl, rfl⟩, (List.append_assoc u (b :: w) y).symm⟩

section Fold

variable {α : Type u} {σ : Type v} {f : σ → α → σ}

theorem foldl_injective (hf : ∀ a, Function.Injective fun s ↦ f s a) (l : List α) :
    Function.Injective fun s ↦ l.foldl f s := by
  induction l with
  | nil => exact fun _ _ h ↦ h
  | cons a l ih => exact fun s s' h ↦ hf a (ih h)

/-- **A change in one place changes the hash.** -/
theorem foldl_ne_of_oneOff (hf : ∀ a, Function.Injective fun s ↦ f s a)
    (hf' : ∀ s, Function.Injective (f s)) {x y : List α} (h : OneOff x y) (s : σ) :
    x.foldl f s ≠ y.foldl f s := by
  obtain ⟨u, a, b, v, hne, rfl, rfl⟩ := h
  rw [List.foldl_append, List.foldl_append, List.foldl_cons, List.foldl_cons]
  exact fun heq ↦ hne (hf' _ (foldl_injective hf v heq))

end Fold

/-! ### FNV-1a -/

namespace Fnv

/-- The offset basis. -/
def offsetBasis : UInt32 := 0x811c9dc5

/-- The prime. -/
def prime : UInt32 := 0x01000193

/-- The 32-bit FNV-1a hash. -/
def hash1a (data : List UInt8) : UInt32 :=
  data.foldl (fun h b ↦ (h ^^^ b.toUInt32) * prime) offsetBasis

end Fnv
