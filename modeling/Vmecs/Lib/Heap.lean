import Mathlib.Data.Nat.Basic
import Mathlib.Logic.Function.Basic
import Mathlib.Tactic.Common

/-!
# A heap whose blocks keep their identity

Blocks under numbers. A number is given to one block only, so what is found under it is that block
or, once the block has been freed, nothing: a pointer that dangles never points to another block.
With that, a program is free of uses after free and of double frees if it never asks for a block
that is not there.

The operations are total; whether a block is there (`get`) is for the program to ask.
-/

universe u

/-- A heap of blocks of type `α`: `next` is the first number that was never given to a block. -/
structure BlockHeap (α : Type u) where
  cells : ℕ → Option α
  next : ℕ
  fresh : ∀ p : ℕ, next ≤ p → cells p = none

namespace BlockHeap

variable {α : Type u} (h : BlockHeap α) (p q : ℕ) (a : α) (f : α → α)

/-- No block was ever allocated. -/
def empty : BlockHeap α := ⟨fun _ ↦ none, 0, fun _ _ ↦ rfl⟩

/-- The block under a number. -/
def get : Option α := h.cells p

/-- The heap with a new block, under the number `h.next`. -/
def alloc : BlockHeap α where
  cells := Function.update h.cells h.next (some a)
  next := h.next + 1
  fresh p hp := by
    rw [Function.update_of_ne (by omega)]
    exact h.fresh p (by omega)

/-- A block is changed in place, if it is there. -/
def modify : BlockHeap α where
  cells := Function.update h.cells p ((h.cells p).map f)
  next := h.next
  fresh q hq := by
    by_cases heq : q = p
    · rw [heq, Function.update_self, h.fresh p (heq ▸ hq), Option.map_none]
    · rw [Function.update_of_ne heq]
      exact h.fresh q hq

/-- A block is given back. -/
def free : BlockHeap α where
  cells := Function.update h.cells p none
  next := h.next
  fresh q hq := by
    by_cases heq : q = p
    · rw [heq, Function.update_self]
    · rw [Function.update_of_ne heq]
      exact h.fresh q hq

variable {h p q a f}

@[simp] theorem get_empty : (empty : BlockHeap α).get p = none := rfl

@[simp] theorem next_empty : (empty : BlockHeap α).next = 0 := rfl

/-- The number of the next block is that of no block that is there. -/
@[simp] theorem get_next : h.get h.next = none := h.fresh _ le_rfl

theorem lt_next_of_get {b : α} (hp : h.get p = some b) : p < h.next := by
  by_contra hle
  rw [get, h.fresh p (Nat.not_lt.1 hle)] at hp
  exact absurd hp (by simp)

theorem ne_next_of_get {b : α} (hp : h.get p = some b) : p ≠ h.next :=
  Nat.ne_of_lt (lt_next_of_get hp)

@[simp] theorem get_alloc_next : (h.alloc a).get h.next = some a := Function.update_self ..

theorem get_alloc_of_ne (hne : q ≠ h.next) : (h.alloc a).get q = h.get q :=
  Function.update_of_ne hne ..

theorem get_alloc_of_get {b : α} (hq : h.get q = some b) : (h.alloc a).get q = some b := by
  rw [get_alloc_of_ne (ne_next_of_get hq), hq]

/-- What is there after an allocation: the new block, and what was there. -/
theorem get_alloc_eq_some {b : α} :
    (h.alloc a).get q = some b ↔ q = h.next ∧ a = b ∨ h.get q = some b := by
  by_cases hq : q = h.next
  · simp [hq]
  · simp [get_alloc_of_ne hq, hq]

@[simp] theorem get_modify_self : (h.modify p f).get p = (h.get p).map f :=
  Function.update_self ..

theorem get_modify_of_ne (hne : q ≠ p) : (h.modify p f).get q = h.get q :=
  Function.update_of_ne hne ..

@[simp] theorem get_free_self : (h.free p).get p = none := Function.update_self ..

theorem get_free_of_ne (hne : q ≠ p) : (h.free p).get q = h.get q := Function.update_of_ne hne ..

end BlockHeap
