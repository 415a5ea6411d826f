import Mathlib.Data.List.Nodup
import Mathlib.Tactic.Common

/-!
# Traversing a tree

A node has children, each under a key. Below a root they are a tree when no node is reached by two
paths of keys (`IsTree`); nothing is said about where the nodes are kept, so they may be addresses.

A traversal that goes to a depth which no path exceeds, and comes to every node behind its children,
comes to each node that can be reached exactly once (`IsTree.postorder_spec`).
-/

universe u v

namespace Traversal

variable {N : Type u} {K : Type v} (children : N → List (K × N))

/-- A node is reached from another along the keys of a path. -/
inductive Reach : N → List K → N → Prop where
  | nil (n : N) : Reach n [] n
  | cons {n m l : N} {k : K} {p : List K} (hchild : (k, m) ∈ children n) (h : Reach m p l) :
      Reach n (k :: p) l

/-- The nodes below a node, each behind its children, down to a depth. -/
def postorder : ℕ → N → Option (List N)
  | 0, _ => none
  | depth + 1, n =>
    ((children n).mapM fun child ↦ postorder depth child.2).map fun below ↦ below.flatten ++ [n]

/-- The nodes that are reached from `root` are a tree of less than this depth. -/
structure IsTree (root : N) (depth : ℕ) : Prop where
  keys_nodup : ∀ {p n}, Reach children root p n → ((children n).map Prod.fst).Nodup
  unique : ∀ {p q n}, Reach children root p n → Reach children root q n → p = q
  length_lt : ∀ {p n}, Reach children root p n → p.length < depth

variable {children} {root n m l : N} {k k' : K} {p q : List K} {depth : ℕ}

theorem Reach.append (h : Reach children n p m) (h' : Reach children m q l) :
    Reach children n (p ++ q) l := by
  induction h with
  | nil => exact h'
  | cons hchild _ ih => exact .cons hchild (ih h')

theorem Reach.concat (h : Reach children n p m) (hchild : (k, l) ∈ children m) :
    Reach children n (p ++ [k]) l :=
  h.append (.cons hchild (.nil l))

theorem reach_nil_iff : Reach children n [] m ↔ m = n := by
  constructor
  · rintro ⟨⟩
    rfl
  · rintro rfl
    exact .nil m

theorem reach_cons_iff : Reach children n (k :: p) l ↔
    ∃ m, (k, m) ∈ children n ∧ Reach children m p l := by
  constructor
  · rintro (_ | ⟨hchild, h⟩)
    exact ⟨_, hchild, h⟩
  · rintro ⟨m, hchild, h⟩
    exact .cons hchild h

/-- The last key of a path. -/
theorem reach_concat_iff : Reach children n (p ++ [k]) l ↔
    ∃ m, Reach children n p m ∧ (k, l) ∈ children m := by
  constructor
  · intro h
    induction p generalizing n with
    | nil =>
      obtain ⟨m, hchild, h⟩ := reach_cons_iff.1 h
      obtain rfl := reach_nil_iff.1 h
      exact ⟨n, .nil n, hchild⟩
    | cons k' p ih =>
      obtain ⟨m, hchild, h⟩ := reach_cons_iff.1 h
      obtain ⟨l', hl, hlast⟩ := ih h
      exact ⟨l', .cons hchild hl, hlast⟩
  · rintro ⟨m, h, hchild⟩
    exact h.concat hchild

theorem mapM_congr {α β : Type*} {f g : α → Option β} {as : List α} (h : ∀ a ∈ as, f a = g a) :
    as.mapM f = as.mapM g := by
  induction as with
  | nil => rfl
  | cons a as ih =>
    rw [List.mapM_cons, List.mapM_cons, h a List.mem_cons_self,
      ih fun b hb ↦ h b (List.mem_cons_of_mem _ hb)]

/-- A function that succeeds on every entry of a list succeeds on the list. -/
theorem mapM_eq_some_map {α β : Type*} {f : α → Option β} {g : α → β} {as : List α}
    (h : ∀ a ∈ as, f a = some (g a)) : as.mapM f = some (as.map g) := by
  induction as with
  | nil => rfl
  | cons a as ih =>
    rw [List.mapM_cons, h a List.mem_cons_self, ih fun b hb ↦ h b (List.mem_cons_of_mem _ hb)]
    rfl

variable (children) in
/-- What a traversal collects: behind what it collects below a node, the things of the node. -/
def collect {A : Type*} (things : N → List A) : ℕ → N → Option (List A)
  | 0, _ => none
  | depth + 1, n =>
    ((children n).mapM fun child ↦ collect things depth child.2).map fun below ↦
      below.flatten ++ things n

/-- It collects the things of the nodes in the order of the traversal. -/
theorem collect_eq {A : Type*} (things : N → List A) : collect children things depth n =
    (postorder children depth n).map fun ns ↦ ns.flatMap things := by
  induction depth generalizing n with
  | zero => rfl
  | succ depth ih =>
    have hbelow (as : List (K × N)) :
        (as.mapM fun child ↦ collect children things depth child.2) =
          (as.mapM fun child ↦ postorder children depth child.2).map
            (List.map fun ns ↦ ns.flatMap things) := by
      induction as with
      | nil => rfl
      | cons a as ihas =>
        rw [List.mapM_cons, List.mapM_cons, ihas, ih]
        cases postorder children depth a.2 with
        | none => rfl
        | some ns => cases as.mapM fun child ↦ postorder children depth child.2 <;> rfl
    rw [collect, postorder, hbelow, Option.map_map, Option.map_map]
    refine congrArg (Option.map · _) (funext fun below ↦ ?_)
    rw [Function.comp_apply, Function.comp_apply, List.flatMap_append, List.flatMap_singleton,
      List.flatMap_def, List.map_flatten, List.flatten_flatten, List.map_map]
    rfl

variable (children) in
/-- Every node below `n` exactly once, and a node behind its children. -/
structure Postordered (n : N) (ns : List N) : Prop where
  nodup : ns.Nodup
  mem_iff : ∀ {m}, m ∈ ns ↔ ∃ q, Reach children n q m
  child_sublist : ∀ {m k l}, m ∈ ns → (k, l) ∈ children m → [l, m].Sublist ns

/-- The last of the list is the node itself, behind what its children give. -/
theorem IsTree.postordered_concat (h : IsTree children root depth) (hn : Reach children root p n)
    {below : K × N → List N}
    (hbelow : ∀ child ∈ children n, Postordered children child.2 (below child)) :
    Postordered children n ((children n).flatMap below ++ [n]) where
  nodup := by
    refine List.nodup_append'.2 ⟨List.nodup_flatMap.2 ⟨fun a ha ↦ (hbelow a ha).nodup, ?_⟩,
      List.nodup_singleton n, ?_⟩
    · -- a node below two children would have two paths
      refine (List.pairwise_map.1 (h.keys_nodup hn)).imp_of_mem fun {a b} ha hb hne m hma hmb ↦ ?_
      obtain ⟨qa, hqa⟩ := (hbelow a ha).mem_iff.1 hma
      obtain ⟨qb, hqb⟩ := (hbelow b hb).mem_iff.1 hmb
      have hpaths := h.unique (hn.append (.cons ha hqa)) (hn.append (.cons hb hqb))
      exact hne (List.cons.inj (List.append_cancel_left hpaths)).1
    · -- and so would the node itself
      refine List.disjoint_singleton.2 fun hself ↦ ?_
      obtain ⟨a, ha, hna⟩ := List.mem_flatMap.1 hself
      obtain ⟨q, hq⟩ := (hbelow a ha).mem_iff.1 hna
      have hpaths := h.unique (hn.append (.cons ha hq)) hn
      exact absurd (List.append_right_eq_self.1 hpaths) (List.cons_ne_nil _ _)
  mem_iff := by
    intro m
    rw [List.mem_append, List.mem_flatMap, List.mem_singleton]
    constructor
    · rintro (⟨a, ha, hma⟩ | rfl)
      · obtain ⟨q, hq⟩ := (hbelow a ha).mem_iff.1 hma
        exact ⟨_, .cons ha hq⟩
      · exact ⟨[], .nil m⟩
    · rintro ⟨_, _ | ⟨hchild, hq⟩⟩
      · exact .inr rfl
      · exact .inl ⟨_, hchild, (hbelow _ hchild).mem_iff.2 ⟨_, hq⟩⟩
  child_sublist := by
    intro m k l hm hl
    rcases List.mem_append.1 hm with hm | hm
    · obtain ⟨a, ha, hma⟩ := List.mem_flatMap.1 hm
      have hsub := (hbelow a ha).child_sublist hma hl
      exact (hsub.trans (List.sublist_flatten_of_mem (List.mem_map_of_mem ha))).trans
        (List.sublist_append_left _ _)
    · obtain rfl := List.mem_singleton.1 hm
      have hmem : l ∈ (children m).flatMap below :=
        List.mem_flatMap.2 ⟨_, hl, (hbelow _ hl).mem_iff.2 ⟨[], .nil l⟩⟩
      exact (List.singleton_sublist.2 hmem).append (List.Sublist.refl [m])

/-- Below a node of a tree, by induction on the depth that is left. -/
theorem IsTree.postorder_below (h : IsTree children root depth) {left : ℕ}
    (hn : Reach children root p n) (hleft : depth ≤ p.length + left) :
    ∃ ns, postorder children left n = some ns ∧ Postordered children n ns := by
  induction left generalizing p n with
  | zero => exact absurd (h.length_lt hn) (by omega)
  | succ left ih =>
    have hchild (child : K × N) (hmem : child ∈ children n) := by
      refine ih (hn.concat (show (child.1, child.2) ∈ children n from hmem)) ?_
      rw [List.length_append, List.length_singleton]
      omega
    choose! below heq hbelow using hchild
    refine ⟨(children n).flatMap below ++ [n], ?_, h.postordered_concat hn hbelow⟩
    rw [postorder, mapM_eq_some_map heq]
    rfl

/-- **Every node of a tree exactly once**, and a node behind its children. -/
theorem IsTree.postorder_spec (h : IsTree children root depth) :
    ∃ ns, postorder children depth root = some ns ∧ Postordered children root ns :=
  h.postorder_below (.nil root) (by simp)

end Traversal
