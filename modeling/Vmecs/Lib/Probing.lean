import Mathlib.Data.Finset.Card
import Mathlib.Data.List.Basic
import Mathlib.Tactic.Common

/-!
# Open addressing

A table is a list of slots, each empty or holding a key and a value. A search for a key starts at
some slot, goes round the table once, and ends at the first slot that is empty or holds the key
(`Slots.find`).

Such a table is the finite map of its entries as long as every key is found where it is stored
(`Slots.Reached`, for a choice `start` of the slot at which the search for each key begins). Storing
a key in the slot where the search for it ends keeps the invariant (`Reached.set`), and changes the
map at that key alone (`Reached.mem_set`). A search that does not end has seen every slot hold
another key (`find_eq_none`). The invariant can be said without a search (`reached_iff_probed`):
each key is stored once, and no slot is empty between the one at which its search begins and its
own.

The keys and the choice of the starting slots are arbitrary.
-/

universe u v

/-- The slots of a table. -/
abbrev Slots (K : Type u) (V : Type v) := List (Option (K × V))

namespace Slots

variable {K : Type u} {V : Type v} [DecidableEq K]

/-- A search for `k` ends at slot `i`: it is empty, or holds `k`. -/
def ends (t : Slots K V) (k : K) (i : ℕ) : Bool :=
  match t.getD i none with
  | none => true
  | some e => e.1 = k

/-- The slots in the order of a search that begins at slot `pos`. -/
def order (n pos : ℕ) : List ℕ := List.range' pos (n - pos) ++ List.range pos

/-- The slot at which the search for `k` ends. -/
def find (t : Slots K V) (k : K) (pos : ℕ) : Option ℕ := (order t.length pos).find? (t.ends k)

/-- The value found at the end of the search. -/
def lookup (t : Slots K V) (k : K) (pos : ℕ) : Option V :=
  (t.find k pos).bind fun i ↦ (t.getD i none).map Prod.snd

/-- The keys stored. -/
def keys (t : Slots K V) : List K := t.filterMap (Option.map Prod.fst)

/-- **The invariant**: the search for a stored key ends where it is stored. -/
def Reached (t : Slots K V) (start : K → ℕ) : Prop :=
  ∀ i k v, t[i]? = some (some (k, v)) → t.find k (start k) = some i

variable {t : Slots K V} {start : K → ℕ} {k k' : K} {v v' : V} {i j pos : ℕ}

theorem mem_order {n : ℕ} (h : pos ≤ n) : i ∈ order n pos ↔ i < n := by
  rw [order, List.mem_append, List.mem_range'_1, List.mem_range]
  omega

theorem ends_eq_true :
    t.ends k i = true ↔ t.getD i none = none ∨ ∃ v, t.getD i none = some (k, v) := by
  rw [ends]
  cases t.getD i none with
  | none => simp
  | some e =>
    obtain ⟨k', v⟩ := e
    simp

theorem find_eq_some : t.find k pos = some i ↔
    t.ends k i = true ∧ ∃ before after, order t.length pos = before ++ i :: after ∧
      ∀ j ∈ before, t.ends k j = false := by
  rw [find, List.find?_eq_some_iff_append]
  simp only [Bool.not_eq_true']

/-- A search that does not end has seen every slot hold another key. -/
theorem find_eq_none (h : pos ≤ t.length) :
    t.find k pos = none ↔ ∀ i < t.length, ∃ e, t[i]? = some (some e) ∧ e.1 ≠ k := by
  rw [find, List.find?_eq_none]
  refine forall_congr' fun i ↦ ?_
  rw [mem_order h]
  refine imp_congr_right fun hi ↦ ?_
  rw [ends_eq_true, List.getD_eq_getElem?_getD, List.getElem?_eq_getElem hi, Option.getD_some]
  cases t[i] with
  | none => simp
  | some e =>
    obtain ⟨k', v⟩ := e
    simp

theorem lt_length_of_find (h : pos ≤ t.length) (hi : t.find k pos = some i) : i < t.length := by
  obtain ⟨-, before, after, horder, -⟩ := find_eq_some.1 hi
  rw [← mem_order h, horder]
  exact List.mem_append_right _ List.mem_cons_self

/-- With the invariant, a lookup finds what is stored, and nothing else. -/
theorem Reached.lookup_eq_some (ht : t.Reached start) :
    t.lookup k (start k) = some v ↔ some (k, v) ∈ t := by
  constructor
  · intro h
    obtain ⟨i, hi, hv⟩ := Option.bind_eq_some_iff.1 h
    obtain ⟨e, he, rfl⟩ := Option.map_eq_some_iff.1 hv
    obtain ⟨hends, -⟩ := find_eq_some.1 hi
    rcases ends_eq_true.1 hends with hnone | ⟨w, hw⟩
    · rw [hnone] at he
      exact absurd he (by simp)
    · obtain rfl := Option.some.inj (hw.symm.trans he)
      refine List.mem_of_getElem? (i := i) ?_
      rw [List.getD_eq_getElem?_getD] at he
      cases hget : t[i]? with
      | none => rw [hget] at he; exact absurd he (by simp)
      | some o => rw [hget] at he; exact congrArg some he
  · intro h
    obtain ⟨i, hi⟩ := List.mem_iff_getElem?.1 h
    rw [lookup, ht i k v hi, Option.bind_some, List.getD_eq_getElem?_getD, hi]
    rfl

/-- A key is stored once. -/
theorem Reached.eq_of_mem (ht : t.Reached start) (h : some (k, v) ∈ t) (h' : some (k, v') ∈ t) :
    v = v' :=
  Option.some.inj ((ht.lookup_eq_some.2 h).symm.trans (ht.lookup_eq_some.2 h'))

/-- Storing `k` somewhere ends no search for another key earlier. -/
theorem ends_set_of_ne (hne : k' ≠ k) (hi : i < t.length) {j : ℕ} (hj : t.ends k' j = false) :
    ends (t.set i (some (k, v))) k' j = false := by
  rcases eq_or_ne i j with rfl | hne'
  · rw [ends, List.getD_eq_getElem?_getD, List.getElem?_set_self hi]
    exact decide_eq_false hne.symm
  · rw [ends, List.getD_eq_getElem?_getD, List.getElem?_set_ne hne',
      ← List.getD_eq_getElem?_getD]
    exact hj

/-- **Storing a key where its search ends keeps the invariant.** -/
theorem Reached.set (ht : t.Reached start) (hi : t.find k (start k) = some i)
    (hlt : i < t.length) (v : V) : Reached (t.set i (some (k, v))) start := by
  obtain ⟨hends, before, after, horder, hbefore⟩ := find_eq_some.1 hi
  intro j k' v' hj
  rcases eq_or_ne i j with rfl | hne
  · -- the slot of `k`: it lies at the end of the old search, which no slot before it ends
    rw [List.getElem?_set_self hlt] at hj
    obtain ⟨rfl, rfl⟩ := Prod.mk.inj (Option.some.inj (Option.some.inj hj))
    refine find_eq_some.2 ⟨?_, before, after, by rw [List.length_set, horder], fun a ha ↦ ?_⟩
    · rw [ends_eq_true, List.getD_eq_getElem?_getD, List.getElem?_set_self hlt]
      exact .inr ⟨v, rfl⟩
    · have hne : i ≠ a := by
        rintro rfl
        rw [hbefore i ha] at hends
        exact absurd hends (by simp)
      rw [ends, List.getD_eq_getElem?_getD, List.getElem?_set_ne hne,
        ← List.getD_eq_getElem?_getD]
      exact hbefore a ha
  · -- another slot: its search passes slot `i` as before
    rw [List.getElem?_set_ne hne] at hj
    obtain ⟨-, before', after', horder', hbefore'⟩ := find_eq_some.1 (ht j k' v' hj)
    have hkk : k' ≠ k := by
      rintro rfl
      exact hne (Option.some.inj (hi.symm.trans (ht j k' v' hj)))
    refine find_eq_some.2 ⟨?_, before', after', by rw [List.length_set, horder'], fun a ha ↦ ?_⟩
    · rw [ends_eq_true, List.getD_eq_getElem?_getD, List.getElem?_set_ne hne, hj]
      exact .inr ⟨v', rfl⟩
    · exact ends_set_of_ne hkk hlt (hbefore' a ha)

/-- And it changes the map at that key alone. -/
theorem Reached.mem_set (ht : t.Reached start) (hi : t.find k (start k) = some i)
    (hlt : i < t.length) :
    some (k', v') ∈ t.set i (some (k, v)) ↔ if k' = k then v' = v else some (k', v') ∈ t := by
  obtain ⟨hends, -⟩ := find_eq_some.1 hi
  rw [List.mem_iff_getElem?]
  split
  case isTrue hk =>
    subst hk
    constructor
    · rintro ⟨j, hj⟩
      rcases eq_or_ne i j with rfl | hne
      · rw [List.getElem?_set_self hlt] at hj
        exact (Prod.mk.inj (Option.some.inj (Option.some.inj hj))).2.symm
      · rw [List.getElem?_set_ne hne] at hj
        exact absurd (Option.some.inj (hi.symm.trans (ht j k' v' hj))) hne
    · rintro rfl
      exact ⟨i, List.getElem?_set_self hlt⟩
  case isFalse hk =>
    rw [List.mem_iff_getElem?]
    refine exists_congr fun j ↦ ?_
    rcases eq_or_ne i j with rfl | hne
    · rw [List.getElem?_set_self hlt]
      refine iff_of_false (fun h ↦ ?_) fun h ↦ ?_
      · exact hk (Prod.mk.inj (Option.some.inj (Option.some.inj h))).1.symm
      · rcases ends_eq_true.1 hends with hnone | ⟨w, hw⟩
        · rw [List.getD_eq_getElem?_getD, h] at hnone
          exact absurd hnone (by simp)
        · rw [List.getD_eq_getElem?_getD, h] at hw
          exact hk (Prod.mk.inj (Option.some.inj hw)).1
    · rw [List.getElem?_set_ne hne]

/-! ### The keys of a table -/

omit [DecidableEq K] in
theorem mem_keys : k ∈ t.keys ↔ ∃ v, some (k, v) ∈ t := by
  rw [keys, List.mem_filterMap]
  constructor
  · rintro ⟨o, ho, hk⟩
    obtain ⟨⟨k', v⟩, rfl, rfl⟩ := Option.map_eq_some_iff.1 hk
    exact ⟨v, ho⟩
  · rintro ⟨v, hv⟩
    exact ⟨_, hv, rfl⟩

theorem Reached.nodup_keys (ht : t.Reached start) : t.keys.Nodup := by
  refine List.Pairwise.filterMap (Option.map Prod.fst)
    (R := fun a b ↦ ∀ e ∈ a, ∀ e' ∈ b, e.1 ≠ e'.1) ?_ (List.pairwise_iff_getElem.2 ?_)
  · rintro a b hab k hk k' hk'
    obtain ⟨e, he, rfl⟩ := Option.map_eq_some_iff.1 hk
    obtain ⟨e', he', rfl⟩ := Option.map_eq_some_iff.1 hk'
    exact hab e he e' he'
  · rintro i j hi hj hij ⟨k, v⟩ hv ⟨k', v'⟩ hv' rfl
    have h₁ := ht i k v (by rw [List.getElem?_eq_getElem hi]; exact congrArg some hv)
    have h₂ := ht j k v' (by rw [List.getElem?_eq_getElem hj]; exact congrArg some hv')
    exact hij.ne (Option.some.inj (h₁.symm.trans h₂))

omit [DecidableEq K] in
theorem length_keys_le : t.keys.length ≤ t.length := List.length_filterMap_le _ _

/-- A table in which a search does not end is full of other keys. -/
theorem length_keys_of_find (h : pos ≤ t.length) (hfind : t.find k pos = none) :
    t.keys.length = t.length ∧ k ∉ t.keys := by
  have hall := (find_eq_none h).1 hfind
  constructor
  · rw [keys, List.length_filterMap_eq_countP, List.countP_eq_length]
    intro o ho
    obtain ⟨i, hi, rfl⟩ := List.mem_iff_getElem.1 ho
    obtain ⟨e, he, -⟩ := hall i hi
    rw [List.getElem?_eq_getElem hi, Option.some_inj] at he
    rw [he]
    rfl
  · intro hk
    obtain ⟨v, hv⟩ := mem_keys.1 hk
    obtain ⟨i, hi⟩ := List.mem_iff_getElem?.1 hv
    obtain ⟨hlt, -⟩ := List.getElem?_eq_some_iff.1 hi
    obtain ⟨e, he, hne⟩ := hall i hlt
    obtain rfl := Option.some.inj (Option.some.inj (hi.symm.trans he))
    exact hne rfl

/-! ### The circle of the slots -/

/-- One goes round at most once. -/
theorem add_mod_eq {n d : ℕ} (hpos : pos < n) (hd : d < n) :
    (pos + d) % n = if pos + d < n then pos + d else pos + d - n := by
  split
  case isTrue h => exact Nat.mod_eq_of_lt h
  case isFalse h => rw [Nat.mod_eq_sub_mod (by omega), Nat.mod_eq_of_lt (by omega)]

theorem eq_of_add_mod_eq {n d d' : ℕ} (hpos : pos < n) (hd : d < n) (hd' : d' < n)
    (h : (pos + d) % n = (pos + d') % n) : d = d' := by
  rw [add_mod_eq hpos hd, add_mod_eq hpos hd'] at h
  split at h <;> split at h <;> omega

/-- The slots in the order of a search, by their distance from its beginning. -/
theorem order_eq_map {n : ℕ} (h : pos < n) :
    order n pos = (List.range n).map fun d ↦ (pos + d) % n := by
  refine List.ext_getElem (by simp [order]; omega) fun d hd hd' ↦ ?_
  have hdn : d < n := by simpa using hd'
  rw [List.getElem_map, List.getElem_range, add_mod_eq h hdn]
  simp only [order]
  rcases Nat.lt_or_ge d (n - pos) with hlt | hge
  · rw [List.getElem_append_left (by simpa using hlt), List.getElem_range', Nat.one_mul,
      if_pos (by omega)]
  · rw [List.getElem_append_right (by simpa using hge), List.getElem_range, List.length_range',
      if_neg (by omega)]
    omega

/-- Where a search ends, by the distance from its beginning. -/
theorem find_eq_some_iff (h : pos < t.length) : t.find k pos = some i ↔
    ∃ d < t.length, i = (pos + d) % t.length ∧ t.ends k i = true ∧
      ∀ j < d, t.ends k ((pos + j) % t.length) = false := by
  rw [find, order_eq_map h, List.find?_map]
  simp only [Option.map_eq_some_iff, List.find?_range_eq_some, Function.comp_apply,
    List.mem_range, Bool.not_eq_true']
  constructor
  · rintro ⟨d, ⟨hends, hd, hbefore⟩, rfl⟩
    exact ⟨d, hd, rfl, hends, hbefore⟩
  · rintro ⟨d, hd, rfl, hends, hbefore⟩
    exact ⟨d, ⟨hends, hd, hbefore⟩, rfl⟩

omit [DecidableEq K] in
/-- A key that is stored once is stored in one slot. -/
theorem eq_of_nodup_keys (h : t.keys.Nodup) (hi : t[i]? = some (some (k, v)))
    (hj : t[j]? = some (some (k, v'))) : i = j := by
  have hpair := List.pairwise_filterMap.1 h
  by_contra hne
  wlog hlt : i < j generalizing i j v v'
  · exact this hj hi (Ne.symm hne) (by omega)
  obtain ⟨hil, hi⟩ := List.getElem?_eq_some_iff.1 hi
  obtain ⟨hjl, hj⟩ := List.getElem?_eq_some_iff.1 hj
  have hne := List.pairwise_iff_getElem.1 hpair i j hil hjl hlt
  exact hne k (by rw [hi]; rfl) k (by rw [hj]; rfl) rfl

/-- The invariant, by the circle of the slots: every key is stored once, and from the slot at which
the search for it begins up to where it is stored there is no empty one. -/
structure Probed (t : Slots K V) (start : K → ℕ) : Prop where
  nodup_keys : t.keys.Nodup
  ne_none : ∀ k v d, d < t.length → t[(start k + d) % t.length]? = some (some (k, v)) →
    ∀ j < d, t[(start k + j) % t.length]? ≠ some none

theorem reached_iff_probed (hstart : ∀ k, start k < t.length) :
    t.Reached start ↔ t.Probed start := by
  constructor
  · intro h
    refine ⟨h.nodup_keys, fun k v d hd hslot j hj hnone ↦ ?_⟩
    obtain ⟨d', hd', heq, -, hbefore⟩ := (find_eq_some_iff (hstart k)).1 (h _ k v hslot)
    -- the distance is the same, since both are less than a round
    obtain rfl := eq_of_add_mod_eq (hstart k) hd hd' heq
    have hends := hbefore j hj
    rw [ends, List.getD_eq_getElem?_getD, hnone] at hends
    exact absurd hends (by simp)
  · intro h i k v hslot
    obtain ⟨hi, -⟩ := List.getElem?_eq_some_iff.1 hslot
    have hpos := hstart k
    have heq : i = (start k + (i + t.length - start k) % t.length) % t.length := by
      rw [Nat.add_mod_mod, Nat.add_sub_cancel' (by omega), Nat.add_mod_right, Nat.mod_eq_of_lt hi]
    have hd : (i + t.length - start k) % t.length < t.length := Nat.mod_lt _ (by omega)
    refine (find_eq_some_iff hpos).2 ⟨_, hd, heq, ?_, fun j hj ↦ ?_⟩
    · rw [ends_eq_true, List.getD_eq_getElem?_getD, hslot]
      exact .inr ⟨v, rfl⟩
    · -- the slots before are not empty, and hold other keys
      rw [heq] at hslot
      have hne := h.ne_none k v _ hd hslot j hj
      have hlt : (start k + j) % t.length < t.length := Nat.mod_lt _ (by omega)
      rw [ends, List.getD_eq_getElem?_getD, List.getElem?_eq_getElem hlt]
      rw [List.getElem?_eq_getElem hlt] at hne
      match hget : t[(start k + j) % t.length] with
      | none => exact absurd (congrArg some hget) hne
      | some (k', v') =>
        refine decide_eq_false fun hk ↦ ?_
        subst hk
        have hsame := eq_of_nodup_keys h.nodup_keys hslot
          (by rw [List.getElem?_eq_getElem hlt, hget])
        exact hj.ne (eq_of_add_mod_eq hpos (hj.trans hd) hd hsame.symm)

end Slots
