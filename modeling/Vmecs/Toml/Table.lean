import Mathlib.Data.Finset.Card
import Mathlib.Data.Finset.Dedup
import Mathlib.Data.Finset.Insert
import Vmecs.Lib.Probing
import Vmecs.Pub.Type

/-!
# Hash tables (`toml/table.c`)

A table of `cap` slots, searched by open addressing from the slot that the hash of the key says.
That the capacity is a power of two is a field, so the mask of the hash is always a slot.

As a finite map the table is wrong in one way: `_hash_table_insert` tests `size == cap` to decide
when to grow, but nothing ever counts `size` up. So a table keeps its eight slots, and is the finite
map it should be up to eight keys (`hashTable_isFiniteMap_iff`).
-/

namespace Vmecs

variable {V : Type}

/-- `TABLE_INIT_BUF`. -/
def tableInitBuf : ℕ := 8

/-- A `char` as an `int`, then as a `size_t`: the bytes from 128 on are negative. -/
def charToSize (c : UInt8) : UInt64 := if c < 128 then c.toUInt64 else c.toUInt64 - 256

/-- `_hash_table_hash`. -/
def hashTableHash (key : CString) : UInt64 :=
  key.1.foldl (fun hash c ↦ ((hash <<< 5) + hash) + charToSize c) 5381

/-- `hash_table_t`; `cap` is the number of slots. -/
structure HashTable (V : Type) where
  tab : Slots CString V
  size : ℕ
  length_tab : ∃ k, tab.length = 2 ^ k

/-- The field `cap`. -/
def HashTable.cap (table : HashTable V) : ℕ := table.tab.length

/-- `hash & (table->cap - 1)`, in a table of `cap` slots. -/
def hashTablePos (cap : ℕ) (key : CString) : ℕ := (hashTableHash key).toNat &&& (cap - 1)

/-- `hash_table_new`. -/
def hashTableNew : HashTable V where
  tab := List.replicate tableInitBuf none
  size := 0
  length_tab := ⟨3, by simp [tableInitBuf]⟩

/-- `_hash_table_find`: the slots from the position of the hash to the end, then those before it. -/
def hashTableFind (table : HashTable V) (key : CString) : Option ℕ :=
  table.tab.find key (hashTablePos table.cap key)

/-- `_hash_table_insert` behind its test for growth; fails on the assertion that a slot is found. -/
def hashTablePut (table : HashTable V) (key : CString) (val : V) : Option (HashTable V) :=
  (hashTableFind table key).map fun found ↦
    { table with
      tab := table.tab.set found (some (key, val))
      length_tab := by simpa using table.length_tab }

/-- The table with which `_hash_table_expand` begins. -/
def hashTableDoubled (table : HashTable V) : HashTable V where
  tab := List.replicate (2 * table.cap) none
  size := 0
  length_tab := by
    obtain ⟨k, hk⟩ := table.length_tab
    refine ⟨k + 1, ?_⟩
    rw [List.length_replicate, HashTable.cap, hk, Nat.pow_succ, Nat.mul_comm]

@[simp] theorem cap_hashTableDoubled (table : HashTable V) :
    (hashTableDoubled table).cap = 2 * table.cap := List.length_replicate

/-- `_hash_table_expand`. The inserts from here do not grow the table again: its size has just been
set to 0, and no insert changes it. -/
def hashTableExpand (table : HashTable V) : Option (HashTable V) :=
  table.tab.foldlM
    (fun table entry ↦
      match entry with
      | none => some table
      | some (key, val) => hashTablePut table key val)
    (hashTableDoubled table)

/-- `_hash_table_insert`, and with it `hash_table_insert`, whose key is a copy. -/
def hashTableInsert (table : HashTable V) (key : CString) (val : V) : Option (HashTable V) := do
  let table ← if table.size = table.cap then hashTableExpand table else some table
  hashTablePut table key val

/-- `hash_table_lookup`. -/
def hashTableLookup (table : HashTable V) (key : CString) : Option V :=
  table.tab.lookup key (hashTablePos table.cap key)

/-! ### One call -/

/-- The table as a whole keeps the invariant of its slots. -/
def HashTable.Good (table : HashTable V) : Prop := table.tab.Reached (hashTablePos table.cap)

theorem hashTablePos_lt (table : HashTable V) (key : CString) :
    hashTablePos table.cap key < table.cap := by
  obtain ⟨k, hk⟩ := table.length_tab
  rw [hashTablePos, HashTable.cap, hk, Nat.and_two_pow_sub_one_eq_mod]
  exact Nat.mod_lt _ (Nat.two_pow_pos k)

theorem good_hashTableNew : (hashTableNew : HashTable V).Good := by
  intro i k v h
  rw [hashTableNew, List.getElem?_replicate] at h
  split at h <;> exact absurd h (by simp)

theorem mem_hashTableNew (k : CString) (v : V) :
    some (k, v) ∉ (hashTableNew : HashTable V).tab := by
  simp [hashTableNew]

/-- A lookup in a good table finds what is stored. -/
theorem hashTableLookup_eq_some {table : HashTable V} (h : table.Good) {key : CString} {val : V} :
    hashTableLookup table key = some val ↔ some (key, val) ∈ table.tab :=
  h.lookup_eq_some

/-- **What storing a key does** to a good table: it stays good, of the same capacity and size, and
changes at that key alone. -/
theorem hashTablePut_spec {table table' : HashTable V} (h : table.Good) {key : CString} {val : V}
    (hput : hashTablePut table key val = some table') :
    table'.Good ∧ table'.cap = table.cap ∧ table'.size = table.size ∧
      ∀ k v, some (k, v) ∈ table'.tab ↔ if k = key then v = val else some (k, v) ∈ table.tab := by
  obtain ⟨found, hfound, rfl⟩ := Option.map_eq_some_iff.1 hput
  have hlt : found < table.tab.length :=
    Slots.lt_length_of_find (hashTablePos_lt table key).le hfound
  have hcap : (table.tab.set found (some (key, val))).length = table.cap := List.length_set
  have hgood : Slots.Reached (table.tab.set found (some (key, val)))
      (hashTablePos (table.tab.set found (some (key, val))).length) := by
    rw [hcap]
    exact h.set hfound hlt val
  exact ⟨hgood, hcap, rfl, fun k v ↦ h.mem_set hfound hlt⟩

/-- The assertion fails on a table that is full of other keys only. -/
theorem hashTablePut_eq_none {table : HashTable V} {key : CString} {val : V}
    (hput : hashTablePut table key val = none) :
    table.tab.keys.length = table.cap ∧ key ∉ table.tab.keys :=
  Slots.length_keys_of_find (hashTablePos_lt table key).le (Option.map_eq_none_iff.1 hput)

/-! ### Sequences of calls -/

/-- A sequence of inserts; fails if an assertion does. -/
def hashTableInserts (table : HashTable V) (kvs : List (CString × V)) : Option (HashTable V) :=
  kvs.foldlM (fun table e ↦ hashTableInsert table e.1 e.2) table

/-- The finite map that a sequence of inserts stands for: at each key the last value. -/
def lastValues (kvs : List (CString × V)) : CString → Option V :=
  kvs.foldl (fun m e ↦ Function.update m e.1 (some e.2)) fun _ ↦ none

/-- **The table is a finite map**: no insert fails an assertion, and every lookup gives the value
of the last insert with the key. -/
def IsFiniteMap (kvs : List (CString × V)) : Prop :=
  ∃ table, hashTableInserts hashTableNew kvs = some table ∧
    ∀ key, hashTableLookup table key = lastValues kvs key

/-- A table as `hash_table_new` and inserts make it: good, and never grown. -/
structure HashTable.Sound (table : HashTable V) : Prop where
  good : table.Good
  cap_eq : table.cap = tableInitBuf
  size_eq : table.size = 0

/-- The invariant of a sequence of inserts `kvs`. -/
structure HashTable.Holds (table : HashTable V) (kvs : List (CString × V)) : Prop
    extends HashTable.Sound table where
  mem_iff : ∀ k v, some (k, v) ∈ table.tab ↔ lastValues kvs k = some v

theorem lastValues_concat (kvs : List (CString × V)) (key : CString) (val : V) :
    lastValues (kvs ++ [(key, val)]) = Function.update (lastValues kvs) key (some val) := by
  rw [lastValues, List.foldl_append]
  rfl

theorem lastValues_isSome (kvs : List (CString × V)) (key : CString) :
    (∃ v, lastValues kvs key = some v) ↔ key ∈ kvs.map Prod.fst := by
  induction kvs using List.reverseRecOn with
  | nil => simp [lastValues]
  | append_singleton kvs e ih =>
    rw [lastValues_concat, List.map_append, List.mem_append, ← ih]
    rcases eq_or_ne key e.1 with rfl | hne
    · simp
    · simp [hne]

/-- The keys stored are those inserted. -/
theorem HashTable.Holds.mem_keys {table : HashTable V} {kvs : List (CString × V)}
    (h : table.Holds kvs) (key : CString) : key ∈ table.tab.keys ↔ key ∈ kvs.map Prod.fst := by
  rw [Slots.mem_keys, ← lastValues_isSome]
  exact exists_congr fun v ↦ h.mem_iff key v

/-- The slots in use are as many as the distinct keys inserted. -/
theorem HashTable.Holds.length_keys {table : HashTable V} {kvs : List (CString × V)}
    (h : table.Holds kvs) : table.tab.keys.length = (kvs.map Prod.fst).toFinset.card := by
  rw [← List.toFinset_card_of_nodup h.good.nodup_keys]
  refine congrArg Finset.card (Finset.ext fun key ↦ ?_)
  rw [List.mem_toFinset, List.mem_toFinset, h.mem_keys]

theorem sound_hashTableNew : (hashTableNew : HashTable V).Sound where
  good := good_hashTableNew
  cap_eq := List.length_replicate
  size_eq := rfl

theorem holds_hashTableNew : (hashTableNew : HashTable V).Holds [] where
  toSound := sound_hashTableNew
  mem_iff k v := iff_of_false (mem_hashTableNew k v) (by simp [lastValues])

/-- A table whose size was never counted up does not grow. -/
theorem HashTable.Sound.hashTableInsert_eq {table : HashTable V} (h : table.Sound) (key : CString)
    (val : V) :
    hashTableInsert table key val = hashTablePut table key val := by
  rw [hashTableInsert, if_neg]
  · rfl
  · rw [h.size_eq, h.cap_eq]
    exact Nat.zero_ne_add_one _

/-- An insert, if it does not fail, changes the table at its key alone. -/
theorem HashTable.Sound.insert {table table' : HashTable V} (h : table.Sound) {key : CString}
    {val : V} (hins : hashTableInsert table key val = some table') :
    table'.Sound ∧
      ∀ k v, some (k, v) ∈ table'.tab ↔ if k = key then v = val else some (k, v) ∈ table.tab := by
  rw [h.hashTableInsert_eq] at hins
  obtain ⟨hgood, hcap, hsize, hmem⟩ := hashTablePut_spec h.good hins
  exact ⟨⟨hgood, hcap.trans h.cap_eq, hsize.trans h.size_eq⟩, hmem⟩

/-- One insert keeps the invariant, if it does not fail; -/
theorem HashTable.Holds.insert {table table' : HashTable V} {kvs : List (CString × V)}
    (h : table.Holds kvs) {key : CString} {val : V}
    (hins : hashTableInsert table key val = some table') : table'.Holds (kvs ++ [(key, val)]) := by
  obtain ⟨hsound, hmem⟩ := h.toSound.insert hins
  refine ⟨hsound, fun k v ↦ ?_⟩
  rw [hmem, lastValues_concat]
  split
  case isTrue hk => rw [hk, Function.update_self, Option.some_inj, eq_comm]
  case isFalse hk => rw [Function.update_of_ne hk, h.mem_iff]

/-- and it fails exactly on a ninth key. -/
theorem HashTable.Holds.insert_eq_none {table : HashTable V} {kvs : List (CString × V)}
    (h : table.Holds kvs) {key : CString} {val : V}
    (hins : hashTableInsert table key val = none) :
    tableInitBuf < ((kvs ++ [(key, val)]).map Prod.fst).toFinset.card := by
  rw [h.hashTableInsert_eq] at hins
  obtain ⟨hfull, hnew⟩ := hashTablePut_eq_none hins
  rw [h.mem_keys] at hnew
  rw [h.length_keys, h.cap_eq] at hfull
  rw [List.map_append, List.toFinset_append, Finset.union_comm]
  show _ < ({key} ∪ _ : Finset CString).card
  rw [← Finset.insert_eq, Finset.card_insert_of_notMem (by rwa [List.mem_toFinset]), hfull]
  exact Nat.lt_succ_self _

/-- **The invariant of a run**, with what stops one. -/
theorem hashTableInserts_spec (kvs : List (CString × V)) :
    (∃ table, hashTableInserts hashTableNew kvs = some table ∧ table.Holds kvs) ∨
      hashTableInserts (hashTableNew : HashTable V) kvs = none ∧
        tableInitBuf < (kvs.map Prod.fst).toFinset.card := by
  induction kvs using List.reverseRecOn with
  | nil => exact .inl ⟨_, rfl, holds_hashTableNew⟩
  | append_singleton kvs e ih =>
    have happ : hashTableInserts (hashTableNew : HashTable V) (kvs ++ [e]) =
        (hashTableInserts hashTableNew kvs).bind fun table ↦ hashTableInsert table e.1 e.2 := by
      rw [hashTableInserts, List.foldlM_append]
      simp [hashTableInserts]
    rw [happ]
    rcases ih with ⟨table, htable, hholds⟩ | ⟨hnone, hcard⟩
    · rw [htable, Option.bind_some]
      cases hins : hashTableInsert table e.1 e.2 with
      | some table' => exact .inl ⟨table', rfl, hholds.insert hins⟩
      | none => exact .inr ⟨rfl, hholds.insert_eq_none hins⟩
    · refine .inr ⟨by rw [hnone, Option.bind_none], hcard.trans_le (Finset.card_le_card ?_)⟩
      rw [List.map_append, List.toFinset_append]
      exact Finset.subset_union_left

/-- **Exactly when the table is a finite map**: the keys inserted are at most eight different ones.
-/
theorem hashTable_isFiniteMap_iff (kvs : List (CString × V)) :
    IsFiniteMap kvs ↔ (kvs.map Prod.fst).toFinset.card ≤ tableInitBuf := by
  rcases hashTableInserts_spec kvs with ⟨table, htable, hholds⟩ | ⟨hnone, hcard⟩
  · refine iff_of_true ⟨table, htable, fun key ↦ Option.ext fun v ↦ ?_⟩ ?_
    · rw [hashTableLookup_eq_some hholds.good, hholds.mem_iff]
    · rw [← hholds.length_keys, ← hholds.cap_eq]
      exact Slots.length_keys_le
  · refine iff_of_false (fun ⟨table, htable, _⟩ ↦ ?_) (not_le.2 hcard)
    rw [hnone] at htable
    exact absurd htable (by simp)

/-- Nine keys of one letter: the ninth insert fails its assertion. -/
theorem not_isFiniteMap_nine :
    ¬IsFiniteMap ((List.range 9).map fun i ↦ (cstr [UInt8.ofNat (97 + i)], i)) := by
  rintro ⟨table, htable, -⟩
  have hnone : hashTableInserts (hashTableNew : HashTable ℕ)
      ((List.range 9).map fun i ↦ (cstr [UInt8.ofNat (97 + i)], i)) = none := by decide +kernel
  rw [hnone] at htable
  exact absurd htable (by simp)

end Vmecs
