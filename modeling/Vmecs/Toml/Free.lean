import Mathlib.Data.Fintype.Card
import Mathlib.Data.List.Flatten
import Vmecs.Lib.Traversal
import Vmecs.Toml.Document

/-!
# Freeing a document (`object_free` in `toml/obj.h`)

The objects of a loaded document are freed by one call on the root: a table frees the objects under
its keys, then its keys, its slots and itself. That this frees every block once, and none before
what it points to, depends on the generator. It never overwrites what is in a table (`Kept`), so
nothing it has allocated gets lost, and it puts every table under one key of one table (`Built`).
The same is true of the objects made so far when it gives up on an entry.

The call is an instance of the traversal of a tree behind the children of each node
(`objectFree_eq`), on the tree of the places where objects lie (`Cell`).
-/

namespace Vmecs

open Traversal

/-! ### Blocks of memory -/

/-- The place of an object: a table has its address, and a value the slot that points to it. -/
inductive Cell where
  | table (addr : ℕ)
  | value (addr i : ℕ)
  deriving DecidableEq

/-- The place of the object that slot `i` of the table at `addr` points to. -/
def Object.cell (addr i : ℕ) : Object → Cell
  | .table a => .table a
  | _ => .value addr i

/-- What `malloc`, `calloc` and `strdup` have given. -/
inductive HeapBlock where
  /-- An `object_t`, of any type. -/
  | object (cell : Cell)
  /-- The field `str` of a string. -/
  | str (cell : Cell)
  /-- The `hash_table_t` of a table. -/
  | hashTable (addr : ℕ)
  /-- Its field `tab`. -/
  | slots (addr : ℕ)
  /-- The key in slot `i`. -/
  | key (addr i : ℕ)
  deriving DecidableEq

/-- The slots over which `HASH_TABLE_FOREACH` goes: those with a key, in order. -/
def HashTable.used {V : Type} (table : HashTable V) : List (ℕ × CString × V) :=
  table.tab.zipIdx.filterMap fun slot ↦ slot.1.map fun entry ↦ (slot.2, entry)

/-- `hash_table_free`; to free the key of an empty slot does nothing. -/
def hashTableFree (addr : ℕ) (table : HashTable Object) : List HeapBlock :=
  table.used.map (fun entry ↦ .key addr entry.1) ++ [.slots addr, .hashTable addr]

/-- `object_free`, with the functions that the types give for it: the blocks in the order in which
they are freed, down to a depth. -/
def objectFree (heap : Heap) : ℕ → Cell → Object → Option (List HeapBlock)
  | 0, _, _ => none
  | depth + 1, cell, obj =>
    match obj with
    -- no `free_func`
    | .int _ | .bool _ => some [.object cell]
    -- `_string_object_free`
    | .string _ => some [.str cell, .object cell]
    -- `_table_object_free`
    | .table addr => do
      let table ← heap[addr]?
      let below ← table.used.mapM fun entry ↦
        objectFree heap depth (entry.2.2.cell addr entry.1) entry.2.2
      some (below.flatten ++ hashTableFree addr table ++ [.object cell])

/-! ### The tree of the places -/

/-- The slot of a table. -/
def slotAt (heap : Heap) (addr i : ℕ) : Option (CString × Object) :=
  heap[addr]?.bind fun table ↦ table.tab[i]?.join

/-- What a place points to: the objects under the keys of a table. -/
def Cell.children (heap : Heap) : Cell → List (CString × Cell)
  | .table addr =>
    (heap[addr]?.map HashTable.used).getD [] |>.map fun entry ↦
      (entry.2.1, entry.2.2.cell addr entry.1)
  | .value _ _ => []

/-- The object is the one at the place. -/
def Cell.Holds (heap : Heap) : Cell → Object → Prop
  | .table addr, obj => obj = .table addr ∧ addr < heap.length
  | .value addr i, obj => (∃ key, slotAt heap addr i = some (key, obj)) ∧ ∀ a, obj ≠ .table a

/-- The blocks of an object, apart from those of the objects under its keys. -/
def Cell.blocks (heap : Heap) (cell : Cell) : List HeapBlock :=
  match cell with
  | .table addr => (heap[addr]?.map (hashTableFree addr)).getD [] ++ [.object cell]
  | .value addr i =>
    match slotAt heap addr i with
    | some (_, .string _) => [.str cell, .object cell]
    | _ => [.object cell]

/-- No table points out of the heap. -/
def Closed (heap : Heap) : Prop :=
  ∀ addr i key a, slotAt heap addr i = some (key, .table a) → a < heap.length

section

variable {heap heap' : Heap} {root addr i depth : ℕ} {key : CString} {obj : Object} {cell : Cell}

theorem HashTable.mem_used {V : Type} {table : HashTable V} {key : CString} {val : V} :
    (i, key, val) ∈ table.used ↔ table.tab[i]? = some (some (key, val)) := by
  rw [used, List.mem_filterMap]
  constructor
  · rintro ⟨⟨slot, j⟩, hmem, heq⟩
    obtain ⟨entry, rfl, hpair⟩ := Option.map_eq_some_iff.1 heq
    obtain ⟨rfl, rfl⟩ := Prod.mk.inj hpair
    exact List.mem_zipIdx_iff_getElem?.1 hmem
  · intro h
    exact ⟨(some (key, val), i), List.mem_zipIdx_iff_getElem?.2 h, rfl⟩

theorem HashTable.map_key_used {V : Type} (table : HashTable V) :
    table.used.map (fun entry ↦ entry.2.1) = table.tab.keys := by
  have hslots : table.tab.zipIdx.map Prod.fst = table.tab := List.zipIdx_map_fst 0 _
  rw [used, List.map_filterMap, Slots.keys]
  conv_rhs => rw [← hslots]
  rw [List.filterMap_map]
  refine List.filterMap_congr fun slot _ ↦ ?_
  rw [Option.map_map]
  rfl

theorem HashTable.nodup_index_used {V : Type} (table : HashTable V) :
    (table.used.map Prod.fst).Nodup := by
  have hindex : table.tab.zipIdx.Pairwise fun a b ↦ a.2 ≠ b.2 := by
    refine List.pairwise_map.1 (?_ : (table.tab.zipIdx.map Prod.snd).Nodup)
    rw [List.zipIdx_map_snd]
    exact List.nodup_range'
  refine List.pairwise_map.2 (hindex.filterMap _ fun a b hne e he e' he' ↦ ?_)
  obtain ⟨entry, -, rfl⟩ := Option.map_eq_some_iff.1 he
  obtain ⟨entry', -, rfl⟩ := Option.map_eq_some_iff.1 he'
  exact hne

theorem slotAt_eq_some_iff {entry : CString × Object} : slotAt heap addr i = some entry ↔
    ∃ table, heap[addr]? = some table ∧ table.tab[i]? = some (some entry) := by
  rw [slotAt, Option.bind_eq_some_iff]
  exact exists_congr fun table ↦ and_congr_right fun _ ↦ Option.join_eq_some_iff

/-- The children of a table are the objects in its slots. -/
theorem Cell.mem_children {key : CString} {child : Cell} :
    (key, child) ∈ Cell.children heap (.table addr) ↔
      ∃ i obj, slotAt heap addr i = some (key, obj) ∧ child = obj.cell addr i := by
  simp only [children, List.mem_map, slotAt_eq_some_iff]
  cases hslot : heap[addr]? with
  | none => simp
  | some table =>
    simp only [Option.map_some, Option.getD_some, Option.some_inj, exists_eq_left', Prod.mk.injEq]
    constructor
    · rintro ⟨⟨i, k, obj⟩, hmem, rfl, rfl⟩
      exact ⟨i, obj, HashTable.mem_used.1 hmem, rfl⟩
    · rintro ⟨i, obj, hslot, rfl⟩
      exact ⟨(i, key, obj), HashTable.mem_used.2 hslot, rfl, rfl⟩

theorem Cell.holds_cell (h : Closed heap) (hslot : slotAt heap addr i = some (key, obj)) :
    (obj.cell addr i).Holds heap obj := by
  cases obj with
  | table a => exact ⟨rfl, h addr i key a hslot⟩
  | int | bool | string => exact ⟨⟨key, hslot⟩, by simp⟩

/-- **`object_free` goes over the tree** of the places, and frees the blocks of each. -/
theorem objectFree_eq (h : Closed heap) (hcell : cell.Holds heap obj) :
    objectFree heap depth cell obj =
      collect (Cell.children heap) (Cell.blocks heap) depth cell := by
  induction depth generalizing cell obj with
  | zero => rfl
  | succ depth ih =>
    cases cell with
    | table addr =>
      obtain ⟨rfl, hlt⟩ := hcell
      obtain ⟨table, htable⟩ : ∃ table, heap[addr]? = some table :=
        ⟨_, List.getElem?_eq_getElem hlt⟩
      have hbelow : (table.used.mapM fun entry ↦
          objectFree heap depth (entry.2.2.cell addr entry.1) entry.2.2) =
          table.used.mapM fun entry ↦ collect (Cell.children heap) (Cell.blocks heap) depth
            (entry.2.2.cell addr entry.1) :=
        mapM_congr fun entry hentry ↦ ih (Cell.holds_cell h (slotAt_eq_some_iff.2
          ⟨table, htable, HashTable.mem_used.1 hentry⟩))
      rw [objectFree, collect, Cell.children, Cell.blocks, htable]
      show (List.mapM _ _ >>= _) = Option.map _ (List.mapM _ (List.map _ _))
      rw [hbelow, List.mapM_map]
      simp only [List.append_assoc, Option.map_eq_bind]
      rfl
    | value addr i =>
      obtain ⟨⟨key, hslot⟩, hval⟩ := hcell
      cases obj with
      | table a => exact absurd rfl (hval a)
      | int | bool | string => simp [objectFree, collect, Cell.children, Cell.blocks, hslot]

/-! ### Paths -/

theorem Object.cell_eq_table {j a : ℕ} : obj.cell addr j = .table a ↔ obj = .table a := by
  cases obj <;> simp [Object.cell]

theorem Object.cell_eq_value {j a : ℕ} :
    obj.cell addr j = .value a i ↔ addr = a ∧ j = i ∧ ∀ b, obj ≠ .table b := by
  cases obj <;> simp [Object.cell]

/-- A lookup finds what is in a slot. -/
theorem TreeHeap.lookup_eq_some_iff (h : TreeHeap heap root) :
    tableObjectLookup heap addr key = some obj ↔ ∃ i, slotAt heap addr i = some (key, obj) := by
  simp only [tableObjectLookup, Option.bind_eq_some_iff, slotAt_eq_some_iff]
  rw [exists_comm]
  refine exists_congr fun table ↦ ?_
  rw [exists_and_left]
  refine and_congr_right fun htable ↦ ?_
  rw [hashTableLookup_eq_some (h.sound table (List.mem_of_getElem? htable)).good,
    List.mem_iff_getElem?]

/-- The last key of a path leads from a table to one of its slots. -/
theorem reach_concat_iff_slotAt {p : KeyPath} {child : Cell} :
    Reach (Cell.children heap) (.table root) (p ++ [key]) child ↔
      ∃ a, Reach (Cell.children heap) (.table root) p (.table a) ∧
        ∃ i obj, slotAt heap a i = some (key, obj) ∧ child = obj.cell a i := by
  rw [reach_concat_iff]
  constructor
  · rintro ⟨a | ⟨a, i⟩, hreach, hchild⟩
    · exact ⟨a, hreach, Cell.mem_children.1 hchild⟩
    · exact absurd hchild List.not_mem_nil
  · rintro ⟨a, hreach, hslot⟩
    exact ⟨.table a, hreach, Cell.mem_children.2 hslot⟩

/-- The tables that are reached along keys are those which lookups find. -/
theorem TreeHeap.reach_table_iff (h : TreeHeap heap root) {p : KeyPath} :
    Reach (Cell.children heap) (.table root) p (.table addr) ↔
      objectAt heap root p = some (.table addr) := by
  induction p using List.reverseRecOn generalizing addr with
  | nil =>
    rw [reach_nil_iff, objectAt_nil, Option.some_inj, Cell.table.injEq, Object.table.injEq, eq_comm]
  | append_singleton p key ih =>
    rw [reach_concat_iff_slotAt, objectAt_concat, Option.bind_eq_some_iff]
    constructor
    · rintro ⟨a, hreach, i, obj, hslot, hcell⟩
      obtain rfl := Object.cell_eq_table.1 hcell.symm
      exact ⟨.table a, ih.1 hreach, h.lookup_eq_some_iff.2 ⟨i, hslot⟩⟩
    · rintro ⟨obj, hobj, hchild⟩
      cases obj with
      | table a =>
        obtain ⟨i, hslot⟩ := h.lookup_eq_some_iff.1 hchild
        exact ⟨a, ih.2 hobj, i, .table addr, hslot, rfl⟩
      | int | bool | string => exact absurd hchild (by simp [childOf])

/-- And a value is reached in a slot of such a table. -/
theorem TreeHeap.reach_value_iff (h : TreeHeap heap root) {p : KeyPath} :
    Reach (Cell.children heap) (.table root) p (.value addr i) ↔
      ∃ q key obj, p = q ++ [key] ∧ objectAt heap root q = some (.table addr) ∧
        slotAt heap addr i = some (key, obj) ∧ ∀ b, obj ≠ .table b := by
  constructor
  · intro hreach
    induction p using List.reverseRecOn with
    | nil => exact absurd (reach_nil_iff.1 hreach) (by simp)
    | append_singleton p key _ =>
      obtain ⟨a, htable, j, obj, hslot, hcell⟩ := reach_concat_iff_slotAt.1 hreach
      obtain ⟨rfl, rfl, hval⟩ := Object.cell_eq_value.1 hcell.symm
      exact ⟨p, key, obj, rfl, h.reach_table_iff.1 htable, hslot, hval⟩
  · rintro ⟨q, key, obj, rfl, hobj, hslot, hval⟩
    exact reach_concat_iff_slotAt.2 ⟨addr, h.reach_table_iff.2 hobj, i, obj, hslot,
      (Object.cell_eq_value.2 ⟨rfl, rfl, hval⟩).symm⟩

/-- A path to a table goes through a table for each of its keys. -/
theorem TreeHeap.length_lt (h : TreeHeap heap root) {p : KeyPath}
    (hp : objectAt heap root p = some (.table addr)) : p.length < heap.length := by
  have hprefix (j : Fin (p.length + 1)) : ∃ a, objectAt heap root (p.take j) = some (.table a) :=
    exists_table_of_isPrefix hp (List.take_prefix j p)
  choose a ha using hprefix
  have hinj : Function.Injective fun j ↦ (⟨a j, h.lt_length (ha j)⟩ : Fin heap.length) := by
    intro j j' heq
    have hpaths : p.take j = p.take j' :=
      h.inj (ha j) (Fin.mk.inj heq ▸ ha j')
    have hlen := congrArg List.length hpaths
    rw [List.length_take, List.length_take] at hlen
    exact Fin.ext (by omega)
  simpa [Nat.succ_le_iff] using Fintype.card_le_of_injective _ hinj

theorem TreeHeap.isTree (h : TreeHeap heap root) :
    IsTree (Cell.children heap) (.table root) (heap.length + 1) where
  keys_nodup := by
    rintro p (a | ⟨a, i⟩) -
    · rw [Cell.children]
      cases htable : heap[a]? with
      | none => exact List.nodup_nil
      | some table =>
        rw [Option.map_some, Option.getD_some, List.map_map]
        show (table.used.map fun entry ↦ entry.2.1).Nodup
        rw [table.map_key_used]
        exact (h.sound table (List.mem_of_getElem? htable)).good.nodup_keys
    · exact List.nodup_nil
  unique := by
    rintro p q (a | ⟨a, i⟩) hp hq
    · exact h.inj (h.reach_table_iff.1 hp) (h.reach_table_iff.1 hq)
    · obtain ⟨p, key, obj, rfl, hpt, hslot, -⟩ := h.reach_value_iff.1 hp
      obtain ⟨q, key', obj', rfl, hqt, hslot', -⟩ := h.reach_value_iff.1 hq
      obtain ⟨rfl, -⟩ := Prod.mk.inj (Option.some.inj (hslot.symm.trans hslot'))
      rw [h.inj hpt hqt]
  length_lt := by
    rintro p (a | ⟨a, i⟩) hp
    · exact (h.length_lt (h.reach_table_iff.1 hp)).trans (Nat.lt_succ_self _)
    · obtain ⟨q, key, obj, rfl, hq, -⟩ := h.reach_value_iff.1 hp
      rw [List.length_append, List.length_singleton]
      exact Nat.succ_lt_succ (h.length_lt hq)

/-! ### What is freed -/

variable (heap) in
/-- The block is in use for the tables of a heap. -/
def IsBlock : HeapBlock → Prop
  | .object (.table addr) | .hashTable addr | .slots addr => addr < heap.length
  | .object (.value addr i) => ∃ key obj, slotAt heap addr i = some (key, obj) ∧ ∀ a, obj ≠ .table a
  | .str (.value addr i) => ∃ key str, slotAt heap addr i = some (key, .string str)
  | .str (.table _) => False
  | .key addr i => ∃ entry, slotAt heap addr i = some entry

variable (heap) in
/-- The first block holds a pointer to the second. -/
inductive Points : HeapBlock → HeapBlock → Prop where
  | hashTable (addr : ℕ) : Points (.object (.table addr)) (.hashTable addr)
  | slots (addr : ℕ) : Points (.hashTable addr) (.slots addr)
  | key {addr i : ℕ} {entry : CString × Object} (h : slotAt heap addr i = some entry) :
    Points (.slots addr) (.key addr i)
  | val {addr i : ℕ} {key : CString} {obj : Object} (h : slotAt heap addr i = some (key, obj)) :
    Points (.slots addr) (.object (obj.cell addr i))
  | str {addr i : ℕ} {key str : CString} (h : slotAt heap addr i = some (key, .string str)) :
    Points (.object (.value addr i)) (.str (.value addr i))

variable (heap) in
/-- Every block in use is freed once and nothing else is, and a block goes behind what it points to.
-/
structure FreedOnce (bs : List HeapBlock) : Prop where
  nodup : bs.Nodup
  mem_iff : ∀ b, b ∈ bs ↔ IsBlock heap b
  behind : ∀ {b c}, b ∈ bs → Points heap b c → [c, b].Sublist bs

/-- Every table of the heap can be reached. -/
def AllReached (heap : Heap) (root : ℕ) : Prop :=
  ∀ addr < heap.length, ∃ p, objectAt heap root p = some (.table addr)

/-- The place whose object a block belongs to. -/
def HeapBlock.owner : HeapBlock → Cell
  | .object cell | .str cell => cell
  | .hashTable addr | .slots addr | .key addr _ => .table addr

theorem TreeHeap.closed (h : TreeHeap heap root) (hall : AllReached heap root) : Closed heap := by
  intro addr i key a hslot
  obtain ⟨table, htable, -⟩ := slotAt_eq_some_iff.1 hslot
  obtain ⟨p, hp⟩ := hall addr (List.getElem?_eq_some_iff.1 htable).1
  refine h.lt_length (p := p ++ [key]) ?_
  rw [objectAt_concat, hp]
  exact h.lookup_eq_some_iff.2 ⟨i, hslot⟩

/-- The blocks of a table in the heap. -/
theorem Cell.blocks_table {table : HashTable Object} (htable : heap[addr]? = some table) :
    Cell.blocks heap (.table addr) = table.used.map (fun entry ↦ HeapBlock.key addr entry.1) ++
      [.slots addr, .hashTable addr, .object (.table addr)] := by
  rw [blocks, htable, Option.map_some, Option.getD_some, hashTableFree, List.append_assoc]
  rfl

theorem Cell.nodup_blocks : (Cell.blocks heap cell).Nodup := by
  cases cell with
  | table a =>
    cases htable : heap[a]? with
    | none => simp [blocks, htable]
    | some table =>
      rw [blocks_table htable]
      have hkeys : (table.used.map fun entry ↦ HeapBlock.key a entry.1).Nodup :=
        .of_map (fun b ↦ match b with | .key _ i => i | _ => 0) <| by
          rw [List.map_map]
          exact table.nodup_index_used
      simp [List.nodup_append', hkeys]
  | value a i =>
    rw [blocks]
    split <;> simp

/-- The blocks of a place are those in use that belong to it. -/
theorem Cell.mem_blocks_iff {b : HeapBlock} (hcell : cell.Holds heap obj) :
    b ∈ Cell.blocks heap cell ↔ IsBlock heap b ∧ b.owner = cell := by
  cases cell with
  | table a =>
    obtain ⟨-, hlt⟩ := hcell
    have htable : heap[a]? = some heap[a] := List.getElem?_eq_getElem hlt
    rw [blocks_table htable]
    simp only [List.mem_append, List.mem_map, List.mem_cons, List.not_mem_nil, or_false]
    constructor
    · rintro (⟨⟨i, key, obj⟩, hused, rfl⟩ | rfl | rfl | rfl)
      · exact ⟨⟨_, slotAt_eq_some_iff.2 ⟨_, htable, HashTable.mem_used.1 hused⟩⟩, rfl⟩
      · exact ⟨hlt, rfl⟩
      · exact ⟨hlt, rfl⟩
      · exact ⟨hlt, rfl⟩
    · rintro ⟨hblock, hcell⟩
      cases b with
      | object c =>
        obtain rfl : c = .table a := hcell
        simp
      | str c =>
        obtain rfl : c = .table a := hcell
        exact hblock.elim
      | hashTable c =>
        obtain rfl := Cell.table.inj hcell
        simp
      | slots c =>
        obtain rfl := Cell.table.inj hcell
        simp
      | key c i =>
        obtain rfl := Cell.table.inj hcell
        obtain ⟨entry, hslot⟩ := hblock
        obtain ⟨table, htable', hentry⟩ := slotAt_eq_some_iff.1 hslot
        obtain rfl := Option.some.inj (htable.symm.trans htable')
        exact .inl ⟨_, HashTable.mem_used.2 hentry, rfl⟩
  | value a i =>
    obtain ⟨⟨key, hslot⟩, hval⟩ := hcell
    rw [blocks, hslot]
    constructor
    · intro hb
      cases obj with
      | table c => exact absurd rfl (hval c)
      | int | bool =>
        obtain rfl := List.mem_singleton.1 hb
        exact ⟨⟨key, _, hslot, hval⟩, rfl⟩
      | string str =>
        rcases List.mem_cons.1 hb with rfl | hb
        · exact ⟨⟨key, str, hslot⟩, rfl⟩
        · obtain rfl := List.mem_singleton.1 hb
          exact ⟨⟨key, _, hslot, hval⟩, rfl⟩
    · rintro ⟨hblock, hcell⟩
      cases b with
      | object c =>
        obtain rfl : c = .value a i := hcell
        cases obj <;> simp
      | str c =>
        obtain rfl : c = .value a i := hcell
        obtain ⟨key', str, hslot'⟩ := hblock
        obtain ⟨-, rfl⟩ := Prod.mk.inj (Option.some.inj (hslot.symm.trans hslot'))
        simp
      | hashTable c | slots c | key c _ => exact absurd hcell (by simp [HeapBlock.owner])

theorem isBlock_object_cell (h : Closed heap) (hslot : slotAt heap addr i = some (key, obj)) :
    IsBlock heap (.object (obj.cell addr i)) := by
  cases obj with
  | table a => exact h addr i key a hslot
  | int | bool | string => exact ⟨key, _, hslot, by simp⟩

/-- What a block points to lies before it in the same place, or is the object at a place below. -/
theorem Points.cases_owner {b c : HeapBlock} (h : Points heap b c) (hb : IsBlock heap b) :
    [c, b].Sublist (Cell.blocks heap b.owner) ∨
      ∃ addr i key obj, slotAt heap addr i = some (key, obj) ∧ c = .object (obj.cell addr i) ∧
        b.owner = .table addr := by
  cases h with
  | hashTable a =>
    have htable := List.getElem?_eq_getElem (show a < heap.length from hb)
    refine .inl ?_
    rw [HeapBlock.owner, Cell.blocks_table htable]
    exact List.sublist_append_of_sublist_right (by simp)
  | slots a =>
    have htable := List.getElem?_eq_getElem (show a < heap.length from hb)
    refine .inl ?_
    rw [HeapBlock.owner, Cell.blocks_table htable]
    exact List.sublist_append_of_sublist_right (by simp)
  | @key a i entry hslot =>
    obtain ⟨table, htable, hentry⟩ := slotAt_eq_some_iff.1 hslot
    refine .inl ?_
    rw [HeapBlock.owner, Cell.blocks_table htable]
    have hkey : HeapBlock.key a i ∈ table.used.map fun entry ↦ HeapBlock.key a entry.1 :=
      List.mem_map.2 ⟨_, HashTable.mem_used.2 hentry, rfl⟩
    exact (List.singleton_sublist.2 hkey).append (by simp)
  | @val a i key obj hslot => exact .inr ⟨a, i, key, obj, hslot, rfl, rfl⟩
  | @str a i key str hslot =>
    refine .inl ?_
    rw [HeapBlock.owner, Cell.blocks, hslot]

/-- The places that are reached are those of the heap. -/
theorem TreeHeap.holds_of_reach (h : TreeHeap heap root) {p : KeyPath}
    (hreach : Reach (Cell.children heap) (.table root) p cell) : ∃ obj, cell.Holds heap obj := by
  cases cell with
  | table a => exact ⟨.table a, rfl, h.lt_length (h.reach_table_iff.1 hreach)⟩
  | value a i =>
    obtain ⟨q, key, obj, -, -, hslot, hval⟩ := h.reach_value_iff.1 hreach
    exact ⟨obj, ⟨key, hslot⟩, hval⟩

theorem TreeHeap.reach_of_slotAt (h : TreeHeap heap root) (hall : AllReached heap root)
    (hslot : slotAt heap addr i = some (key, obj)) (hval : ∀ a, obj ≠ .table a) :
    ∃ p, Reach (Cell.children heap) (.table root) p (.value addr i) := by
  obtain ⟨table, htable, -⟩ := slotAt_eq_some_iff.1 hslot
  obtain ⟨p, hp⟩ := hall addr (List.getElem?_eq_some_iff.1 htable).1
  exact ⟨p ++ [key], h.reach_value_iff.2 ⟨p, key, obj, rfl, hp, hslot, hval⟩⟩

/-- The place of a block in use is reached. -/
theorem TreeHeap.reach_owner (h : TreeHeap heap root) (hall : AllReached heap root)
    {b : HeapBlock} (hb : IsBlock heap b) :
    ∃ p, Reach (Cell.children heap) (.table root) p b.owner := by
  have htable {a : ℕ} (ha : a < heap.length) :
      ∃ p, Reach (Cell.children heap) (.table root) p (.table a) :=
    (hall a ha).imp fun p hp ↦ h.reach_table_iff.2 hp
  match b, hb with
  | .object (.table _), hlt => exact htable hlt
  | .hashTable _, hlt => exact htable hlt
  | .slots _, hlt => exact htable hlt
  | .key _ _, ⟨entry, hslot⟩ =>
    obtain ⟨table, hget, -⟩ := slotAt_eq_some_iff.1 hslot
    exact htable (List.getElem?_eq_some_iff.1 hget).1
  | .object (.value _ _), ⟨key, obj, hslot, hval⟩ => exact h.reach_of_slotAt hall hslot hval
  | .str (.value _ _), ⟨key, str, hslot⟩ => exact h.reach_of_slotAt hall hslot (by simp)

/-- **`object_free` frees a tree**: every block in use once, behind what it points to. -/
theorem TreeHeap.objectFree_spec (h : TreeHeap heap root) (hall : AllReached heap root) :
    ∃ bs, objectFree heap (heap.length + 1) (.table root) (.table root) = some bs ∧
      FreedOnce heap bs := by
  obtain ⟨cells, hcells, hordered⟩ := h.isTree.postorder_spec
  have hholds {cell : Cell} (hmem : cell ∈ cells) : ∃ obj, cell.Holds heap obj := by
    obtain ⟨p, hreach⟩ := hordered.mem_iff.1 hmem
    exact h.holds_of_reach hreach
  have hroot : (Cell.table root).Holds heap (.table root) :=
    ⟨rfl, h.lt_length (objectAt_nil heap root)⟩
  refine ⟨cells.flatMap (Cell.blocks heap), ?_, ?_, fun b ↦ ?_, fun {b c} hb hpoints ↦ ?_⟩
  · rw [objectFree_eq (h.closed hall) hroot, collect_eq, hcells]
    rfl
  · -- the blocks of two places belong to different ones
    refine List.nodup_flatMap.2 ⟨fun cell _ ↦ Cell.nodup_blocks, ?_⟩
    refine hordered.nodup.imp_of_mem fun {cell cell'} hmem hmem' hne b hb hb' ↦ ?_
    obtain ⟨obj, hobj⟩ := hholds hmem
    obtain ⟨obj', hobj'⟩ := hholds hmem'
    exact hne (((Cell.mem_blocks_iff hobj).1 hb).2.symm.trans ((Cell.mem_blocks_iff hobj').1 hb').2)
  · rw [List.mem_flatMap]
    constructor
    · rintro ⟨cell, hmem, hb⟩
      obtain ⟨obj, hobj⟩ := hholds hmem
      exact ((Cell.mem_blocks_iff hobj).1 hb).1
    · intro hb
      have hmem := hordered.mem_iff.2 (h.reach_owner hall hb)
      obtain ⟨obj, hobj⟩ := hholds hmem
      exact ⟨b.owner, hmem, (Cell.mem_blocks_iff hobj).2 ⟨hb, rfl⟩⟩
  · obtain ⟨cell, hmem, hb⟩ := List.mem_flatMap.1 hb
    obtain ⟨obj, hobj⟩ := hholds hmem
    obtain ⟨hblock, rfl⟩ := (Cell.mem_blocks_iff hobj).1 hb
    rcases hpoints.cases_owner hblock with hsame | ⟨addr, i, key, val, hslot, rfl, howner⟩
    · exact hsame.trans (List.sublist_flatten_of_mem (List.mem_map_of_mem hmem))
    · -- the places are in this order, and each gives its blocks
      have hchild : (key, val.cell addr i) ∈ Cell.children heap b.owner :=
        howner ▸ Cell.mem_children.2 ⟨i, val, hslot, rfl⟩
      have hcells := (hordered.child_sublist hmem hchild).flatMap (Cell.blocks heap)
      have hc : HeapBlock.object (val.cell addr i) ∈ Cell.blocks heap (val.cell addr i) :=
        (Cell.mem_blocks_iff (Cell.holds_cell (h.closed hall) hslot)).2
          ⟨isBlock_object_cell (h.closed hall) hslot, rfl⟩
      rw [List.flatMap_cons, List.flatMap_singleton] at hcells
      exact ((List.singleton_sublist.2 hc).append (List.singleton_sublist.2 hb)).trans hcells

/-! ### What the generator keeps -/

variable (heap heap') in
/-- Nothing is taken out of a table, and no table out of the heap. -/
structure Kept : Prop where
  length_le : heap.length ≤ heap'.length
  slotAt_eq : ∀ {addr i entry}, slotAt heap addr i = some entry → slotAt heap' addr i = some entry

variable (heap) in
theorem Kept.refl : Kept heap heap := ⟨le_rfl, id⟩

theorem Kept.trans {heap'' : Heap} (h : Kept heap heap') (h' : Kept heap' heap'') :
    Kept heap heap'' :=
  ⟨h.length_le.trans h'.length_le, fun hslot ↦ h'.slotAt_eq (h.slotAt_eq hslot)⟩

/-- No block is lost. -/
theorem Kept.isBlock (h : Kept heap heap') {b : HeapBlock} (hb : IsBlock heap b) :
    IsBlock heap' b := by
  match b, hb with
  | .object (.table _), hlt => exact hlt.trans_le h.length_le
  | .hashTable _, hlt => exact hlt.trans_le h.length_le
  | .slots _, hlt => exact hlt.trans_le h.length_le
  | .key _ _, ⟨entry, hslot⟩ => exact ⟨entry, h.slotAt_eq hslot⟩
  | .object (.value _ _), ⟨key, obj, hslot, hval⟩ => exact ⟨key, obj, h.slotAt_eq hslot, hval⟩
  | .str (.value _ _), ⟨key, str, hslot⟩ => exact ⟨key, str, h.slotAt_eq hslot⟩

theorem Kept.tableObjectNew (heap : Heap) : Kept heap (tableObjectNew heap).1 where
  length_le := by simp [Vmecs.tableObjectNew]
  slotAt_eq hslot := by
    obtain ⟨table, htable, hentry⟩ := slotAt_eq_some_iff.1 hslot
    refine slotAt_eq_some_iff.2 ⟨table, ?_, hentry⟩
    rw [Vmecs.tableObjectNew, List.getElem?_append_left (List.getElem?_eq_some_iff.1 htable).1,
      htable]

/-- An insert under a new key goes to an empty slot. -/
theorem TreeHeap.kept_insert (h : TreeHeap heap root)
    (hnew : tableObjectLookup heap addr key = none)
    (hins : tableObjectInsert heap addr key obj = some heap') : Kept heap heap' := by
  obtain ⟨table, htable, hins⟩ := Option.bind_eq_some_iff.1 hins
  obtain ⟨table', hput, hheap⟩ := Option.bind_eq_some_iff.1 hins
  obtain rfl := Option.some.inj hheap
  rw [(h.sound table (List.mem_of_getElem? htable)).hashTableInsert_eq] at hput
  obtain ⟨found, hfound, rfl⟩ := Option.map_eq_some_iff.1 hput
  refine ⟨List.length_set.ge, fun {a i entry} hslot ↦ ?_⟩
  obtain ⟨table', htable', hentry⟩ := slotAt_eq_some_iff.1 hslot
  obtain ⟨hlt, -⟩ := List.getElem?_eq_some_iff.1 htable
  rcases eq_or_ne addr a with rfl | hne
  · obtain rfl := Option.some.inj (htable.symm.trans htable')
    refine slotAt_eq_some_iff.2 ⟨_, List.getElem?_set_self hlt, ?_⟩
    rcases eq_or_ne found i with rfl | hne
    · -- the slot was found empty, since the lookup found nothing
      rw [tableObjectLookup, htable, Option.bind_some, hashTableLookup, Slots.lookup,
        show table.tab.find key _ = some found from hfound, Option.bind_some,
        List.getD_eq_getElem?_getD, hentry] at hnew
      exact absurd hnew (by simp)
    · exact (List.getElem?_set_ne hne).trans hentry
  · exact slotAt_eq_some_iff.2 ⟨table', by rw [List.getElem?_set_ne hne, htable'], hentry⟩

variable (heap root) in
/-- The heap of the generator: a tree, in which every table is reached. -/
structure Built : Prop where
  tree : TreeHeap heap root
  reached : AllReached heap root

/-- The heap with one path more, be it that of the last table. -/
theorem AllReached.attach (h : AllReached heap root) {p : KeyPath}
    (hfree : objectAt heap root p = none)
    (hmap : ∀ q, objectAt heap' root q = if q = p then some obj else objectAt heap root q)
    (hlen : ∀ a < heap'.length, a < heap.length ∨ obj = .table a) : AllReached heap' root := by
  intro a ha
  rcases hlen a ha with ha | rfl
  · obtain ⟨q, hq⟩ := h a ha
    refine ⟨q, ?_⟩
    rw [hmap, if_neg, hq]
    rintro rfl
    exact absurd (hfree.symm.trans hq) (by simp)
  · exact ⟨p, by rw [hmap, if_pos rfl]⟩

/-- A value under a new key. -/
theorem Built.attach (h : Built heap root) {p : KeyPath}
    (hp : objectAt heap root p = some (.table addr))
    (hnew : tableObjectLookup heap addr key = none) (hval : ∀ a, obj ≠ .table a)
    (hins : tableObjectInsert heap addr key obj = some heap') :
    Built heap' root ∧ Kept heap heap' := by
  have hattach : Attachable heap root obj := fun a ha ↦ absurd ha (hval a)
  obtain ⟨-, hlen, -⟩ := tableObjectInsert_spec h.tree.sound hins
  refine ⟨⟨h.tree.attach hp hnew hattach hins, ?_⟩, h.tree.kept_insert hnew hins⟩
  refine h.reached.attach (p := p ++ [key]) ?_ (objectAt_attach h.tree hp hnew hattach hins)
    fun a ha ↦ .inl (hlen ▸ ha)
  rw [objectAt_concat, hp]
  exact hnew

/-- An empty table under a new key. -/
theorem Built.attach_new (h : Built heap root) {p : KeyPath}
    (hp : objectAt heap root p = some (.table addr))
    (hnew : tableObjectLookup heap addr key = none)
    (hins : tableObjectInsert (tableObjectNew heap).1 addr key (.table heap.length) = some heap') :
    Built heap' root ∧ Kept heap heap' := by
  obtain ⟨htree, hmap⟩ := h.tree.attach_new hp hnew hins
  obtain ⟨-, hlen, -⟩ := tableObjectInsert_spec h.tree.new.sound hins
  have hkept := h.tree.new.kept_insert ((tableObjectLookup_new heap addr key).trans hnew) hins
  refine ⟨⟨htree, h.reached.attach (p := p ++ [key]) ?_ hmap fun a ha ↦ ?_⟩,
    (Kept.tableObjectNew heap).trans hkept⟩
  · rw [objectAt_concat, hp]
    exact hnew
  · rw [hlen, tableObjectNew, List.length_append, List.length_singleton] at ha
    rcases Nat.lt_succ_iff_lt_or_eq.1 ha with hlt | rfl
    · exact .inl hlt
    · exact .inr rfl

/-- The walk along a key, by induction on its identifiers. -/
theorem Built.walk {sub : ℕ} {id : CString} {rest : List CString} {r : KeyPath}
    {res : Option (ℕ × CString)} (h : Built heap root)
    (hr : objectAt heap root r = some (.table sub))
    (hwalk : astKeyWalk heap sub id rest = some (heap', res)) :
    Built heap' root ∧ Kept heap heap' := by
  induction rest generalizing heap sub id r with
  | nil =>
    obtain ⟨rfl, -⟩ := Prod.mk.inj (Option.some.inj hwalk)
    exact ⟨h, .refl heap⟩
  | cons next rest ih =>
    have hchild : objectAt heap root (r ++ [id]) = tableObjectLookup heap sub id := by
      rw [objectAt_concat, hr]
      rfl
    rw [astKeyWalk] at hwalk
    cases hl : tableObjectLookup heap sub id with
    | none =>
      rw [hl] at hwalk
      obtain ⟨heap₁, hins, hwalk⟩ := Option.bind_eq_some_iff.1 hwalk
      obtain ⟨hbuilt, hkept⟩ := h.attach_new hr hl hins
      obtain ⟨-, hmap⟩ := h.tree.attach_new hr hl hins
      obtain ⟨hbuilt', hkept'⟩ := ih hbuilt (r := r ++ [id]) (by rw [hmap, if_pos rfl]) hwalk
      exact ⟨hbuilt', hkept.trans hkept'⟩
    | some o =>
      rw [hl] at hwalk
      cases o with
      | table a => exact ih h (hchild.trans hl) hwalk
      | int | bool | string =>
        obtain ⟨rfl, -⟩ := Prod.mk.inj (Option.some.inj hwalk)
        exact ⟨h, .refl heap⟩

end

/-! ### A run of the generator -/

/-- The tables with which the loop of `_ast_node_entry_gen` returns, or which it has made when it
comes to `object_free(root)`. -/
def astNodeEntryTables (root : ℕ) : Heap → ℕ → List AstEntry → Option Heap
  | heap, _, [] => some heap
  | heap, curEnv, node :: nodes =>
    match astNodeEntryStep root heap curEnv node with
    | none => none
    | some (.error _) =>
      node.key.bind fun key ↦
        (astKeyWalk heap (if node.value = none then root else curEnv) key.id key.next).map Prod.fst
    | some (.ok (heap, curEnv)) => astNodeEntryTables root heap curEnv nodes

section

variable {heap heap' : Heap} {root curEnv newEnv : ℕ} {env : KeyPath} {es : List FullEntry}
  {node : AstEntry} {nodes pre : List AstEntry}

/-- What a turn does: nothing to the tables, or a walk and, if that was no error, an insert. -/
theorem astNodeEntryStep_cases {r : Except String (Heap × ℕ)}
    (hstep : astNodeEntryStep root heap curEnv node = some r) :
    (node.key = none ∧ r = .ok (heap, root)) ∨
    ∃ key heap₁ walked, node.key = some key ∧
      astKeyWalk heap (if node.value = none then root else curEnv) key.id key.next =
        some (heap₁, walked) ∧
      (r = .error overridingValue ∨ ∃ s keyId heap₂ newEnv, walked = some (s, keyId) ∧
        tableObjectLookup heap₁ s keyId = none ∧ r = .ok (heap₂, newEnv) ∧
        ((∃ value : AstValue, tableObjectInsert heap₁ s keyId value.gen = some heap₂) ∨
          tableObjectInsert (tableObjectNew heap₁).1 s keyId (.table heap₁.length) =
            some heap₂)) := by
  obtain ⟨_ | key, val⟩ := node
  · change (if val = none then some (Except.ok (heap, root)) else none) = some r at hstep
    split at hstep
    · exact .inl ⟨rfl, (Option.some.inj hstep).symm⟩
    · exact absurd hstep (by simp)
  · obtain ⟨⟨heap₁, walked⟩, hwalk, hrest⟩ := Option.bind_eq_some_iff.1 hstep
    refine .inr ⟨key, heap₁, walked, rfl, hwalk, ?_⟩
    cases walked with
    | none => exact .inl (Option.some.inj hrest).symm
    | some found =>
      obtain ⟨s, keyId⟩ := found
      simp only at hrest
      split at hrest
      case isTrue => exact .inl (Option.some.inj hrest).symm
      case isFalse hnone =>
        have hfree := Option.not_isSome_iff_eq_none.1 hnone
        cases val with
        | some value =>
          obtain ⟨heap₂, hins, hok⟩ := Option.bind_eq_some_iff.1 hrest
          exact .inr
            ⟨s, keyId, heap₂, _, rfl, hfree, (Option.some.inj hok).symm, .inl ⟨value, hins⟩⟩
        | none =>
          obtain ⟨heap₂, hins, hok⟩ := Option.bind_eq_some_iff.1 hrest
          exact .inr ⟨s, keyId, heap₂, _, rfl, hfree, (Option.some.inj hok).symm, .inr hins⟩

/-- The table in which a turn begins its walk. -/
theorem DocInvariant.objectAt_base (h : DocInvariant heap root curEnv env es)
    (val : Option AstValue) : objectAt heap root (if val = none then [] else env) =
      some (.table (if val = none then root else curEnv)) := by
  split
  · exact objectAt_nil heap root
  · exact h.env_eq

/-- One turn that is no error. -/
theorem DocInvariant.built_step (h : DocInvariant heap root curEnv env es)
    (hall : AllReached heap root)
    (hstep : astNodeEntryStep root heap curEnv node = some (.ok (heap', newEnv))) :
    Built heap' root ∧ Kept heap heap' := by
  rcases astNodeEntryStep_cases hstep with
    ⟨-, hr⟩ | ⟨key, heap₁, walked, -, hwalk, hr | ⟨s, keyId, heap₂, newEnv', rfl, hfree, hr, hins⟩⟩
  · obtain ⟨rfl, -⟩ := Prod.mk.inj (Except.ok.inj hr)
    exact ⟨⟨h.tree, hall⟩, .refl heap'⟩
  · exact absurd hr (by simp)
  · obtain ⟨rfl, -⟩ := Prod.mk.inj (Except.ok.inj hr)
    have hbase := h.objectAt_base node.value
    obtain ⟨hbuilt, hkept⟩ := Built.walk ⟨h.tree, hall⟩ hbase hwalk
    obtain ⟨p, last, -, -, -, rfl, hs⟩ := astKeyWalk_spec h.tree hbase hwalk
    rcases hins with ⟨value, hins⟩ | hins
    · obtain ⟨hbuilt', hkept'⟩ := hbuilt.attach hs hfree (gen_ne_table value) hins
      exact ⟨hbuilt', hkept.trans hkept'⟩
    · obtain ⟨hbuilt', hkept'⟩ := hbuilt.attach_new hs hfree hins
      exact ⟨hbuilt', hkept.trans hkept'⟩

/-- And one that is: what the walk along the key has made. -/
theorem DocInvariant.built_refused {msg : String} (h : DocInvariant heap root curEnv env es)
    (hall : AllReached heap root)
    (hstep : astNodeEntryStep root heap curEnv node = some (.error msg)) :
    ∃ heap', astNodeEntryTables root heap curEnv (node :: nodes) = some heap' ∧
      Built heap' root ∧ Kept heap heap' := by
  rcases astNodeEntryStep_cases hstep with
    ⟨-, hr⟩ | ⟨key, heap₁, walked, hkey, hwalk, -⟩
  · exact absurd hr (by simp)
  · refine ⟨heap₁, ?_, Built.walk ⟨h.tree, hall⟩ (h.objectAt_base node.value) hwalk⟩
    rw [astNodeEntryTables, hstep]
    show node.key.bind _ = _
    rw [hkey, Option.bind_some, hwalk]
    rfl

/-- **The loop**: its tables are a tree in which all are reached, and nothing is lost on the way. -/
theorem DocInvariant.built_loop {r : Except String Heap} (h : DocInvariant heap root curEnv env es)
    (hall : AllReached heap root) (hloop : astNodeEntryLoop root heap curEnv nodes = some r) :
    ∃ heap', astNodeEntryTables root heap curEnv nodes = some heap' ∧
      (∀ obj, r = .ok obj → obj = heap') ∧ Built heap' root ∧ Kept heap heap' := by
  induction nodes generalizing heap curEnv env es with
  | nil =>
    obtain rfl := Option.some.inj hloop
    exact ⟨heap, rfl, fun obj hobj ↦ (Except.ok.inj hobj).symm, ⟨h.tree, hall⟩, .refl heap⟩
  | cons node nodes ih =>
    rw [astNodeEntryLoop] at hloop
    cases hstep : astNodeEntryStep root heap curEnv node with
    | none =>
      rw [hstep] at hloop
      exact absurd hloop (by simp)
    | some r' =>
      rw [hstep] at hloop
      rcases h.step hstep with ⟨rfl, -⟩ | ⟨heap', newEnv, rfl, -, hinv⟩
      · obtain rfl := Option.some.inj hloop
        obtain ⟨heap', htables, hbuilt⟩ := h.built_refused hall hstep
        exact ⟨heap', htables, fun obj hobj ↦ absurd hobj (by simp), hbuilt⟩
      · obtain ⟨hbuilt, hkept⟩ := h.built_step hall hstep
        obtain ⟨heap'', htables, hr, hbuilt', hkept'⟩ := ih hinv hbuilt.reached hloop
        refine ⟨heap'', ?_, hr, hbuilt', hkept.trans hkept'⟩
        rw [astNodeEntryTables, hstep]
        exact htables

/-- What the first entries have made is kept, by induction on them. -/
theorem DocInvariant.kept_of_append {post : List AstEntry} {heap₀ : Heap} {r : Except String Heap}
    (h : DocInvariant heap root curEnv env es) (hall : AllReached heap root)
    (hpre : astNodeEntryLoop root heap curEnv pre = some (.ok heap₀))
    (hloop : astNodeEntryLoop root heap curEnv (pre ++ post) = some r)
    (htables : astNodeEntryTables root heap curEnv (pre ++ post) = some heap') :
    Kept heap₀ heap' := by
  induction pre generalizing heap curEnv env es with
  | nil =>
    obtain rfl := Except.ok.inj (Option.some.inj hpre)
    obtain ⟨heap'', htables', -, -, hkept⟩ := h.built_loop hall hloop
    obtain rfl := Option.some.inj (htables.symm.trans htables')
    exact hkept
  | cons node pre ih =>
    rw [astNodeEntryLoop] at hpre
    rw [List.cons_append, astNodeEntryLoop] at hloop
    rw [List.cons_append, astNodeEntryTables] at htables
    cases hstep : astNodeEntryStep root heap curEnv node with
    | none =>
      rw [hstep] at hpre
      exact absurd hpre (by simp)
    | some r' =>
      rw [hstep] at hpre hloop htables
      rcases h.step hstep with ⟨rfl, -⟩ | ⟨heap₁, newEnv, rfl, -, hinv⟩
      · exact absurd hpre (by simp)
      · exact ih hinv (h.built_step hall hstep).1.reached hpre hloop htables

end

theorem allReached_nil : AllReached (tableObjectNew []).1 0 := by
  intro addr haddr
  obtain rfl : addr = 0 := Nat.lt_one_iff.1 haddr
  exact ⟨[], rfl⟩

/-- **A document is freed once.** Whether `_ast_node_entry_gen` returns the root or gives up, the
`object_free` of the root frees every block of the objects that have been made once and nothing
else, and none before what it points to. All that was in use behind some of the entries is among
them. -/
theorem astNodeEntryGen_frees {nodes : List AstEntry} {r : Except String Heap}
    (h : astNodeEntryGen nodes = some r) :
    ∃ heap bs, astNodeEntryTables 0 (tableObjectNew []).1 0 nodes = some heap ∧
      (∀ obj, r = .ok obj → obj = heap) ∧
      objectFree heap (heap.length + 1) (.table 0) (.table 0) = some bs ∧ FreedOnce heap bs ∧
      ∀ pre heap₀, pre <+: nodes → astNodeEntryGen pre = some (.ok heap₀) →
        ∀ b, IsBlock heap₀ b → b ∈ bs := by
  obtain ⟨heap, htables, hr, hbuilt, -⟩ := docInvariant_nil.built_loop allReached_nil h
  obtain ⟨bs, hfree, hbs⟩ := hbuilt.tree.objectFree_spec hbuilt.reached
  refine ⟨heap, bs, htables, hr, hfree, hbs, fun pre heap₀ hpre hgen b hb ↦ ?_⟩
  obtain ⟨post, rfl⟩ := hpre
  exact (hbs.mem_iff b).2
    ((docInvariant_nil.kept_of_append allReached_nil hgen h htables).isBlock hb)

/-- The document `a.b = 10`, `a.b.c = true`, of which the second entry is refused. -/
def sampleRefused : List AstEntry :=
  [⟨some ⟨cstr [97], [cstr [98]]⟩, some (.int 10)⟩,
    ⟨some ⟨cstr [97], [cstr [98], cstr [99]]⟩, some (.bool true)⟩]

theorem astNodeEntryGen_frees_sampleRefused :
    astNodeEntryGenAccepts sampleRefused = some false ∧ ∃ heap bs,
      astNodeEntryTables 0 (tableObjectNew []).1 0 sampleRefused = some heap ∧
      objectFree heap (heap.length + 1) (.table 0) (.table 0) = some bs ∧ FreedOnce heap bs := by
  have haccepts : astNodeEntryGenAccepts sampleRefused = some false := by decide +kernel
  obtain ⟨r, hr, -⟩ := Option.map_eq_some_iff.1 haccepts
  obtain ⟨heap, bs, htables, -, hfree, hbs, -⟩ := astNodeEntryGen_frees hr
  exact ⟨haccepts, heap, bs, htables, hfree, hbs⟩

-- the integer, the keys and the parts of the table at `a`, then those of the root
example : ((astNodeEntryTables 0 (tableObjectNew []).1 0 sampleRefused).bind fun heap ↦
    objectFree heap (heap.length + 1) (.table 0) (.table 0)) =
      some [.object (.value 1 7), .key 1 7, .slots 1, .hashTable 1, .object (.table 1),
        .key 0 6, .slots 0, .hashTable 0, .object (.table 0)] := by
  decide +kernel

end Vmecs
