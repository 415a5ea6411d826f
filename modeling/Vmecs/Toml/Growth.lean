import Vmecs.Toml.Table

/-!
# Hash tables that grow (`toml/table.c`)

A table of a program never grows, since nothing counts its size up (`Vmecs.Toml.Table`). Here is
what it would do: an insert into a table of any capacity, and the copy of its entries into one twice
as large.

A table is sound when each key in it is stored once, and can be found: going round from the slot of
its hash one comes to it before one comes to an empty slot (`HashTable.WellProbed`). This does not
say how many slots are in use, so the size that is counted is arbitrary, and an insert may begin by
growing the table.
-/

namespace Vmecs

variable {V : Type}

/-- A table of two slots or more in which every key is stored once, and is reached from the slot of
its hash without an empty slot on the way. That the capacity is a power of two is a field of the
table. -/
structure HashTable.WellProbed (table : HashTable V) : Prop where
  two_le_cap : 2 ≤ table.cap
  probed : table.tab.Probed (hashTablePos table.cap)

theorem HashTable.wellProbed_iff {table : HashTable V} :
    table.WellProbed ↔ 2 ≤ table.cap ∧ table.Good := by
  rw [Good, Slots.reached_iff_probed (hashTablePos_lt table)]
  exact ⟨fun h ↦ ⟨h.1, h.2⟩, fun h ↦ ⟨h.1, h.2⟩⟩

/-- Good tables with the same entries have the same lookups. -/
theorem hashTableLookup_congr {table table' : HashTable V} (h : table.Good) (h' : table'.Good)
    {key : CString} (hmem : ∀ v, some (key, v) ∈ table'.tab ↔ some (key, v) ∈ table.tab) :
    hashTableLookup table' key = hashTableLookup table key :=
  Option.ext fun v ↦ by rw [hashTableLookup_eq_some h', hmem, hashTableLookup_eq_some h]

/-! ### Storing an entry -/

/-- There is a slot for a key that is stored already, and for any key while not all are in use. -/
theorem exists_hashTablePut {table : HashTable V} {key : CString}
    (h : key ∈ table.tab.keys ∨ table.tab.keys.length < table.cap) (val : V) :
    ∃ table', hashTablePut table key val = some table' := by
  refine Option.ne_none_iff_exists'.1 fun hnone ↦ ?_
  obtain ⟨hfull, hkey⟩ := hashTablePut_eq_none hnone
  rcases h with hmem | hlt
  · exact hkey hmem
  · exact hlt.ne hfull

/-- An insert into a table of which the size is not its capacity does not grow it. -/
theorem hashTableInsert_eq_put {table : HashTable V} (h : table.size ≠ table.cap) (key : CString)
    (val : V) : hashTableInsert table key val = hashTablePut table key val := by
  rw [hashTableInsert, if_neg h]
  rfl

/-- Storing an entry counts nothing. -/
theorem size_cap_hashTablePut {table table' : HashTable V} {key : CString} {val : V}
    (h : hashTablePut table key val = some table') :
    table'.size = table.size ∧ table'.cap = table.cap := by
  obtain ⟨found, -, rfl⟩ := Option.map_eq_some_iff.1 h
  exact ⟨rfl, List.length_set⟩

/-! ### The copy -/

/-- A turn of its loop: the entry of an old slot, if there is one, is inserted. -/
def hashTableCopy (table : HashTable V) : Option (CString × V) → Option (HashTable V)
  | none => some table
  | some (key, val) => hashTableInsert table key val

/-- The inserts of the copy go through the test for growth, and none grows the table again. -/
theorem hashTableExpand_eq_foldlM (table : HashTable V) (h : 0 < table.cap) :
    hashTableExpand table = table.tab.foldlM hashTableCopy (hashTableDoubled table) := by
  have hloop : ∀ (entries : Slots CString V) (t : HashTable V), t.size = 0 → 0 < t.cap →
      entries.foldlM
        (fun table entry ↦
          match entry with
          | none => some table
          | some (key, val) => hashTablePut table key val) t =
        entries.foldlM hashTableCopy t := by
    intro entries
    induction entries with
    | nil => exact fun _ _ _ ↦ rfl
    | cons entry entries ih =>
      intro t hsize hcap
      rw [List.foldlM_cons, List.foldlM_cons]
      match entry with
      | none => exact ih t hsize hcap
      | some (key, val) =>
        rw [hashTableCopy, hashTableInsert_eq_put (by omega)]
        refine Option.bind_congr fun t' ht' ↦ ?_
        obtain ⟨hsize', hcap'⟩ := size_cap_hashTablePut ht'
        exact ih t' (hsize'.trans hsize) (hcap' ▸ hcap)
  exact hloop table.tab (hashTableDoubled table) rfl (by rw [cap_hashTableDoubled]; omega)

/-- The invariant of the copy, behind these slots of the old table: the new one is a good table of
capacity `cap` with the entries of these slots, and its size is not its capacity. -/
structure HashTable.Copied (table : HashTable V) (cap : ℕ) (entries : Slots CString V) : Prop where
  good : table.Good
  cap_eq : table.cap = cap
  size_eq : table.size = 0
  mem_iff : ∀ k v, some (k, v) ∈ table.tab ↔ some (k, v) ∈ entries

theorem copied_hashTableDoubled (table : HashTable V) :
    (hashTableDoubled table).Copied (2 * table.cap) [] where
  good i k v h := by
    rw [hashTableDoubled, List.getElem?_replicate] at h
    split at h <;> exact absurd h (by simp)
  cap_eq := cap_hashTableDoubled table
  size_eq := rfl
  mem_iff k v := by simp [hashTableDoubled]

/-- The new table has as many keys as the slots that have been copied, at most. -/
theorem HashTable.Copied.length_keys_le {table : HashTable V} {cap : ℕ} {entries : Slots CString V}
    (h : table.Copied cap entries) : table.tab.keys.length ≤ entries.length := by
  refine (h.good.nodup_keys.subperm fun key hkey ↦ ?_).length_le.trans
    (Slots.length_keys_le (t := entries))
  obtain ⟨v, hv⟩ := Slots.mem_keys.1 hkey
  exact Slots.mem_keys.2 ⟨v, (h.mem_iff key v).1 hv⟩

/-- **One turn of the copy.** -/
theorem HashTable.Copied.step {table : HashTable V} {cap : ℕ} {entries : Slots CString V}
    (h : table.Copied cap entries) {entry : Option (CString × V)}
    (hnodup : Slots.keys (entries ++ [entry]) |>.Nodup) (hlt : entries.length < cap) :
    ∃ table', hashTableCopy table entry = some table' ∧ table'.Copied cap (entries ++ [entry]) := by
  match entry with
  | none => exact ⟨table, rfl, h.good, h.cap_eq, h.size_eq, fun k v ↦ by simp [h.mem_iff]⟩
  | some (key, val) =>
    have hkeys := h.length_keys_le
    have hsize : table.size ≠ table.cap := by rw [h.size_eq, h.cap_eq]; omega
    have hfree : table.tab.keys.length < table.cap := by rw [h.cap_eq]; omega
    obtain ⟨table', hput⟩ := exists_hashTablePut (.inr hfree) val
    obtain ⟨hgood, hcap, hsize', hmem⟩ := hashTablePut_spec h.good hput
    refine ⟨table', by rw [hashTableCopy, hashTableInsert_eq_put hsize, hput], hgood,
      hcap.trans h.cap_eq, hsize'.trans h.size_eq, fun k v ↦ ?_⟩
    rw [hmem, List.mem_append, List.mem_singleton, h.mem_iff]
    split
    case isTrue hk =>
      -- the key of this slot is in none of those before
      have hnew : some (k, v) ∉ entries := fun hold ↦ by
        rw [Slots.keys, List.filterMap_append, List.nodup_append] at hnodup
        exact hnodup.2.2 k (Slots.mem_keys.2 ⟨v, hold⟩) key List.mem_cons_self hk
      simp [hk ▸ hnew, hk]
    case isFalse hk => simp [hk]

/-- **The copy**, from an invariant on. -/
theorem HashTable.Copied.foldlM {cap : ℕ} {table : HashTable V} {entries : Slots CString V}
    (h : table.Copied cap entries) (rest : Slots CString V)
    (hnodup : (Slots.keys (entries ++ rest)).Nodup) (hle : (entries ++ rest).length ≤ cap) :
    ∃ table', rest.foldlM hashTableCopy table = some table' ∧
      table'.Copied cap (entries ++ rest) := by
  induction rest generalizing table entries with
  | nil => exact ⟨table, rfl, by rwa [List.append_nil]⟩
  | cons entry rest ih =>
    rw [List.append_cons] at hnodup hle ⊢
    have hnodup' : (Slots.keys (entries ++ [entry])).Nodup := by
      rw [Slots.keys, List.filterMap_append] at hnodup
      exact hnodup.of_append_left
    have hlt : entries.length < cap := by
      simp only [List.length_append, List.length_singleton] at hle
      omega
    obtain ⟨table₁, hcopy, h₁⟩ := h.step hnodup' hlt
    obtain ⟨table', hrest, h'⟩ := ih h₁ hnodup hle
    exact ⟨table', by rw [List.foldlM_cons, hcopy]; exact hrest, h'⟩

/-- **What growing does** to a good table: it gets twice as large, with the same entries. -/
theorem hashTableExpand_spec {table : HashTable V} (h : table.Good) (hpos : 0 < table.cap) :
    ∃ table', hashTableExpand table = some table' ∧ table'.Copied (2 * table.cap) table.tab := by
  rw [hashTableExpand_eq_foldlM table hpos]
  have hle : table.tab.length ≤ 2 * table.cap := by rw [HashTable.cap]; omega
  exact (copied_hashTableDoubled table).foldlM table.tab h.nodup_keys hle

/-! ### An insert -/

/-- A slot is free while there are fewer keys than slots. -/
theorem length_keys_lt_cap {table : HashTable V} (h : none ∈ table.tab) :
    table.tab.keys.length < table.cap :=
  List.length_filterMap_lt_length_iff_exists.2 ⟨none, h, rfl⟩

/-- The table that an insert stores its entry in: the same, or grown. -/
theorem exists_hashTableInsert_grown {table : HashTable V} (h : table.Good) (hpos : 0 < table.cap)
    {key : CString} (hroom : key ∈ table.tab.keys ∨ table.tab.keys.length < table.cap) (val : V) :
    ∃ table₁ table', hashTableInsert table key val = some table' ∧ table₁.Good ∧
      table.cap ≤ table₁.cap ∧ (∀ k v, some (k, v) ∈ table₁.tab ↔ some (k, v) ∈ table.tab) ∧
      hashTablePut table₁ key val = some table' := by
  by_cases hsize : table.size = table.cap
  · obtain ⟨table₁, hexpand, h₁⟩ := hashTableExpand_spec h hpos
    have hkeys := h₁.length_keys_le
    have hlt : table₁.tab.keys.length < table₁.cap := by
      rw [h₁.cap_eq]
      exact hkeys.trans_lt (by rw [HashTable.cap] at hpos ⊢; omega)
    obtain ⟨table', hput⟩ := exists_hashTablePut (.inr hlt) val
    refine ⟨table₁, table', ?_, h₁.good, by rw [h₁.cap_eq]; omega, h₁.mem_iff, hput⟩
    rw [hashTableInsert, if_pos hsize, hexpand]
    exact hput
  · obtain ⟨table', hput⟩ := exists_hashTablePut hroom val
    exact ⟨table, table', by rw [hashTableInsert_eq_put hsize, hput], h, le_rfl, fun _ _ ↦ Iff.rfl,
      hput⟩

/-- **Inserting and growing keep a table sound**, of any capacity and whatever size it has counted.
An insert of a key that is stored, or of any key while a slot is free, changes the lookup of this
key alone; growing doubles the capacity, and changes none. -/
theorem hashTable_wellProbed {table : HashTable V} (h : table.WellProbed) :
    (∀ key val, key ∈ table.tab.keys ∨ none ∈ table.tab →
      ∃ table', hashTableInsert table key val = some table' ∧ table'.WellProbed ∧
        hashTableLookup table' key = some val ∧
        ∀ k, k ≠ key → hashTableLookup table' k = hashTableLookup table k) ∧
    ∃ table', hashTableExpand table = some table' ∧ table'.WellProbed ∧
      table'.cap = 2 * table.cap ∧ ∀ k, hashTableLookup table' k = hashTableLookup table k := by
  obtain ⟨htwo, hgood⟩ := HashTable.wellProbed_iff.1 h
  have hpos : 0 < table.cap := by omega
  constructor
  · intro key val hroom
    obtain ⟨table₁, table', hins, hgood₁, hcap₁, hmem₁, hput⟩ :=
      exists_hashTableInsert_grown hgood hpos (hroom.imp_right length_keys_lt_cap) val
    obtain ⟨hgood', hcap', -, hmem'⟩ := hashTablePut_spec hgood₁ hput
    refine ⟨table', hins, HashTable.wellProbed_iff.2 ⟨by omega, hgood'⟩, ?_, fun k hk ↦ ?_⟩
    · rw [hashTableLookup_eq_some hgood', hmem', if_pos rfl]
    · exact hashTableLookup_congr hgood hgood' fun v ↦ by rw [hmem', if_neg hk, hmem₁]
  · obtain ⟨table', hexpand, h'⟩ := hashTableExpand_spec hgood hpos
    refine ⟨table', hexpand, HashTable.wellProbed_iff.2 ⟨?_, h'.good⟩, h'.cap_eq, fun k ↦ ?_⟩
    · rw [h'.cap_eq]
      omega
    · exact hashTableLookup_congr hgood h'.good fun v ↦ h'.mem_iff k v

/-- A table of two slots, both in use and counted, so that the next insert grows it. -/
def sampleFull : HashTable ℕ where
  tab := [some (cstr [98], 1), some (cstr [97], 0)]
  size := 2
  length_tab := ⟨1, rfl⟩

theorem wellProbed_sampleFull : sampleFull.WellProbed where
  two_le_cap := le_rfl
  probed := by
    refine ⟨by decide, fun _ _ _ _ _ j _ hnone ↦ ?_⟩
    have hmem : none ∈ sampleFull.tab := List.mem_of_getElem? hnone
    simp [sampleFull] at hmem

theorem hashTable_wellProbed_sampleFull :
    (∃ table', hashTableInsert sampleFull (cstr [97]) 5 = some table' ∧ table'.WellProbed ∧
      hashTableLookup table' (cstr [97]) = some 5 ∧
      ∀ k, k ≠ cstr [97] → hashTableLookup table' k = hashTableLookup sampleFull k) ∧
    ∃ table', hashTableExpand sampleFull = some table' ∧ table'.WellProbed ∧
      table'.cap = 2 * sampleFull.cap ∧
      ∀ k, hashTableLookup table' k = hashTableLookup sampleFull k :=
  have h := hashTable_wellProbed wellProbed_sampleFull
  ⟨h.1 (cstr [97]) 5 (.inl (by decide)), h.2⟩

end Vmecs
