import Vmecs.Toml.Ast

/-!
# The meaning of a document

A document is a list of entries, and each has a full path: that of a header is its key, that of an
assignment is its key behind the key of the last header. `Consistent` says, of the full paths
alone, that every entry names something new and nothing below a value; `Means` says which object is
found at which path. `astNodeEntryGen_means` is that the generator accepts exactly the consistent
documents and builds what they mean.

The proof is about the map from paths to objects that a heap stands for (`objectAt`). In a heap that
is a tree (`TreeHeap`: no table is reached by two paths) an insert changes this map at one path
(`objectAt_attach`), though the table it goes to may be in use as the current one. From this comes
what the walk along a key does (`astKeyWalk_spec`), then one entry (`DocInvariant.step`), then the
loop.
-/

namespace Vmecs

/-! ### Entries and their full paths -/

/-- A path of keys. -/
abbrev KeyPath := List CString

/-- An entry with its full path; one without a value declares a table. -/
abbrev FullEntry := KeyPath × Option AstValue

/-- The identifiers of a key. -/
def AstKey.path (key : AstKey) : KeyPath := key.id :: key.next

/-- The full path of an entry in an environment; an entry without a key has none. -/
def AstEntry.full (env : KeyPath) (node : AstEntry) : Option FullEntry :=
  node.key.map fun key ↦ ((if node.value = none then [] else env) ++ key.path, node.value)

/-- The environment after an entry. -/
def AstEntry.nextEnv (env : KeyPath) (node : AstEntry) : KeyPath :=
  match node.key with
  | none => []
  | some key => if node.value = none then key.path else env

/-- The entries with their full paths. -/
def fullEntries : KeyPath → List AstEntry → List FullEntry
  | _, [] => []
  | env, node :: nodes => (node.full env).toList ++ fullEntries (node.nextEnv env) nodes

/-- The path is there already: as the path of an entry, or on the way to one. -/
def PathPresent (es : List FullEntry) (p : KeyPath) : Prop := ∃ e ∈ es, p <+: e.1

/-- There is a value on the way. -/
def PathBlocked (es : List FullEntry) (p : KeyPath) : Prop :=
  ∃ q v, (q, some v) ∈ es ∧ q <+: p ∧ q ≠ p

/-- Behind the entries `es`, the others name new paths and none below a value, in order. -/
def ConsistentFrom : List FullEntry → List FullEntry → Prop
  | _, [] => True
  | es, e :: rest =>
    (¬PathPresent es e.1 ∧ ¬PathBlocked es e.1) ∧ ConsistentFrom (es ++ [e]) rest

/-- A consistent document. -/
def Consistent (es : List FullEntry) : Prop := ConsistentFrom [] es

/-- The path of a table: declared, or on the way to an entry. -/
def IsTablePath (es : List FullEntry) (p : KeyPath) : Prop :=
  (p, none) ∈ es ∨ ∃ e ∈ es, p <+: e.1 ∧ p ≠ e.1

/-- **The meaning of a document**, as the lookups of all key paths. -/
structure Means (heap : Heap) (root : ℕ) (es : List FullEntry) : Prop where
  value : ∀ p v, p ≠ [] → (p, some v) ∈ es → tomlLookupPath heap root p = .ok v.gen
  table : ∀ p, p ≠ [] → IsTablePath es p → ∃ addr, tomlLookupPath heap root p = .ok (.table addr)
  other : ∀ p, p ≠ [] → (∀ v, (p, some v) ∉ es) → ¬IsTablePath es p →
    ∃ msg, tomlLookupPath heap root p = .error msg

/-! ### The map of a heap -/

/-- The object at a path. -/
def objectAt (heap : Heap) (root : ℕ) (p : KeyPath) : Option Object :=
  (tomlLookupPath heap root p).toOption

/-- The object under a key of an object. -/
def childOf (heap : Heap) (key : CString) : Object → Option Object
  | .table addr => tableObjectLookup heap addr key
  | _ => none

@[simp] theorem objectAt_nil (heap : Heap) (root : ℕ) :
    objectAt heap root [] = some (.table root) := rfl

theorem objectAt_concat (heap : Heap) (root : ℕ) (p : KeyPath) (key : CString) :
    objectAt heap root (p ++ [key]) = (objectAt heap root p).bind (childOf heap key) := by
  rw [objectAt, objectAt, tomlLookupPath, List.foldlM_append]
  show Except.toOption ((tomlLookupPath heap root p) >>= fun o ↦ [key].foldlM _ o) = _
  cases tomlLookupPath heap root p with
  | error msg => rfl
  | ok o =>
    show Except.toOption (tomlLookupStep heap o key >>= pure) = childOf heap key o
    cases o with
    | table addr =>
      rw [tomlLookupStep, childOf]
      cases tableObjectLookup heap addr key <;> rfl
    | int => rfl
    | bool => rfl
    | string => rfl

theorem childOf_eq_none {heap : Heap} {key : CString} {o : Object} (h : ∀ addr, o ≠ .table addr) :
    childOf heap key o = none := by
  cases o with
  | table addr => exact absurd rfl (h addr)
  | int => rfl
  | bool => rfl
  | string => rfl

theorem bind_childOf_eq_none {heap : Heap} {key : CString} {o : Option Object}
    (h : ∀ addr, o ≠ some (.table addr)) : o.bind (childOf heap key) = none := by
  cases o with
  | none => rfl
  | some o => exact childOf_eq_none fun addr ho ↦ h addr (congrArg some ho)

/-- Below what is not a table there is nothing. -/
theorem objectAt_append_eq_none {heap : Heap} {root : ℕ} {p : KeyPath}
    (h : ∀ addr, objectAt heap root p ≠ some (.table addr)) {q : KeyPath} (hq : q ≠ []) :
    objectAt heap root (p ++ q) = none := by
  induction q using List.reverseRecOn with
  | nil => exact absurd rfl hq
  | append_singleton q key ih =>
    rw [← List.append_assoc, objectAt_concat]
    rcases eq_or_ne q [] with rfl | hne
    · rw [List.append_nil, bind_childOf_eq_none h]
    · rw [ih hne, Option.bind_none]

/-- A heap in which tables are sound and each is reached by one path. -/
structure TreeHeap (heap : Heap) (root : ℕ) : Prop where
  sound : ∀ table ∈ heap, table.Sound
  lt_length : ∀ {p addr}, objectAt heap root p = some (.table addr) → addr < heap.length
  inj : ∀ {p q addr}, objectAt heap root p = some (.table addr) →
    objectAt heap root q = some (.table addr) → p = q

/-! ### Changing a heap -/

theorem tableObjectLookup_new (heap : Heap) (addr : ℕ) (key : CString) :
    tableObjectLookup (tableObjectNew heap).1 addr key = tableObjectLookup heap addr key := by
  rw [tableObjectLookup, tableObjectLookup, tableObjectNew]
  rcases lt_trichotomy addr heap.length with hlt | rfl | hgt
  · rw [List.getElem?_append_left hlt]
  · rw [List.getElem?_concat_length, List.getElem?_eq_none le_rfl, Option.bind_none,
      Option.bind_some]
    refine Option.eq_none_iff_forall_not_mem.2 fun o ho ↦ ?_
    exact mem_hashTableNew key o ((hashTableLookup_eq_some good_hashTableNew).1 ho)
  · rw [List.getElem?_eq_none hgt.le, List.getElem?_eq_none]
    rw [List.length_append]
    exact hgt

/-- A new table changes no path. -/
theorem objectAt_new (heap : Heap) (root : ℕ) (p : KeyPath) :
    objectAt (tableObjectNew heap).1 root p = objectAt heap root p := by
  induction p using List.reverseRecOn with
  | nil => rfl
  | append_singleton p key ih =>
    rw [objectAt_concat, objectAt_concat, ih]
    refine Option.bind_congr fun o _ ↦ ?_
    by_cases ho : ∃ addr, o = .table addr
    · obtain ⟨addr, rfl⟩ := ho
      exact tableObjectLookup_new heap addr key
    · have ho' : ∀ addr, o ≠ .table addr := fun addr h ↦ ho ⟨addr, h⟩
      rw [childOf_eq_none ho', childOf_eq_none ho']

theorem TreeHeap.new {heap : Heap} {root : ℕ} (h : TreeHeap heap root) :
    TreeHeap (tableObjectNew heap).1 root where
  sound table ht := by
    rcases List.mem_append.1 ht with ht | ht
    · exact h.sound table ht
    · rw [List.mem_singleton.1 ht]
      exact sound_hashTableNew
  lt_length hp := by
    rw [objectAt_new] at hp
    rw [tableObjectNew, List.length_append]
    exact Nat.lt_add_right 1 (h.lt_length hp)
  inj hp hq := by
    rw [objectAt_new] at hp hq
    exact h.inj hp hq

/-- An insert changes one key of one table. -/
theorem tableObjectInsert_spec {heap heap' : Heap} (hsound : ∀ table ∈ heap, table.Sound)
    {addr : ℕ} {key : CString} {val : Object}
    (h : tableObjectInsert heap addr key val = some heap') :
    (∀ table ∈ heap', table.Sound) ∧ heap'.length = heap.length ∧
      ∀ a k, tableObjectLookup heap' a k =
        if a = addr ∧ k = key then some val else tableObjectLookup heap a k := by
  obtain ⟨table, htable, h'⟩ := Option.bind_eq_some_iff.1 h
  obtain ⟨table', hins, hheap⟩ := Option.bind_eq_some_iff.1 h'
  obtain rfl := Option.some.inj hheap
  obtain ⟨hlt, -⟩ := List.getElem?_eq_some_iff.1 htable
  have hold : table.Sound := hsound table (List.mem_of_getElem? htable)
  obtain ⟨hnew, hmem⟩ := hold.insert hins
  refine ⟨fun t ht ↦ ?_, List.length_set, fun a k ↦ ?_⟩
  · rcases List.mem_or_eq_of_mem_set ht with ht | rfl
    · exact hsound t ht
    · exact hnew
  · rw [tableObjectLookup, tableObjectLookup]
    rcases eq_or_ne addr a with rfl | hne
    · rw [List.getElem?_set_self hlt, htable, Option.bind_some, Option.bind_some]
      refine Option.ext fun o ↦ ?_
      rw [hashTableLookup_eq_some hnew.good, hmem]
      split
      case isTrue hk =>
        rw [if_pos ⟨rfl, hk⟩, Option.some_inj, eq_comm]
      case isFalse hk =>
        rw [if_neg fun hc ↦ hk hc.2, hashTableLookup_eq_some hold.good]
    · rw [List.getElem?_set_ne hne, if_neg fun hc ↦ hne hc.1.symm]

/-- What is put under a new key: a value, or an empty table that no path reaches. -/
def Attachable (heap : Heap) (root : ℕ) (val : Object) : Prop :=
  ∀ a, val = .table a → a < heap.length ∧ (∀ k, tableObjectLookup heap a k = none) ∧
    ∀ q, objectAt heap root q ≠ some (.table a)

theorem concat_eq_concat {p q : KeyPath} {k key : CString} :
    q ++ [k] = p ++ [key] ↔ q = p ∧ k = key := by
  refine ⟨fun heq ↦ ?_, fun ⟨hq, hk⟩ ↦ by rw [hq, hk]⟩
  obtain ⟨hq, hk⟩ := List.append_inj' heq rfl
  exact ⟨hq, (List.cons.inj hk).1⟩

/-- There is nothing below what has been put under a new key. -/
theorem childOf_attach {heap heap' : Heap} {root : ℕ} {p : KeyPath} {addr : ℕ} {key k : CString}
    {val : Object} (hp : objectAt heap root p = some (.table addr))
    (hval : Attachable heap root val)
    (hlookup : ∀ a k, tableObjectLookup heap' a k =
      if a = addr ∧ k = key then some val else tableObjectLookup heap a k) :
    childOf heap' k val = none := by
  by_cases hv : ∃ a, val = .table a
  · obtain ⟨a, rfl⟩ := hv
    obtain ⟨-, hempty, hfresh⟩ := hval a rfl
    have hne : a ≠ addr := fun heq ↦ hfresh p (heq ▸ hp)
    rw [childOf, hlookup, if_neg fun hc ↦ hne hc.1, hempty]
  · exact childOf_eq_none fun a ha ↦ hv ⟨a, ha⟩

/-- **An insert under a new key changes the map at one path.** -/
theorem objectAt_attach {heap heap' : Heap} {root : ℕ} (ht : TreeHeap heap root) {p : KeyPath}
    {addr : ℕ} {key : CString} {val : Object} (hp : objectAt heap root p = some (.table addr))
    (hnew : tableObjectLookup heap addr key = none) (hval : Attachable heap root val)
    (h : tableObjectInsert heap addr key val = some heap') (q : KeyPath) :
    objectAt heap' root q = if q = p ++ [key] then some val else objectAt heap root q := by
  obtain ⟨-, -, hlookup⟩ := tableObjectInsert_spec ht.sound h
  induction q using List.reverseRecOn with
  | nil => rw [if_neg (by simp), objectAt_nil, objectAt_nil]
  | append_singleton q k ih =>
    rw [objectAt_concat, ih, objectAt_concat]
    by_cases hq : q = p ++ [key]
    · -- below what has been inserted: nothing, as before
      have hnone : objectAt heap root q = none := by
        rw [hq, objectAt_concat, hp]
        exact hnew
      have hne : q ++ [k] ≠ p ++ [key] := fun heq ↦ by
        have := congrArg List.length ((concat_eq_concat.1 heq).1.symm.trans hq)
        simp at this
      rw [if_pos hq, Option.bind_some, childOf_attach hp hval hlookup, if_neg hne, hnone,
        Option.bind_none]
    · rw [if_neg hq]
      by_cases hobj : ∃ a, objectAt heap root q = some (.table a)
      · obtain ⟨a, ha⟩ := hobj
        rw [ha, Option.bind_some, Option.bind_some, childOf, childOf, hlookup]
        refine if_congr ?_ rfl rfl
        rw [concat_eq_concat]
        refine and_congr_left fun _ ↦ ⟨?_, ?_⟩
        · rintro rfl
          exact ht.inj ha hp
        · rintro rfl
          exact Object.table.inj (Option.some.inj (ha.symm.trans hp))
      · have hbelow : ∀ a, objectAt heap root q ≠ some (.table a) := fun a ha ↦ hobj ⟨a, ha⟩
        rw [bind_childOf_eq_none hbelow, bind_childOf_eq_none hbelow, if_neg]
        intro heq
        exact hobj ⟨addr, (concat_eq_concat.1 heq).1 ▸ hp⟩

/-- And the heap stays a tree. -/
theorem TreeHeap.attach {heap heap' : Heap} {root : ℕ} (ht : TreeHeap heap root) {p : KeyPath}
    {addr : ℕ} {key : CString} {val : Object} (hp : objectAt heap root p = some (.table addr))
    (hnew : tableObjectLookup heap addr key = none) (hval : Attachable heap root val)
    (h : tableObjectInsert heap addr key val = some heap') : TreeHeap heap' root := by
  obtain ⟨hsound, hlen, -⟩ := tableObjectInsert_spec ht.sound h
  have hmap := objectAt_attach ht hp hnew hval h
  refine ⟨hsound, fun {q a} hq ↦ ?_, fun {q q' a} hq hq' ↦ ?_⟩
  · rw [hmap] at hq
    rw [hlen]
    split at hq
    · exact (hval a (Option.some.inj hq)).1
    · exact ht.lt_length hq
  · rw [hmap] at hq hq'
    split at hq <;> split at hq'
    case isTrue.isTrue h₁ h₂ => rw [h₁, h₂]
    case isTrue.isFalse => exact absurd hq' ((hval a (Option.some.inj hq)).2.2 q')
    case isFalse.isTrue => exact absurd hq ((hval a (Option.some.inj hq')).2.2 q)
    case isFalse.isFalse => exact ht.inj hq hq'

/-! ### Walking along a key -/

/-- `heap'` has in addition only tables on the way to `p`. -/
structure Grown (heap heap' : Heap) (root : ℕ) (p : KeyPath) : Prop where
  tree : TreeHeap heap' root
  keep : ∀ {q o}, objectAt heap root q = some o → objectAt heap' root q = some o
  new : ∀ {q o}, objectAt heap root q = none → objectAt heap' root q = some o →
    q <+: p ∧ ∃ addr, o = .table addr

/-- A value at a strict prefix of the path. -/
def ValueBelow (heap : Heap) (root : ℕ) (p : KeyPath) : Prop :=
  ∃ q o, objectAt heap root q = some o ∧ (∀ addr, o ≠ .table addr) ∧ q <+: p ∧ q ≠ p

/-- An empty table put under a new key: the heap grows by its path. -/
theorem TreeHeap.attach_new {heap heap' : Heap} {root : ℕ} (ht : TreeHeap heap root)
    {p : KeyPath} {addr : ℕ} {key : CString} (hp : objectAt heap root p = some (.table addr))
    (hnew : tableObjectLookup heap addr key = none)
    (h : tableObjectInsert (tableObjectNew heap).1 addr key (.table heap.length) = some heap') :
    TreeHeap heap' root ∧ ∀ q, objectAt heap' root q =
      if q = p ++ [key] then some (.table heap.length) else objectAt heap root q := by
  have hp' : objectAt (tableObjectNew heap).1 root p = some (.table addr) := by
    rw [objectAt_new]
    exact hp
  have hnew' : tableObjectLookup (tableObjectNew heap).1 addr key = none := by
    rw [tableObjectLookup_new]
    exact hnew
  have hval : Attachable (tableObjectNew heap).1 root (.table heap.length) := by
    rintro a ha
    obtain rfl := Object.table.inj ha
    refine ⟨?_, fun k ↦ ?_, fun q hq ↦ ?_⟩
    · rw [tableObjectNew, List.length_append]
      exact Nat.lt_succ_self _
    · rw [tableObjectLookup_new, tableObjectLookup, List.getElem?_eq_none le_rfl, Option.bind_none]
    · rw [objectAt_new] at hq
      exact absurd (ht.lt_length hq) (Nat.lt_irrefl _)
  refine ⟨ht.new.attach hp' hnew' hval h, fun q ↦ ?_⟩
  rw [objectAt_attach ht.new hp' hnew' hval h, objectAt_new]

theorem Grown.refl {heap : Heap} {root : ℕ} (ht : TreeHeap heap root) (p : KeyPath) :
    Grown heap heap root p where
  tree := ht
  keep hq := hq
  new hn hq := absurd (hn.symm.trans hq) (by simp)

/-- A table made on the way, and what is made behind it. -/
theorem Grown.cons {heap heap₁ heap' : Heap} {root addr : ℕ} {r p : KeyPath}
    (h : Grown heap₁ heap' root p) (hfree : objectAt heap root r = none)
    (hmap : ∀ q, objectAt heap₁ root q = if q = r then some (.table addr) else objectAt heap root q)
    (hr : r <+: p) : Grown heap heap' root p where
  tree := h.tree
  keep {q o} hq := h.keep <| by
    rw [hmap, if_neg, hq]
    rintro rfl
    exact absurd (hfree.symm.trans hq) (by simp)
  new {q o} hn hq := by
    by_cases hqr : q = r
    · have hmade : objectAt heap₁ root q = some (.table addr) := by rw [hmap, if_pos hqr]
      rw [h.keep hmade, Option.some_inj] at hq
      exact ⟨hqr ▸ hr, addr, hq.symm⟩
    · exact h.new (by rw [hmap, if_neg hqr, hn]) hq

/-- A value on the way was there before a table was made. -/
theorem ValueBelow.of_attach {heap heap₁ : Heap} {root addr : ℕ} {r p : KeyPath}
    (hmap : ∀ q, objectAt heap₁ root q = if q = r then some (.table addr) else objectAt heap root q)
    (h : ValueBelow heap₁ root p) : ValueBelow heap root p := by
  obtain ⟨q, o, hq, ho, hpre⟩ := h
  rw [hmap] at hq
  split at hq
  · exact absurd (Option.some.inj hq).symm (ho addr)
  · exact ⟨q, o, hq, ho, hpre⟩

/-- **What the walk along a key does**, from the table at path `r`: it makes tables on the way to
the last identifier and ends in the table before it, unless there is a value on the way. -/
theorem astKeyWalk_spec {root : ℕ} {heap heap' : Heap} {r : KeyPath} {sub : ℕ} {id : CString}
    {rest : List CString} {res : Option (ℕ × CString)} (ht : TreeHeap heap root)
    (hr : objectAt heap root r = some (.table sub))
    (h : astKeyWalk heap sub id rest = some (heap', res)) :
    ∃ p last, r ++ id :: rest = p ++ [last] ∧ r <+: p ∧ Grown heap heap' root p ∧
      match res with
      | none => ValueBelow heap root (p ++ [last])
      | some (s, keyId) => keyId = last ∧ objectAt heap' root p = some (.table s) := by
  induction rest generalizing heap sub id r with
  | nil =>
    obtain ⟨rfl, rfl⟩ := Prod.mk.inj (Option.some.inj h)
    exact ⟨r, id, rfl, List.prefix_rfl, .refl ht r, rfl, hr⟩
  | cons next rest ih =>
    have hsplit : r ++ id :: next :: rest = (r ++ [id]) ++ next :: rest := by simp
    have hchild : objectAt heap root (r ++ [id]) = tableObjectLookup heap sub id := by
      rw [objectAt_concat, hr]
      rfl
    have hpre : r <+: r ++ [id] := List.prefix_append _ _
    rw [astKeyWalk] at h
    rw [hsplit]
    cases hl : tableObjectLookup heap sub id with
    | none =>
      -- a table is made for `id`, and the walk goes on in it
      rw [hl] at h
      obtain ⟨heap₁, hins, hwalk⟩ := Option.bind_eq_some_iff.1 h
      obtain ⟨htree, hmap⟩ := ht.attach_new hr hl hins
      obtain ⟨p, last, hp, hrp, hgrown, hres⟩ := ih htree (by rw [hmap, if_pos rfl]) hwalk
      refine ⟨p, last, hp, hpre.trans hrp, hgrown.cons (hchild.trans hl) hmap hrp, ?_⟩
      cases res with
      | some => exact hres
      | none => exact hres.of_attach hmap
    | some o =>
      rw [hl] at h
      by_cases ho : ∃ addr, o = .table addr
      · obtain ⟨addr, rfl⟩ := ho
        obtain ⟨p, last, hp, hrp, hrest⟩ := ih ht (hchild.trans hl) h
        exact ⟨p, last, hp, hpre.trans hrp, hrest⟩
      · -- a value on the way
        have hbreak : some (heap, none) = some (heap', res) := by
          cases o with
          | table addr => exact absurd ⟨addr, rfl⟩ ho
          | int => exact h
          | bool => exact h
          | string => exact h
        obtain ⟨rfl, rfl⟩ := Prod.mk.inj (Option.some.inj hbreak)
        have hne : next :: rest ≠ [] := List.cons_ne_nil _ _
        have hlast : (r ++ [id]) ++ next :: rest =
            (r ++ [id] ++ (next :: rest).dropLast) ++ [(next :: rest).getLast hne] := by
          rw [List.append_assoc _ (List.dropLast _), List.dropLast_append_getLast]
        refine ⟨_, _, hlast, hpre.trans (List.prefix_append _ _), .refl ht _, r ++ [id], o,
          hchild.trans hl, fun addr ha ↦ ho ⟨addr, ha⟩, hlast ▸ List.prefix_append _ _,
          fun heq ↦ hne ?_⟩
        rw [← hlast] at heq
        exact List.self_eq_append_right.1 heq

/-! ### One entry -/

/-- The invariant of the generator behind the entries `es`: the heap is a tree that means `es`, and
the current table is the one at `env`. -/
structure DocInvariant (heap : Heap) (root curEnv : ℕ) (env : KeyPath) (es : List FullEntry) :
    Prop where
  tree : TreeHeap heap root
  env_eq : objectAt heap root env = some (.table curEnv)
  value_iff : ∀ {p o}, (∀ addr, o ≠ .table addr) →
    (objectAt heap root p = some o ↔ ∃ v, (p, some v) ∈ es ∧ o = v.gen)
  table_iff : ∀ {p}, (∃ addr, objectAt heap root p = some (.table addr)) ↔
    p = [] ∨ IsTablePath es p

theorem gen_ne_table (v : AstValue) (addr : ℕ) : v.gen ≠ .table addr := by
  cases v <;> simp [AstValue.gen]

/-- A path is present in the entries as it is in the heap. -/
theorem DocInvariant.present_iff {heap : Heap} {root curEnv : ℕ} {env : KeyPath}
    {es : List FullEntry} (h : DocInvariant heap root curEnv env es) {p : KeyPath} (hp : p ≠ []) :
    PathPresent es p ↔ objectAt heap root p ≠ none := by
  constructor
  · rintro ⟨⟨q, val⟩, he, hpre⟩ hnone
    by_cases hpq : p = q
    · cases val with
      | none =>
        obtain ⟨addr, ha⟩ := h.table_iff.2 (.inr (.inl (hpq ▸ he)))
        rw [ha] at hnone
        exact absurd hnone (by simp)
      | some v =>
        have := (h.value_iff (gen_ne_table v)).2 ⟨v, hpq ▸ he, rfl⟩
        rw [this] at hnone
        exact absurd hnone (by simp)
    · obtain ⟨addr, ha⟩ := h.table_iff.2 (.inr (.inr ⟨_, he, hpre, hpq⟩))
      rw [ha] at hnone
      exact absurd hnone (by simp)
  · intro hne
    obtain ⟨o, ho⟩ := Option.ne_none_iff_exists'.1 hne
    by_cases htable : ∃ addr, o = .table addr
    · obtain ⟨addr, rfl⟩ := htable
      rcases h.table_iff.1 ⟨addr, ho⟩ with rfl | hmem | ⟨e, he, hpre, -⟩
      · exact absurd rfl hp
      · exact ⟨_, hmem, List.prefix_rfl⟩
      · exact ⟨e, he, hpre⟩
    · obtain ⟨v, hv, -⟩ := (h.value_iff fun addr ha ↦ htable ⟨addr, ha⟩).1 ho
      exact ⟨_, hv, List.prefix_rfl⟩

/-- And a value is on the way in the entries as it is in the heap. -/
theorem DocInvariant.blocked_iff {heap : Heap} {root curEnv : ℕ} {env : KeyPath}
    {es : List FullEntry} (h : DocInvariant heap root curEnv env es) (p : KeyPath) :
    PathBlocked es p ↔ ValueBelow heap root p := by
  constructor
  · rintro ⟨q, v, hmem, hpre, hne⟩
    exact ⟨q, v.gen, (h.value_iff (gen_ne_table v)).2 ⟨v, hmem, rfl⟩, gen_ne_table v, hpre, hne⟩
  · rintro ⟨q, o, ho, hnt, hpre, hne⟩
    obtain ⟨v, hmem, -⟩ := (h.value_iff hnt).1 ho
    exact ⟨q, v, hmem, hpre, hne⟩

/-- On the way to a table there are tables. -/
theorem exists_table_of_isPrefix {heap : Heap} {root : ℕ} {p q : KeyPath} {addr : ℕ}
    (hp : objectAt heap root p = some (.table addr)) (hq : q <+: p) :
    ∃ addr, objectAt heap root q = some (.table addr) := by
  obtain ⟨t, rfl⟩ := hq
  by_contra hno
  rcases eq_or_ne t [] with rfl | hne
  · rw [List.append_nil] at hp
    exact hno ⟨addr, hp⟩
  · rw [objectAt_append_eq_none (fun a ha ↦ hno ⟨a, ha⟩) hne] at hp
    exact absurd hp (by simp)

/-- A strict prefix of a path is on the way to its last key. -/
theorem isPrefix_of_ne_concat {q p : KeyPath} {last : CString} (h : q <+: p ++ [last])
    (hne : q ≠ p ++ [last]) : q <+: p := by
  rcases List.prefix_concat_iff.1 h with heq | hpre
  · exact absurd heq hne
  · exact hpre

section

variable {heap heap₁ heap₂ : Heap} {root curEnv newEnv : ℕ} {env env' p q : KeyPath}
  {es : List FullEntry} {last : CString} {s : ℕ} {val : Option AstValue} {obj : Object}

/-- The values are those that were there before. -/
theorem Grown.value_iff (h : Grown heap heap₁ root p) {o : Object} (ho : ∀ addr, o ≠ .table addr) :
    objectAt heap₁ root q = some o ↔ objectAt heap root q = some o := by
  refine ⟨fun h₁ ↦ ?_, h.keep⟩
  cases h₀ : objectAt heap root q with
  | none =>
    obtain ⟨-, addr, ha⟩ := h.new h₀ h₁
    exact absurd ha (ho addr)
  | some o' => rw [← h.keep h₀, h₁]

/-- And the tables are those that were there before, and those on the way. -/
theorem Grown.table_iff (h : Grown heap heap₁ root p)
    (hs : objectAt heap₁ root p = some (.table s)) :
    (∃ addr, objectAt heap₁ root q = some (.table addr)) ↔
      (∃ addr, objectAt heap root q = some (.table addr)) ∨ q <+: p := by
  constructor
  · rintro ⟨addr, ha⟩
    cases h₀ : objectAt heap root q with
    | none => exact .inr (h.new h₀ ha).1
    | some o => exact .inl ⟨addr, by rw [← h.keep h₀, ha]⟩
  · rintro (⟨addr, ha⟩ | hpre)
    · exact ⟨addr, h.keep ha⟩
    · exact exists_table_of_isPrefix hs hpre

/-- One more entry makes tables on the way to it, and one of its own if it declares one. -/
theorem isTablePath_concat {e : FullEntry} :
    IsTablePath (es ++ [e]) q ↔ IsTablePath es q ∨ (q, none) = e ∨ (q <+: e.1 ∧ q ≠ e.1) := by
  simp only [IsTablePath, List.mem_append, List.mem_singleton, or_and_right, exists_or,
    exists_eq_left]
  exact or_or_or_comm

/-- The path is new to the entries before: neither a table nor a value is there. -/
theorem DocInvariant.not_isTablePath (h : DocInvariant heap root curEnv env es)
    (hfree : objectAt heap root q = none) : ¬IsTablePath es q := fun ht ↦ by
  obtain ⟨addr, ha⟩ := h.table_iff.2 (.inr ht)
  exact absurd (hfree.symm.trans ha) (by simp)

theorem DocInvariant.not_mem (h : DocInvariant heap root curEnv env es)
    (hfree : objectAt heap root q = none) (v : AstValue) : (q, some v) ∉ es := fun hmem ↦ by
  have hv := (h.value_iff (gen_ne_table v)).2 ⟨v, hmem, rfl⟩
  exact absurd (hfree.symm.trans hv) (by simp)

/-- What a walk has not made was not there before. -/
theorem Grown.eq_none (h : Grown heap heap₁ root p) (hfree : objectAt heap₁ root q = none) :
    objectAt heap root q = none := by
  by_contra hne
  obtain ⟨o, ho⟩ := Option.ne_none_iff_exists'.1 hne
  exact absurd (hfree.symm.trans (h.keep ho)) (by simp)

/-- The object of an entry: its value, or a table. -/
def IsObjectOf (val : Option AstValue) (obj : Object) : Prop :=
  match val with
  | some v => obj = v.gen
  | none => ∃ addr, obj = .table addr

/-- **The invariant behind one more entry**, put where the walk along its key has ended. -/
theorem DocInvariant.attach (h : DocInvariant heap root curEnv env es)
    (hgrown : Grown heap heap₁ root p) (hs : objectAt heap₁ root p = some (.table s))
    (htree : TreeHeap heap₂ root)
    (hmap : ∀ q, objectAt heap₂ root q =
      if q = p ++ [last] then some obj else objectAt heap₁ root q)
    (hfree : objectAt heap₁ root (p ++ [last]) = none) (hobj : IsObjectOf val obj)
    (henv : objectAt heap₂ root env' = some (.table newEnv)) :
    DocInvariant heap₂ root newEnv env' (es ++ [(p ++ [last], val)]) := by
  have hold := hgrown.eq_none hfree
  refine ⟨htree, henv, fun {q o} ho ↦ ?value, fun {q} ↦ ?table⟩
  case value =>
    simp only [hmap, List.mem_append, List.mem_singleton, Prod.mk.injEq]
    split
    case isTrue hq =>
      subst hq
      simp only [h.not_mem hold, false_or, true_and, Option.some_inj]
      cases val with
      | some v => simp [show obj = v.gen from hobj, eq_comm]
      | none =>
        obtain ⟨addr, rfl⟩ := hobj
        simp [(ho addr).symm]
    case isFalse hq =>
      simp only [hq, false_and, or_false]
      exact (hgrown.value_iff ho).trans (h.value_iff ho)
  case table =>
    rw [hmap, isTablePath_concat]
    split
    case isTrue hq =>
      subst hq
      simp only [h.not_isTablePath hold, Option.some_inj, List.append_eq_nil_iff, List.cons_ne_nil,
        and_false, false_or, ne_eq, not_true_eq_false, or_false, Prod.mk.injEq, true_and]
      cases val with
      | some v => simp [show obj = v.gen from hobj, gen_ne_table]
      | none => simpa using show ∃ addr, obj = .table addr from hobj
    case isFalse hq =>
      have hpre : q <+: p ++ [last] ∧ q ≠ p ++ [last] ↔ q <+: p :=
        ⟨fun hpre ↦ isPrefix_of_ne_concat hpre.1 hpre.2,
          fun hpre ↦ ⟨hpre.trans (List.prefix_append p [last]), hq⟩⟩
      rw [hgrown.table_iff hs, h.table_iff, hpre, or_assoc]
      simp [hq]

/-- The path of an entry is present as it is after the walk along its key. -/
theorem DocInvariant.present_iff_of_grown (h : DocInvariant heap root curEnv env es)
    (hgrown : Grown heap heap₁ root p) :
    PathPresent es (p ++ [last]) ↔ objectAt heap₁ root (p ++ [last]) ≠ none := by
  rw [h.present_iff (by simp)]
  refine not_congr ⟨fun hnone ↦ ?_, hgrown.eq_none⟩
  by_contra hne
  obtain ⟨o, ho⟩ := Option.ne_none_iff_exists'.1 hne
  have hlen := (hgrown.new hnone ho).1.length_le
  simp only [List.length_append, List.length_cons, List.length_nil] at hlen
  omega

/-- No value is on the way of a walk that ends in a table. -/
theorem DocInvariant.not_blocked_of_grown (h : DocInvariant heap root curEnv env es)
    (hgrown : Grown heap heap₁ root p) (hs : objectAt heap₁ root p = some (.table s)) :
    ¬PathBlocked es (p ++ [last]) := by
  rw [h.blocked_iff]
  rintro ⟨q, o, ho, hnt, hpre, hne⟩
  obtain ⟨addr, ha⟩ := exists_table_of_isPrefix hs (isPrefix_of_ne_concat hpre hne)
  exact hnt addr (Option.some.inj ((hgrown.keep ho).symm.trans ha))

end

/-- **One entry**: it is refused exactly when its full path may not be named, and otherwise the
invariant goes on with it. -/
theorem DocInvariant.step {heap : Heap} {root curEnv : ℕ} {env : KeyPath} {es : List FullEntry}
    (h : DocInvariant heap root curEnv env es) {node : AstEntry}
    {r : Except String (Heap × ℕ)} (hstep : astNodeEntryStep root heap curEnv node = some r) :
    (r = .error overridingValue ∧
      ∃ e, node.full env = some e ∧ ¬(¬PathPresent es e.1 ∧ ¬PathBlocked es e.1)) ∨
    ∃ heap' newEnv, r = .ok (heap', newEnv) ∧
      (∀ e, node.full env = some e → ¬PathPresent es e.1 ∧ ¬PathBlocked es e.1) ∧
      DocInvariant heap' root newEnv (node.nextEnv env) (es ++ (node.full env).toList) := by
  obtain ⟨_ | key, val⟩ := node
  · -- back to the root
    change (if val = none then some (Except.ok (heap, root)) else none) = some r at hstep
    split at hstep
    · obtain rfl := Option.some.inj hstep
      refine .inr ⟨heap, root, rfl, fun e he ↦ absurd he (by simp [AstEntry.full]), ?_⟩
      rw [show es ++ (AstEntry.full env ⟨none, val⟩).toList = es from List.append_nil es]
      exact ⟨h.tree, objectAt_nil heap root, fun ho ↦ h.value_iff ho, h.table_iff⟩
    · exact absurd hstep (by simp)
  · obtain ⟨⟨heap₁, walked⟩, hwalk, hrest⟩ := Option.bind_eq_some_iff.1 hstep
    have hbase : objectAt heap root (if val = none then [] else env) =
        some (.table (if val = none then root else curEnv)) := by
      split
      · exact objectAt_nil heap root
      · exact h.env_eq
    obtain ⟨p, last, hp, -, hgrown, hres⟩ := astKeyWalk_spec h.tree hbase hwalk
    have hfull : AstEntry.full env ⟨some key, val⟩ = some (p ++ [last], val) := by
      rw [← hp]
      rfl
    rw [hfull]
    cases walked with
    | none =>
      -- a value on the way
      obtain rfl := Option.some.inj hrest
      exact .inl ⟨rfl, _, rfl, fun hn ↦ hn.2 ((h.blocked_iff _).2 hres)⟩
    | some found =>
      obtain ⟨s, keyId⟩ := found
      obtain ⟨rfl, hs⟩ := hres
      have hlast : objectAt heap₁ root (p ++ [keyId]) = tableObjectLookup heap₁ s keyId := by
        rw [objectAt_concat, hs]
        rfl
      have hpresent : PathPresent es (p ++ [keyId]) ↔ tableObjectLookup heap₁ s keyId ≠ none := by
        rw [h.present_iff_of_grown hgrown, hlast]
      simp only at hrest
      split at hrest
      case isTrue hsome =>
        -- the path is there already
        obtain rfl := Option.some.inj hrest
        exact .inl ⟨rfl, _, rfl, fun hn ↦ hn.1 (hpresent.2 (Option.isSome_iff_ne_none.1 hsome))⟩
      case isFalse hnone =>
        have hfree : tableObjectLookup heap₁ s keyId = none := Option.not_isSome_iff_eq_none.1 hnone
        have hadmit : ¬PathPresent es (p ++ [keyId]) ∧ ¬PathBlocked es (p ++ [keyId]) :=
          ⟨fun hp ↦ hpresent.1 hp hfree, h.not_blocked_of_grown hgrown hs⟩
        cases val with
        | some v =>
          obtain ⟨heap₂, hins, hok⟩ := Option.bind_eq_some_iff.1 hrest
          obtain rfl := Option.some.inj hok
          have hval : Attachable heap₁ root v.gen := fun a ha ↦ absurd ha (gen_ne_table v a)
          have hmap := objectAt_attach hgrown.tree hs hfree hval hins
          refine .inr ⟨heap₂, curEnv, rfl, fun e he ↦ Option.some.inj he ▸ hadmit, ?_⟩
          refine h.attach hgrown hs (hgrown.tree.attach hs hfree hval hins) hmap
            (hlast.trans hfree) rfl ?_
          -- the current table stays where it is
          show objectAt heap₂ root env = _
          rw [hmap, if_neg, hgrown.keep h.env_eq]
          rintro rfl
          exact absurd ((hgrown.keep h.env_eq).symm.trans (hlast.trans hfree)) (by simp)
        | none =>
          obtain ⟨heap₂, hins, hok⟩ := Option.bind_eq_some_iff.1 hrest
          obtain rfl := Option.some.inj hok
          obtain ⟨htree, hmap⟩ := hgrown.tree.attach_new hs hfree hins
          refine .inr ⟨heap₂, heap₁.length, rfl, fun e he ↦ Option.some.inj he ▸ hadmit, ?_⟩
          refine h.attach hgrown hs htree hmap (hlast.trans hfree) ⟨_, rfl⟩ ?_
          show objectAt heap₂ root key.path = _
          rw [hmap, if_pos]
          rw [← hp]
          rfl

/-! ### The document -/

theorem consistentFrom_append {es es' : List FullEntry} {o : Option FullEntry} :
    ConsistentFrom es (o.toList ++ es') ↔
      (∀ e, o = some e → ¬PathPresent es e.1 ∧ ¬PathBlocked es e.1) ∧
        ConsistentFrom (es ++ o.toList) es' := by
  cases o with
  | none => simp
  | some e =>
    show (_ ∧ _) ↔ _
    refine and_congr_left' ⟨fun h e' he' ↦ Option.some.inj he' ▸ h, fun h ↦ h e rfl⟩

/-- The loop, from a state that satisfies the invariant. -/
theorem astNodeEntryLoop_spec {nodes : List AstEntry} {heap : Heap} {root curEnv : ℕ}
    {env : KeyPath} {es : List FullEntry} (h : DocInvariant heap root curEnv env es)
    {r : Except String Heap} (hloop : astNodeEntryLoop root heap curEnv nodes = some r) :
    (r = .error overridingValue ∧ ¬ConsistentFrom es (fullEntries env nodes)) ∨
    ∃ heap' newEnv env', r = .ok heap' ∧ ConsistentFrom es (fullEntries env nodes) ∧
      DocInvariant heap' root newEnv env' (es ++ fullEntries env nodes) := by
  induction nodes generalizing heap curEnv env es with
  | nil =>
    obtain rfl := Option.some.inj hloop
    refine .inr ⟨heap, curEnv, env, rfl, trivial, ?_⟩
    rw [fullEntries, List.append_nil]
    exact h
  | cons node nodes ih =>
    rw [astNodeEntryLoop] at hloop
    rw [fullEntries, consistentFrom_append, ← List.append_assoc]
    cases hstep : astNodeEntryStep root heap curEnv node with
    | none =>
      rw [hstep] at hloop
      exact absurd hloop (by simp)
    | some r' =>
      rw [hstep] at hloop
      rcases h.step hstep with ⟨rfl, e, he, hbad⟩ | ⟨heap', newEnv, rfl, hgood, hinv⟩
      · obtain rfl := Option.some.inj hloop
        exact .inl ⟨rfl, fun hc ↦ hbad (hc.1 e he)⟩
      · rcases ih hinv hloop with ⟨rfl, hbad⟩ | ⟨heap'', newEnv', env', rfl, hcons, hinv'⟩
        · exact .inl ⟨rfl, fun hc ↦ hbad hc.2⟩
        · exact .inr ⟨heap'', newEnv', env', rfl, ⟨hgood, hcons⟩, hinv'⟩

/-- The empty document: a root table, and nothing in it. -/
theorem docInvariant_nil : DocInvariant (tableObjectNew []).1 0 0 [] [] := by
  have hmap : ∀ {p o}, objectAt (tableObjectNew []).1 0 p = some o → p = [] ∧ o = .table 0 := by
    intro p o hp
    induction p using List.reverseRecOn with
    | nil => exact ⟨rfl, (Option.some.inj hp).symm⟩
    | append_singleton p key _ =>
      rw [objectAt_new, objectAt_concat] at hp
      obtain ⟨o', -, hchild⟩ := Option.bind_eq_some_iff.1 hp
      cases o' <;> exact absurd hchild (by simp [childOf, tableObjectLookup])
  refine ⟨⟨fun table ht ↦ ?_, fun hp ↦ ?_, fun hp hq ↦ ?_⟩, objectAt_nil _ _, fun {p o} ho ↦ ?_,
    fun {p} ↦ ?_⟩
  · rw [List.mem_singleton.1 ht]
    exact sound_hashTableNew
  · obtain rfl := Object.table.inj (hmap hp).2
    exact Nat.one_pos
  · rw [(hmap hp).1, (hmap hq).1]
  · exact iff_of_false (fun hp ↦ ho 0 (hmap hp).2) (by simp)
  · refine ⟨fun ⟨addr, hp⟩ ↦ .inl (hmap hp).1, ?_⟩
    rintro (rfl | ht)
    · exact ⟨0, objectAt_nil _ _⟩
    · simp [IsTablePath] at ht

theorem DocInvariant.means {heap : Heap} {root curEnv : ℕ} {env : KeyPath} {es : List FullEntry}
    (h : DocInvariant heap root curEnv env es) : Means heap root es := by
  have hok : ∀ {p o}, objectAt heap root p = some o ↔ tomlLookupPath heap root p = .ok o := by
    intro p o
    rw [objectAt]
    cases tomlLookupPath heap root p <;> simp [Except.toOption]
  refine ⟨fun p v _ hv ↦ ?_, fun p _ hp ↦ ?_, fun p hp hv ht ↦ ?_⟩
  · exact hok.1 ((h.value_iff (gen_ne_table v)).2 ⟨v, hv, rfl⟩)
  · obtain ⟨addr, ha⟩ := h.table_iff.2 (.inr hp)
    exact ⟨addr, hok.1 ha⟩
  · cases hl : tomlLookupPath heap root p with
    | error msg => exact ⟨msg, rfl⟩
    | ok o =>
      by_cases ho : ∃ addr, o = .table addr
      · obtain ⟨addr, rfl⟩ := ho
        rcases h.table_iff.1 ⟨addr, hok.2 hl⟩ with hnil | hp'
        · exact absurd hnil hp
        · exact absurd hp' ht
      · obtain ⟨v, hmem, -⟩ := (h.value_iff fun addr ha ↦ ho ⟨addr, ha⟩).1 (hok.2 hl)
        exact absurd hmem (hv v)

/-- **The meaning of a document.** When no assertion fails, the generator gives a table exactly for
the consistent documents, and an error message otherwise; and the table means the document. -/
theorem astNodeEntryGen_means {nodes : List AstEntry} {r : Except String Heap}
    (h : astNodeEntryGen nodes = some r) :
    ((∃ heap, r = .ok heap) ↔ Consistent (fullEntries [] nodes)) ∧
      ((¬∃ heap, r = .ok heap) → r = .error overridingValue) ∧
      ∀ heap, r = .ok heap → Means heap 0 (fullEntries [] nodes) := by
  rcases astNodeEntryLoop_spec docInvariant_nil h with
    ⟨rfl, hbad⟩ | ⟨heap', newEnv, env', rfl, hcons, hinv⟩
  · exact ⟨iff_of_false (by simp) hbad, fun _ ↦ rfl, fun heap hr ↦ absurd hr (by simp)⟩
  · refine ⟨iff_of_true ⟨heap', rfl⟩ hcons, fun hno ↦ absurd ⟨heap', rfl⟩ hno, fun heap hr ↦ ?_⟩
    obtain rfl := Except.ok.inj hr
    exact hinv.means

/-- The document `a = 10`, `b.c.d = 20`, `[c]`, `d = true`. -/
def sampleDocument : List AstEntry :=
  [⟨some ⟨cstr [97], []⟩, some (.int 10)⟩,
    ⟨some ⟨cstr [98], [cstr [99], cstr [100]]⟩, some (.int 20)⟩,
    ⟨some ⟨cstr [99], []⟩, none⟩, ⟨some ⟨cstr [100], []⟩, some (.bool true)⟩]

/-- The generator accepts. -/
def astNodeEntryGenAccepts (nodes : List AstEntry) : Option Bool :=
  (astNodeEntryGen nodes).map fun r ↦ r.toOption.isSome

theorem exists_of_accepts {nodes : List AstEntry} (h : astNodeEntryGenAccepts nodes = some true) :
    ∃ heap, astNodeEntryGen nodes = some (.ok heap) := by
  obtain ⟨r, hr, hok⟩ := Option.map_eq_some_iff.1 h
  cases r with
  | error msg => exact absurd hok (by simp [Except.toOption])
  | ok heap => exact ⟨heap, hr⟩

theorem astNodeEntryGen_means_sampleDocument :
    ∃ heap, astNodeEntryGen sampleDocument = some (.ok heap) ∧
      Means heap 0 (fullEntries [] sampleDocument) := by
  have haccepts : astNodeEntryGenAccepts sampleDocument = some true := by decide +kernel
  obtain ⟨heap, hr⟩ := exists_of_accepts haccepts
  exact ⟨heap, hr, (astNodeEntryGen_means hr).2.2 heap rfl⟩

end Vmecs
