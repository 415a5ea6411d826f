import Vmecs.Toml.Document
import Vmecs.Toml.Growth

/-!
# Room for a document (`toml/ast.c`, `toml/table.c`)

A table of a program has eight slots and never grows, so the generator stops at a failed assertion
when a document gives a table a ninth key. Which keys a table is given is known from the full paths
of the entries (`childKeys`): they are the next keys on the way from the path of the table to those
of the entries.

So a document is built exactly when it is consistent and fits (`astNodeEntryGen_eq_ok_iff`). That it
must fit is read off the heap that is built (`DocInvariant.fits`). That it is enough goes along the
generator: at each insert the keys that the table has got so far are among those that the document
gives it, and the new one is another of them (`TreeHeap.exists_insert`).
-/

namespace Vmecs

/-! ### The keys of a table -/

/-- The next key on the way from `p` to `q`. -/
def childKey (p q : KeyPath) : Option CString := if p <+: q then (q.drop p.length).head? else none

/-- The keys that the entries give to the table at `p`. -/
def childKeys (es : List FullEntry) (p : KeyPath) : Finset CString :=
  (es.filterMap fun e ↦ childKey p e.1).toFinset

/-- No table is given more keys than it has slots. -/
def Fits (es : List FullEntry) : Prop := ∀ p, (childKeys es p).card ≤ tableInitBuf

theorem childKey_eq_some {p q : KeyPath} {k : CString} :
    childKey p q = some k ↔ p ++ [k] <+: q := by
  rw [childKey]
  constructor
  · intro h
    split at h
    case isTrue hp =>
      obtain ⟨t, rfl⟩ := hp
      rw [List.drop_left, List.head?_eq_some_iff] at h
      obtain ⟨t', rfl⟩ := h
      exact ⟨t', List.append_assoc _ _ _⟩
    case isFalse => exact absurd h (by simp)
  · rintro ⟨t, rfl⟩
    rw [List.append_assoc, if_pos (List.prefix_append _ _), List.drop_left]
    rfl

theorem mem_childKeys {es : List FullEntry} {p : KeyPath} {k : CString} :
    k ∈ childKeys es p ↔ PathPresent es (p ++ [k]) := by
  rw [childKeys, List.mem_toFinset, List.mem_filterMap]
  simp only [childKey_eq_some, PathPresent]

theorem PathPresent.append {es es' : List FullEntry} {p : KeyPath} (h : PathPresent es p) :
    PathPresent (es ++ es') p := by
  obtain ⟨e, he, hpre⟩ := h
  exact ⟨e, List.mem_append_left _ he, hpre⟩

theorem PathPresent.of_prefix {es : List FullEntry} {p q : KeyPath} (h : PathPresent es q)
    (hp : p <+: q) : PathPresent es p := by
  obtain ⟨e, he, hpre⟩ := h
  exact ⟨e, he, hp.trans hpre⟩

/-- A part of a document fits if all of it does. -/
theorem Fits.of_append {es es' : List FullEntry} (h : Fits (es ++ es')) : Fits es := by
  intro p
  refine (Finset.card_le_card fun k hk ↦ ?_).trans (h p)
  exact mem_childKeys.2 (mem_childKeys.1 hk).append

/-- Up to eight entries fit. -/
theorem fits_of_length_le {es : List FullEntry} (h : es.length ≤ tableInitBuf) : Fits es := by
  intro p
  exact (List.toFinset_card_le _).trans ((List.length_filterMap_le _ _).trans h)

/-! ### A table that has been built has room -/

/-- Above what is there, there are tables. -/
theorem exists_table_of_concat {heap : Heap} {root : ℕ} {p : KeyPath} {k : CString}
    (h : objectAt heap root (p ++ [k]) ≠ none) :
    ∃ addr, objectAt heap root p = some (.table addr) := by
  by_contra hno
  exact h (objectAt_append_eq_none (fun addr ha ↦ hno ⟨addr, ha⟩) (List.cons_ne_nil k []))

/-- The keys of a table in a heap are at most as many as its slots. -/
theorem TreeHeap.card_le {heap : Heap} {root : ℕ} (ht : TreeHeap heap root) {p : KeyPath}
    {S : Finset CString} (hS : ∀ k ∈ S, objectAt heap root (p ++ [k]) ≠ none) :
    S.card ≤ tableInitBuf := by
  rcases S.eq_empty_or_nonempty with rfl | ⟨k₀, hk₀⟩
  · exact Nat.zero_le _
  · obtain ⟨addr, hp⟩ := exists_table_of_concat (hS k₀ hk₀)
    have hlt := ht.lt_length hp
    have hsound := ht.sound _ (List.getElem_mem hlt)
    have hsub : S ⊆ heap[addr].tab.keys.toFinset := by
      intro k hk
      obtain ⟨o, ho⟩ := Option.ne_none_iff_exists'.1 (hS k hk)
      rw [objectAt_concat, hp, Option.bind_some, childOf, tableObjectLookup,
        List.getElem?_eq_getElem hlt, Option.bind_some, hashTableLookup_eq_some hsound.good] at ho
      exact List.mem_toFinset.2 (Slots.mem_keys.2 ⟨o, ho⟩)
    calc S.card ≤ heap[addr].tab.keys.toFinset.card := Finset.card_le_card hsub
      _ ≤ heap[addr].tab.keys.length := List.toFinset_card_le _
      _ ≤ heap[addr].cap := Slots.length_keys_le
      _ = tableInitBuf := hsound.cap_eq

/-- **What has been built fits.** -/
theorem DocInvariant.fits {heap : Heap} {root curEnv : ℕ} {env : KeyPath} {es : List FullEntry}
    (h : DocInvariant heap root curEnv env es) : Fits es :=
  fun _ ↦ h.tree.card_le fun _ hk ↦ (h.present_iff (by simp)).1 (mem_childKeys.1 hk)

/-! ### What fits is built -/

/-- There is a slot for a new key of a table, as long as all its keys are among eight. -/
theorem exists_hashTableInsert_of_card_le {table : HashTable Object} (h : table.Sound)
    {key : CString} {S : Finset CString} (hS : ∀ k ∈ table.tab.keys, k ∈ S) (hkey : key ∈ S)
    (hcard : S.card ≤ tableInitBuf) (val : Object) :
    ∃ table', hashTableInsert table key val = some table' := by
  rw [h.hashTableInsert_eq]
  refine exists_hashTablePut (or_iff_not_imp_left.2 fun hnew ↦ ?_) val
  have hsub : insert key table.tab.keys.toFinset ⊆ S :=
    Finset.insert_subset hkey fun k hk ↦ hS k (List.mem_toFinset.1 hk)
  have hinsert : (insert key table.tab.keys.toFinset).card = table.tab.keys.length + 1 := by
    rw [Finset.card_insert_of_notMem (by rwa [List.mem_toFinset]),
      List.toFinset_card_of_nodup h.good.nodup_keys]
  have hle := Finset.card_le_card hsub
  rw [h.cap_eq]
  omega

/-- Everything in the heap is on the way to an entry. -/
def OnlyPresent (heap : Heap) (root : ℕ) (es : List FullEntry) : Prop :=
  ∀ q, q ≠ [] → objectAt heap root q ≠ none → PathPresent es q

/-- **There is room for an entry** and for the tables on the way to it. -/
theorem TreeHeap.exists_insert {heap : Heap} {root addr : ℕ} {es : List FullEntry}
    (ht : TreeHeap heap root) (honly : OnlyPresent heap root es) (hfits : Fits es) {p : KeyPath}
    {key : CString} (hp : objectAt heap root p = some (.table addr))
    (hkey : PathPresent es (p ++ [key])) (val : Object) :
    ∃ heap', tableObjectInsert heap addr key val = some heap' := by
  have hlt := ht.lt_length hp
  have hsound := ht.sound _ (List.getElem_mem hlt)
  have hkeys : ∀ k ∈ heap[addr].tab.keys, k ∈ childKeys es p := by
    intro k hk
    obtain ⟨o, ho⟩ := Slots.mem_keys.1 hk
    refine mem_childKeys.2 (honly _ (by simp) ?_)
    rw [objectAt_concat, hp, Option.bind_some, childOf, tableObjectLookup,
      List.getElem?_eq_getElem hlt, Option.bind_some,
      (hashTableLookup_eq_some hsound.good).2 ho]
    exact Option.some_ne_none o
  obtain ⟨table', htable'⟩ := exists_hashTableInsert_of_card_le hsound hkeys
    (mem_childKeys.2 hkey) (hfits p) val
  refine ⟨heap.set addr table', ?_⟩
  rw [tableObjectInsert, List.getElem?_eq_getElem hlt]
  show (hashTableInsert heap[addr] key val >>= fun table' ↦ some (heap.set addr table')) = _
  rw [htable', Option.bind_eq_bind, Option.bind_some]

theorem OnlyPresent.new {heap : Heap} {root : ℕ} {es : List FullEntry}
    (h : OnlyPresent heap root es) : OnlyPresent (tableObjectNew heap).1 root es := by
  intro q hq hne
  rw [objectAt_new] at hne
  exact h q hq hne

/-- The walk along a key comes to an end. -/
theorem exists_astKeyWalk {heap : Heap} {root sub : ℕ} {es : List FullEntry} {r : KeyPath}
    {id : CString} {rest : List CString} (ht : TreeHeap heap root)
    (honly : OnlyPresent heap root es) (hfits : Fits es)
    (hr : objectAt heap root r = some (.table sub)) (hfull : PathPresent es (r ++ id :: rest)) :
    ∃ res, astKeyWalk heap sub id rest = some res := by
  induction rest generalizing heap sub id r with
  | nil => exact ⟨_, rfl⟩
  | cons next rest ih =>
    have hsplit : r ++ id :: next :: rest = (r ++ [id]) ++ next :: rest := by simp
    rw [hsplit] at hfull
    have hid : PathPresent es (r ++ [id]) := hfull.of_prefix (List.prefix_append _ _)
    have hchild : objectAt heap root (r ++ [id]) = tableObjectLookup heap sub id := by
      rw [objectAt_concat, hr]
      rfl
    rw [astKeyWalk]
    rcases hl : tableObjectLookup heap sub id with _ | o
    · -- a table is made on the way
      have hr' : objectAt (tableObjectNew heap).1 root r = some (.table sub) := by
        rw [objectAt_new, hr]
      obtain ⟨heap₁, hins⟩ := ht.new.exists_insert honly.new hfits hr' hid (.table heap.length)
      obtain ⟨htree, hmap⟩ := ht.attach_new hr hl hins
      have honly₁ : OnlyPresent heap₁ root es := by
        intro q hq hne
        rw [hmap] at hne
        split at hne
        case isTrue heq => rwa [heq]
        case isFalse => exact honly q hq hne
      obtain ⟨res, hres⟩ := ih htree honly₁ (by rw [hmap, if_pos rfl]) hfull
      refine ⟨res, ?_⟩
      show (tableObjectInsert (tableObjectNew heap).1 sub id (.table heap.length) >>=
        fun heap₁ ↦ astKeyWalk heap₁ heap.length next rest) = some res
      rw [hins]
      exact hres
    · rcases o with _ | _ | _ | tmp
      · exact ⟨_, rfl⟩
      · exact ⟨_, rfl⟩
      · exact ⟨_, rfl⟩
      · exact ih ht honly (hchild.trans hl) hfull

theorem DocInvariant.onlyPresent {heap : Heap} {root curEnv : ℕ} {env : KeyPath}
    {es : List FullEntry} (h : DocInvariant heap root curEnv env es) : OnlyPresent heap root es :=
  fun _ hq ↦ (h.present_iff hq).2

/-- What a walk makes is on the way to its path. -/
theorem OnlyPresent.of_grown {heap heap₁ : Heap} {root : ℕ} {es : List FullEntry} {p : KeyPath}
    (h : OnlyPresent heap root es) (hgrown : Grown heap heap₁ root p) (hp : PathPresent es p) :
    OnlyPresent heap₁ root es := by
  intro q hq hne
  obtain ⟨o, ho⟩ := Option.ne_none_iff_exists'.1 hne
  rcases hold : objectAt heap root q with _ | o'
  · exact hp.of_prefix (hgrown.new hold ho).1
  · exact h q hq (by rw [hold]; exact Option.some_ne_none o')

/-! What a turn does when the walk along its key has come to an end. -/

section

variable {heap heap₁ heap₂ : Heap} {root curEnv sub : ℕ} {key : AstKey} {keyId : CString}

theorem astNodeEntryStep_of_blocked {value : Option AstValue}
    (hwalk : astKeyWalk heap (if value = none then root else curEnv) key.id key.next =
      some (heap₁, none)) :
    astNodeEntryStep root heap curEnv ⟨some key, value⟩ = some (.error overridingValue) := by
  rw [astNodeEntryStep]
  dsimp only
  rw [hwalk]
  rfl

theorem astNodeEntryStep_of_present {value : Option AstValue} {o : Object}
    (hwalk : astKeyWalk heap (if value = none then root else curEnv) key.id key.next =
      some (heap₁, some (sub, keyId))) (hl : tableObjectLookup heap₁ sub keyId = some o) :
    astNodeEntryStep root heap curEnv ⟨some key, value⟩ = some (.error overridingValue) := by
  rw [astNodeEntryStep]
  dsimp only
  rw [hwalk]
  show (if (tableObjectLookup heap₁ sub keyId).isSome then _ else _) = _
  rw [hl]
  rfl

theorem astNodeEntryStep_of_value {value : AstValue}
    (hwalk : astKeyWalk heap curEnv key.id key.next = some (heap₁, some (sub, keyId)))
    (hl : tableObjectLookup heap₁ sub keyId = none)
    (hins : tableObjectInsert heap₁ sub keyId value.gen = some heap₂) :
    astNodeEntryStep root heap curEnv ⟨some key, some value⟩ = some (.ok (heap₂, curEnv)) := by
  rw [astNodeEntryStep]
  dsimp only
  rw [if_neg (Option.some_ne_none value), hwalk]
  show (if (tableObjectLookup heap₁ sub keyId).isSome then _ else
    tableObjectInsert heap₁ sub keyId value.gen >>= _) = _
  rw [hl, hins]
  rfl

theorem astNodeEntryStep_of_table
    (hwalk : astKeyWalk heap root key.id key.next = some (heap₁, some (sub, keyId)))
    (hl : tableObjectLookup heap₁ sub keyId = none)
    (hins : tableObjectInsert (tableObjectNew heap₁).1 sub keyId (.table heap₁.length) =
      some heap₂) :
    astNodeEntryStep root heap curEnv ⟨some key, none⟩ = some (.ok (heap₂, heap₁.length)) := by
  rw [astNodeEntryStep]
  dsimp only
  rw [if_pos rfl, hwalk]
  show (if (tableObjectLookup heap₁ sub keyId).isSome then _ else
    tableObjectInsert (tableObjectNew heap₁).1 sub keyId (.table heap₁.length) >>= _) = _
  rw [hl, hins]
  rfl

end

/-- An entry with a value has a key. -/
def AstEntry.Keyed (node : AstEntry) : Prop := node.key = none → node.value = none

/-- **An entry that fits does not stop the generator.** -/
theorem DocInvariant.exists_step {heap : Heap} {root curEnv : ℕ} {env : KeyPath}
    {es : List FullEntry} (h : DocInvariant heap root curEnv env es) {node : AstEntry}
    (hkeyed : node.Keyed) (hfits : Fits (es ++ (node.full env).toList)) :
    ∃ r, astNodeEntryStep root heap curEnv node = some r := by
  obtain ⟨_ | key, value⟩ := node
  · obtain rfl : value = none := hkeyed rfl
    exact ⟨_, rfl⟩
  · -- the path of the entry, from the table at which the walk begins
    have hfull : PathPresent (es ++ (AstEntry.full env ⟨some key, value⟩).toList)
        ((if value = none then [] else env) ++ key.path) :=
      ⟨_, List.mem_append_right es (List.mem_singleton_self _), List.prefix_rfl⟩
    have hbase : objectAt heap root (if value = none then [] else env) =
        some (.table (if value = none then root else curEnv)) := by
      split
      · exact objectAt_nil heap root
      · exact h.env_eq
    have honly : OnlyPresent heap root (es ++ (AstEntry.full env ⟨some key, value⟩).toList) :=
      fun q hq hne ↦ (h.onlyPresent q hq hne).append
    obtain ⟨⟨heap₁, walked⟩, hwalk⟩ := exists_astKeyWalk h.tree honly hfits hbase hfull
    obtain ⟨p, last, hp, -, hgrown, hres⟩ := astKeyWalk_spec h.tree hbase hwalk
    rcases walked with _ | ⟨s, keyId⟩
    · exact ⟨_, astNodeEntryStep_of_blocked hwalk⟩
    obtain ⟨rfl, hs⟩ := hres
    rcases hl : tableObjectLookup heap₁ s keyId with _ | o
    · -- there is room for the entry, in the table at the end of the walk
      have honly₁ := honly.of_grown hgrown (hfull.of_prefix (hp ▸ List.prefix_append p [keyId]))
      rcases value with _ | value
      · obtain ⟨heap₂, hins⟩ := hgrown.tree.new.exists_insert honly₁.new hfits
          (by rw [objectAt_new, hs]) (hp ▸ hfull) (.table heap₁.length)
        exact ⟨_, astNodeEntryStep_of_table hwalk hl hins⟩
      · obtain ⟨heap₂, hins⟩ := hgrown.tree.exists_insert honly₁ hfits hs (hp ▸ hfull) value.gen
        exact ⟨_, astNodeEntryStep_of_value hwalk hl hins⟩
    · exact ⟨_, astNodeEntryStep_of_present hwalk hl⟩

/-- **A document that fits does not stop the generator.** -/
theorem exists_astNodeEntryLoop {nodes : List AstEntry} {heap : Heap} {root curEnv : ℕ}
    {env : KeyPath} {es : List FullEntry} (h : DocInvariant heap root curEnv env es)
    (hkeyed : ∀ node ∈ nodes, node.Keyed) (hfits : Fits (es ++ fullEntries env nodes)) :
    ∃ r, astNodeEntryLoop root heap curEnv nodes = some r := by
  induction nodes generalizing heap curEnv env es with
  | nil => exact ⟨_, rfl⟩
  | cons node nodes ih =>
    rw [fullEntries, ← List.append_assoc] at hfits
    obtain ⟨r, hr⟩ := h.exists_step (hkeyed node List.mem_cons_self) hfits.of_append
    rw [astNodeEntryLoop, hr]
    rcases h.step hr with ⟨rfl, -⟩ | ⟨heap', newEnv, rfl, -, hinv⟩
    · exact ⟨_, rfl⟩
    · exact ih hinv (fun n hn ↦ hkeyed n (List.mem_cons_of_mem node hn)) hfits

/-- **Which documents are built**: those that are consistent and fit. -/
theorem astNodeEntryGen_eq_ok_iff {nodes : List AstEntry} (hkeyed : ∀ node ∈ nodes, node.Keyed) :
    (∃ heap, astNodeEntryGen nodes = some (.ok heap)) ↔
      Consistent (fullEntries [] nodes) ∧ Fits (fullEntries [] nodes) := by
  constructor
  · rintro ⟨heap, hgen⟩
    rcases astNodeEntryLoop_spec docInvariant_nil hgen with ⟨herror, -⟩ | ⟨_, _, _, -, hcons, hinv⟩
    · exact absurd herror (by simp)
    · exact ⟨hcons, hinv.fits⟩
  · rintro ⟨hcons, hfits⟩
    obtain ⟨r, hgen⟩ := exists_astNodeEntryLoop docInvariant_nil hkeyed hfits
    rcases astNodeEntryLoop_spec docInvariant_nil hgen with ⟨-, hbad⟩ | ⟨heap, _, _, rfl, -⟩
    · exact absurd hcons hbad
    · exact ⟨heap, hgen⟩

end Vmecs
