import Vmecs.Toml.Document

/-!
# The order of the sections of a document (`toml/ast.c`)

A section is a header with the assignments behind it, and a document without assignments before its
first header is a list of sections (`exists_docNodes`). The meaning of a document does not depend on
their order (`Means.foundAt_congr`); whether it has one does.

A table comes to be by its header, or implicitly on the way to one that is deeper. The second does
not keep a section from being added below it, but a header for a table that is there already is
refused, whether or not it had a header of its own. So among sections whose headers differ, and
whose assignments stand in the way of nothing, a document is accepted exactly when each header comes
before what is below it (`tomlSections_order`).
-/

namespace Vmecs

/-! ### Sections -/

/-- A header, of a table or of the root, and the assignments behind it. -/
structure TomlSection where
  header : Option AstKey
  assigns : List (AstKey × AstValue)

/-- The entries of assignments. -/
def assignNodes (assigns : List (AstKey × AstValue)) : List AstEntry :=
  assigns.map fun a ↦ ⟨some a.1, some a.2⟩

namespace TomlSection

/-- The full path of the header. -/
def path (s : TomlSection) : KeyPath :=
  match s.header with
  | none => []
  | some key => key.path

/-- The entries of the section. -/
def nodes (s : TomlSection) : List AstEntry := ⟨s.header, none⟩ :: assignNodes s.assigns

/-- The entries with their full paths; the header of the root has none. -/
def full (s : TomlSection) : List FullEntry :=
  (s.header.map fun key ↦ (key.path, none)).toList ++
    s.assigns.map fun a ↦ (s.path ++ a.1.path, some a.2)

end TomlSection

/-- The entries of a document. -/
def docNodes (ss : List TomlSection) : List AstEntry := ss.flatMap TomlSection.nodes

theorem fullEntries_assignNodes (env : KeyPath) (assigns : List (AstKey × AstValue))
    (rest : List AstEntry) :
    fullEntries env (assignNodes assigns ++ rest) =
      (assigns.map fun a ↦ (env ++ a.1.path, some a.2)) ++ fullEntries env rest := by
  induction assigns with
  | nil => rfl
  | cons a assigns ih => exact congrArg ((env ++ a.1.path, some a.2) :: ·) ih

/-- A header makes its table the current one, whatever that was before. -/
theorem fullEntries_docNodes (env : KeyPath) (ss : List TomlSection) :
    fullEntries env (docNodes ss) = ss.flatMap TomlSection.full := by
  induction ss generalizing env with
  | nil => rfl
  | cons s ss ih =>
    have hcons : fullEntries env (docNodes (s :: ss)) =
        (AstEntry.full env ⟨s.header, none⟩).toList ++
          fullEntries (AstEntry.nextEnv env ⟨s.header, none⟩)
            (assignNodes s.assigns ++ docNodes ss) := rfl
    have hnext : AstEntry.nextEnv env ⟨s.header, none⟩ = s.path := by
      rw [AstEntry.nextEnv, TomlSection.path]
      cases s.header <;> rfl
    rw [hcons, hnext, fullEntries_assignNodes, ih, ← List.append_assoc]
    rfl

/-- **Sections make up every document** that begins with a header, and in which every entry without
a key is a header. -/
theorem exists_docNodes {nodes : List AstEntry}
    (hkey : ∀ node ∈ nodes, node.key = none → node.value = none)
    (hhead : ∀ node ∈ nodes.head?, node.value = none) : ∃ ss, nodes = docNodes ss := by
  -- from the end, with the assignments that do not have their header yet
  suffices h : ∃ assigns ss, nodes = assignNodes assigns ++ docNodes ss by
    obtain ⟨_ | ⟨a, assigns⟩, ss, rfl⟩ := h
    · exact ⟨ss, rfl⟩
    · exact absurd (hhead _ rfl) (by simp)
  clear hhead
  induction nodes with
  | nil => exact ⟨[], [], rfl⟩
  | cons node nodes ih =>
    obtain ⟨assigns, ss, rfl⟩ := ih fun n hn ↦ hkey n (List.mem_cons_of_mem node hn)
    obtain ⟨key, value⟩ := node
    match key, value with
    | key, none => exact ⟨[], ⟨key, assigns⟩ :: ss, rfl⟩
    | some key, some v => exact ⟨(key, v) :: assigns, ss, rfl⟩
    | none, some v => exact absurd (hkey _ List.mem_cons_self rfl) (by simp)

/-! ### When a document is accepted -/

/-- `e'` may come behind `e`: its path is not there then, and `e` is no value on the way to it. -/
def Admits (e e' : FullEntry) : Prop :=
  ¬e'.1 <+: e.1 ∧ ¬(e.2 ≠ none ∧ e.1 <+: e'.1 ∧ e.1 ≠ e'.1)

theorem forall_admits_iff {es : List FullEntry} {e : FullEntry} :
    (∀ a ∈ es, Admits a e) ↔ ¬PathPresent es e.1 ∧ ¬PathBlocked es e.1 := by
  constructor
  · intro h
    refine ⟨fun ⟨a, ha, hpre⟩ ↦ (h a ha).1 hpre, fun ⟨q, v, hmem, hpre, hne⟩ ↦ ?_⟩
    exact (h _ hmem).2 ⟨by simp, hpre, hne⟩
  · rintro ⟨hpresent, hblocked⟩ ⟨q, val⟩ ha
    refine ⟨fun hpre ↦ hpresent ⟨_, ha, hpre⟩, fun ⟨hval, hpre, hne⟩ ↦ ?_⟩
    obtain ⟨v, rfl⟩ := Option.ne_none_iff_exists'.1 hval
    exact hblocked ⟨q, v, ha, hpre, hne⟩

/-- Consistency is about two entries at a time. -/
theorem consistentFrom_iff_pairwise {es rest : List FullEntry} :
    ConsistentFrom es rest ↔ (∀ a ∈ es, ∀ b ∈ rest, Admits a b) ∧ rest.Pairwise Admits := by
  induction rest generalizing es with
  | nil => simp [ConsistentFrom]
  | cons e rest ih =>
    rw [ConsistentFrom, ih, ← forall_admits_iff, List.pairwise_cons]
    simp only [List.forall_mem_cons, List.forall_mem_append, forall_and]
    tauto

theorem consistent_iff_pairwise {es : List FullEntry} : Consistent es ↔ es.Pairwise Admits := by
  rw [Consistent, consistentFrom_iff_pairwise]
  simp

/-- No assignment stands in the way of another entry: its path is neither the path of one, nor on
the way to one. -/
def AssignsApart (es : List FullEntry) : Prop :=
  es.Pairwise fun e e' ↦ (e.2 ≠ none → ¬e.1 <+: e'.1) ∧ (e'.2 ≠ none → ¬e'.1 <+: e.1)

/-- Headers have different paths. -/
def HeadersDiffer (es : List FullEntry) : Prop :=
  es.Pairwise fun e e' ↦ e.2 = none → e'.2 = none → e.1 ≠ e'.1

/-- Each header comes before what is below it: its path is not on the way to an entry before. -/
def HeadersFirst (es : List FullEntry) : Prop :=
  es.Pairwise fun e e' ↦ e'.2 = none → ¬(e'.1 <+: e.1 ∧ e'.1 ≠ e.1)

/-- **What is left of consistency** when assignments are apart and headers differ. -/
theorem consistent_iff_headersFirst {es : List FullEntry} (hapart : AssignsApart es)
    (hdiffer : HeadersDiffer es) : Consistent es ↔ HeadersFirst es := by
  rw [consistent_iff_pairwise]
  constructor
  · exact fun h ↦ h.imp fun hadmits _ ⟨hpre, _⟩ ↦ hadmits.1 hpre
  · intro h
    refine (h.and (hapart.and hdiffer)).imp fun {e e'} ⟨hfirst, ⟨happart, happart'⟩, hne⟩ ↦ ?_
    refine ⟨fun hpre ↦ ?_, fun ⟨hval, hpre, _⟩ ↦ happart hval hpre⟩
    by_cases hval' : e'.2 = none
    · -- a header: not the path of `e`, which would be a header as well
      have heq : e'.1 = e.1 := by_contra fun hne' ↦ hfirst hval' ⟨hpre, hne'⟩
      by_cases hval : e.2 = none
      · exact hne hval hval' heq.symm
      · exact happart hval (heq ▸ List.prefix_rfl)
    · exact happart' hval' hpre

theorem headersDiffer_flatMap {ss : List TomlSection} (h : (ss.map TomlSection.path).Nodup) :
    HeadersDiffer (ss.flatMap TomlSection.full) := by
  -- in a section there is one header, at the front
  have hheader {s : TomlSection} {e : FullEntry} (he : e ∈ s.full) (hval : e.2 = none) :
      e.1 = s.path := by
    rcases List.mem_append.1 he with he | he
    · obtain ⟨key, hkey, rfl⟩ := Option.map_eq_some_iff.1 (Option.mem_toList.1 he)
      rw [TomlSection.path, hkey]
    · obtain ⟨a, -, rfl⟩ := List.mem_map.1 he
      exact absurd hval (by simp)
  refine List.pairwise_flatMap.2 ⟨fun s _ ↦ List.pairwise_append.2 ⟨?_, ?_, ?_⟩, ?_⟩
  · cases s.header <;> simp
  · exact List.pairwise_map.2 (List.pairwise_of_forall fun _ _ hval ↦ absurd hval (by simp))
  · intro e _ e' he' _ hval'
    obtain ⟨a, -, rfl⟩ := List.mem_map.1 he'
    exact absurd hval' (by simp)
  · refine (List.pairwise_map.1 h).imp fun {s s'} hne e he e' he' hval hval' heq ↦ hne ?_
    rw [← hheader he hval, heq, hheader he' hval']

/-! ### What a document means -/

/-- What is found at a path. -/
inductive Found where
  | value (o : Object)
  | table
  | nothing
  deriving DecidableEq

/-- The lookup of a path from the root, without the addresses of tables and the messages of
errors. -/
def foundAt (heap : Heap) (p : KeyPath) : Found :=
  match tomlLookupPath heap 0 p with
  | .ok (.table _) => .table
  | .ok o => .value o
  | .error _ => .nothing

theorem isTablePath_congr {es es' : List FullEntry} (h : es.Perm es') (p : KeyPath) :
    IsTablePath es p ↔ IsTablePath es' p := by
  simp only [IsTablePath, h.mem_iff]

/-- **The meaning does not depend on the order** of the entries. -/
theorem Means.foundAt_congr {heap heap' : Heap} {es es' : List FullEntry} (h : Means heap 0 es)
    (h' : Means heap' 0 es') (hperm : es.Perm es') (p : KeyPath) :
    foundAt heap p = foundAt heap' p := by
  rcases eq_or_ne p [] with rfl | hne
  · rfl
  by_cases hvalue : ∃ v, (p, some v) ∈ es
  · obtain ⟨v, hv⟩ := hvalue
    rw [foundAt, foundAt, h.value p v hne hv, h'.value p v hne (hperm.mem_iff.1 hv)]
  have hvalue' : ∀ v, (p, some v) ∉ es' := fun v hv ↦ hvalue ⟨v, hperm.mem_iff.2 hv⟩
  by_cases htable : IsTablePath es p
  · obtain ⟨addr, haddr⟩ := h.table p hne htable
    obtain ⟨addr', haddr'⟩ := h'.table p hne ((isTablePath_congr hperm p).1 htable)
    rw [foundAt, foundAt, haddr, haddr']
  · obtain ⟨msg, hmsg⟩ := h.other p hne (fun v hv ↦ hvalue ⟨v, hv⟩) htable
    obtain ⟨msg', hmsg'⟩ := h'.other p hne hvalue' (mt (isTablePath_congr hperm p).2 htable)
    rw [foundAt, foundAt, hmsg, hmsg']

/-! ### Sections in another order -/

/-- Two documents that differ in the order of their sections. The headers have different paths, and
no assignment stands in the way of another entry. -/
structure Rearranged (ss ss' : List TomlSection) : Prop where
  perm : ss.Perm ss'
  nodup : (ss.map TomlSection.path).Nodup
  apart : AssignsApart (fullEntries [] (docNodes ss))

theorem Rearranged.perm_full {ss ss' : List TomlSection} (h : Rearranged ss ss') :
    (fullEntries [] (docNodes ss)).Perm (fullEntries [] (docNodes ss')) := by
  rw [fullEntries_docNodes, fullEntries_docNodes]
  exact h.perm.flatMap_right _

theorem Rearranged.symm {ss ss' : List TomlSection} (h : Rearranged ss ss') :
    Rearranged ss' ss where
  perm := h.perm.symm
  nodup := (h.perm.map _).nodup_iff.1 h.nodup
  apart := (h.perm_full.pairwise_iff fun hee' ↦ ⟨hee'.2, hee'.1⟩).1 h.apart

theorem Rearranged.consistent_iff {ss ss' : List TomlSection} (h : Rearranged ss ss') :
    Consistent (fullEntries [] (docNodes ss)) ↔ HeadersFirst (fullEntries [] (docNodes ss)) := by
  refine consistent_iff_headersFirst h.apart ?_
  rw [fullEntries_docNodes]
  exact headersDiffer_flatMap h.nodup

/-- **Sections in two orders**, when no assertion fails: each of the two documents is accepted
exactly when it has each header before what is below it; and if both are, the same is found at every
path. -/
theorem tomlSections_order {ss ss' : List TomlSection} (h : Rearranged ss ss')
    {r r' : Except String Heap} (hr : astNodeEntryGen (docNodes ss) = some r)
    (hr' : astNodeEntryGen (docNodes ss') = some r') :
    ((∃ heap, r = .ok heap) ↔ HeadersFirst (fullEntries [] (docNodes ss))) ∧
      ((∃ heap, r' = .ok heap) ↔ HeadersFirst (fullEntries [] (docNodes ss'))) ∧
      ∀ heap heap', r = .ok heap → r' = .ok heap' → ∀ p, foundAt heap p = foundAt heap' p := by
  obtain ⟨haccept, -, hmeans⟩ := astNodeEntryGen_means hr
  obtain ⟨haccept', -, hmeans'⟩ := astNodeEntryGen_means hr'
  refine ⟨haccept.trans h.consistent_iff, haccept'.trans h.symm.consistent_iff, ?_⟩
  exact fun heap heap' hok hok' ↦ (hmeans heap hok).foundAt_congr (hmeans' heap' hok') h.perm_full

/-- The order of the sections would not matter. -/
def SectionOrderIrrelevant : Prop :=
  ∀ ss ss' r r', Rearranged ss ss' → astNodeEntryGen (docNodes ss) = some r →
    astNodeEntryGen (docNodes ss') = some r' →
    ((∃ heap, r = .ok heap) ↔ ∃ heap, r' = .ok heap) ∧
      ∀ heap heap', r = .ok heap → r' = .ok heap' → ∀ p, foundAt heap p = foundAt heap' p

/-- The section `[a]`, with `y = 2` in it. -/
def sampleOuter : TomlSection := ⟨some ⟨cstr [97], []⟩, [(⟨cstr [121], []⟩, .int 2)]⟩

/-- The section `[a.b]`, with `x = 1` in it. -/
def sampleInner : TomlSection := ⟨some ⟨cstr [97], [cstr [98]]⟩, [(⟨cstr [120], []⟩, .int 1)]⟩

/-- The section `[c]`. -/
def sampleOther : TomlSection := ⟨some ⟨cstr [99], []⟩, []⟩

/-- `[a]` is accepted before `[a.b]`, and refused behind it. -/
theorem not_sectionOrderIrrelevant : ¬SectionOrderIrrelevant := by
  intro h
  have hre : Rearranged [sampleOuter, sampleInner] [sampleInner, sampleOuter] :=
    ⟨.swap _ _ _, by decide, by unfold AssignsApart; decide⟩
  obtain ⟨heap, hheap⟩ := exists_of_accepts
    (show astNodeEntryGenAccepts (docNodes [sampleOuter, sampleInner]) = some true by
      decide +kernel)
  have hrefused : astNodeEntryGenAccepts (docNodes [sampleInner, sampleOuter]) = some false := by
    decide +kernel
  obtain ⟨r', hr', hfalse⟩ := Option.map_eq_some_iff.1 hrefused
  obtain ⟨heap', rfl⟩ := (h _ _ _ _ hre hheap hr').1.1 ⟨heap, rfl⟩
  exact absurd hfalse (by simp [Except.toOption])

/-- With `[c]` in another place, the same is found. -/
theorem tomlSections_order_sampleOther :
    ∃ heap heap', astNodeEntryGen (docNodes [sampleOuter, sampleInner, sampleOther]) =
        some (.ok heap) ∧
      astNodeEntryGen (docNodes [sampleOther, sampleOuter, sampleInner]) = some (.ok heap') ∧
      ∀ p, foundAt heap p = foundAt heap' p := by
  have hre : Rearranged [sampleOuter, sampleInner, sampleOther]
      [sampleOther, sampleOuter, sampleInner] :=
    ⟨(List.perm_append_comm : ([sampleOuter, sampleInner] ++ [sampleOther]).Perm _), by decide,
      by unfold AssignsApart; decide⟩
  obtain ⟨heap, hheap⟩ := exists_of_accepts
    (show astNodeEntryGenAccepts (docNodes [sampleOuter, sampleInner, sampleOther]) = some true by
      decide +kernel)
  obtain ⟨heap', hheap'⟩ := exists_of_accepts
    (show astNodeEntryGenAccepts (docNodes [sampleOther, sampleOuter, sampleInner]) = some true by
      decide +kernel)
  exact ⟨heap, heap', hheap, hheap', (tomlSections_order hre hheap hheap').2.2 heap heap' rfl rfl⟩

end Vmecs
