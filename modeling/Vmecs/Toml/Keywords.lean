import Vmecs.Toml.Grammar
import Vmecs.Toml.Load

/-!
# Keywords and keys

The comparison of an identifier with a keyword goes over as many characters as the identifier has.
So every identifier that a keyword begins with is taken for it (`keywordClass_eq`), and cannot be a
key (`keyUsable_iff`).
-/

namespace Vmecs

open Scanner

/-! ### The classes of identifiers -/

/-- The class that an identifier should have. -/
def properClass (str : Bytes) : TokenKind :=
  if str = keywordTrue.1 then .true else if str = keywordFalse.1 then .false else .id

/-- A keyword that is cut short. -/
def IsAbbreviation (str : Bytes) : Prop :=
  str <+: keywordFalse.1 ∧ str ≠ keywordFalse.1 ∨ str <+: keywordTrue.1 ∧ str ≠ keywordTrue.1

theorem strncmpEq_length_iff {s : CString} {str : Bytes} (h : 0 ∉ str) :
    strncmpEq s (cstr str) str.length ↔ str <+: s.1 := by
  have hval : (cstr str).1 = str := congrArg Subtype.val (cstr_val ⟨str, h⟩)
  rw [strncmpEq, decide_eq_true_eq, hval, List.take_length, eq_comm, List.prefix_iff_eq_take]

/-- **What is made a keyword**: the identifiers that one begins with. -/
theorem keywordClass_eq {str : Bytes} (h : 0 ∉ str) : keywordClass str =
    if str <+: keywordFalse.1 then .false else if str <+: keywordTrue.1 then .true else .id := by
  rw [keywordClass, keywordTable, List.find?_cons, List.find?_cons, List.find?_nil]
  dsimp only
  by_cases hfalse : str <+: keywordFalse.1
  · rw [(strncmpEq_length_iff h).2 hfalse, if_pos hfalse]
  · rw [Bool.eq_false_iff.2 fun hcmp ↦ hfalse ((strncmpEq_length_iff h).1 hcmp), if_neg hfalse]
    by_cases htrue : str <+: keywordTrue.1
    · rw [(strncmpEq_length_iff h).2 htrue, if_pos htrue]
    · rw [Bool.eq_false_iff.2 fun hcmp ↦ htrue ((strncmpEq_length_iff h).1 hcmp), if_neg htrue]

theorem keywordClass_eq_properClass_iff {str : Bytes} (h : 0 ∉ str) :
    keywordClass str = properClass str ↔ ¬IsAbbreviation str := by
  rw [keywordClass_eq h, properClass, IsAbbreviation]
  by_cases hfalse : str <+: keywordFalse.1
  · have hne : str ≠ keywordTrue.1 := by rintro rfl; exact absurd hfalse (by decide)
    rw [if_pos hfalse, if_neg hne]
    -- both classes are `.false` for the whole keyword, and only the one for a shorter text
    by_cases heq : str = keywordFalse.1
    · rw [heq]
      decide
    · simp [hfalse, heq]
  · have hne : str ≠ keywordFalse.1 := by rintro rfl; exact hfalse List.prefix_rfl
    rw [if_neg hfalse, if_neg hne]
    by_cases heq : str = keywordTrue.1
    · rw [heq]
      decide
    · by_cases htrue : str <+: keywordTrue.1 <;> simp [hfalse, htrue, heq]

/-- A token with the class it should have. -/
def properToken (tok : LexToken TokenKind) : LexToken TokenKind :=
  if tok.token = .id then ⟨properClass tok.str, tok.str⟩ else tok

/-- Only the keywords are keywords: the tokens of a source keep their classes, except for the
identifiers that are keywords. -/
def KeywordsProper (src : CString) : Prop :=
  ∀ err toks, tomlLex src err = some (.ok toks) → ∃ list, tomlLexer src err = some (.ok list) ∧
    list.map Token.lexeme = (removeComments toks).map properToken

/-- An identifier of the source is a keyword that is cut short. -/
def HasAbbreviation (src : CString) : Prop :=
  ∃ toks tail, src.1 = texts toks ++ tail ∧ IsPrinted toks tail ∧ IsTail tail ∧
    ∃ tok ∈ toks, tok.token = .id ∧ IsAbbreviation tok.str

theorem removeComments_tomlKeyword (toks : List (LexToken TokenKind)) :
    removeComments (tomlKeyword toks) = tomlKeyword (removeComments toks) := by
  rw [removeComments, removeComments, tomlKeyword, tomlKeyword, List.filter_map]
  refine congrArg _ (List.filter_congr fun tok _ ↦ decide_eq_decide.2 (not_congr ?_))
  rw [keywordToken]
  split
  case isTrue hid =>
    rw [hid]
    rcases keywordClass_cases tok.str with hclass | hclass | hclass <;> simp [hclass]
  case isFalse => rfl

theorem keywordsProper_iff (src : CString) : KeywordsProper src ↔ ¬HasAbbreviation src := by
  constructor
  · rintro h ⟨toks, tail, hsrc, hprinted, htail, tok, htok, hid, habbr⟩
    have hlex := tomlLex_of_isTail hsrc hprinted htail true
    obtain ⟨list, hlist, hproper⟩ := h true toks hlex
    obtain ⟨list', hlist', hkeyword⟩ := tomlLexer_of_ok hlex
    obtain rfl := Except.ok.inj (Option.some.inj (hlist.symm.trans hlist'))
    -- so each token has the class that it should have, the abbreviation too
    rw [hproper, removeComments_tomlKeyword, tomlKeyword, List.map_inj_left] at hkeyword
    have htok' : tok ∈ removeComments toks := List.mem_filter.2 ⟨htok, by simp [hid]⟩
    have hclass := hkeyword tok htok'
    rw [properToken, keywordToken, if_pos hid, if_pos hid] at hclass
    have hzero := (hprinted.lexemes tok htok).zero_notMem
    exact (keywordClass_eq_properClass_iff hzero).1 (Lexeme.mk.inj hclass).1.symm habbr
  · intro h err toks hlex
    obtain ⟨list, hlist, hkeyword⟩ := tomlLexer_of_ok hlex
    obtain ⟨tail, hsrc, hprinted, htail⟩ := tomlLex_eq_ok_iff.1 hlex
    refine ⟨list, hlist, ?_⟩
    rw [hkeyword, removeComments_tomlKeyword, tomlKeyword, List.map_inj_left]
    intro tok htok
    have htok' := (List.mem_filter.1 htok).1
    rw [keywordToken, properToken]
    split
    case isTrue hid =>
      have hzero := (hprinted.lexemes tok htok').zero_notMem
      rw [(keywordClass_eq_properClass_iff hzero).2 fun habbr ↦
        h ⟨toks, tail, hsrc, hprinted, htail, tok, htok', hid, habbr⟩]
    case isFalse => rfl

/-! ### Identifiers as keys -/

/-- The tokens of an assignment of 0. -/
def assignmentTokens (t : TokenKind) (id : Bytes) : List (LexToken TokenKind) :=
  [⟨t, id⟩, ⟨.eq, [0x3d]⟩, ⟨.int, [0x30]⟩]

theorem isPrinted_assignmentTokens {id : Bytes} (h : IsLexeme .id id) :
    IsPrinted (assignmentTokens .id id) [] where
  lexemes := by
    simp only [assignmentTokens, List.forall_mem_cons]
    exact ⟨h, .eq, .int rfl (List.forall_mem_nil _), List.forall_mem_nil _⟩
  separated := ⟨rfl, rfl, rfl, trivial⟩

theorem isPrinted_singleton {id : Bytes} (h : IsLexeme .id id) : IsPrinted [⟨.id, id⟩] [] where
  lexemes := by simpa using h
  separated := ⟨rfl, trivial⟩

section

variable {list : List Token} {t : TokenKind} {id : Bytes}

/-- The tokens of an assignment, one by one. -/
theorem exists_of_assignmentTokens (h : list.map Token.lexeme = assignmentTokens t id) :
    ∃ key eq value, list = [key, eq, value] ∧ key.lexeme = ⟨t, id⟩ ∧ eq.token = .eq ∧
      value.lexeme = ⟨.int, [0x30]⟩ := by
  obtain ⟨key, list, rfl, hkey, h⟩ := List.map_eq_cons_iff.1 h
  obtain ⟨eq, list, rfl, heq, h⟩ := List.map_eq_cons_iff.1 h
  obtain ⟨value, list, rfl, hvalue, h⟩ := List.map_eq_cons_iff.1 h
  obtain rfl := List.map_eq_nil_iff.1 h
  exact ⟨key, eq, value, rfl, hkey, (Lexeme.mk.inj heq).1, hvalue⟩

/-- An assignment to an identifier is parsed. -/
theorem tomlParse_assignmentTokens (h : list.map Token.lexeme = assignmentTokens .id id) :
    tomlParse list = .ok [⟨some ⟨cstr id, []⟩, some (.int 0)⟩] := by
  obtain ⟨key, eq, value, rfl, hkey, heq, hvalue⟩ := exists_of_assignmentTokens h
  obtain ⟨hkey, hid⟩ := Lexeme.mk.inj hkey
  obtain ⟨hvalue, hint⟩ := Lexeme.mk.inj hvalue
  have hzero : value.int = 0 := by rw [Token.int, hint]; decide
  have hentry := IsEntry.assignment (.mk (.id hkey) .nil) .nil heq .nil (.int hvalue)
  rw [hid, hzero] at hentry
  have hblank : IsBlank [] := fun tok htok ↦ absurd htok List.not_mem_nil
  refine (tomlParse_eq_ok_iff ?_ _).2 ?_
  · simp [NoAdjacentSpaces, hkey, heq, hvalue]
  · simpa using IsDocument.mk hblank hentry .nil hblank

/-- No document begins with a keyword. -/
theorem not_isDocument_of_keyword {tok : Token} {entries : List AstEntry}
    (h : tok.token = .false ∨ tok.token = .true) : ¬IsDocument (tok :: list) entries := by
  have hne {t : TokenKind} (hfalse : TokenKind.false ≠ t) (htrue : TokenKind.true ≠ t) :
      tok.token ≠ t := by
    rcases h with h | h
    · rwa [h]
    · rwa [h]
  intro hdoc
  generalize hl : tok :: list = l at hdoc
  obtain ⟨hb, he, -, -⟩ := hdoc
  rename_i b e entry l entries b'
  -- the keyword is the first token of an entry, or a blank before it
  match b, hb, hl with
  | [], _, hl =>
    have hahead : NotAhead tok.token (e ++ (l ++ b')) :=
      he.notAhead (hne nofun nofun) (hne nofun nofun) (hne nofun nofun)
    rw [← List.nil_append (e ++ _), ← hl, notAhead_cons] at hahead
    exact hahead rfl
  | _ :: _, hb, hl =>
    obtain ⟨rfl, -⟩ := List.cons.inj hl
    rcases hb _ List.mem_cons_self with hspace | hnewline
    · exact absurd hspace (hne nofun nofun)
    · exact absurd hnewline (hne nofun nofun)

/-- An assignment to a keyword is not. -/
theorem tomlParse_ne_ok_of_keyword (ht : t = .false ∨ t = .true)
    (h : list.map Token.lexeme = assignmentTokens t id) (entries : List AstEntry) :
    tomlParse list ≠ .ok entries := by
  obtain ⟨key, eq, value, rfl, hkey, heq, hvalue⟩ := exists_of_assignmentTokens h
  obtain ⟨hkey, -⟩ := Lexeme.mk.inj hkey
  obtain ⟨hvalue, -⟩ := Lexeme.mk.inj hvalue
  have hspaces : NoAdjacentSpaces [key, eq, value] := by
    simp [NoAdjacentSpaces, heq, hvalue]
  rw [Ne, tomlParse_eq_ok_iff hspaces]
  exact not_isDocument_of_keyword (hkey ▸ ht)

end

/-- The first key of a table is inserted. -/
theorem exists_hashTableInsert {V : Type} (key : CString) (val : V) :
    ∃ table, hashTableInsert hashTableNew key val = some table := by
  match h : hashTableInsert hashTableNew key val with
  | some table => exact ⟨table, rfl⟩
  | none => exact absurd (holds_hashTableNew.insert_eq_none h) (by simp [tableInitBuf])

/-- A document of one value. -/
theorem astNodeEntryGen_singleton (id : CString) (value : AstValue) :
    ∃ heap, astNodeEntryGen [⟨some ⟨id, []⟩, some value⟩] = some (.ok heap) ∧
      tomlLookupPath heap 0 [id] = .ok value.gen := by
  obtain ⟨table, htable⟩ := exists_hashTableInsert id value.gen
  have hlookup : tableObjectLookup [hashTableNew] 0 id = none := tableObjectLookup_new [] 0 id
  have hinsert : tableObjectInsert [hashTableNew] 0 id value.gen = some [table] := by
    simp [tableObjectInsert, htable]
  have hstep : astNodeEntryStep 0 [hashTableNew] 0 ⟨some ⟨id, []⟩, some value⟩ =
      some (.ok ([table], 0)) := by
    simp [astNodeEntryStep, astKeyWalk, hlookup, hinsert]
  have hgen : astNodeEntryGen [⟨some ⟨id, []⟩, some value⟩] = some (.ok [table]) := by
    show astNodeEntryLoop 0 [hashTableNew] 0 _ = _
    rw [astNodeEntryLoop, hstep]
    rfl
  have hmem : ([id], some value) ∈ fullEntries [] [⟨some ⟨id, []⟩, some value⟩] := by
    simp [fullEntries, AstEntry.full, AstKey.path]
  have hmeans := (astNodeEntryGen_means hgen).2.2 [table] rfl
  exact ⟨[table], hgen, hmeans.value [id] value (by simp) hmem⟩

/-- The identifier can be used as a key: in a document that assigns it 0, which is loaded, and in a
query, which finds the 0. -/
def KeyUsable (id : CString) : Prop :=
  ∃ doc : CString, doc.1 = id.1 ++ [0x3d, 0x30] ∧ ∃ heap, tomlLoad doc = some (.ok heap) ∧
    tomlLookup heap 0 id = some (.ok (.int 0))

/-- What becomes of an assignment. -/
theorem exists_tomlLexer_assignment {id doc : CString} (h : IsLexeme .id id.1)
    (hdoc : doc.1 = id.1 ++ [0x3d, 0x30]) : ∃ list, tomlLexer doc true = some (.ok list) ∧
      list.map Token.lexeme = assignmentTokens (keywordClass id.1) id.1 := by
  have hlex : tomlLex doc true = some (.ok (assignmentTokens .id id.1)) :=
    tomlLex_of_isTail (hdoc.trans (List.append_nil _).symm) (isPrinted_assignmentTokens h) .nil true
  obtain ⟨list, hlist, hmap⟩ := tomlLexer_of_ok hlex
  refine ⟨list, hlist, hmap.trans ?_⟩
  rcases keywordClass_cases id.1 with hclass | hclass | hclass <;>
    simp [removeComments, tomlKeyword, keywordToken, assignmentTokens, hclass]

/-- A query for one key. -/
theorem tomlLookup_id {id : CString} (h : IsLexeme .id id.1) (hclass : keywordClass id.1 = .id)
    {heap : Heap} {root : ℕ} {obj : Object} (hpath : tomlLookupPath heap root [id] = .ok obj) :
    tomlLookup heap root id = some (.ok obj) := by
  have hlex : tomlLex id true = some (.ok [⟨.id, id.1⟩]) :=
    tomlLex_of_isTail (by simp) (isPrinted_singleton h) .nil true
  obtain ⟨list, hlist, hmap⟩ := tomlLexer_of_ok hlex
  have hid : removeComments (tomlKeyword [⟨.id, id.1⟩]) = [⟨.id, id.1⟩] := by
    simp [removeComments, tomlKeyword, keywordToken, hclass]
  obtain ⟨key, rest, rfl, hkey, hrest⟩ := List.map_eq_cons_iff.1 (hmap.trans hid)
  obtain rfl := List.map_eq_nil_iff.1 hrest
  obtain ⟨hkey, hstr⟩ := Lexeme.mk.inj hkey
  have hiskey := IsKey.mk (.id hkey) .nil
  rw [hstr, cstr_val] at hiskey
  have hrun : (svKey 2).run [key] = some (⟨id, []⟩, []) :=
    run_svKey hiskey notAhead_nil (Nat.lt_succ_self 1)
  rw [tomlLookup, hlist]
  dsimp only [List.length_singleton]
  rw [hrun]
  dsimp only [AstKey.path]
  rw [hpath]

/-- **Which identifiers can be keys**: those that are not keywords, but for the keywords cut
short. -/
theorem keyUsable_iff {id : CString} (h : IsLexeme .id id.1) (hfalse : id ≠ keywordFalse)
    (htrue : id ≠ keywordTrue) : KeyUsable id ↔ ¬IsAbbreviation id.1 := by
  have hproper : properClass id.1 = .id := by
    rw [properClass, if_neg (fun heq ↦ htrue (Subtype.ext heq)),
      if_neg (fun heq ↦ hfalse (Subtype.ext heq))]
  rw [← keywordClass_eq_properClass_iff id.2, hproper]
  constructor
  · rintro ⟨doc, hdoc, heap, hload, -⟩
    obtain ⟨list, hlist, hmap⟩ := exists_tomlLexer_assignment h hdoc
    by_contra hne
    have hkeyword : keywordClass id.1 = .false ∨ keywordClass id.1 = .true := by
      rcases keywordClass_cases id.1 with hclass | hclass | hclass
      · exact .inl hclass
      · exact .inr hclass
      · exact absurd hclass hne
    rw [tomlLoad, hlist] at hload
    dsimp only at hload
    rcases hparse : tomlParse list with msg | entries
    · rw [hparse] at hload
      exact absurd hload (by simp)
    · exact tomlParse_ne_ok_of_keyword hkeyword hmap entries hparse
  · intro hclass
    obtain ⟨doc, hdoc⟩ : ∃ doc : CString, doc.1 = id.1 ++ [0x3d, 0x30] :=
      ⟨⟨id.1 ++ [0x3d, 0x30], by simp [id.2]⟩, rfl⟩
    obtain ⟨list, hlist, hmap⟩ := exists_tomlLexer_assignment h hdoc
    rw [hclass] at hmap
    obtain ⟨heap, hgen, hpath⟩ := astNodeEntryGen_singleton id (.int 0)
    refine ⟨doc, hdoc, heap, ?_, tomlLookup_id h hclass hpath⟩
    rw [tomlLoad, hlist]
    dsimp only
    rw [tomlParse_assignmentTokens hmap, cstr_val]
    dsimp only
    rw [hgen]

/-- **Only the keywords are keywords**, and any other identifier can be a key, except where a
keyword is cut short. -/
theorem keywords_iff (src : CString) {id : CString} (h : IsLexeme .id id.1)
    (hfalse : id ≠ keywordFalse) (htrue : id ≠ keywordTrue) :
    (KeywordsProper src ↔ ¬HasAbbreviation src) ∧ (KeyUsable id ↔ ¬IsAbbreviation id.1) :=
  ⟨keywordsProper_iff src, keyUsable_iff h hfalse htrue⟩

/-- The identifier `trues`, longer than a keyword by a letter. -/
def sampleExtension : CString := ⟨[0x74, 0x72, 0x75, 0x65, 0x73], by decide⟩

theorem keywords_iff_sampleExtension : KeyUsable sampleExtension := by
  have hlex : IsLexeme .id sampleExtension.1 := .id rfl (List.all_eq_true.1 rfl)
  have habbr : ¬IsAbbreviation sampleExtension.1 := by rw [IsAbbreviation]; decide
  exact (keywords_iff sampleExtension hlex (by decide) (by decide)).2.2 habbr

/-- The identifier `t`. -/
def sampleAbbreviation : CString := ⟨[0x74], by decide⟩

theorem not_keywordsProper_sampleAbbreviation :
    ¬KeywordsProper sampleAbbreviation ∧ ¬KeyUsable sampleAbbreviation := by
  have hlex : IsLexeme .id sampleAbbreviation.1 := .id rfl (List.forall_mem_nil _)
  have habbr : IsAbbreviation sampleAbbreviation.1 := .inr (by decide)
  rw [keywordsProper_iff, keyUsable_iff hlex (by decide) (by decide), not_not, not_not]
  exact ⟨⟨[⟨.id, sampleAbbreviation.1⟩], [], by simp, isPrinted_singleton hlex, .nil, _,
    List.mem_singleton_self _, rfl, habbr⟩, habbr⟩

end Vmecs
