import Vmecs.Toml.Grammar
import Vmecs.Toml.Keywords
import Vmecs.Toml.Room
import Vmecs.Toml.Sections

/-!
# From the text to the lookups (`toml/toml.c`)

`toml_load` is three stages, and what each of them accepts is known: the lexer printed tokens, the
parser the words of a grammar, and the generator consistent documents that fit. Here they are put
together. A text is read as a document (`DocumentText`) when the tokens it is printed from, without
the comments and with the keywords told, are a word of the grammar; and as a key (`KeyText`) when
they are a key. These relations mention neither a lexer nor a parser.

Between the stages there is one thing to see: the parser is complete only for lists without two
spaces in a row, and the lexer makes no others (`noAdjacentSpaces_of_hasTokens`), although the
comments between its tokens are taken out.

So `toml_load` accepts a text exactly when it is that of a consistent document that fits
(`tomlLoad_accepts`), and `toml_lookup` in what it has made answers every query that is a key, in
whatever way that is written (`tomlLookup_answers`).
-/

namespace Vmecs

open Scanner

/-! ### The tokens of a text -/

/-- The text is printed from these tokens, up to the comments and the end of the source. -/
def HasTokens (src : CString) (list : List Token) : Prop :=
  ∃ toks tail, src.1 = texts toks ++ tail ∧ IsPrinted toks tail ∧ IsTail tail ∧
    list.map Token.lexeme = removeComments (tomlKeyword toks)

/-- The text is that of a word of the grammar `D`. -/
def ReadsAs {α : Type} (D : List Token → α → Prop) (src : CString) (a : α) : Prop :=
  ∃ list, HasTokens src list ∧ D list a

/-- The text of a document. -/
abbrev DocumentText : CString → List AstEntry → Prop := ReadsAs IsDocument

/-- The text of a key. -/
abbrev KeyText : CString → AstKey → Prop := ReadsAs IsKey

theorem lexeme_injective : Function.Injective Token.lexeme := by
  rintro ⟨t, s, _⟩ ⟨t', s', _⟩ h
  obtain ⟨rfl, rfl⟩ := Lexeme.mk.inj h
  rfl

/-- **The tokens of a text** are what `toml_lexer` makes of it. -/
theorem tomlLexer_eq_ok_iff {src : CString} {err : Bool} {list : List Token} :
    tomlLexer src err = some (.ok list) ↔ HasTokens src list := by
  constructor
  · intro h
    rcases hlex : tomlLex src err with _ | e | toks
    · rw [tomlLexer] at h
      split at h
      case h_1 heq => exact absurd (heq.symm.trans hlex) (by simp)
      case h_2 => exact absurd h (by simp)
      case h_3 => exact absurd h (by simp)
    · rw [tomlLexer_of_error hlex] at h
      exact absurd h (by simp)
    · obtain ⟨list', hlist', hmap⟩ := tomlLexer_of_ok hlex
      obtain rfl := Except.ok.inj (Option.some.inj (h.symm.trans hlist'))
      obtain ⟨tail, hsrc, hprinted, htail⟩ := tomlLex_eq_ok_iff.1 hlex
      exact ⟨toks, tail, hsrc, hprinted, htail, hmap⟩
  · rintro ⟨toks, tail, hsrc, hprinted, htail, hmap⟩
    obtain ⟨list', hlist', hmap'⟩ :=
      tomlLexer_of_ok (tomlLex_of_isTail hsrc hprinted htail err)
    rw [hlist', List.map_injective_iff.2 lexeme_injective (hmap'.trans hmap.symm)]

/-- A text has its tokens in one way. -/
theorem HasTokens.unique {src : CString} {list list' : List Token} (h : HasTokens src list)
    (h' : HasTokens src list') : list = list' := by
  have hlist : tomlLexer src true = some (.ok list) := tomlLexer_eq_ok_iff.2 h
  exact Except.ok.inj (Option.some.inj (hlist.symm.trans (tomlLexer_eq_ok_iff.2 h')))

/-! ### No two spaces in a row -/

/-- A token that begins with a line break is a newline. -/
theorem token_eq_newline_of_isBreak {t : TokenKind} {w rest : Bytes} (h : IsLexeme t w)
    (hbreak : isBreak ((w ++ rest).headD 0)) : t = .newline := by
  -- the first character of the other classes is no break
  have hfirst {p : UInt8 → Bool} (hcr : p 0x0d = false) (hlf : p 0x0a = false) {c : UInt8}
      (hc : p c) (hb : isBreak c) : t = .newline := by
    rcases isBreak_iff.1 hb with rfl | rfl
    · exact absurd (hcr.symm.trans hc) (by simp)
    · exact absurd (hlf.symm.trans hc) (by simp)
  rcases h with _ | _ | _ | _ | _ | _ | ⟨hc, -⟩ | ⟨hc, -⟩ | ⟨hc, -⟩ | ⟨hc, -, -⟩ | @⟨q, _, -⟩ | -
  · exact (Bool.false_ne_true hbreak).elim
  · exact (Bool.false_ne_true hbreak).elim
  · exact (Bool.false_ne_true hbreak).elim
  · exact (Bool.false_ne_true hbreak).elim
  · exact (Bool.false_ne_true hbreak).elim
  · rfl
  · exact hfirst rfl rfl hc hbreak
  · exact hfirst rfl rfl hc hbreak
  · exact hfirst rfl rfl hc hbreak
  · exact hfirst rfl rfl hc hbreak
  · rcases q with _ | _
    · exact (Bool.false_ne_true hbreak).elim
    · exact (Bool.false_ne_true hbreak).elim
  · exact (Bool.false_ne_true hbreak).elim

/-- A space begins with a blank. -/
theorem isBlank_of_space {w rest : Bytes} (h : IsLexeme .space w) :
    isBlank ((w ++ rest).headD 0) := by
  rcases h with _ | _ | _ | _ | _ | _ | ⟨hc, -⟩
  exact hc

theorem removeComments_cons (tok : LexToken TokenKind) (toks : List (LexToken TokenKind)) :
    removeComments (tok :: toks) =
      if tok.token = .comment then removeComments toks else tok :: removeComments toks := by
  rw [removeComments, List.filter_cons]
  by_cases h : tok.token = .comment
  · rw [if_pos h, if_neg (by simp [h])]
    rfl
  · rw [if_neg h, if_pos (by simp [h])]
    rfl

/-- Without the comments, a space is the first token only if the text begins with a blank: behind a
comment there is a line break. -/
theorem isBlank_of_head {toks : List (LexToken TokenKind)} {tail : Bytes} (h : IsPrinted toks tail)
    {tok : LexToken TokenKind} (hhead : tok ∈ (removeComments toks).head?)
    (hspace : tok.token = .space) : isBlank ((texts toks ++ tail).headD 0) := by
  rcases toks with _ | ⟨first, toks⟩
  · exact absurd hhead (by simp [removeComments])
  have hlex := h.lexemes first List.mem_cons_self
  rw [texts_cons, List.append_assoc]
  rw [removeComments_cons] at hhead
  split at hhead
  case isFalse =>
    obtain rfl := Option.some.inj hhead
    rw [hspace] at hlex
    exact isBlank_of_space hlex
  case isTrue hcomment =>
    -- what is behind the comment begins with a break, so it is a newline
    have hbreak : isBreak ((texts toks ++ tail).headD 0) := by
      simpa [hcomment, continues] using h.separated.1
    rcases toks with _ | ⟨second, toks⟩
    · exact absurd hhead (by simp [removeComments])
    · rw [texts_cons, List.append_assoc] at hbreak
      have hnewline := token_eq_newline_of_isBreak
        (h.tail_isPrinted.lexemes second List.mem_cons_self) hbreak
      rw [removeComments_cons, if_neg (by simp [hnewline])] at hhead
      obtain rfl := Option.some.inj hhead
      exact absurd (hnewline.symm.trans hspace) (by simp)

/-- Tokens as the lexer makes them, the comments taken out. -/
theorem isChain_removeComments {toks : List (LexToken TokenKind)} {tail : Bytes}
    (h : IsPrinted toks tail) :
    (removeComments toks).IsChain fun tok tok' ↦ tok.token = .space → tok'.token ≠ .space := by
  induction toks with
  | nil => exact .nil
  | cons tok toks ih =>
    rw [removeComments_cons]
    split
    case isTrue => exact ih h.tail_isPrinted
    case isFalse =>
      refine List.isChain_cons.2 ⟨fun tok' htok' hspace hspace' ↦ ?_, ih h.tail_isPrinted⟩
      have hblank := isBlank_of_head h.tail_isPrinted htok' hspace'
      have hsep := h.separated.1
      rw [hspace] at hsep
      exact absurd (hsep.symm.trans hblank) (by simp)

/-- Telling the keywords makes no space of a token. -/
theorem keywordToken_eq_space_iff {tok : LexToken TokenKind} :
    (keywordToken tok).token = .space ↔ tok.token = .space := by
  rw [keywordToken]
  split
  case isTrue hid =>
    rw [hid]
    rcases keywordClass_cases tok.str with hclass | hclass | hclass <;> simp [hclass]
  case isFalse => rfl

/-- **The tokens of a text have no two spaces in a row.** -/
theorem noAdjacentSpaces_of_hasTokens {src : CString} {list : List Token} (h : HasTokens src list) :
    NoAdjacentSpaces list := by
  obtain ⟨toks, tail, -, hprinted, -, hmap⟩ := h
  have hchain := isChain_removeComments hprinted
  rw [removeComments_tomlKeyword, tomlKeyword] at hmap
  have hlist : (list.map Token.lexeme).IsChain
      fun tok tok' ↦ tok.token = .space → tok'.token ≠ .space := by
    rw [hmap, List.isChain_map]
    exact hchain.imp fun tok tok' hne hspace hspace' ↦
      hne (keywordToken_eq_space_iff.1 hspace) (keywordToken_eq_space_iff.1 hspace')
  exact List.isChain_map _ |>.1 hlist

/-! ### The parser, on the tokens of a text -/

theorem isDocument_of_tomlParse {list : List Token} {nodes : List AstEntry}
    (h : tomlParse list = .ok nodes) : IsDocument list nodes := by
  rw [tomlParse] at h
  split at h
  case h_1 entries hrun =>
    obtain rfl := Except.ok.inj h
    obtain ⟨w, rfl, hw⟩ := svParseUnit_within _ _ _ _ hrun
    rwa [List.append_nil]
  case h_2 => exact absurd h (by simp)

theorem tomlParse_of_isDocument {list : List Token} {nodes : List AstEntry}
    (hc : NoAdjacentSpaces list) (h : IsDocument list nodes) : tomlParse list = .ok nodes := by
  rw [tomlParse, run_svParseUnit h hc (Nat.lt_succ_self list.length)]

/-- The only message of the parser. -/
theorem tomlParse_cases (list : List Token) :
    (∃ nodes, tomlParse list = .ok nodes) ∨ tomlParse list = .error "not fully parsed" := by
  rw [tomlParse]
  split
  case h_1 entries _ => exact .inl ⟨entries, rfl⟩
  case h_2 => exact .inr rfl

/-- A text is a document in one way. -/
theorem DocumentText.unique {src : CString} {nodes nodes' : List AstEntry}
    (h : DocumentText src nodes) (h' : DocumentText src nodes') : nodes = nodes' := by
  obtain ⟨list, htoks, hdoc⟩ := h
  obtain ⟨list', htoks', hdoc'⟩ := h'
  obtain rfl := htoks.unique htoks'
  have hc := noAdjacentSpaces_of_hasTokens htoks
  exact Except.ok.inj
    ((tomlParse_of_isDocument hc hdoc).symm.trans (tomlParse_of_isDocument hc hdoc'))

theorem IsEntry.keyed {e : List Token} {entry : AstEntry} (h : IsEntry e entry) : entry.Keyed := by
  rcases h with _ | _ | _
  · exact fun hkey ↦ absurd hkey (by simp)
  · exact fun _ ↦ rfl
  · exact fun _ ↦ rfl

theorem IsDocument.keyed {list : List Token} {nodes : List AstEntry} (h : IsDocument list nodes) :
    ∀ node ∈ nodes, node.Keyed := by
  have hentries {l : List Token} {entries : List AstEntry} (hl : IsEntries l entries) :
      ∀ node ∈ entries, node.Keyed := by
    induction hl with
    | nil => exact List.forall_mem_nil _
    | cons _ he _ ih => exact List.forall_mem_cons.2 ⟨he.keyed, ih⟩
  obtain ⟨-, he, hl, -⟩ := h
  exact List.forall_mem_cons.2 ⟨he.keyed, hentries hl⟩

/-- The parser says which document a text is. -/
theorem documentText_of_parse {src : CString} {nodes : List AstEntry}
    (h : ((tomlLexer src true).bind Except.toOption).map tomlParse = some (.ok nodes)) :
    DocumentText src nodes := by
  obtain ⟨list, hlist, hnodes⟩ := Option.map_eq_some_iff.1 h
  obtain ⟨r, hr, hok⟩ := Option.bind_eq_some_iff.1 hlist
  rcases r with e | list'
  · exact absurd hok (by simp [Except.toOption])
  · obtain rfl := Option.some.inj hok
    exact ⟨_, tomlLexer_eq_ok_iff.1 hr, isDocument_of_tomlParse hnodes⟩

/-- And which key. -/
theorem keyText_of_parse {src : CString} {key : AstKey}
    (h : (((tomlLexer src true).bind Except.toOption).bind fun list ↦
      (svKey (list.length + 1)).run list) = some (key, [])) : KeyText src key := by
  obtain ⟨list, hlist, hkey⟩ := Option.bind_eq_some_iff.1 h
  obtain ⟨r, hr, hok⟩ := Option.bind_eq_some_iff.1 hlist
  rcases r with e | list'
  · exact absurd hok (by simp [Except.toOption])
  · obtain rfl := Option.some.inj hok
    obtain ⟨w, hw, hiskey⟩ := svKey_within _ _ _ _ hkey
    rw [List.append_nil] at hw
    exact ⟨w, hw ▸ tomlLexer_eq_ok_iff.1 hr, hiskey⟩

/-! ### `toml_load` -/

/-- What becomes of a document. -/
theorem tomlLoad_of_documentText {src : CString} {nodes : List AstEntry}
    (h : DocumentText src nodes) :
    tomlLoad src = (astNodeEntryGen nodes).map (Except.mapError fun msg ↦ ⟨msg, 0⟩) := by
  obtain ⟨list, htoks, hdoc⟩ := h
  rw [tomlLoad, tomlLexer_eq_ok_iff.2 htoks]
  dsimp only
  rw [tomlParse_of_isDocument (noAdjacentSpaces_of_hasTokens htoks) hdoc]
  dsimp only
  rcases astNodeEntryGen nodes with _ | msg | heap <;> rfl

/-- Tokens that are no document are refused. -/
theorem tomlLoad_of_not_documentText {src : CString} {list : List Token} (h : HasTokens src list)
    (hdoc : ∀ nodes, ¬DocumentText src nodes) :
    tomlLoad src = some (.error ⟨"not fully parsed", 0⟩) := by
  rw [tomlLoad, tomlLexer_eq_ok_iff.2 h]
  dsimp only
  rcases tomlParse_cases list with ⟨nodes, hnodes⟩ | herror
  · exact absurd ⟨list, h, isDocument_of_tomlParse hnodes⟩ (hdoc nodes)
  · rw [herror]

/-- A text that has no tokens is the end of the program. -/
theorem tomlLexer_of_not_hasTokens {src : CString} (h : ∀ list, ¬HasTokens src list) (err : Bool) :
    tomlLexer src err = none := by
  rcases hlex : tomlLexer src err with _ | e | list
  · rfl
  · rw [tomlLexer] at hlex
    split at hlex
    case h_1 => exact absurd hlex (by simp)
    case h_2 => exact absurd hlex (by simp)
    case h_3 => exact absurd hlex (by simp)
  · exact absurd (tomlLexer_eq_ok_iff.1 hlex) (h list)

/-- The results for a document. -/
theorem tomlLoad_eq_ok_iff_gen {src : CString} {nodes : List AstEntry} (h : DocumentText src nodes)
    {heap : Heap} :
    tomlLoad src = some (.ok heap) ↔ astNodeEntryGen nodes = some (.ok heap) := by
  rw [tomlLoad_of_documentText h]
  rcases astNodeEntryGen nodes with _ | msg | heap' <;> simp [Except.mapError]

/-- The only error of a document. -/
theorem tomlLoad_error_of_documentText {src : CString} {nodes : List AstEntry}
    (h : DocumentText src nodes) {e : TomlErr} (he : tomlLoad src = some (.error e)) :
    e = ⟨overridingValue, 0⟩ ∧ ¬Consistent (fullEntries [] nodes) := by
  rw [tomlLoad_of_documentText h] at he
  obtain ⟨r, hgen, hr⟩ := Option.map_eq_some_iff.1 he
  rcases astNodeEntryLoop_spec docInvariant_nil hgen with ⟨rfl, hbad⟩ | ⟨heap, _, _, rfl, -⟩
  · exact ⟨(Except.error.inj hr).symm, hbad⟩
  · exact absurd hr (by simp [Except.mapError])

/-- A source has no tokens, or tokens that are no document, or is a document. -/
theorem source_cases (src : CString) :
    tomlLoad src = none ∧ (∀ list, ¬HasTokens src list) ∨
      tomlLoad src = some (.error ⟨"not fully parsed", 0⟩) ∧ (∃ list, HasTokens src list) ∧
        (∀ nodes, ¬DocumentText src nodes) ∨
      ∃ nodes, DocumentText src nodes := by
  by_cases htoks : ∃ list, HasTokens src list
  · by_cases hdoc : ∃ nodes, DocumentText src nodes
    · exact .inr (.inr hdoc)
    · have hno : ∀ nodes, ¬DocumentText src nodes := fun nodes h ↦ hdoc ⟨nodes, h⟩
      obtain ⟨list, hlist⟩ := htoks
      exact .inr (.inl ⟨tomlLoad_of_not_documentText hlist hno, ⟨list, hlist⟩, hno⟩)
  · have hno : ∀ list, ¬HasTokens src list := fun list h ↦ htoks ⟨list, h⟩
    exact .inl ⟨tomlLoad_of_lexer_none (tomlLexer_of_not_hasTokens hno true), hno⟩

theorem documentText_of_tomlLoad {src : CString} {heap : Heap}
    (h : tomlLoad src = some (.ok heap)) :
    ∃ nodes, DocumentText src nodes ∧ astNodeEntryGen nodes = some (.ok heap) := by
  rcases source_cases src with ⟨hnone, -⟩ | ⟨herror, -⟩ | ⟨nodes, hdoc⟩
  · exact absurd (hnone.symm.trans h) (by simp)
  · exact absurd (herror.symm.trans h) (by simp)
  · exact ⟨nodes, hdoc, (tomlLoad_eq_ok_iff_gen hdoc).1 h⟩

/-- **Which documents are loaded.** -/
theorem exists_tomlLoad_iff {src : CString} {nodes : List AstEntry} (h : DocumentText src nodes) :
    (∃ heap, tomlLoad src = some (.ok heap)) ↔
      Consistent (fullEntries [] nodes) ∧ Fits (fullEntries [] nodes) := by
  obtain ⟨list, -, hdoc⟩ := id h
  rw [← astNodeEntryGen_eq_ok_iff hdoc.keyed]
  exact exists_congr fun heap ↦ tomlLoad_eq_ok_iff_gen h

/-- **What `toml_load` accepts**: the texts of consistent documents that fit in their tables. Of
the others those are reported that have tokens and are no document; and an overriding value, when it
comes before a table that is full. -/
theorem tomlLoad_accepts (src : CString) :
    ((∃ heap, tomlLoad src = some (.ok heap)) ↔ ∃ nodes, DocumentText src nodes ∧
      Consistent (fullEntries [] nodes) ∧ Fits (fullEntries [] nodes)) ∧
    (tomlLoad src = some (.error ⟨"not fully parsed", 0⟩) ↔
      (∃ list, HasTokens src list) ∧ ∀ nodes, ¬DocumentText src nodes) ∧
    ∀ e, tomlLoad src = some (.error e) → e = ⟨"not fully parsed", 0⟩ ∨
      e = ⟨overridingValue, 0⟩ ∧
        ∃ nodes, DocumentText src nodes ∧ ¬Consistent (fullEntries [] nodes) := by
  refine ⟨⟨fun ⟨heap, hload⟩ ↦ ?_, fun ⟨nodes, hdoc, hgood⟩ ↦ (exists_tomlLoad_iff hdoc).2 hgood⟩,
    ⟨fun hload ↦ ?_, fun ⟨⟨list, hlist⟩, hno⟩ ↦ tomlLoad_of_not_documentText hlist hno⟩,
    fun e he ↦ ?_⟩
  · obtain ⟨nodes, hdoc, -⟩ := documentText_of_tomlLoad hload
    exact ⟨nodes, hdoc, (exists_tomlLoad_iff hdoc).1 ⟨heap, hload⟩⟩
  · rcases source_cases src with ⟨hnone, -⟩ | ⟨-, htoks, hno⟩ | ⟨nodes, hdoc⟩
    · exact absurd (hnone.symm.trans hload) (by simp)
    · exact ⟨htoks, hno⟩
    · exact absurd (tomlLoad_error_of_documentText hdoc hload).1 (by decide)
  · rcases source_cases src with ⟨hnone, -⟩ | ⟨herror, -⟩ | ⟨nodes, hdoc⟩
    · exact absurd (hnone.symm.trans he) (by simp)
    · exact .inl (Except.error.inj (Option.some.inj (he.symm.trans herror)))
    · obtain ⟨rfl, hbad⟩ := tomlLoad_error_of_documentText hdoc he
      exact .inr ⟨rfl, nodes, hdoc, hbad⟩

/-! ### `toml_lookup` -/

/-- What `toml_lookup` answers to a query for the path `p`, in what has been made of the entries. -/
structure Answers (heap : Heap) (es : List FullEntry) (query : CString) (p : KeyPath) : Prop where
  value : ∀ v, (p, some v) ∈ es → tomlLookup heap 0 query = some (.ok v.gen)
  table : IsTablePath es p → ∃ addr, tomlLookup heap 0 query = some (.ok (.table addr))
  other : (∀ v, (p, some v) ∉ es) → ¬IsTablePath es p →
    ∃ e, tomlLookup heap 0 query = some (.error e)

/-- The query is looked up by its path. -/
theorem tomlLookup_of_keyText {query : CString} {key : AstKey} (h : KeyText query key)
    (heap : Heap) (root : ℕ) : tomlLookup heap root query =
      some ((tomlLookupPath heap root key.path).mapError fun msg ↦ ⟨msg, 0⟩) := by
  obtain ⟨list, htoks, hkey⟩ := h
  have hrun := run_svKey (r := []) hkey notAhead_nil (Nat.lt_succ_self list.length)
  rw [List.append_nil] at hrun
  rw [tomlLookup, tomlLexer_eq_ok_iff.2 htoks]
  dsimp only
  rw [hrun]
  dsimp only
  rcases tomlLookupPath heap root key.path with msg | obj <;> rfl

theorem keyText_of_tomlLookup {query : CString} {heap : Heap} {root : ℕ} {obj : Object}
    (h : tomlLookup heap root query = some (.ok obj)) : ∃ key, KeyText query key := by
  rw [tomlLookup] at h
  split at h
  case h_1 => exact absurd h (by simp)
  case h_2 => exact absurd h (by simp)
  case h_3 list hlist =>
    split at h
    case h_1 key hrun =>
      obtain ⟨w, rfl, hw⟩ := svKey_within _ _ _ _ hrun
      rw [List.append_nil] at hlist
      exact ⟨key, w, tomlLexer_eq_ok_iff.1 hlist, hw⟩
    case h_2 => exact absurd h (by simp)

theorem Means.answers {heap : Heap} {es : List FullEntry} (h : Means heap 0 es) {query : CString}
    {key : AstKey} (hkey : KeyText query key) : Answers heap es query key.path := by
  have hne : key.path ≠ [] := List.cons_ne_nil _ _
  refine ⟨fun v hv ↦ ?_, fun htable ↦ ?_, fun hvalue htable ↦ ?_⟩
  · rw [tomlLookup_of_keyText hkey, h.value _ v hne hv]
    rfl
  · obtain ⟨addr, ha⟩ := h.table _ hne htable
    exact ⟨addr, by rw [tomlLookup_of_keyText hkey, ha]; rfl⟩
  · obtain ⟨msg, hmsg⟩ := h.other _ hne hvalue htable
    exact ⟨⟨msg, 0⟩, by rw [tomlLookup_of_keyText hkey, hmsg]; rfl⟩

theorem means_of_astNodeEntryGen {nodes : List AstEntry} {heap : Heap}
    (h : astNodeEntryGen nodes = some (.ok heap)) : Means heap 0 (fullEntries [] nodes) := by
  rcases astNodeEntryLoop_spec docInvariant_nil h with ⟨herror, -⟩ | ⟨heap', _, _, hok, -, hinv⟩
  · exact absurd herror (by simp)
  · obtain rfl := Except.ok.inj hok
    exact hinv.means

/-- **What is looked up in a loaded document**: every query that is a key, in whatever way it is
written, finds what the document assigns to its path, and nothing is found by any other. -/
theorem tomlLookup_answers {src : CString} {heap : Heap} (h : tomlLoad src = some (.ok heap)) :
    ∃ nodes, DocumentText src nodes ∧ ∀ query,
      (∀ key, KeyText query key → Answers heap (fullEntries [] nodes) query key.path) ∧
      ((∀ key, ¬KeyText query key) → ∀ obj, tomlLookup heap 0 query ≠ some (.ok obj)) := by
  obtain ⟨nodes, hdoc, hgen⟩ := documentText_of_tomlLoad h
  refine ⟨nodes, hdoc, fun query ↦ ⟨fun key hkey ↦ ?_, fun hno obj hobj ↦ ?_⟩⟩
  · exact (means_of_astNodeEntryGen hgen).answers hkey
  · obtain ⟨key, hkey⟩ := keyText_of_tomlLookup hobj
    exact hno key hkey

/-! ### At one text -/

/-- The text `[a]`, and behind a newline `'b'.c = 7 #x`. -/
def sampleSource : CString :=
  ⟨[0x5b, 0x61, 0x5d, 0x0a, 0x27, 0x62, 0x27, 0x2e, 0x63, 0x20, 0x3d, 0x20, 0x37, 0x20, 0x23, 0x78],
    by decide⟩

/-- Its entries. -/
def sampleSourceNodes : List AstEntry :=
  [⟨some ⟨cstr [0x61], []⟩, none⟩, ⟨some ⟨cstr [0x62], [cstr [0x63]]⟩, some (.int 7)⟩]

/-- The query `a.b .c`. -/
def sampleQuery : CString := ⟨[0x61, 0x2e, 0x62, 0x20, 0x2e, 0x63], by decide⟩

theorem tomlLookup_answers_sampleSource : ∃ heap, tomlLoad sampleSource = some (.ok heap) ∧
    tomlLookup heap 0 sampleQuery = some (.ok (.int 7)) := by
  have hdoc : DocumentText sampleSource sampleSourceNodes := documentText_of_parse (by decide)
  have hkey : KeyText sampleQuery ⟨cstr [0x61], [cstr [0x62], cstr [0x63]]⟩ :=
    keyText_of_parse (by decide)
  obtain ⟨heap, hheap⟩ := (exists_tomlLoad_iff hdoc).2
    ⟨consistent_iff_pairwise.2 (by unfold Admits; decide), fits_of_length_le (by decide)⟩
  obtain ⟨nodes, hnodes, hanswers⟩ := tomlLookup_answers hheap
  obtain rfl := hnodes.unique hdoc
  exact ⟨heap, hheap, ((hanswers sampleQuery).1 _ hkey).value (.int 7) (by decide)⟩

end Vmecs
