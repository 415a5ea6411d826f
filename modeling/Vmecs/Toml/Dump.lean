import Vmecs.Toml.Reading

/-!
# Dumps of the syntax tree (`toml/ast.c`)

`ast_node_dump` prints a syntax tree as a document: an entry on each line, with every identifier in
double quotes, and a string as it is between two of them. Nothing is escaped, and a missing node is
printed as `(NULL)`.

So a dump is read back as the tree it was made from exactly when there is an entry, every entry has
a key, and each of its strings can stand between double quotes as it is
(`astNodeDump_readBack_iff`).

What is printed is a list of tokens (`dumpTokens`), of which those for strings need not be lexemes.
If all are, the tokens are printed with care, and a word of the grammar. If not, the lexer finds
what stands before the first that is none, and then something else: the strings that a list of
tokens holds are those of its document (`IsDocument.strings_eq`), and a string that the lexer has
found can be quoted.
-/

namespace Vmecs

open Scanner

/-! ### Dumps -/

/-- `"(NULL)"`, for a node that is not there. -/
def astNullDump : Bytes := [0x28, 0x4e, 0x55, 0x4c, 0x4c, 0x29]

/-- `"%lld"`. -/
def sprintfLld (val : Int64) : Bytes :=
  if val.toInt < 0 then 0x2d :: sprintfD val.toInt.natAbs else sprintfD val.toInt.natAbs

/-- `_ast_node_string_dump`: `"\"%s\""`. -/
def astNodeStringDump (str : CString) : Bytes := 0x22 :: str.1 ++ [0x22]

/-- `_ast_node_int_dump`, `_ast_node_bool_dump` and `_ast_node_string_dump`. -/
def AstValue.dump : AstValue → Bytes
  | int val => sprintfLld val
  | bool val => if val then keywordTrue.1 else keywordFalse.1
  | string str => astNodeStringDump str

/-- `_ast_node_key_dump`, of the identifier and those behind it. -/
def astNodeKeyDump : CString → List CString → Bytes
  | id, [] => astNodeStringDump id
  | id, next :: rest => astNodeStringDump id ++ 0x2e :: astNodeKeyDump next rest

/-- `ast_node_dump` of the key of an entry. -/
def AstEntry.keyDump (node : AstEntry) : Bytes :=
  match node.key with
  | none => astNullDump
  | some key => astNodeKeyDump key.id key.next

/-- `_ast_node_entry_dump`, without what is behind `next`. -/
def AstEntry.dump (node : AstEntry) : Bytes :=
  match node.value with
  | some value => node.keyDump ++ [0x20, 0x3d, 0x20] ++ value.dump
  | none => [0x5b] ++ node.keyDump ++ [0x5d]

/-- `ast_node_dump` of the entries, each of which prints the ones behind it. -/
def astNodeDump : List AstEntry → Bytes
  | [] => astNullDump
  | [node] => node.dump
  | node :: next :: rest => node.dump ++ 0x0a :: astNodeDump (next :: rest)

/-! ### The tokens of a dump -/

/-- A token that is no string. -/
def plainToken (t : TokenKind) (ht : t ≠ .string) (str : Bytes) : Token :=
  ⟨t, str, fun h ↦ absurd h ht⟩

/-- A string between double quotes, whether or not it can stand there. -/
def stringToken (s : CString) : Token := ⟨.string, astNodeStringDump s, fun _ ↦ by
  simp [astNodeStringDump]⟩

/-- What is printed for a missing node: not a token, but in the place of one. -/
def nullToken : Token := plainToken .semicolon (by decide) astNullDump

/-- `.` -/
def dotToken : Token := plainToken .dot (by decide) [0x2e]

/-- A space. -/
def spaceToken : Token := plainToken .space (by decide) [0x20]

/-- `=` -/
def eqToken : Token := plainToken .eq (by decide) [0x3d]

/-- `[` -/
def lbrackToken : Token := plainToken .lbrack (by decide) [0x5b]

/-- `]` -/
def rbrackToken : Token := plainToken .rbrack (by decide) [0x5d]

/-- A newline. -/
def newlineToken : Token := plainToken .newline (by decide) [0x0a]

/-- The identifiers of a key behind the first, with their dots. -/
def keyTailTokens (ids : List CString) : List Token :=
  ids.flatMap fun id ↦ [dotToken, stringToken id]

/-- The token of a value. -/
def AstValue.tok : AstValue → Token
  | int val => plainToken .int (by decide) (sprintfLld val)
  | bool true => plainToken .true (by decide) keywordTrue.1
  | bool false => plainToken .false (by decide) keywordFalse.1
  | string str => stringToken str

/-- The tokens of the key of an entry. -/
def AstEntry.keyTokens (node : AstEntry) : List Token :=
  match node.key with
  | none => [nullToken]
  | some key => stringToken key.id :: keyTailTokens key.next

/-- The tokens of an entry. -/
def AstEntry.tokens (node : AstEntry) : List Token :=
  match node.value with
  | some value =>
    node.keyTokens ++ [spaceToken, eqToken,
      spaceToken, value.tok]
  | none =>
    [lbrackToken] ++ node.keyTokens ++
      [rbrackToken]

/-- The tokens of the entries behind the first, each behind a newline. -/
def tailTokens (nodes : List AstEntry) : List Token :=
  nodes.flatMap fun node ↦ newlineToken :: node.tokens

/-- The tokens of a dump. -/
def dumpTokens : List AstEntry → List Token
  | [] => [nullToken]
  | node :: nodes => node.tokens ++ tailTokens nodes

/-- The characters of tokens. -/
def tokenTexts (list : List Token) : Bytes := list.flatMap (·.str)

@[simp] theorem tokenTexts_nil : tokenTexts [] = [] := rfl

@[simp] theorem tokenTexts_cons (tok : Token) (list : List Token) :
    tokenTexts (tok :: list) = tok.str ++ tokenTexts list := List.flatMap_cons

@[simp] theorem tokenTexts_append (list list' : List Token) :
    tokenTexts (list ++ list') = tokenTexts list ++ tokenTexts list' := List.flatMap_append

@[simp] theorem plainToken_str (t : TokenKind) (ht : t ≠ .string) (str : Bytes) :
    (plainToken t ht str).str = str := rfl

@[simp] theorem stringToken_str (s : CString) : (stringToken s).str = astNodeStringDump s := rfl

theorem AstValue.tok_str (value : AstValue) : value.tok.str = value.dump := by
  rcases value with val | (_ | _) | str <;> rfl

theorem tokenTexts_key (id : CString) (ids : List CString) :
    tokenTexts (stringToken id :: keyTailTokens ids) = astNodeKeyDump id ids := by
  induction ids generalizing id with
  | nil => exact List.append_nil _
  | cons next rest ih =>
    rw [tokenTexts_cons, astNodeKeyDump, ← ih, keyTailTokens, List.flatMap_cons]
    rfl

theorem AstEntry.tokenTexts_keyTokens (node : AstEntry) :
    tokenTexts node.keyTokens = node.keyDump := by
  rw [keyTokens, keyDump]
  rcases node.key with _ | key
  · exact List.append_nil _
  · exact tokenTexts_key key.id key.next

theorem AstEntry.tokenTexts_tokens (node : AstEntry) : tokenTexts node.tokens = node.dump := by
  rw [tokens, dump]
  rcases node.value with _ | value
  · simp [node.tokenTexts_keyTokens, lbrackToken, rbrackToken]
  · simp [node.tokenTexts_keyTokens, value.tok_str, spaceToken, eqToken]

/-- **A dump is the text of its tokens.** -/
theorem tokenTexts_dumpTokens (nodes : List AstEntry) :
    tokenTexts (dumpTokens nodes) = astNodeDump nodes := by
  rcases nodes with _ | ⟨node, nodes⟩
  · exact List.append_nil _
  rw [dumpTokens, tokenTexts_append, node.tokenTexts_tokens]
  induction nodes generalizing node with
  | nil => exact List.append_nil _
  | cons next rest ih =>
    rw [astNodeDump, ← ih next, tailTokens, List.flatMap_cons, List.cons_append, tokenTexts_cons,
      tokenTexts_append, next.tokenTexts_tokens]
    rfl

/-! ### The tokens that the lexer finds -/

/-- The token that the lexer finds, before the keywords are told. -/
def Token.raw (tok : Token) : LexToken TokenKind :=
  ⟨if tok.token = .true ∨ tok.token = .false then .id else tok.token, tok.str⟩

/-- The characters are a lexeme of their class. -/
def Token.Good (tok : Token) : Prop := IsLexeme tok.raw.token tok.str

/-- No character continues a token of this class. -/
def ClosedKind (t : TokenKind) : Prop := ∀ c, continues t c = false

theorem texts_map_raw (list : List Token) : texts (list.map Token.raw) = tokenTexts list := by
  rw [texts, List.flatMap_map]
  rfl

theorem separated_append {toks toks' : List (LexToken TokenKind)} {tail : Bytes} :
    Separated (toks ++ toks') tail ↔ Separated toks (texts toks' ++ tail) ∧
      Separated toks' tail := by
  induction toks with
  | nil => exact (iff_of_eq (true_and _)).symm
  | cons tok toks ih =>
    rw [List.cons_append, Separated, ih, Separated, texts_append, List.append_assoc, and_assoc]

/-- Closed tokens are separated whatever is behind them. -/
theorem separated_of_closed {list : List Token} (h : ∀ tok ∈ list, ClosedKind tok.raw.token)
    (tail : Bytes) : Separated (list.map Token.raw) tail := by
  induction list with
  | nil => trivial
  | cons tok list ih =>
    obtain ⟨htok, hlist⟩ := List.forall_mem_cons.1 h
    exact ⟨htok _, ih hlist⟩

theorem closed_string (s : CString) : ClosedKind (stringToken s).raw.token := fun _ ↦ rfl

theorem AstEntry.closed_of_mem_keyTokens {node : AstEntry} {tok : Token}
    (h : tok ∈ node.keyTokens) : ClosedKind tok.raw.token := by
  rw [keyTokens] at h
  rcases hkey : node.key with _ | key <;> rw [hkey] at h
  · rw [List.mem_singleton.1 h]
    exact fun _ ↦ rfl
  · rcases List.mem_cons.1 h with rfl | h
    · exact closed_string _
    · obtain ⟨id, -, htok⟩ := List.mem_flatMap.1 h
      rcases List.mem_pair.1 htok with rfl | rfl
      · exact fun _ ↦ rfl
      · exact closed_string id

/-- What is behind an entry: a newline, or the end. -/
def EndsEntry (tail : Bytes) : Prop := tail.headD 0 = 0 ∨ tail.headD 0 = 0x0a

/-- A value ends where its entry ends. -/
theorem AstValue.separated_tok (value : AstValue) {tail : Bytes} (h : EndsEntry tail) :
    continues value.tok.raw.token (tail.headD 0) = false := by
  rcases value with val | (_ | _) | str
  · rcases h with h | h <;> rw [h] <;> rfl
  · rcases h with h | h <;> rw [h] <;> rfl
  · rcases h with h | h <;> rw [h] <;> rfl
  · rfl

/-- The first digit of a number. -/
theorem exists_sprintfD (n : ℕ) :
    ∃ d ds, sprintfD n = d :: ds ∧ isDigit d ∧ ∀ c ∈ ds, isDigit c := by
  obtain ⟨d, ds, hcons⟩ := List.exists_cons_of_ne_nil (sprintfD_ne_nil n)
  have hall : ∀ c ∈ d :: ds, isDigit c := fun c hc ↦ isDigit_of_mem_sprintfD (hcons ▸ hc)
  exact ⟨d, ds, hcons, List.forall_mem_cons.1 hall⟩

/-- A number begins with a sign or a digit, and goes on with digits. -/
theorem exists_sprintfLld (val : Int64) :
    ∃ c ds, sprintfLld val = c :: ds ∧ isNumStart c ∧ ∀ d ∈ ds, isDigit d := by
  obtain ⟨d, ds, hcons, hd, hds⟩ := exists_sprintfD val.toInt.natAbs
  rw [sprintfLld, hcons]
  split
  case isTrue => exact ⟨0x2d, d :: ds, rfl, rfl, List.forall_mem_cons.2 ⟨hd, hds⟩⟩
  case isFalse => exact ⟨d, ds, rfl, by simp [isNumStart, hd], hds⟩

/-- A number begins with no blank. -/
theorem not_isBlank_of_isNumStart {c : UInt8} (h : isNumStart c) : isBlank c = false := by
  by_contra hblank
  rcases isBlank_iff.1 (Bool.not_eq_false _ ▸ hblank) with rfl | rfl <;>
    exact absurd h (by decide)

/-- A value begins with no blank. -/
theorem AstValue.not_isBlank_tok (value : AstValue) (tail : Bytes) :
    isBlank ((value.tok.str ++ tail).headD 0) = false := by
  rcases value with val | (_ | _) | str
  · obtain ⟨c, ds, hcons, hc, -⟩ := exists_sprintfLld val
    show isBlank ((sprintfLld val ++ tail).headD 0) = false
    rw [hcons]
    exact not_isBlank_of_isNumStart hc
  · rfl
  · rfl
  · rfl

theorem AstEntry.separated_tokens (node : AstEntry) {tail : Bytes} (h : EndsEntry tail) :
    Separated (node.tokens.map Token.raw) tail := by
  have hkey (tail : Bytes) : Separated (node.keyTokens.map Token.raw) tail :=
    separated_of_closed (fun _ ↦ closed_of_mem_keyTokens) tail
  rw [tokens]
  rcases node.value with _ | value
  · rw [List.append_assoc, List.map_append, List.map_append, separated_append, separated_append]
    exact ⟨⟨rfl, trivial⟩, hkey _, rfl, trivial⟩
  · rw [List.map_append, separated_append]
    refine ⟨hkey _, rfl, rfl, ?_, value.separated_tok h, trivial⟩
    show isBlank ((texts ([value.tok].map Token.raw) ++ tail).headD 0) = false
    rw [texts_map_raw, tokenTexts_cons, tokenTexts_nil, List.append_nil]
    exact value.not_isBlank_tok tail

/-- An entry begins with no break. -/
theorem AstEntry.not_isBreak_tokens (node : AstEntry) (tail : Bytes) :
    isBreak ((tokenTexts node.tokens ++ tail).headD 0) = false := by
  rw [tokens, keyTokens]
  rcases node.value with _ | value
  · rfl
  · rcases node.key with _ | key <;> rfl

theorem endsEntry_tailTokens (nodes : List AstEntry) :
    EndsEntry (tokenTexts (tailTokens nodes)) := by
  rcases nodes with _ | ⟨node, nodes⟩
  · exact .inl rfl
  · exact .inr rfl

theorem separated_tailTokens (nodes : List AstEntry) :
    Separated ((tailTokens nodes).map Token.raw) [] := by
  induction nodes with
  | nil => trivial
  | cons node nodes ih =>
    rw [tailTokens, List.flatMap_cons, List.cons_append, List.map_cons, List.map_append, Separated,
      separated_append, List.append_nil, List.append_nil]
    refine ⟨?_, ?_, ih⟩
    · show isBreak ((texts (node.tokens.map Token.raw ++ _)).headD 0) = false
      rw [texts_append, texts_map_raw]
      exact node.not_isBreak_tokens _
    · rw [texts_map_raw]
      exact node.separated_tokens (endsEntry_tailTokens nodes)

/-- **The tokens of a dump are separated**, lexemes or not. -/
theorem separated_dumpTokens (nodes : List AstEntry) :
    Separated ((dumpTokens nodes).map Token.raw) [] := by
  rcases nodes with _ | ⟨node, nodes⟩
  · exact ⟨rfl, trivial⟩
  · rw [dumpTokens, List.map_append, separated_append, List.append_nil, texts_map_raw]
    exact ⟨node.separated_tokens (endsEntry_tailTokens nodes), separated_tailTokens nodes⟩

/-! ### A dump of good tokens is read back -/

/-- A string can stand between double quotes as it is: when, from its beginning, each backslash is
taken together with the character behind it, there is one, and no double quote is left. -/
def Quotable (s : CString) : Prop := IsStringBody .double s.1

theorem good_stringToken {s : CString} (h : Quotable s) : (stringToken s).Good := .string h

/-- A value is a lexeme, or a string that cannot be quoted. -/
theorem AstValue.good_tok {value : AstValue} (h : ∀ s, value = .string s → Quotable s) :
    value.tok.Good := by
  rcases value with val | (_ | _) | str
  · obtain ⟨c, ds, hcons, hc, hds⟩ := exists_sprintfLld val
    show IsLexeme .int (sprintfLld val)
    rw [hcons]
    exact .int hc fun d hd ↦ by rw [isNumChar, hds d hd, Bool.true_or]
  · exact .id rfl (List.all_eq_true.1 rfl)
  · exact .id rfl (List.all_eq_true.1 rfl)
  · exact good_stringToken (h str rfl)

/-- A string that is printed for the key of an entry, or for its value. -/
def AstEntry.HasString (node : AstEntry) (s : CString) : Prop :=
  (∃ key, node.key = some key ∧ s ∈ key.path) ∨ node.value = some (.string s)

/-- The strings in a dump. -/
theorem AstEntry.stringToken_mem {node : AstEntry} {s : CString} (h : node.HasString s) :
    stringToken s ∈ node.tokens := by
  rw [tokens]
  rcases h with ⟨key, hkey, hs⟩ | hvalue
  · have hmem : stringToken s ∈ node.keyTokens := by
      rw [keyTokens, hkey]
      rcases List.mem_cons.1 hs with rfl | hs
      · exact List.mem_cons_self
      · exact List.mem_cons_of_mem _ (List.mem_flatMap.2 ⟨s, hs, by simp⟩)
    rcases node.value with _ | value
    · simp [hmem]
    · simp [hmem]
  · rw [hvalue]
    simp [AstValue.tok]

/-- **The tokens of a dump are lexemes**, but for the strings that cannot be quoted, and what is
printed for a missing key. -/
theorem AstEntry.tokens_cases {node : AstEntry} {tok : Token} (h : tok ∈ node.tokens) :
    tok.Good ∨ (∃ s, tok = stringToken s ∧ node.HasString s) ∨
      tok = nullToken ∧ node.key = none := by
  have hkeyTokens : tok ∈ node.keyTokens → tok.Good ∨
      (∃ s, tok = stringToken s ∧ node.HasString s) ∨ tok = nullToken ∧ node.key = none := by
    intro htok
    rw [keyTokens] at htok
    rcases hkey : node.key with _ | key <;> rw [hkey] at htok
    · exact .inr (.inr ⟨List.mem_singleton.1 htok, rfl⟩)
    · rcases List.mem_cons.1 htok with rfl | htok
      · exact .inr (.inl ⟨_, rfl, .inl ⟨key, hkey, List.mem_cons_self⟩⟩)
      · obtain ⟨id, hid, htok⟩ := List.mem_flatMap.1 htok
        rcases List.mem_pair.1 htok with rfl | rfl
        · exact .inl .dot
        · exact .inr (.inl ⟨id, rfl, .inl ⟨key, hkey, List.mem_cons_of_mem _ hid⟩⟩)
  rw [tokens] at h
  rcases hvalue : node.value with _ | value <;> rw [hvalue] at h
  · rw [List.mem_append, List.mem_append, List.mem_singleton, List.mem_singleton] at h
    rcases h with (rfl | h) | rfl
    · exact .inl .lbrack
    · exact hkeyTokens h
    · exact .inl .rbrack
  · rw [List.mem_append] at h
    rcases h with h | h
    · exact hkeyTokens h
    · simp only [List.mem_cons, List.not_mem_nil, or_false] at h
      have hspace : (spaceToken).Good :=
        .space rfl (List.forall_mem_nil _)
      rcases h with rfl | rfl | rfl | rfl
      · exact .inl hspace
      · exact .inl .eq
      · exact .inl hspace
      · by_cases hs : ∃ s, value = .string s
        · obtain ⟨s, rfl⟩ := hs
          exact .inr (.inl ⟨s, rfl, .inr hvalue⟩)
        · exact .inl (AstValue.good_tok fun s h ↦ absurd ⟨s, h⟩ hs)

/-- Telling the keywords makes of the raw token what is printed. -/
def Token.Told (tok : Token) : Prop :=
  keywordToken tok.raw = tok.lexeme ∧ tok.token ≠ .comment

theorem told_of_plain {tok : Token} (hraw : tok.raw = tok.lexeme) (hid : tok.token ≠ .id)
    (hcomment : tok.token ≠ .comment) : tok.Told := by
  refine ⟨?_, hcomment⟩
  rw [hraw, keywordToken, if_neg (show ¬tok.lexeme.token = .id from hid)]

theorem told_stringToken (s : CString) : (stringToken s).Told :=
  told_of_plain rfl (show TokenKind.string ≠ .id by decide)
    (show TokenKind.string ≠ .comment by decide)

theorem told_nullToken : nullToken.Told := told_of_plain rfl (by decide) (by decide)

theorem AstValue.told_tok (value : AstValue) : value.tok.Told := by
  rcases value with val | (_ | _) | str
  · exact told_of_plain rfl (show TokenKind.int ≠ .id by decide)
      (show TokenKind.int ≠ .comment by decide)
  · exact ⟨by decide, by decide⟩
  · exact ⟨by decide, by decide⟩
  · exact told_stringToken str

theorem AstEntry.told_tokens {node : AstEntry} : ∀ tok ∈ node.tokens, tok.Told := by
  have hkey : ∀ tok ∈ node.keyTokens, tok.Told := by
    rw [keyTokens]
    rcases node.key with _ | key
    · exact List.forall_mem_singleton.2 told_nullToken
    · refine List.forall_mem_cons.2 ⟨told_stringToken _, List.forall_mem_flatMap.2 fun id _ ↦ ?_⟩
      simpa using ⟨told_of_plain rfl (by decide) (by decide), told_stringToken id⟩
  rw [tokens]
  rcases node.value with _ | value
  · simp only [List.forall_mem_append, List.forall_mem_singleton]
    exact ⟨⟨told_of_plain rfl (by decide) (by decide), hkey⟩,
      told_of_plain rfl (by decide) (by decide)⟩
  · simp only [List.forall_mem_append, List.forall_mem_cons]
    exact ⟨hkey, told_of_plain rfl (by decide) (by decide),
      told_of_plain rfl (by decide) (by decide), told_of_plain rfl (by decide) (by decide),
      value.told_tok, List.forall_mem_nil _⟩

theorem told_dumpTokens (nodes : List AstEntry) : ∀ tok ∈ dumpTokens nodes, tok.Told := by
  rcases nodes with _ | ⟨node, nodes⟩
  · exact List.forall_mem_singleton.2 told_nullToken
  · refine List.forall_mem_append.2 ⟨node.told_tokens, List.forall_mem_flatMap.2 fun n _ ↦ ?_⟩
    exact List.forall_mem_cons.2 ⟨told_of_plain rfl (by decide) (by decide), n.told_tokens⟩

theorem removeComments_map_raw {list : List Token} (h : ∀ tok ∈ list, tok.Told)
    (toks : List (LexToken TokenKind)) :
    removeComments (tomlKeyword (list.map Token.raw ++ toks)) =
      list.map Token.lexeme ++ removeComments (tomlKeyword toks) := by
  have hmap : tomlKeyword (list.map Token.raw) = list.map Token.lexeme := by
    rw [tomlKeyword, List.map_map]
    exact List.map_congr_left fun tok htok ↦ (h tok htok).1
  have hkeep : removeComments (list.map Token.lexeme) = list.map Token.lexeme := by
    refine List.filter_eq_self.2 fun t ht ↦ ?_
    obtain ⟨tok, htok, rfl⟩ := List.mem_map.1 ht
    exact decide_eq_true (h tok htok).2
  rw [tomlKeyword, List.map_append, removeComments, List.filter_append]
  exact congrArg₂ _ ((congrArg removeComments hmap).trans hkeep) rfl

/-- **Good tokens are found in their text.** -/
theorem hasTokens_of_good {src : CString} {nodes : List AstEntry} (hsrc : src.1 = astNodeDump nodes)
    (h : ∀ tok ∈ dumpTokens nodes, tok.Good) : HasTokens src (dumpTokens nodes) := by
  refine ⟨(dumpTokens nodes).map Token.raw, [], ?_, ⟨?_, separated_dumpTokens nodes⟩, .nil, ?_⟩
  · rw [hsrc, List.append_nil, texts_map_raw, tokenTexts_dumpTokens]
  · intro t ht
    obtain ⟨tok, htok, rfl⟩ := List.mem_map.1 ht
    exact h tok htok
  · have hmap := removeComments_map_raw (told_dumpTokens nodes) []
    rw [List.append_nil] at hmap
    rw [hmap]
    exact (List.append_nil _).symm

/-! The tokens are a word of the grammar. -/

theorem unquoted_stringToken (s : CString) : (stringToken s).unquoted = s := by
  have hlen : (astNodeStringDump s).length - 2 = s.1.length := by simp [astNodeStringDump]
  rw [Token.unquoted, stringToken_str, hlen, astNodeStringDump, List.cons_append, List.drop_one,
    List.tail_cons, List.take_left, cstr_val]

/-- Digits, up to the greatest number. -/
theorem atoll_sprintfD (n : ℕ) : atoll (sprintfD n) = .ofInt (min (2 ^ 63 - 1) n) := by
  obtain ⟨d, ds, hcons, hd, hds⟩ := exists_sprintfD n
  have hall : (d :: ds).takeWhile isDigit = d :: ds :=
    List.takeWhile_eq_self_iff.2 (List.forall_mem_cons.2 ⟨hd, hds⟩)
  have hn : decimal (d :: ds) = n := hcons ▸ decimal_sprintfD n
  have hsign := not_sign_of_isDigit hd
  rw [atoll, hcons, List.dropWhile_cons_of_neg (not_isSpace_of_isDigit hd)]
  split
  case h_1 heq => exact absurd (.inr (List.cons.inj heq).1) hsign
  case h_2 heq => exact absurd (.inl (List.cons.inj heq).1) hsign
  case h_3 => rw [hall, hn]

/-- **A number is read back.** -/
theorem atoll_sprintfLld (val : Int64) : atoll ((sprintfLld val).filter (· ≠ 95)) = val := by
  obtain ⟨c, ds, hcons, hc, hds⟩ := exists_sprintfLld val
  have hkeep : (sprintfLld val).filter (· ≠ 95) = sprintfLld val := by
    refine List.filter_eq_self.2 fun b hb ↦ decide_eq_true ?_
    rintro rfl
    rcases List.mem_cons.1 (hcons ▸ hb) with rfl | hb
    · exact absurd hc (by decide)
    · exact absurd (hds _ hb) (by decide)
  have hall : (sprintfD val.toInt.natAbs).takeWhile isDigit = sprintfD val.toInt.natAbs :=
    List.takeWhile_eq_self_iff.2 fun _ ↦ isDigit_of_mem_sprintfD
  have hlo := Int64.le_toInt val
  have hhi := Int64.toInt_lt val
  rw [hkeep]
  by_cases hneg : val.toInt < 0
  · have hnum : (-decimal (sprintfD val.toInt.natAbs) : ℤ) = val.toInt := by
      rw [decimal_sprintfD]
      omega
    rw [sprintfLld, if_pos hneg]
    show Int64.ofInt (max (-2 ^ 63)
      (-decimal ((sprintfD val.toInt.natAbs).takeWhile isDigit))) = val
    rw [hall, hnum, max_eq_right hlo, Int64.ofInt_toInt]
  · have hnum : (val.toInt.natAbs : ℤ) = val.toInt := by omega
    rw [sprintfLld, if_neg hneg, atoll_sprintfD, hnum, min_eq_right (by omega), Int64.ofInt_toInt]

theorem isId_stringToken (s : CString) : IsId [stringToken s] s := by
  have h := IsId.string (show (stringToken s).token = .string from rfl)
  rwa [unquoted_stringToken] at h

theorem isKey_tokens (key : AstKey) : IsKey (stringToken key.id :: keyTailTokens key.next) key := by
  have htail (ids : List CString) : IsKeyTail (keyTailTokens ids) ids := by
    induction ids with
    | nil => exact .nil
    | cons id ids ih =>
      have hdot : (dotToken).token = .dot := rfl
      exact .cons .nil hdot .nil (isId_stringToken id) ih
  exact .mk (isId_stringToken key.id) (htail key.next)

theorem isValue_tok (value : AstValue) : IsValue [value.tok] value := by
  rcases value with val | (_ | _) | str
  · have h := IsValue.int (show (AstValue.int val).tok.token = .int from rfl)
    rwa [Token.int, AstValue.tok, plainToken_str, atoll_sprintfLld] at h
  · exact .false rfl
  · exact .true rfl
  · have h := IsValue.string (show (stringToken str).token = .string from rfl)
    rwa [unquoted_stringToken] at h

theorem isWs_space : IsWs [spaceToken] := .space rfl

/-- An entry with a key. -/
theorem AstEntry.isEntry_tokens {node : AstEntry} (h : node.key ≠ none) :
    IsEntry node.tokens node := by
  obtain ⟨_ | key, value⟩ := node
  · exact absurd rfl h
  · rcases value with _ | value
    · have hlbrack : (lbrackToken).token = .lbrack := rfl
      have hrbrack : (rbrackToken).token = .rbrack := rfl
      simpa [tokens, keyTokens] using IsEntry.table hlbrack .nil (isKey_tokens key) .nil hrbrack
    · exact .assignment (isKey_tokens key) isWs_space rfl isWs_space (isValue_tok value)

/-- **A dump is a document**, if every entry has a key. -/
theorem isDocument_dumpTokens {node : AstEntry} {nodes : List AstEntry}
    (h : ∀ n ∈ node :: nodes, n.key ≠ none) : IsDocument (dumpTokens (node :: nodes))
      (node :: nodes) := by
  obtain ⟨hnode, hnodes⟩ := List.forall_mem_cons.1 h
  have htail : IsEntries (tailTokens nodes) nodes := by
    clear h
    induction nodes with
    | nil => exact .nil
    | cons n nodes ih =>
      obtain ⟨hn, hnodes⟩ := List.forall_mem_cons.1 hnodes
      have hsep : IsSeparator [newlineToken] :=
        .newline (isBlank_newline rfl) ⟨_, List.mem_singleton_self _, rfl⟩
      exact .cons hsep (n.isEntry_tokens hn) (ih hnodes)
  have hblank : IsBlank [] := fun _ h ↦ absurd h List.not_mem_nil
  simpa [dumpTokens] using IsDocument.mk hblank (node.isEntry_tokens hnode) htail hblank

/-! ### The strings of a document -/

/-- The string that a token of the lexer holds: an identifier, or what is between two quotes. -/
def lexString (tok : LexToken TokenKind) : Option CString :=
  if tok.token = .id then some (cstr tok.str)
  else if tok.token = .string then some (cstr ((tok.str.drop 1).take (tok.str.length - 2)))
  else none

/-- And that a token of the parser holds. -/
def tokenString (tok : Token) : Option CString := lexString tok.lexeme

/-- The strings that tokens hold, in order. -/
def tokenStrings (list : List Token) : List CString := list.filterMap tokenString

/-- The strings of the key of an entry. -/
def AstEntry.keyStrings (node : AstEntry) : List CString :=
  match node.key with
  | none => []
  | some key => key.path

/-- The string of a value. -/
def AstValue.strings : AstValue → List CString
  | string str => [str]
  | _ => []

/-- The strings of an entry, those of the key first. -/
def AstEntry.strings (node : AstEntry) : List CString :=
  node.keyStrings ++ (node.value.map AstValue.strings).getD []

/-- The strings of a document. -/
def docStrings (nodes : List AstEntry) : List CString := nodes.flatMap AstEntry.strings

theorem tokenStrings_append (list list' : List Token) :
    tokenStrings (list ++ list') = tokenStrings list ++ tokenStrings list' :=
  List.filterMap_append

theorem tokenStrings_cons (tok : Token) (list : List Token) :
    tokenStrings (tok :: list) = (tokenString tok).toList ++ tokenStrings list := by
  rw [tokenStrings, List.filterMap_cons]
  rcases tokenString tok with _ | s <;> rfl

theorem tokenString_eq_none {tok : Token} {t : TokenKind} (h : tok.token = t) (hid : t ≠ .id)
    (hstring : t ≠ .string) : tokenString tok = none := by
  subst h
  rw [tokenString, lexString, if_neg (show ¬tok.lexeme.token = .id from hid),
    if_neg (show ¬tok.lexeme.token = .string from hstring)]

theorem tokenStrings_eq_nil {list : List Token}
    (h : ∀ tok ∈ list, tok.token ≠ .id ∧ tok.token ≠ .string) : tokenStrings list = [] :=
  List.filterMap_eq_nil_iff.2 fun tok htok ↦ tokenString_eq_none rfl (h tok htok).1 (h tok htok).2

theorem IsWs.strings_eq {w : List Token} (h : IsWs w) : tokenStrings w = [] := by
  refine tokenStrings_eq_nil fun tok htok ↦ ?_
  rcases h.isBlank tok htok with h | h <;> simp [h]

theorem IsBlank.strings_eq {b : List Token} (h : IsBlank b) : tokenStrings b = [] := by
  refine tokenStrings_eq_nil fun tok htok ↦ ?_
  rcases h tok htok with h | h <;> simp [h]

theorem IsSeparator.strings_eq {s : List Token} (h : IsSeparator s) : tokenStrings s = [] := by
  rcases h with ⟨hb, -⟩ | ⟨hb, h, hb'⟩
  · exact hb.strings_eq
  · rw [tokenStrings_append, tokenStrings_cons, hb.strings_eq, hb'.strings_eq,
      tokenString_eq_none h (by decide) (by decide)]
    rfl

theorem IsId.strings_eq {i : List Token} {id : CString} (h : IsId i id) :
    tokenStrings i = [id] := by
  rcases h with @⟨tok, h⟩ | @⟨tok, h⟩
  · rw [tokenStrings_cons, tokenString, lexString, if_pos (show tok.lexeme.token = .id from h)]
    rfl
  · rw [tokenStrings_cons, tokenString, lexString,
      if_neg (show ¬tok.lexeme.token = .id by simp [Token.lexeme, h]),
      if_pos (show tok.lexeme.token = .string from h)]
    rfl

theorem IsValue.strings_eq {v : List Token} {value : AstValue} (h : IsValue v value) :
    tokenStrings v = value.strings := by
  rcases h with h | h | h | h
  · rw [tokenStrings_cons, tokenString_eq_none h (by decide) (by decide)]
    rfl
  · rw [tokenStrings_cons, tokenString_eq_none h (by decide) (by decide)]
    rfl
  · exact (IsId.string h).strings_eq
  · rw [tokenStrings_cons, tokenString_eq_none h (by decide) (by decide)]
    rfl

theorem IsKey.strings_eq {k : List Token} {key : AstKey} (h : IsKey k key) :
    tokenStrings k = key.path := by
  have htail {l : List Token} {ids : List CString} (hl : IsKeyTail l ids) :
      tokenStrings l = ids := by
    induction hl with
    | nil => rfl
    | cons hw hdot hw' hid _ ih =>
      rw [tokenStrings_append, tokenStrings_cons, tokenStrings_append, tokenStrings_append,
        hw.strings_eq, hw'.strings_eq, hid.strings_eq, ih,
        tokenString_eq_none hdot (by decide) (by decide)]
      rfl
  obtain ⟨hid, hl⟩ := h
  rw [tokenStrings_append, hid.strings_eq, htail hl]
  rfl

theorem IsEntry.strings_eq {e : List Token} {entry : AstEntry} (h : IsEntry e entry) :
    tokenStrings e = entry.strings := by
  rcases h with ⟨hk, hw, heq, hw', hv⟩ | ⟨hl, hw, hk, hw', hr⟩ | ⟨hl, hw, hr⟩
  · rw [tokenStrings_append, tokenStrings_append, tokenStrings_cons, tokenStrings_append,
      hk.strings_eq, hw.strings_eq, hw'.strings_eq, hv.strings_eq,
      tokenString_eq_none heq (by decide) (by decide)]
    rfl
  · rw [tokenStrings_cons, tokenStrings_append, tokenStrings_append, tokenStrings_append,
      tokenStrings_cons, hk.strings_eq, hw.strings_eq, hw'.strings_eq,
      tokenString_eq_none hl (by decide) (by decide),
      tokenString_eq_none hr (by decide) (by decide)]
    rfl
  · rw [tokenStrings_cons, tokenStrings_append, tokenStrings_cons, hw.strings_eq,
      tokenString_eq_none hl (by decide) (by decide),
      tokenString_eq_none hr (by decide) (by decide)]
    rfl

/-- **The strings of the tokens are those of the document.** -/
theorem IsDocument.strings_eq {list : List Token} {nodes : List AstEntry}
    (h : IsDocument list nodes) : tokenStrings list = docStrings nodes := by
  have hentries {l : List Token} {entries : List AstEntry} (hl : IsEntries l entries) :
      tokenStrings l = docStrings entries := by
    induction hl with
    | nil => rfl
    | cons hs he _ ih =>
      rw [tokenStrings_append, tokenStrings_append, hs.strings_eq, he.strings_eq, ih]
      rfl
  obtain ⟨hb, he, hl, hb'⟩ := h
  rw [tokenStrings_append, tokenStrings_append, tokenStrings_append, hb.strings_eq,
    he.strings_eq, hentries hl, hb'.strings_eq, List.append_nil]
  rfl

/-- So are those of the tokens of a dump, read back or not. -/
theorem tokenStrings_dumpTokens (nodes : List AstEntry) :
    tokenStrings (dumpTokens nodes) = docStrings nodes := by
  have hentry (node : AstEntry) : tokenStrings node.tokens = node.strings := by
    obtain ⟨_ | key, value⟩ := node
    · rcases value with _ | value
      · rfl
      · exact (isValue_tok value).strings_eq
    · exact (AstEntry.isEntry_tokens (Option.some_ne_none key)).strings_eq
  have htail : ∀ nodes : List AstEntry, tokenStrings (tailTokens nodes) = docStrings nodes := by
    intro nodes
    induction nodes with
    | nil => rfl
    | cons node nodes ih =>
      rw [tailTokens, List.flatMap_cons, List.cons_append, tokenStrings_cons, tokenStrings_append,
        hentry, tokenString_eq_none rfl (by decide) (by decide)]
      exact congrArg (node.strings ++ ·) ih
  rcases nodes with _ | ⟨node, nodes⟩
  · rfl
  · rw [dumpTokens, tokenStrings_append, hentry, htail]
    rfl

/-! ### What is found in a dump -/

theorem astNodeStringDump_injective : Function.Injective astNodeStringDump := fun _ _ h ↦
  Subtype.ext (List.append_cancel_right (List.cons.inj h).2)

/-- A lexeme that begins with a double quote is a string that can stand between two. -/
theorem IsLexeme.exists_of_quote {t : TokenKind} {w : Bytes} (h : IsLexeme t w)
    (hw : w.head? = some 0x22) : t = .string ∧ ∃ s, Quotable s ∧ w = astNodeStringDump s := by
  have hfirst {p : UInt8 → Bool} (hp : p 0x22 = false) {c : UInt8} (hc : p c)
      (heq : some c = some 0x22) : False := by
    rw [Option.some.inj heq, hp] at hc
    exact Bool.false_ne_true hc
  rcases h with _ | _ | _ | _ | _ | ⟨hc, -⟩ | ⟨hc, -⟩ | ⟨hc, -⟩ | ⟨hc, -⟩ | ⟨hc, -, -⟩ |
    @⟨q, body, hbody⟩ | -
  · exact absurd hw (by decide)
  · exact absurd hw (by decide)
  · exact absurd hw (by decide)
  · exact absurd hw (by decide)
  · exact absurd hw (by decide)
  · exact (hfirst rfl hc hw).elim
  · exact (hfirst rfl hc hw).elim
  · exact (hfirst rfl hc hw).elim
  · exact (hfirst rfl hc hw).elim
  · exact (hfirst rfl hc hw).elim
  · rcases q with _ | _
    · exact ⟨rfl, ⟨body, hbody.zero_notMem⟩, hbody, rfl⟩
    · exact absurd (Option.some.inj hw) (by decide)
  · exact absurd (Option.some.inj hw) (by decide)

/-- A lexeme begins with no parenthesis. -/
theorem IsLexeme.head_ne {t : TokenKind} {w : Bytes} (h : IsLexeme t w) : w.head? ≠ some 0x28 := by
  have hfirst {p : UInt8 → Bool} (hp : p 0x28 = false) {c : UInt8} (hc : p c) :
      some c ≠ some 0x28 := by
    intro heq
    rw [Option.some.inj heq, hp] at hc
    exact Bool.false_ne_true hc
  rcases h with _ | _ | _ | _ | _ | ⟨hc, -⟩ | ⟨hc, -⟩ | ⟨hc, -⟩ | ⟨hc, -⟩ | ⟨hc, -, -⟩ |
    @⟨q, _, -⟩ | -
  · decide
  · decide
  · decide
  · decide
  · decide
  · exact hfirst rfl hc
  · exact hfirst rfl hc
  · exact hfirst rfl hc
  · exact hfirst rfl hc
  · exact hfirst rfl hc
  · rcases q with _ | _
    · exact fun heq ↦ absurd (Option.some.inj heq) (by decide)
    · exact fun heq ↦ absurd (Option.some.inj heq) (by decide)
  · exact fun heq ↦ absurd (Option.some.inj heq) (by decide)

/-- Nor does what can be left at the end of a source. -/
theorem IsTail.head_ne {x : Bytes} (h : IsTail x) : x.head? ≠ some 0x28 := by
  rcases h with _ | - | @⟨q, _, -⟩
  · exact fun heq ↦ absurd heq (by simp)
  · exact fun heq ↦ absurd (Option.some.inj heq) (by decide)
  · rcases q with _ | _
    · exact fun heq ↦ absurd (Option.some.inj heq) (by decide)
    · exact fun heq ↦ absurd (Option.some.inj heq) (by decide)

/-- The first token that is not good. -/
theorem exists_first_bad {list : List Token} (h : ¬∀ tok ∈ list, tok.Good) :
    ∃ before bad after, list = before ++ bad :: after ∧ (∀ tok ∈ before, tok.Good) ∧
      ¬bad.Good := by
  induction list with
  | nil => exact absurd (List.forall_mem_nil _) h
  | cons tok list ih =>
    by_cases htok : tok.Good
    · obtain ⟨before, bad, after, rfl, hbefore, hbad⟩ :=
        ih fun hlist ↦ h (List.forall_mem_cons.2 ⟨htok, hlist⟩)
      exact ⟨tok :: before, bad, after, rfl, List.forall_mem_cons.2 ⟨htok, hbefore⟩, hbad⟩
    · exact ⟨[], tok, list, rfl, List.forall_mem_nil _, htok⟩

/-- **What the lexer finds in a dump**: the good tokens at its front, and then the tokens of what is
left. -/
theorem exists_tokens_behind {src : CString} {nodes : List AstEntry} {list before : List Token}
    {bad : Token} {after : List Token} (hsrc : src.1 = astNodeDump nodes)
    (hlist : HasTokens src list) (hsplit : dumpTokens nodes = before ++ bad :: after)
    (hbefore : ∀ tok ∈ before, tok.Good) :
    ∃ toks tail, bad.str ++ tokenTexts after = texts toks ++ tail ∧ IsPrinted toks tail ∧
      IsTail tail ∧
      list.map Token.lexeme = before.map Token.lexeme ++ removeComments (tomlKeyword toks) := by
  have htext : src.1 = texts (before.map Token.raw) ++ (bad.str ++ tokenTexts after) := by
    rw [hsrc, ← tokenTexts_dumpTokens, hsplit, tokenTexts_append, tokenTexts_cons, texts_map_raw]
  obtain ⟨toks, tail, hrest, hprinted, hend⟩ := exists_isPrinted (x := bad.str ++ tokenTexts after)
    fun h₀ ↦ src.2 (htext ▸ List.mem_append_right _ h₀)
  have hsep := separated_dumpTokens nodes
  rw [hsplit, List.map_append, separated_append, List.append_nil, texts_map_raw, tokenTexts_cons,
    hrest] at hsep
  -- together they are printed tokens, and there is one list of these
  have hall : IsPrinted (before.map Token.raw ++ toks) tail := by
    refine ⟨List.forall_mem_append.2 ⟨fun t ht ↦ ?_, hprinted.lexemes⟩,
      separated_append.2 ⟨hsep.1, hprinted.separated⟩⟩
    obtain ⟨tok, htok, rfl⟩ := List.mem_map.1 ht
    exact hbefore tok htok
  have htext' : src.1 = texts (before.map Token.raw ++ toks) ++ tail := by
    rw [htext, hrest, texts_append, List.append_assoc]
  obtain ⟨toks', tail', hsrc', hprinted', htail', hmap⟩ := hlist
  have hlex := tomlLex_of_isTail hsrc' hprinted' htail' true
  rcases hend with htail | hstuck
  · obtain rfl := Except.ok.inj (Option.some.inj
      (hlex.symm.trans (tomlLex_of_isTail htext' hall htail true)))
    refine ⟨toks, tail, hrest, hprinted, htail, hmap.trans (removeComments_map_raw ?_ toks)⟩
    exact fun tok htok ↦ told_dumpTokens nodes tok (hsplit ▸ List.mem_append_left _ htok)
  · obtain ⟨e, he⟩ := tomlLex_error_of_stuck htext' hall hstuck
    exact absurd (he.symm.trans hlex) (by simp)

/-- The tokens of a dump. -/
theorem dumpTokens_cases {nodes : List AstEntry} {tok : Token} (h : tok ∈ dumpTokens nodes) :
    tok.Good ∨ (∃ s, tok = stringToken s ∧ ∃ node ∈ nodes, node.HasString s) ∨
      tok = nullToken ∧ (nodes = [] ∨ ∃ node ∈ nodes, node.key = none) := by
  have hentry {node : AstEntry} (hnode : node ∈ nodes) (htok : tok ∈ node.tokens) : tok.Good ∨
      (∃ s, tok = stringToken s ∧ ∃ node ∈ nodes, node.HasString s) ∨
        tok = nullToken ∧ (nodes = [] ∨ ∃ node ∈ nodes, node.key = none) := by
    rcases AstEntry.tokens_cases htok with hgood | ⟨s, heq, hs⟩ | ⟨heq, hkey⟩
    · exact .inl hgood
    · exact .inr (.inl ⟨s, heq, node, hnode, hs⟩)
    · exact .inr (.inr ⟨heq, .inr ⟨node, hnode, hkey⟩⟩)
  rcases nodes with _ | ⟨node, nodes⟩
  · exact .inr (.inr ⟨List.mem_singleton.1 h, .inl rfl⟩)
  · rcases List.mem_append.1 h with h | h
    · exact hentry List.mem_cons_self h
    · obtain ⟨n, hn, htok⟩ := List.mem_flatMap.1 h
      rcases List.mem_cons.1 htok with rfl | htok
      · exact .inl (.newline rfl (List.forall_mem_nil _))
      · exact hentry (List.mem_cons_of_mem _ hn) htok

theorem tokenString_stringToken (s : CString) : tokenString (stringToken s) = some s := by
  show some (stringToken s).unquoted = some s
  rw [unquoted_stringToken]

/-- A text begins with its first token. -/
theorem head?_texts {tok : LexToken TokenKind} (h : IsLexeme tok.token tok.str)
    (toks : List (LexToken TokenKind)) (tail : Bytes) :
    (texts (tok :: toks) ++ tail).head? = tok.str.head? := by
  obtain ⟨c, w, hw⟩ := List.exists_cons_of_length_pos h.length_pos
  rw [texts_cons, hw]
  rfl

/-- A document that is read back has been printed in lexemes. -/
theorem good_of_readBack {src : CString} {nodes : List AstEntry} (hsrc : src.1 = astNodeDump nodes)
    (h : DocumentText src nodes) : ∀ tok ∈ dumpTokens nodes, tok.Good := by
  obtain ⟨list, hlist, hdoc⟩ := h
  by_contra hbad
  obtain ⟨before, bad, after, hsplit, hbefore, hbad⟩ := exists_first_bad hbad
  obtain ⟨toks, tail, hrest, hprinted, htail, hmap⟩ :=
    exists_tokens_behind hsrc hlist hsplit hbefore
  have hhead := congrArg List.head? hrest
  rcases dumpTokens_cases (hsplit ▸ List.mem_append_right before List.mem_cons_self) with
    hgood | ⟨s, rfl, -⟩ | ⟨rfl, -⟩
  · exact hbad hgood
  · -- a string: since the lexer finds the strings of the document, it finds this one next
    have hstrings : (removeComments (tomlKeyword toks)).filterMap lexString =
        s :: tokenStrings after := by
      have hfound : tokenStrings list = tokenStrings (before ++ stringToken s :: after) := by
        rw [hdoc.strings_eq, ← hsplit, tokenStrings_dumpTokens]
      rw [tokenStrings_append, tokenStrings_cons, tokenString_stringToken] at hfound
      have hlist : tokenStrings list = (list.map Token.lexeme).filterMap lexString := by
        rw [List.filterMap_map]
        rfl
      rw [hlist, hmap, List.filterMap_append, List.filterMap_map] at hfound
      exact List.append_cancel_left hfound
    rcases toks with _ | ⟨t, toks⟩
    · exact absurd hstrings (by simp [removeComments, tomlKeyword])
    · -- but what it finds can be quoted
      have hlex := hprinted.lexemes t List.mem_cons_self
      obtain ⟨ht, s', hs', hstr⟩ :=
        hlex.exists_of_quote ((head?_texts hlex toks tail).symm.trans hhead.symm)
      obtain rfl : t = (stringToken s').lexeme := by
        obtain ⟨token, str⟩ := t
        rw [show token = .string from ht, show str = _ from hstr]
        rfl
      refine hbad (good_stringToken ?_)
      have hcons : removeComments (tomlKeyword ((stringToken s').lexeme :: toks)) =
          (stringToken s').lexeme :: removeComments (tomlKeyword toks) := rfl
      have hfirst : lexString (stringToken s').lexeme = some s' := tokenString_stringToken s'
      rw [hcons, List.filterMap_cons_some hfirst] at hstrings
      rwa [← (List.cons.inj hstrings).1]
  · -- a missing node, which begins no token
    rcases toks with _ | ⟨t, toks⟩
    · exact htail.head_ne hhead.symm
    · have hlex := hprinted.lexemes t List.mem_cons_self
      exact hlex.head_ne ((head?_texts hlex toks tail).symm.trans hhead.symm)

/-! ### Which dumps are read back -/

/-- An entry that is printed as it can be read: with a key, and strings that can be quoted. -/
structure AstEntry.Dumpable (node : AstEntry) : Prop where
  key : node.key ≠ none
  strings : ∀ s, node.HasString s → Quotable s

theorem quotable_of_good {s : CString} (h : (stringToken s).Good) : Quotable s := by
  obtain ⟨-, s', hs', heq⟩ := IsLexeme.exists_of_quote h rfl
  rwa [astNodeStringDump_injective heq]

theorem not_good_nullToken : ¬nullToken.Good := fun h ↦ h.head_ne rfl

/-- No zero is printed. -/
theorem zero_notMem_astNodeDump (nodes : List AstEntry) : 0 ∉ astNodeDump nodes := by
  rw [← tokenTexts_dumpTokens]
  intro hzero
  obtain ⟨tok, htok, h₀⟩ := List.mem_flatMap.1 hzero
  rcases dumpTokens_cases htok with hgood | ⟨s, rfl, -⟩ | ⟨rfl, -⟩
  · exact hgood.zero_notMem h₀
  · have hs := s.2
    simp only [stringToken_str, astNodeStringDump, List.cons_append, List.mem_cons,
      List.mem_append, List.not_mem_nil, or_false] at h₀
    rcases h₀ with h₀ | h₀ | h₀
    · exact absurd h₀ (by decide)
    · exact hs h₀
    · exact absurd h₀ (by decide)
  · exact absurd h₀ (by decide)

/-- A dump as a source. -/
def astNodeDumpSource (nodes : List AstEntry) : CString :=
  ⟨astNodeDump nodes, zero_notMem_astNodeDump nodes⟩

theorem documentText_astNodeDump_iff (nodes : List AstEntry) :
    DocumentText (astNodeDumpSource nodes) nodes ↔ nodes ≠ [] ∧ ∀ node ∈ nodes, node.Dumpable := by
  constructor
  · intro hdoc
    have hgood := good_of_readBack rfl hdoc
    have hmem {node : AstEntry} (hnode : node ∈ nodes) {tok : Token} (htok : tok ∈ node.tokens) :
        tok ∈ dumpTokens nodes := by
      rcases nodes with _ | ⟨n, nodes⟩
      · exact absurd hnode List.not_mem_nil
      · rcases List.mem_cons.1 hnode with rfl | hnode
        · exact List.mem_append_left _ htok
        · exact List.mem_append_right _
            (List.mem_flatMap.2 ⟨node, hnode, List.mem_cons_of_mem _ htok⟩)
    refine ⟨fun hnil ↦ ?_, fun node hnode ↦ ⟨fun hkey ↦ ?_, fun s hs ↦ ?_⟩⟩
    · subst hnil
      exact not_good_nullToken (hgood _ (List.mem_singleton_self _))
    · refine not_good_nullToken (hgood _ (hmem hnode ?_))
      rw [AstEntry.tokens, AstEntry.keyTokens, hkey]
      rcases node.value with _ | value <;> simp
    · exact quotable_of_good (hgood _ (hmem hnode (AstEntry.stringToken_mem hs)))
  · rintro ⟨hne, hdump⟩
    have hgood : ∀ tok ∈ dumpTokens nodes, tok.Good := by
      intro tok htok
      rcases dumpTokens_cases htok with hgood | ⟨s, rfl, node, hnode, hs⟩ |
        ⟨-, hnil | ⟨n, hn, hkey⟩⟩
      · exact hgood
      · exact good_stringToken ((hdump node hnode).strings s hs)
      · exact absurd hnil hne
      · exact absurd hkey (hdump n hn).key
    obtain ⟨node, rest, rfl⟩ := List.exists_cons_of_ne_nil hne
    exact ⟨_, hasTokens_of_good rfl hgood, isDocument_dumpTokens fun n hn ↦ (hdump n hn).key⟩

/-- **Which dumps are read back**: those of a document with an entry at least, in which every entry
has a key and every string can be quoted as it is. Loading one gives what `ast_node_gen` gives of
the tree it is made from: the same objects, the same error or, if an assertion fails, nothing. -/
theorem astNodeDump_readBack_iff (nodes : List AstEntry) :
    ((∃ list, tomlLexer (astNodeDumpSource nodes) true = some (.ok list) ∧
        tomlParse list = .ok nodes) ↔ nodes ≠ [] ∧ ∀ node ∈ nodes, node.Dumpable) ∧
      (nodes ≠ [] → (∀ node ∈ nodes, node.Dumpable) →
        tomlLoad (astNodeDumpSource nodes) =
          (astNodeEntryGen nodes).map (Except.mapError fun msg ↦ ⟨msg, 0⟩)) := by
  rw [← documentText_astNodeDump_iff]
  refine ⟨⟨fun ⟨list, hlist, hnodes⟩ ↦ ?_, fun ⟨list, hlist, hdoc⟩ ↦ ?_⟩, fun hne hdump ↦ ?_⟩
  · exact ⟨list, tomlLexer_eq_ok_iff.1 hlist, isDocument_of_tomlParse hnodes⟩
  · exact ⟨list, tomlLexer_eq_ok_iff.2 hlist,
      tomlParse_of_isDocument (noAdjacentSpaces_of_hasTokens hlist) hdoc⟩
  · exact tomlLoad_of_documentText ((documentText_astNodeDump_iff nodes).2 ⟨hne, hdump⟩)

-- a double quote in a string is printed as its end
example : tomlLexer (astNodeDumpSource
    [⟨some ⟨cstr [0x61], []⟩, some (.string (cstr [0x22]))⟩]) true = none := by decide

end Vmecs
