import Vmecs.Toml.Document
import Vmecs.Toml.Lexing

/-!
# Loading and looking up (`toml/toml.c`)

`toml_lexer` tells the keywords from the other identifiers and leaves the comments out, and what is
left goes to the parser. It reads the size of the list without a test for `NULL`, so that it does
not get to report an error of the lexer (`tomlLexer_of_error`), and its callers do not either.

Nothing at all is a failed assertion, or an access through `NULL`.
-/

namespace Vmecs

open Scanner

/-! ### `toml_lexer` -/

/-- `strncmp` gives 0: no difference in the first `n` characters, or up to a zero in both. -/
def strncmpEq (s t : CString) (n : ℕ) : Bool := s.1.take n = t.1.take n

/-- `"false"`. -/
def keywordFalse : CString := ⟨[0x66, 0x61, 0x6c, 0x73, 0x65], by decide⟩

/-- `"true"`. -/
def keywordTrue : CString := ⟨[0x74, 0x72, 0x75, 0x65], by decide⟩

/-- `keyword_table`. -/
def keywordTable : List (CString × TokenKind) := [(keywordFalse, .false), (keywordTrue, .true)]

/-- The class that `_toml_keyword` gives an identifier. -/
def keywordClass (str : Bytes) : TokenKind :=
  match keywordTable.find? fun entry ↦ strncmpEq entry.1 (cstr str) str.length with
  | some entry => entry.2
  | none => .id

/-- A turn of the loop of `_toml_keyword`. -/
def keywordToken (tok : LexToken TokenKind) : LexToken TokenKind :=
  if tok.token = .id then ⟨keywordClass tok.str, tok.str⟩ else tok

/-- `_toml_keyword`. -/
def tomlKeyword (list : List (LexToken TokenKind)) : List (LexToken TokenKind) :=
  list.map keywordToken

/-- The list without its comments. -/
def removeComments (list : List (LexToken TokenKind)) : List (LexToken TokenKind) :=
  list.filter fun tok ↦ tok.token ≠ .comment

/-- The string literals have their quotes. -/
def Quoted (list : List (LexToken TokenKind)) : Prop :=
  ∀ tok ∈ list, tok.token = .string → 2 ≤ tok.str.length

theorem quoted_of_tomlLex {src : CString} {err : Bool} {list : List (LexToken TokenKind)}
    (h : tomlLex src err = some (.ok list)) : Quoted list := by
  obtain ⟨tail, -, hprinted, -⟩ := tomlLex_eq_ok_iff.1 h
  intro tok htok hstring
  have hlex := hprinted.lexemes tok htok
  rw [hstring] at hlex
  match tok.str, hlex with
  | _, .string _ => simp

/-- An identifier is made a keyword, or left. -/
theorem keywordClass_cases (str : Bytes) :
    keywordClass str = .false ∨ keywordClass str = .true ∨ keywordClass str = .id := by
  rw [keywordClass]
  split
  case h_1 entry hfind =>
    have hmem := List.mem_of_find?_eq_some hfind
    simp only [keywordTable, List.mem_cons, List.not_mem_nil, or_false] at hmem
    rcases hmem with rfl | rfl <;> simp
  case h_2 => simp

theorem Quoted.toml {list : List (LexToken TokenKind)} (h : Quoted list) :
    Quoted (removeComments (tomlKeyword list)) := by
  intro tok htok hstring
  obtain ⟨tok', htok', rfl⟩ := List.mem_map.1 (List.mem_filter.1 htok).1
  rw [keywordToken] at hstring ⊢
  split at hstring
  case isTrue =>
    rcases keywordClass_cases tok'.str with hclass | hclass | hclass <;>
      exact absurd (hclass.symm.trans hstring) (by simp)
  case isFalse hid =>
    rw [if_neg hid]
    exact h tok' htok' hstring

/-- The tokens for the parser. -/
def parserTokens (list : List (LexToken TokenKind)) (h : Quoted list) : List Token :=
  list.pmap (fun tok quoted ↦ ⟨tok.token, tok.str, quoted⟩) fun tok htok ↦ h tok htok

/-- `toml_lexer`. The loop over the tokens reads `list->size` also when the lexer has returned
`NULL`. -/
def tomlLexer (src : CString) (err : Bool) : Option (Except LexerErr (List Token)) :=
  match h : tomlLex src err with
  | some (.ok list) =>
    some (.ok (parserTokens (removeComments (tomlKeyword list)) (quoted_of_tomlLex h).toml))
  | some (.error _) => none -- `list->size`
  | none => none

/-! ### `toml_load` and `toml_lookup` -/

/-- `toml_err_t`. -/
structure TomlErr where
  msg : String
  pos : ℕ
  deriving DecidableEq

/-- `toml_load`: the tables of the document with the root at address 0, or what is stored in `err`,
if that is given. -/
def tomlLoad (src : CString) : Option (Except TomlErr Heap) :=
  match tomlLexer src true with
  | none => none
  | some (.error lexErr) => some (.error ⟨lexErr.msg, lexErr.pos⟩)
  | some (.ok list) =>
    match tomlParse list with
    | .error msg => some (.error ⟨msg, 0⟩)
    | .ok node =>
      match astNodeEntryGen node with
      | none => none
      | some (.error msg) => some (.error ⟨msg, 0⟩)
      | some (.ok obj) => some (.ok obj)

/-- `toml_lookup`. -/
def tomlLookup (heap : Heap) (root : ℕ) (query : CString) : Option (Except TomlErr Object) :=
  match tomlLexer query true with
  | none => none
  | some (.error lexErr) => some (.error ⟨lexErr.msg, lexErr.pos⟩)
  | some (.ok list) =>
    match (svKey (list.length + 1)).run list with
    -- a match of all tokens
    | some (key, []) =>
      match tomlLookupPath heap root key.path with
      | .error msg => some (.error ⟨msg, 0⟩)
      | .ok obj => some (.ok obj)
    | _ => some (.error ⟨"query syntax error", 0⟩)

/-! ### The tokens of a source -/

/-- A token of the parser, as the lexer has made it. -/
def Token.lexeme (tok : Token) : LexToken TokenKind := ⟨tok.token, tok.str⟩

theorem map_lexeme_parserTokens {list : List (LexToken TokenKind)} (h : Quoted list) :
    (parserTokens list h).map Token.lexeme = list := by
  rw [parserTokens, List.map_pmap]
  exact List.pmap_eq_self.2 fun _ _ ↦ rfl

/-- What becomes of the tokens of the lexer. -/
theorem tomlLexer_of_ok {src : CString} {err : Bool} {toks : List (LexToken TokenKind)}
    (h : tomlLex src err = some (.ok toks)) : ∃ list, tomlLexer src err = some (.ok list) ∧
      list.map Token.lexeme = removeComments (tomlKeyword toks) := by
  refine ⟨parserTokens _ (quoted_of_tomlLex h).toml, ?_, map_lexeme_parserTokens _⟩
  rw [tomlLexer]
  split
  case h_1 list heq =>
    obtain rfl := Except.ok.inj (Option.some.inj (heq.symm.trans h))
    rfl
  case h_2 e heq => exact absurd (heq.symm.trans h) (by simp)
  case h_3 heq => exact absurd (heq.symm.trans h) (by simp)

/-! ### The errors of the lexer -/

/-- The size of the missing list is read. -/
theorem tomlLexer_of_error {src : CString} {err : Bool} {e : LexerErr}
    (h : tomlLex src err = some (.error e)) : tomlLexer src err = none := by
  rw [tomlLexer]
  split
  case h_1 list heq => exact absurd (heq.symm.trans h) (by simp)
  case h_2 => rfl
  case h_3 => rfl

theorem tomlLoad_of_lexer_none {src : CString} (h : tomlLexer src true = none) :
    tomlLoad src = none := by rw [tomlLoad, h]

theorem tomlLookup_of_lexer_none {query : CString} (h : tomlLexer query true = none) (heap : Heap)
    (root : ℕ) : tomlLookup heap root query = none := by rw [tomlLookup, h]

/-- When the lexer returns `NULL` without an `err`, it does so with one. -/
theorem tomlLex_true_of_error {src : CString} {err : Bool} {e : LexerErr}
    (h : tomlLex src err = some (.error e)) : tomlLex src true = some (.error e) := by
  rw [tomlLex_eq_run] at h ⊢
  obtain ⟨r, hr, hres⟩ := Option.bind_eq_some_iff.1 h
  rw [hr, Option.bind_some]
  match r with
  | .ok toks => exact absurd hres (by simp [lexerResult])
  | .error ((msg, matched), pos) =>
    -- it was not an error that is stored without a test
    rw [lexerResult] at hres ⊢
    split at hres
    case isTrue => exact absurd hres (by simp)
    case isFalse => simpa using hres

/-- A failed tokenization is reported: `toml_lexer` returns `NULL`, and so do its callers, with the
message and the position of the lexer. -/
structure FailureReported (src : CString) (err : Bool) (e : LexerErr) : Prop where
  lexer : tomlLexer src err = some (.error e)
  load : tomlLoad src = some (.error ⟨e.msg, e.pos⟩)
  lookup : ∀ heap root, tomlLookup heap root src = some (.error ⟨e.msg, e.pos⟩)

/-- **No failed tokenization is reported**: none of the three functions returns. -/
theorem not_failureReported {src : CString} {err : Bool} {e : LexerErr}
    (h : tomlLex src err = some (.error e)) :
    ¬FailureReported src err e ∧ tomlLexer src err = none ∧ tomlLoad src = none ∧
      ∀ heap root, tomlLookup heap root src = none := by
  have hlexer := tomlLexer_of_error h
  have hlexer' := tomlLexer_of_error (tomlLex_true_of_error h)
  refine ⟨fun hrep ↦ ?_, hlexer, tomlLoad_of_lexer_none hlexer', tomlLookup_of_lexer_none hlexer'⟩
  exact absurd (hlexer.symm.trans hrep.lexer) (by simp)

/-- A source with a character that begins no token: `a = @`. -/
def sampleUnrecognized : CString := ⟨[0x61, 0x20, 0x3d, 0x20, 0x40], by decide⟩

theorem not_failureReported_sampleUnrecognized :
    tomlLex sampleUnrecognized true = some (.error ⟨"unrecognized char", 4⟩) ∧
      tomlLoad sampleUnrecognized = none := by
  have hlex : tomlLex sampleUnrecognized true = some (.error ⟨"unrecognized char", 4⟩) := by decide
  exact ⟨hlex, (not_failureReported hlex).2.2.1⟩

/-- So not every failure is reported. -/
theorem not_forall_failureReported :
    ¬∀ src err e, tomlLex src err = some (.error e) → FailureReported src err e := by
  intro h
  have hlex : tomlLex sampleUnrecognized true = some (.error ⟨"unrecognized char", 4⟩) := by decide
  have hlexer := (h _ _ _ hlex).lexer
  rw [tomlLexer_of_error hlex] at hlexer
  exact absurd hlexer (by simp)

end Vmecs
