import Vmecs.Toml.Lexing

/-!
# The loop of the lexer (`toml/lexer.c`, `toml/toml.c`)

The loop of `lexer` as it is in the source: the patterns are texts, of which `_match` reads the
first character and fails an assertion when that is none of five, and a token is a place in the
source and a length. `lexerTurns` bounds the number of turns, and tells how the loop ends; where it
does, `lexer` gives what it says (`lexerLoop_of_lexerTurns`).

With the table of `toml_lexer` the loop ends (`tomlTurns_isSome_of_le`). An entry that unwinds
leaves the next character where it is, so the number of turns is bounded by what a state can still
do before it takes one (`turnsAt`): at most two turns end the token before and find the class of the
next, and the third takes it.
-/

namespace Vmecs

open Scanner

variable {σ τ : Type}

/-! ### Patterns -/

/-- A string literal, with its terminating zero. -/
def literal (s : String) : Bytes := s.toList.map (fun c ↦ UInt8.ofNat c.toNat) ++ [0]

/-- `_match`; it fails on the assertion behind the five kinds of patterns. The characters of a range
are ASCII, so that it does not matter whether a `char` has a sign. -/
def matchText (pattern : Bytes) (c : UInt8) : Option Bool :=
  match pattern.getD 0 0 with
  | 0x3d => some (c = pattern.getD 1 0)
  | 0x2d =>
    if pattern.getD 1 0 ≤ pattern.getD 2 0 then
      some (pattern.getD 1 0 ≤ c && c ≤ pattern.getD 2 0)
    else some (c ≤ pattern.getD 1 0 && pattern.getD 2 0 ≤ c)
  | 0x2e => some true
  | 0x24 => some (0x7f < c)
  | 0x7c => some (((pattern.drop 1).takeWhile fun p ↦ p ≠ 0).any fun p ↦ c = p)
  | _ => none

/-- The text of a pattern. -/
def Pattern.text : Pattern → Bytes
  | eq c => [0x3d, c, 0]
  | range c d => [0x2d, c, d, 0]
  | any => [0x2e, 0]
  | notAscii => [0x24, 0]
  | oneOf cs => 0x7c :: (cs ++ [0])

/-- The patterns of the `table` of `toml_lexer`. -/
def tomlPatterns : TomlState → List String
  | .init =>
    ["-az", "-AZ", "|_", "|-+", "-09", "=[", "=]", "==", "=.", "=;", "=#", "|\r\n", "| \t", "=\"",
      "='", "=\x00"]
  | .inId => ["-az", "-AZ", "-09", "|_-", "."]
  | .inSpace => ["| \t", "."]
  | .inNewline => ["|\r\n", "."]
  | .inDoubleStr => ["=\"", "=\\", "=\x00", "."]
  | .inDoubleStrEscape => ["."]
  | .inSingleStr => ["='", "=\\", "=\x00", "."]
  | .inSingleStrEscape => ["."]
  | .inInt => ["-09", "=_", "=.", "."]
  | .inFloat => ["-09", "=_", "=.", "."]
  | .inHashComment => ["|\r\n", "."]

/-! ### The loop -/

/-- `token_t`: a class, and a part of the source by its place and its length. -/
structure TokenSlice (τ : Type) where
  token : τ
  str : ℕ
  len : ℕ
  deriving DecidableEq

/-- The variables of `lexer`. -/
structure LexerVars (σ τ : Type) where
  state : σ
  i : ℕ
  j : ℕ
  ret : List (TokenSlice τ)

/-- How the loop ends. -/
inductive LexerEnd (τ : Type) where
  /-- the end of the source has been passed -/
  | done (ret : List (TokenSlice τ))
  /-- `return NULL`, with this in `err` if it is given -/
  | null (err : LexerErr)
  /-- a store to an `err` that is not given -/
  | noErr
  /-- the assertion of `_match` fails -/
  | assertion
  deriving DecidableEq

/-- The loop over the entries of a row: the first that matches, if there is one. -/
def findText (cur : UInt8) : List (Bytes × StateTrans σ τ) → Option (Option (StateTrans σ τ))
  | [] => some none
  | (pattern, entry) :: entries =>
    match matchText pattern cur with
    | none => none
    | some true => some (some entry)
    | some false => findText cur entries

/-- What a turn does with the entry that it has found. -/
def lexerAdvance (s : LexerVars σ τ) (entry : StateTrans σ τ) : LexerVars σ τ :=
  match entry.token with
  | none => { s with state := entry.next, i := if entry.unwind then s.i else s.i + 1 }
  | some token =>
    if entry.unwind then ⟨entry.next, s.i, s.i, s.ret ++ [⟨token, s.j, s.i - s.j⟩]⟩
    else ⟨entry.next, s.i + 1, s.i + 1, s.ret ++ [⟨token, s.j, s.i - s.j + 1⟩]⟩

/-- A turn of the loop; the row of a state is what the two tables have for it. -/
def lexerTurn (patterns : σ → List Bytes) (table : σ → StateRow σ τ) (src : CString) (err : Bool)
    (s : LexerVars σ τ) : LexerEnd τ ⊕ LexerVars σ τ :=
  match findText ((src.1 ++ [0]).getD s.i 0)
    ((patterns s.state).zip (table s.state).entries) with
  | none => .inl .assertion
  | some none => .inl (.null ⟨(table s.state).err.getD "lexer failed", s.i⟩)
  | some (some entry) =>
    match entry.err with
    | some msg => .inl (if err then .null ⟨msg, s.i⟩ else .noErr)
    | none => .inr (lexerAdvance s entry)

/-- The loop, in at most as many turns. -/
def lexerTurns (patterns : σ → List Bytes) (table : σ → StateRow σ τ) (src : CString) (err : Bool) :
    ℕ → LexerVars σ τ → Option (LexerEnd τ)
  | 0, s => if s.i = src.1.length + 1 then some (.done s.ret) else none
  | turns + 1, s =>
    if s.i = src.1.length + 1 then some (.done s.ret)
    else
      match lexerTurn patterns table src err s with
      | .inl e => some e
      | .inr s' => lexerTurns patterns table src err turns s'

/-- The loop of `toml_lexer`. -/
def tomlTurns (src : CString) (err : Bool) (turns : ℕ) : Option (LexerEnd TokenKind) :=
  lexerTurns (fun s ↦ (tomlPatterns s).map literal) tomlTable src err turns ⟨.init, 0, 0, []⟩

/-! ### Patterns by their texts -/

/-- What the patterns of a table have to satisfy: the zero at the end is the first. -/
def Pattern.Plain : Pattern → Prop
  | oneOf cs => 0 ∉ cs
  | _ => True

/-- **`_match` on the text of a pattern** fails no assertion. -/
theorem matchText_text {p : Pattern} (h : p.Plain) (c : UInt8) :
    matchText p.text c = some (p.matches c) := by
  match p with
  | .eq _ | .any | .notAscii => rfl
  | .range a b =>
    show (if a ≤ b then _ else _) = some (if a ≤ b then _ else _)
    split <;> rfl
  | .oneOf cs =>
    have hall : ∀ p ∈ cs, (decide (p ≠ 0)) = true := fun p hp ↦
      decide_eq_true fun h₀ ↦ h (h₀ ▸ hp)
    have htake : (cs ++ [0]).takeWhile (fun p ↦ decide (p ≠ 0)) = cs := by
      rw [List.takeWhile_append_of_pos hall, List.takeWhile_cons_of_neg (by decide),
        List.append_nil]
    show some (((cs ++ [0]).takeWhile fun p ↦ decide (p ≠ 0)).any fun p ↦ c = p) = _
    rw [htake]
    rfl

/-- The patterns of a table, as texts. -/
structure PatternsOf (patterns : σ → List Bytes) (table : σ → StateRow σ τ) : Prop where
  eq_map : ∀ s, patterns s = (table s).entries.map fun entry ↦ entry.pattern.text
  plain : ∀ s, ∀ entry ∈ (table s).entries, entry.pattern.Plain

theorem findText_zip {entries : List (StateTrans σ τ)} (h : ∀ entry ∈ entries, entry.pattern.Plain)
    (cur : UInt8) :
    findText cur ((entries.map fun entry ↦ entry.pattern.text).zip entries) =
      some (entries.find? fun entry ↦ entry.pattern.matches cur) := by
  induction entries with
  | nil => rfl
  | cons entry entries ih =>
    rw [List.map_cons, List.zip_cons_cons, findText, matchText_text (h entry List.mem_cons_self),
      List.find?_cons]
    match entry.pattern.matches cur with
    | true => rfl
    | false => exact ih fun e he ↦ h e (List.mem_cons_of_mem entry he)

theorem patternsOf_tomlTable : PatternsOf (fun s ↦ (tomlPatterns s).map literal) tomlTable where
  eq_map s := by cases s <;> rfl
  plain s := by
    cases s <;> simp [tomlTable, Pattern.Plain]

/-! ### The loop and the lexer -/

/-- A token with its text. -/
def TokenSlice.lexeme (src : CString) (tok : TokenSlice τ) : LexToken τ :=
  ⟨tok.token, srcText src tok.str tok.len⟩

/-- The variables, with the texts of the tokens. -/
def LexerVars.withTexts (src : CString) (s : LexerVars σ τ) : LexerState σ τ :=
  ⟨s.state, s.i, s.j, s.ret.map (·.lexeme src)⟩

/-- What `lexer` gives when the loop ends so. -/
def LexerEnd.result (src : CString) : LexerEnd τ → Option (Except LexerErr (List (LexToken τ)))
  | done ret => some (.ok (ret.map (·.lexeme src)))
  | null err => some (.error err)
  | noErr => none
  | assertion => none

theorem withTexts_lexerAdvance (src : CString) (s : LexerVars σ τ) (entry : StateTrans σ τ) :
    (lexerAdvance s entry).withTexts src = lexerNext src (s.withTexts src) entry := by
  obtain ⟨pattern, next, token, unwind, err⟩ := entry
  match token, unwind with
  | none, true | none, false => rfl
  | some token, true | some token, false =>
    simp [lexerAdvance, lexerNext, LexerVars.withTexts, TokenSlice.lexeme]

section

variable {patterns : σ → List Bytes} {table : σ → StateRow σ τ} {src : CString} {err : Bool}

/-- A turn, by the patterns themselves. -/
theorem PatternsOf.lexerTurn_eq (h : PatternsOf patterns table) (s : LexerVars σ τ) :
    lexerTurn patterns table src err s =
      match (table s.state).find ((src.1 ++ [0]).getD s.i 0) with
      | none => .inl (.null ⟨(table s.state).err.getD "lexer failed", s.i⟩)
      | some entry =>
        match entry.err with
        | some msg => .inl (if err then .null ⟨msg, s.i⟩ else .noErr)
        | none => .inr (lexerAdvance s entry) := by
  rw [lexerTurn, h.eq_map, findText_zip (h.plain s.state), StateRow.find]
  cases List.find? _ _ <;> rfl

/-- **What a turn does**: it ends the loop with an error, or goes on by an entry of the table. -/
theorem PatternsOf.lexerTurn_cases (h : PatternsOf patterns table) (s : LexerVars σ τ) :
    (∃ e, lexerTurn patterns table src err s = .inl e ∧ e ≠ .assertion ∧ ∀ toks, e ≠ .done toks) ∨
      ∃ entry, (table s.state).find ((src.1 ++ [0]).getD s.i 0) = some entry ∧ entry.err = none ∧
        lexerTurn patterns table src err s = .inr (lexerAdvance s entry) := by
  rw [h.lexerTurn_eq]
  cases hfind : (table s.state).find ((src.1 ++ [0]).getD s.i 0) with
  | none => exact .inl ⟨_, rfl, by simp, by simp⟩
  | some entry =>
    dsimp only
    cases herr : entry.err with
    | none => exact .inr ⟨entry, rfl, herr, rfl⟩
    | some msg => cases err <;> exact .inl ⟨_, rfl, by simp, by simp⟩

/-- A turn of the loop is a turn of the lexer. -/
theorem PatternsOf.lexerLoop_withTexts (h : PatternsOf patterns table) (fuel : ℕ)
    {s : LexerVars σ τ} (hi : s.i ≠ src.1.length + 1) :
    lexerLoop table src err (fuel + 1) (s.withTexts src) =
      match lexerTurn patterns table src err s with
      | .inl e => e.result src
      | .inr s' => lexerLoop table src err fuel (s'.withTexts src) := by
  rw [lexerLoop, if_neg (show (s.withTexts src).i ≠ src.1.length + 1 from hi), h.lexerTurn_eq]
  -- both go by the same entry
  show (match (table s.state).find ((src.1 ++ [0]).getD s.i 0) with
    | none => _
    | some entry => _) = _
  generalize (table s.state).find ((src.1 ++ [0]).getD s.i 0) = found
  cases found with
  | none => rfl
  | some entry =>
    dsimp only
    cases entry.err with
    | none =>
      dsimp only
      rw [withTexts_lexerAdvance]
    | some msg => cases err <;> rfl

/-- **The loop is that of the lexer**: where it ends, the lexer gives what it says. -/
theorem PatternsOf.lexerLoop_of_lexerTurns (h : PatternsOf patterns table) {turns : ℕ}
    {s : LexerVars σ τ} {e : LexerEnd τ}
    (hend : lexerTurns patterns table src err turns s = some e) :
    lexerLoop table src err (turns + 1) (s.withTexts src) = e.result src := by
  induction turns generalizing s with
  | zero =>
    rw [lexerTurns] at hend
    obtain ⟨hi, hdone⟩ := Option.ite_none_right_eq_some.1 hend
    rw [lexerLoop, if_pos (show (s.withTexts src).i = _ from hi), ← Option.some.inj hdone]
    rfl
  | succ turns ih =>
    rw [lexerTurns] at hend
    split at hend
    case isTrue hi =>
      rw [lexerLoop, if_pos (show (s.withTexts src).i = _ from hi), ← Option.some.inj hend]
      rfl
    case isFalse hi =>
      rw [h.lexerLoop_withTexts (turns + 1) hi]
      rcases hturn : lexerTurn patterns table src err s with e' | s'
      · rw [hturn] at hend
        rw [← Option.some.inj hend]
      · rw [hturn] at hend
        exact ih hend

/-- No turn fails the assertion. -/
theorem PatternsOf.lexerTurns_ne_assertion (h : PatternsOf patterns table) {turns : ℕ}
    {s : LexerVars σ τ} : lexerTurns patterns table src err turns s ≠ some .assertion := by
  induction turns generalizing s with
  | zero =>
    rw [lexerTurns]
    split <;> simp
  | succ turns ih =>
    rw [lexerTurns]
    split
    · simp
    · obtain ⟨e, hturn, hne, -⟩ | ⟨entry, -, -, hturn⟩ := h.lexerTurn_cases s
      · rw [hturn]
        exact mt Option.some.inj hne
      · rw [hturn]
        exact ih

end

/-! ### The number of turns -/

/-- As many turns as there are at most in a state before the character has been taken. -/
def turnsAt : TomlState → UInt8 → ℕ
  | .init, c => if isBreak c || isBlank c then 2 else 1
  | .inSpace, c => if isBlank c then 1 else 3
  | .inNewline, c => if isBreak c then 1 else 3
  | .inId, _ | .inInt, _ | .inFloat, _ | .inHashComment, _ => 3
  | .inDoubleStr, _ | .inDoubleStrEscape, _ | .inSingleStr, _ | .inSingleStrEscape, _ => 1

theorem turnsAt_pos (s : TomlState) (c : UInt8) : 0 < turnsAt s c := by
  cases s <;> simp only [turnsAt] <;> first | (split <;> decide) | decide

theorem turnsAt_le (s : TomlState) (c : UInt8) : turnsAt s c ≤ 3 := by
  cases s <;> simp only [turnsAt] <;> first | (split <;> decide) | decide

/-- The move leaves the character where it is, and goes to this state. -/
def Unwinds : Move TomlState TokenKind RowErr → TomlState → Prop
  | .stay s, s' | .cut _ s, s' => s' = s
  | _, _ => False

theorem unwinds_ite {p : Prop} [Decidable p] {m m' : Move TomlState TokenKind RowErr}
    {s : TomlState} :
    Unwinds (if p then m else m') s ↔ if p then Unwinds m s else Unwinds m' s := by
  split <;> rfl

/-- The initial state leaves a character that begins a line break or a space. -/
theorem unwinds_init {s' : TomlState} {c : UInt8} (h : Unwinds (tomlMove .init c) s') :
    isBreak c ∧ s' = .inNewline ∨ isBlank c ∧ s' = .inSpace := by
  rw [tomlMove_init] at h
  simp only [unwinds_ite] at h
  simp only [Unwinds, if_false_left] at h
  obtain ⟨-, -, -, -, -, -, -, -, h⟩ := h
  split at h
  case isTrue hbreak => exact .inl ⟨hbreak, h⟩
  case isFalse =>
    split at h
    case isTrue hblank => exact .inr ⟨hblank, h⟩
    case isFalse => exact absurd h (by simp)

/-- In a string literal every character is taken. -/
theorem not_unwinds_quote (q : Quote) {s' : TomlState} {c : UInt8} :
    ¬Unwinds (tomlMove q.state c) s' := by
  simp only [tomlMove_quote, unwinds_ite]
  simp [Unwinds]

theorem not_unwinds_escape (q : Quote) {s' : TomlState} {c : UInt8} :
    ¬Unwinds (tomlMove q.escape c) s' := by
  simp [tomlMove_escape, Unwinds]

theorem turnsAt_init_le (c : UInt8) : turnsAt .init c ≤ 2 := by
  simp only [turnsAt]
  split <;> decide

/-- **A turn that leaves the character** leaves fewer turns for it. -/
theorem turnsAt_lt_of_unwinds {s s' : TomlState} {c : UInt8} (h : Unwinds (tomlMove s c) s') :
    turnsAt s' c < turnsAt s c := by
  -- a token ends, and the next begins with the character
  have hcut (s s' : TomlState) (hs' : s' = .init) (hs : turnsAt s c = 3) :
      turnsAt s' c < turnsAt s c := by
    have := turnsAt_init_le c
    rw [hs', hs]
    omega
  cases s with
  | init => rcases unwinds_init h with ⟨hc, rfl⟩ | ⟨hc, rfl⟩ <;> simp [turnsAt, hc]
  | inId =>
    rw [tomlMove_inId, unwinds_ite] at h
    split at h
    · exact h.elim
    · exact hcut _ _ h rfl
  | inInt =>
    simp only [tomlMove_inInt, unwinds_ite] at h
    simp only [Unwinds, if_false_left] at h
    exact hcut _ _ h.2.2 rfl
  | inFloat =>
    simp only [tomlMove_inFloat, unwinds_ite] at h
    simp only [Unwinds, if_false_left] at h
    exact hcut _ _ h.2.2 rfl
  | inHashComment =>
    rw [tomlMove_inHashComment, unwinds_ite] at h
    split at h
    · exact hcut _ _ h rfl
    · exact h.elim
  | inSpace =>
    rw [tomlMove_inSpace, unwinds_ite] at h
    split at h
    · exact h.elim
    case isFalse hc => exact hcut _ _ h (if_neg hc)
  | inNewline =>
    rw [tomlMove_inNewline, unwinds_ite] at h
    split at h
    · exact h.elim
    case isFalse hc => exact hcut _ _ h (if_neg hc)
  | inDoubleStr => exact absurd h (not_unwinds_quote .double)
  | inDoubleStrEscape => exact absurd h (not_unwinds_escape .double)
  | inSingleStr => exact absurd h (not_unwinds_quote .single)
  | inSingleStrEscape => exact absurd h (not_unwinds_escape .single)

/-- An entry that unwinds is such a move. -/
theorem unwinds_of_find {s : TomlState} {c : UInt8} {entry : StateTrans TomlState TokenKind}
    (hfind : (tomlTable s).find c = some entry) (herr : entry.err = none)
    (hunwind : entry.unwind = true) : Unwinds (tomlMove s c) entry.next := by
  rw [tomlMove, tableMove, hfind]
  dsimp only
  rw [StateTrans.move, herr]
  cases entry.token with
  | none =>
    dsimp only
    rw [if_pos hunwind]
    rfl
  | some token =>
    dsimp only
    rw [if_pos hunwind]
    rfl

/-- The turns that are left at most: those for the next character, and three for each behind it. -/
def turnsLeft (src : CString) (s : LexerVars TomlState TokenKind) : ℕ :=
  if s.i = src.1.length + 1 then 0
  else turnsAt s.state ((src.1 ++ [0]).getD s.i 0) + 3 * (src.1.length - s.i)

theorem i_lexerAdvance (s : LexerVars σ τ) (entry : StateTrans σ τ) :
    (lexerAdvance s entry).i = if entry.unwind then s.i else s.i + 1 := by
  rw [lexerAdvance]
  cases entry.token with
  | none => rfl
  | some token => cases entry.unwind <;> rfl

theorem state_lexerAdvance (s : LexerVars σ τ) (entry : StateTrans σ τ) :
    (lexerAdvance s entry).state = entry.next := by
  rw [lexerAdvance]
  cases entry.token with
  | none => rfl
  | some token => cases entry.unwind <;> rfl

/-- **Each turn takes one of them.** -/
theorem turnsLeft_lexerAdvance {src : CString} {s : LexerVars TomlState TokenKind}
    (hi : s.i < src.1.length + 1) {entry : StateTrans TomlState TokenKind}
    (hfind : (tomlTable s.state).find ((src.1 ++ [0]).getD s.i 0) = some entry)
    (herr : entry.err = none) : turnsLeft src (lexerAdvance s entry) < turnsLeft src s := by
  have hpos := turnsAt_pos s.state ((src.1 ++ [0]).getD s.i 0)
  rw [turnsLeft, turnsLeft, if_neg hi.ne, i_lexerAdvance, state_lexerAdvance]
  cases hunwind : entry.unwind with
  | true =>
    -- the character stays
    have hlt := turnsAt_lt_of_unwinds (unwinds_of_find hfind herr hunwind)
    rw [if_pos rfl, if_neg hi.ne]
    omega
  | false =>
    -- it is taken, and there may be another one
    have hle := turnsAt_le entry.next ((src.1 ++ [0]).getD (s.i + 1) 0)
    rw [if_neg Bool.false_ne_true]
    split <;> omega

/-- **The loop ends**, in as many turns. -/
theorem tomlTurns_isSome_of_le {src : CString} (err : Bool) {turns : ℕ}
    {s : LexerVars TomlState TokenKind} (hi : s.i ≤ src.1.length + 1)
    (hturns : turnsLeft src s ≤ turns) :
    ∃ e, lexerTurns (fun s ↦ (tomlPatterns s).map literal) tomlTable src err turns s = some e := by
  induction turns generalizing s with
  | zero =>
    rw [lexerTurns]
    split
    · exact ⟨_, rfl⟩
    case isFalse hne =>
      have := turnsAt_pos s.state ((src.1 ++ [0]).getD s.i 0)
      rw [turnsLeft, if_neg hne] at hturns
      omega
  | succ turns ih =>
    rw [lexerTurns]
    split
    · exact ⟨_, rfl⟩
    case isFalse hne =>
      have hlt : s.i < src.1.length + 1 := Nat.lt_of_le_of_ne hi hne
      obtain ⟨e, hturn, -⟩ | ⟨entry, hfind, herr, hturn⟩ := patternsOf_tomlTable.lexerTurn_cases s
      · exact ⟨e, by rw [hturn]⟩
      · have hleft := turnsLeft_lexerAdvance hlt hfind herr
        rw [hturn]
        refine ih ?_ (by omega)
        rw [i_lexerAdvance]
        split <;> omega

/-! ### The places of the tokens -/

/-- The tokens lie one behind the other, from one place in the source to another. -/
def Tiles : ℕ → List (TokenSlice τ) → ℕ → Prop
  | start, [], stop => start = stop
  | start, tok :: toks, stop => tok.str = start ∧ Tiles (start + tok.len) toks stop

theorem Tiles.concat {start stop : ℕ} {toks : List (TokenSlice τ)} (h : Tiles start toks stop)
    (token : τ) (len : ℕ) : Tiles start (toks ++ [⟨token, stop, len⟩]) (stop + len) := by
  induction toks generalizing start with
  | nil => exact ⟨Eq.symm h, congrArg (· + len) h⟩
  | cons t toks ih => exact ⟨h.1, ih h.2⟩

theorem Tiles.le {start stop : ℕ} {toks : List (TokenSlice τ)} (h : Tiles start toks stop) :
    start ≤ stop := by
  induction toks generalizing start with
  | nil => exact Nat.le_of_eq h
  | cons t toks ih => exact (Nat.le_add_right _ _).trans (ih h.2)

/-- Their texts make up what is between the two. -/
theorem Tiles.length_texts {src : CString} {start stop : ℕ} {toks : List (TokenSlice τ)}
    (h : Tiles start toks stop) (hstop : stop ≤ src.1.length + 1) :
    start + (texts (toks.map (·.lexeme src))).length = stop := by
  induction toks generalizing start with
  | nil => exact h
  | cons t toks ih =>
    have hle := Tiles.le h.2
    have hlen : (t.lexeme src).str.length = t.len := by
      rw [TokenSlice.lexeme, srcText, List.length_take, List.length_drop, List.length_append,
        List.length_singleton, h.1]
      omega
    rw [List.map_cons, texts_cons, List.length_append, hlen, ← Nat.add_assoc]
    exact ih h.2

/-- The invariant of the loop: the tokens so far end where the next one begins. -/
structure LexerVars.Tiled (src : CString) (s : LexerVars σ τ) : Prop where
  tiles : Tiles 0 s.ret s.j
  j_le_i : s.j ≤ s.i
  i_le : s.i ≤ src.1.length + 1

theorem LexerVars.Tiled.advance {src : CString} {s : LexerVars σ τ} (h : s.Tiled src)
    (hi : s.i ≠ src.1.length + 1) (entry : StateTrans σ τ) : (lexerAdvance s entry).Tiled src := by
  have hj := h.j_le_i
  have hle := h.i_le
  rw [lexerAdvance]
  cases entry.token with
  | none =>
    refine ⟨h.tiles, ?_, ?_⟩
    · show s.j ≤ if entry.unwind then s.i else s.i + 1
      split <;> omega
    · show (if entry.unwind then s.i else s.i + 1) ≤ _
      split <;> omega
  | some token =>
    dsimp only
    split
    · -- up to the character
      have htiles := h.tiles.concat token (s.i - s.j)
      rw [show s.j + (s.i - s.j) = s.i by omega] at htiles
      exact ⟨htiles, le_rfl, hle⟩
    · -- with it
      have htiles := h.tiles.concat token (s.i - s.j + 1)
      rw [show s.j + (s.i - s.j + 1) = s.i + 1 by omega] at htiles
      exact ⟨htiles, le_rfl, by show s.i + 1 ≤ _; omega⟩

/-- The tokens of a loop that ends well. -/
theorem PatternsOf.tiles_of_lexerTurns {patterns : σ → List Bytes} {table : σ → StateRow σ τ}
    (hp : PatternsOf patterns table) {src : CString} {err : Bool} {turns : ℕ} {s : LexerVars σ τ}
    {toks : List (TokenSlice τ)} (h : s.Tiled src)
    (hend : lexerTurns patterns table src err turns s = some (.done toks)) :
    ∃ stop ≤ src.1.length + 1, Tiles 0 toks stop := by
  have hdone {s : LexerVars σ τ} (h : s.Tiled src) (hret : s.ret = toks) :
      ∃ stop ≤ src.1.length + 1, Tiles 0 toks stop :=
    ⟨s.j, h.j_le_i.trans h.i_le, hret ▸ h.tiles⟩
  induction turns generalizing s with
  | zero =>
    rw [lexerTurns] at hend
    obtain ⟨-, hdone'⟩ := Option.ite_none_right_eq_some.1 hend
    exact hdone h (LexerEnd.done.inj (Option.some.inj hdone'))
  | succ turns ih =>
    rw [lexerTurns] at hend
    split at hend
    case isTrue => exact hdone h (LexerEnd.done.inj (Option.some.inj hend))
    case isFalse hi =>
      obtain ⟨e, hturn, -, hne⟩ | ⟨entry, -, -, hturn⟩ := hp.lexerTurn_cases s
      · rw [hturn] at hend
        exact absurd (Option.some.inj hend) (hne toks)
      · rw [hturn] at hend
        exact ih (h.advance hi entry) hend

/-! ### The lexer of a document -/

/-- The tokens of a source: parts of it that are not empty, one behind the other from its first
character on. -/
def TilesSource (src : CString) (toks : List (TokenSlice TokenKind)) : Prop :=
  (∃ stop ≤ src.1.length, Tiles 0 toks stop) ∧ ∀ tok ∈ toks, 0 < tok.len

/-- What the loop finds is what the lexer does. -/
theorem tomlLex_of_tomlTurns {src : CString} {err : Bool} {e : LexerEnd TokenKind}
    (h : tomlTurns src err (3 * (src.1.length + 1)) = some e) :
    tomlLex src err = e.result src :=
  patternsOf_tomlTable.lexerLoop_of_lexerTurns h

/-- **The loop of the lexer ends** in three turns for each character and for the terminating zero,
without a failed assertion; and when it ends well, its tokens tile the source. -/
theorem tomlTurns_spec (src : CString) (err : Bool) :
    ∃ e, tomlTurns src err (3 * (src.1.length + 1)) = some e ∧ e ≠ .assertion ∧
      ∀ toks, e = .done toks → TilesSource src toks := by
  have hleft : turnsLeft src ⟨.init, 0, 0, []⟩ ≤ 3 * (src.1.length + 1) := by
    have := turnsAt_le .init ((src.1 ++ [0]).getD 0 0)
    rw [turnsLeft, if_neg (Nat.zero_ne_add_one _)]
    dsimp only
    omega
  obtain ⟨e, he⟩ := tomlTurns_isSome_of_le err (Nat.zero_le _) hleft
  refine ⟨e, he, ?_, ?_⟩
  · rintro rfl
    exact patternsOf_tomlTable.lexerTurns_ne_assertion he
  · rintro toks rfl
    have htiled : LexerVars.Tiled src (⟨.init, 0, 0, []⟩ : LexerVars TomlState TokenKind) :=
      ⟨rfl, le_rfl, Nat.zero_le _⟩
    obtain ⟨stop, hstop, htiles⟩ := patternsOf_tomlTable.tiles_of_lexerTurns htiled he
    -- the texts are those of the lexer, which are words at the front of the source
    obtain ⟨tail, hsrc, hprinted, -⟩ := tomlLex_eq_ok_iff.1 (tomlLex_of_tomlTurns he)
    have hlen := htiles.length_texts hstop
    refine ⟨⟨stop, ?_, htiles⟩, fun tok htok ↦ Nat.pos_of_ne_zero fun hzero ↦ ?_⟩
    · have := congrArg List.length hsrc
      rw [List.length_append] at this
      omega
    · have hpos := (hprinted.lexemes _ (List.mem_map_of_mem htok)).length_pos
      simp [TokenSlice.lexeme, srcText, hzero] at hpos

end Vmecs
