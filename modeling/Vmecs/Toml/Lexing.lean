import Vmecs.Toml.Lexemes

/-!
# What the lexer accepts

The lexer finds the tokens of any list that is printed with care (`tomlLex_texts`). The other way
round, a source is such a list up to a tail, at which the lexer comes to the end or gives up
(`exists_isPrinted`); so it is known which sources are accepted, and with what tokens
(`tomlLex_eq_ok_iff`).

Nothing of an accepted source is lost but a comment at its end, unless a string literal is cut off
behind a backslash (`losesNothing_iff`).
-/

namespace Vmecs

open Scanner

/-! ### Printed tokens are read -/

theorem exists_cons_append_zero (x : Bytes) : ∃ rest, x ++ [0] = x.headD 0 :: rest := by
  match x with
  | [] => exact ⟨[], rfl⟩
  | a :: x => exact ⟨x ++ [0], rfl⟩

theorem IsLexeme.length_pos {t : TokenKind} {w : Bytes} (h : IsLexeme t w) : 1 ≤ w.length := by
  cases h <;> simp

theorem IsPrinted.tail_isPrinted {tok : LexToken TokenKind} {toks : List (LexToken TokenKind)}
    {tail : Bytes} (h : IsPrinted (tok :: toks) tail) : IsPrinted toks tail where
  lexemes tok' htok' := h.lexemes tok' (List.mem_cons_of_mem _ htok')
  separated := h.separated.2

/-- **Printed tokens are read**, in three moves for each character at most. -/
theorem reaches_tokens {toks : List (LexToken TokenKind)} {tail : Bytes} (h : IsPrinted toks tail)
    (out : List (LexToken TokenKind)) :
    Reaches tomlMove (3 * (texts toks).length) ⟨.init, out, [], texts toks ++ (tail ++ [0])⟩
      ⟨.init, out ++ toks, [], tail ++ [0]⟩ := by
  induction toks generalizing out with
  | nil =>
    rw [List.append_nil]
    exact .refl _
  | cons tok toks ih =>
    -- the first token ends at the first character of the others, or of the tail
    have hlex := h.lexemes tok List.mem_cons_self
    have hpos := hlex.length_pos
    obtain ⟨rest, hrest⟩ := exists_cons_append_zero (texts toks ++ tail)
    have hfirst := reaches_token hlex out h.separated.1 rest
    have hothers := ih h.tail_isPrinted (out ++ [tok])
    rw [← hrest, List.append_assoc] at hfirst
    rw [List.append_assoc, List.singleton_append] at hothers
    rw [texts_cons, List.append_assoc]
    exact (hfirst.trans hothers).mono (by rw [List.length_append]; omega)

/-! ### The end of a source -/

/-- The lexer gives up on what is left. -/
def Stuck (x : Bytes) : Prop :=
  ∀ (out : List (LexToken TokenKind)) (fuel : ℕ), 2 * x.length < fuel →
    ∃ e, run tomlMove fuel ⟨.init, out, [], x ++ [0]⟩ = some (.error e)

/-- The characters up to one at which the lexer gives up. -/
theorem stuck_of_absorbsAll {w x : Bytes} {a : UInt8} {rest : Bytes} {s : TomlState} {e : RowErr}
    (h : AbsorbsAll tomlMove .init w s) (hfail : tomlMove s a = .fail e)
    (hx : x ++ [0] = w ++ a :: rest) : Stuck x := by
  intro out fuel hfuel
  have hlen := congrArg List.length hx
  simp only [List.length_append, List.length_cons, List.length_nil] at hlen
  obtain ⟨pos, hrun⟩ := h.run_fail hfail out rest (show 2 * w.length < fuel by omega)
  exact ⟨_, hx ▸ hrun⟩

/-- What can be left at the end is taken into a token that does not end. -/
theorem IsTail.absorbsAll {tail : Bytes} (h : IsTail tail) :
    ∃ s, AbsorbsAll tomlMove .init (tail ++ [0]) s := by
  cases h with
  | nil => exact ⟨_, .cons (.shift rfl) .nil⟩
  | comment hw =>
    have hall := absorbsAll_inHashComment fun a ha ↦ (hw a ha).1
    exact ⟨_, .cons (.shift rfl) (hall.append (.cons (.shift rfl) .nil))⟩
  | @escape q body hbody =>
    have hopen : Absorbs tomlMove .init q.char q.state := .shift (tomlMove_init_quote q)
    have hslash : Absorbs tomlMove q.state 0x5c q.escape := .shift (by cases q <;> rfl)
    have hall := (AbsorbsAll.cons hopen (absorbsAll_stringBody hbody)).append
      (.cons hslash (.cons (.shift (tomlMove_escape q 0)) .nil))
    exact ⟨_, by simpa using hall⟩

/-- The body of a string, up to its end or that of the source. -/
theorem stringBody_cases (q : Quote) : ∀ {y : Bytes}, 0 ∉ y → ∃ body, IsStringBody q body ∧
    (y = body ∨ y = body ++ [0x5c] ∨ ∃ rest, y = body ++ q.char :: rest)
  | [], _ => ⟨[], .nil, .inl rfl⟩
  | c :: y, h => by
    have hc : c ≠ 0 := fun hc ↦ h (hc ▸ List.mem_cons_self)
    by_cases hq : c = q.char
    · exact ⟨[], .nil, .inr (.inr ⟨y, by rw [hq]; rfl⟩)⟩
    · by_cases hb : c = 0x5c
      · -- the character behind the backslash is taken whatever it is, if there is one
        subst hb
        match y, h with
        | [], _ => exact ⟨[], .nil, .inr (.inl rfl)⟩
        | d :: y, h =>
          have hd : d ≠ 0 := fun hd ↦ h (hd ▸ List.mem_cons_of_mem _ List.mem_cons_self)
          obtain ⟨body, hbody, hy⟩ := stringBody_cases q (y := y) fun h₀ ↦
            h (List.mem_cons_of_mem _ (List.mem_cons_of_mem _ h₀))
          refine ⟨0x5c :: d :: body, .escape hd hbody, ?_⟩
          rcases hy with rfl | rfl | ⟨rest, rfl⟩
          · exact .inl rfl
          · exact .inr (.inl rfl)
          · exact .inr (.inr ⟨rest, rfl⟩)
      · obtain ⟨body, hbody, hy⟩ := stringBody_cases q (y := y) fun h₀ ↦
          h (List.mem_cons_of_mem _ h₀)
        refine ⟨c :: body, .char hq hb hc hbody, ?_⟩
        rcases hy with rfl | rfl | ⟨rest, rfl⟩
        · exact .inl rfl
        · exact .inr (.inl rfl)
        · exact .inr (.inr ⟨rest, rfl⟩)

/-- An unclosed literal. -/
theorem stuck_stringBody {q : Quote} {body : Bytes} (h : IsStringBody q body) :
    Stuck (q.char :: body) := by
  have hopen : Absorbs tomlMove .init q.char q.state := .shift (tomlMove_init_quote q)
  have hfail : tomlMove q.state 0 = .fail (q.unclosed, true) := by cases q <;> rfl
  exact stuck_of_absorbsAll (.cons hopen (absorbsAll_stringBody h)) hfail rfl

/-! ### The first token of a source -/

/-- The characters of a class at the front. -/
theorem exists_span (p : UInt8 → Bool) (y : Bytes) :
    ∃ w y', y = w ++ y' ∧ (∀ a ∈ w, p a) ∧ ∀ a ∈ y'.head?, p a = false := by
  refine ⟨y.takeWhile p, y.dropWhile p, List.takeWhile_append_dropWhile.symm,
    fun a ha ↦ List.mem_takeWhile_imp ha, fun a ha ↦ ?_⟩
  have hnot := List.head?_dropWhile_not p y
  rw [Option.mem_def.1 ha] at hnot
  exact hnot

/-- The next character is not of the class, and the terminating zero is of none. -/
theorem headD_eq_false {p : UInt8 → Bool} (hp : p 0 = false) {y : Bytes}
    (h : ∀ a ∈ y.head?, p a = false) : p (y.headD 0) = false := by
  match y with
  | [] => exact hp
  | a :: y => exact h a rfl

/-- What the lexer finds at the front of a source: its end, an error, or a token. -/
def Starts (x : Bytes) : Prop :=
  IsTail x ∨ Stuck x ∨
    ∃ t w x', IsLexeme t w ∧ x = w ++ x' ∧ continues t (x'.headD 0) = false

/-- A token of characters of one class. -/
theorem starts_of_class {t : TokenKind} {p : UInt8 → Bool} {c : UInt8} (hp : p 0 = false)
    (ht : ∀ a, p a = false → continues t a = false)
    (hlex : ∀ w, (∀ a ∈ w, p a) → IsLexeme t (c :: w)) (y : Bytes) : Starts (c :: y) := by
  obtain ⟨w, y', rfl, hw, hy'⟩ := exists_span p y
  exact .inr (.inr ⟨t, c :: w, y', hlex w hw, rfl, ht _ (headD_eq_false hp hy')⟩)

theorem starts_of_isNumStart {c : UInt8} (hc : isNumStart c) (y : Bytes) : Starts (c :: y) := by
  obtain ⟨w, y', rfl, hw, hy'⟩ := exists_span isNumChar y
  have hint := AbsorbsAll.cons (absorbs_numStart hc) (absorbsAll_inInt hw)
  by_cases hdot : y'.headD 0 = 0x2e
  · -- a point makes it a floating point number, and another one an error
    match y', hdot with
    | _ :: z, rfl =>
      obtain ⟨w', z', rfl, hw', hz'⟩ := exists_span isNumChar z
      have hpoint : Absorbs tomlMove .inInt 0x2e .inFloat := .shift rfl
      by_cases hdot' : z'.headD 0 = 0x2e
      · -- a second point
        match z', hdot' with
        | _ :: r, rfl =>
          have hfloat := hint.append (.cons hpoint (absorbsAll_inFloat hw'))
          have hfail : tomlMove .inFloat 0x2e = .fail ("more than one floating point", true) := rfl
          have hx : c :: (w ++ 0x2e :: (w' ++ 0x2e :: r)) ++ [0] =
              c :: w ++ 0x2e :: w' ++ 0x2e :: (r ++ [0]) := by simp
          exact .inr (.inl (stuck_of_absorbsAll hfloat hfail hx))
      · refine .inr (.inr ⟨.float, _, z', .float hc hw hw', by simp, ?_⟩)
        rw [continues, headD_eq_false rfl hz', decide_eq_false hdot']
        rfl
  · refine .inr (.inr ⟨.int, c :: w, y', .int hc hw, rfl, ?_⟩)
    rw [continues, headD_eq_false rfl hy', decide_eq_false hdot]
    rfl

theorem starts_of_quote (q : Quote) {y : Bytes} (h₀ : 0 ∉ y) : Starts (q.char :: y) := by
  obtain ⟨body, hbody, rfl | rfl | ⟨rest, rfl⟩⟩ := stringBody_cases q h₀
  · exact .inr (.inl (stuck_stringBody hbody))
  · exact .inl (.escape hbody)
  · exact .inr (.inr ⟨.string, q.char :: body ++ [q.char], rest, .string hbody, by simp, rfl⟩)

theorem starts_of_hash {y : Bytes} (h₀ : 0 ∉ y) : Starts (0x23 :: y) := by
  obtain ⟨w, y', rfl, hw, hy'⟩ := exists_span (fun a ↦ !isBreak a) y
  have hw' : ∀ a ∈ w, isBreak a = false ∧ a ≠ 0 := fun a ha ↦
    ⟨by simpa using hw a ha, fun h ↦ h₀ (h ▸ List.mem_append_left y' ha)⟩
  match y' with
  | [] =>
    rw [List.append_nil]
    exact .inl (.comment hw')
  | a :: y' => exact .inr (.inr ⟨.comment, 0x23 :: w, a :: y', .comment hw', rfl, hy' a rfl⟩)

/-- **The first token.** -/
theorem starts {x : Bytes} (h₀ : 0 ∉ x) : Starts x := by
  match x with
  | [] => exact .inl .nil
  | c :: y =>
    have hc : c ≠ 0 := fun h ↦ h₀ (h ▸ List.mem_cons_self)
    have hy : 0 ∉ y := fun h ↦ h₀ (List.mem_cons_of_mem c h)
    -- the cases of the row of the initial state
    have hone (t : TokenKind) (hlex : IsLexeme t [c]) (ht : ∀ a, continues t a = false) :
        Starts (c :: y) := .inr (.inr ⟨t, [c], y, hlex, rfl, ht _⟩)
    by_cases hid : isIdStart c
    · exact starts_of_class rfl (fun _ h ↦ h) (fun w hw ↦ .id hid hw) y
    by_cases hnum : isNumStart c
    · exact starts_of_isNumStart hnum y
    by_cases hlbrack : c = 0x5b
    · exact hone .lbrack (by rw [hlbrack]; exact .lbrack) fun _ ↦ rfl
    by_cases hrbrack : c = 0x5d
    · exact hone .rbrack (by rw [hrbrack]; exact .rbrack) fun _ ↦ rfl
    by_cases heq : c = 0x3d
    · exact hone .eq (by rw [heq]; exact .eq) fun _ ↦ rfl
    by_cases hdot : c = 0x2e
    · exact hone .dot (by rw [hdot]; exact .dot) fun _ ↦ rfl
    by_cases hsemicolon : c = 0x3b
    · exact hone .semicolon (by rw [hsemicolon]; exact .semicolon) fun _ ↦ rfl
    by_cases hhash : c = 0x23
    · exact hhash ▸ starts_of_hash hy
    by_cases hbreak : isBreak c
    · exact starts_of_class rfl (fun _ h ↦ h) (fun w hw ↦ .newline hbreak hw) y
    by_cases hblank : isBlank c
    · exact starts_of_class rfl (fun _ h ↦ h) (fun w hw ↦ .space hblank hw) y
    by_cases hdouble : c = 0x22
    · exact hdouble ▸ starts_of_quote .double hy
    by_cases hsingle : c = 0x27
    · exact hsingle ▸ starts_of_quote .single hy
    · have hfail : tomlMove .init c = .fail ("unrecognized char", false) := by
        rw [tomlMove_init, if_neg hid, if_neg hnum, if_neg hlbrack, if_neg hrbrack, if_neg heq,
          if_neg hdot, if_neg hsemicolon, if_neg hhash, if_neg hbreak, if_neg hblank,
          if_neg hdouble, if_neg hsingle, if_neg hc]
      exact .inr (.inl (stuck_of_absorbsAll .nil hfail rfl))

/-- **Every source is printed tokens** up to where the lexer comes to the end or gives up. -/
theorem exists_isPrinted {x : Bytes} (h₀ : 0 ∉ x) :
    ∃ toks tail, x = texts toks ++ tail ∧ IsPrinted toks tail ∧ (IsTail tail ∨ Stuck tail) := by
  -- by induction on the length, since no token is empty
  induction hn : x.length using Nat.strong_induction_on generalizing x with
  | _ n ih =>
    rcases starts h₀ with htail | hstuck | ⟨t, w, x', hlex, rfl, hnext⟩
    · exact ⟨[], x, rfl, ⟨by simp, trivial⟩, .inl htail⟩
    · exact ⟨[], x, rfl, ⟨by simp, trivial⟩, .inr hstuck⟩
    · have hpos := hlex.length_pos
      rw [List.length_append] at hn
      obtain ⟨toks, tail, rfl, hprinted, hend⟩ := ih x'.length (by omega)
        (fun h ↦ h₀ (List.mem_append_right w h)) rfl
      refine ⟨⟨t, w⟩ :: toks, tail, (List.append_assoc _ _ _).symm, ⟨?_, hnext, hprinted.separated⟩,
        hend⟩
      intro tok htok
      rcases List.mem_cons.1 htok with rfl | htok
      · exact hlex
      · exact hprinted.lexemes tok htok

/-! ### What is accepted -/

theorem tomlLex_eq_run (src : CString) (err : Bool) : tomlLex src err =
    (run tomlMove (tomlFuel src) ⟨.init, [], [], src.1 ++ [0]⟩).bind (lexerResult err) :=
  lexer_eq_run tomlTable .init (tomlFuel src) src err

section

variable {src : CString} {toks : List (LexToken TokenKind)} {tail : Bytes}

/-- The run is over the tokens, and two moves for each character behind them are left. -/
theorem run_of_isPrinted (hsrc : src.1 = texts toks ++ tail) (h : IsPrinted toks tail) :
    ∃ fuel, 2 * (tail.length + 1) < fuel ∧
      run tomlMove (tomlFuel src) ⟨.init, [], [], src.1 ++ [0]⟩ =
        run tomlMove fuel ⟨.init, toks, [], tail ++ [0]⟩ := by
  have hlen := congrArg List.length hsrc
  rw [List.length_append] at hlen
  have hreach := reaches_tokens h []
  rw [← List.append_assoc, ← hsrc] at hreach
  obtain ⟨fuel, hfuel, hrun⟩ :=
    run_of_reaches hreach (show 3 * (texts toks).length ≤ tomlFuel src by rw [tomlFuel]; omega)
  rw [tomlFuel] at hfuel
  exact ⟨fuel, by omega, hrun⟩

/-- Tokens with the end behind them are what the lexer finds. -/
theorem tomlLex_of_isTail (hsrc : src.1 = texts toks ++ tail) (h : IsPrinted toks tail)
    (htail : IsTail tail) (err : Bool) : tomlLex src err = some (.ok toks) := by
  obtain ⟨fuel, hfuel, hrun⟩ := run_of_isPrinted hsrc h
  obtain ⟨s, habsorbs⟩ := htail.absorbsAll
  rw [tomlLex_eq_run, hrun, habsorbs.run_nil toks (by simpa using hfuel)]
  rfl

/-- Tokens with something else behind them are not accepted. -/
theorem tomlLex_of_stuck (hsrc : src.1 = texts toks ++ tail) (h : IsPrinted toks tail)
    (htail : Stuck tail) (err : Bool) : ∃ e, tomlLex src err = lexerResult err (.error e) := by
  obtain ⟨fuel, hfuel, hrun⟩ := run_of_isPrinted hsrc h
  obtain ⟨e, he⟩ := htail toks fuel (by omega)
  exact ⟨e, by rw [tomlLex_eq_run, hrun, he]; rfl⟩

end

theorem lexerResult_error_ne_ok (err : Bool) (e : RowErr × ℕ) (toks : List (LexToken TokenKind)) :
    lexerResult err (.error e) ≠ some (.ok toks) := by
  obtain ⟨⟨msg, matched⟩, pos⟩ := e
  rw [lexerResult]
  split <;> simp

/-- **What the lexer accepts**: printed tokens, with the end of a source behind them. -/
theorem tomlLex_eq_ok_iff {src : CString} {err : Bool} {toks : List (LexToken TokenKind)} :
    tomlLex src err = some (.ok toks) ↔
      ∃ tail, src.1 = texts toks ++ tail ∧ IsPrinted toks tail ∧ IsTail tail := by
  refine ⟨fun h ↦ ?_, fun ⟨tail, hsrc, hprinted, htail⟩ ↦ tomlLex_of_isTail hsrc hprinted htail err⟩
  -- the source has such tokens, and the lexer finds these
  obtain ⟨toks', tail, hsrc, hprinted, htail | hstuck⟩ := exists_isPrinted src.2
  · rw [tomlLex_of_isTail hsrc hprinted htail err, Option.some_inj, Except.ok.injEq] at h
    subst h
    exact ⟨tail, hsrc, hprinted, htail⟩
  · obtain ⟨e, he⟩ := tomlLex_of_stuck hsrc hprinted hstuck err
    exact absurd (he.symm.trans h) (lexerResult_error_ne_ok err e toks)

/-- With an `err` the lexer comes to a result, and returns `NULL` when it does not accept. -/
theorem tomlLex_error_of_stuck {src : CString} {toks : List (LexToken TokenKind)} {tail : Bytes}
    (hsrc : src.1 = texts toks ++ tail) (h : IsPrinted toks tail) (htail : Stuck tail) :
    ∃ e, tomlLex src true = some (.error e) := by
  obtain ⟨⟨⟨msg, matched⟩, pos⟩, he⟩ := tomlLex_of_stuck hsrc h htail true
  refine ⟨⟨msg, pos⟩, ?_⟩
  rw [he, lexerResult, Bool.not_true, Bool.and_false]
  rfl

/-! ### Lexing undoes printing -/

theorem IsStringBody.zero_notMem {q : Quote} {body : Bytes} (h : IsStringBody q body) :
    0 ∉ body := by
  induction h with
  | nil => exact List.not_mem_nil
  | char _ _ h₀ _ ih => exact List.not_mem_cons_of_ne_of_not_mem h₀.symm ih
  | escape h₀ _ ih =>
    exact List.not_mem_cons_of_ne_of_not_mem (by decide)
      (List.not_mem_cons_of_ne_of_not_mem h₀.symm ih)

/-- The characters of a class with no zero in it. -/
theorem zero_notMem_of_class {p : UInt8 → Bool} (hp : p 0 = false) {w : Bytes}
    (hw : ∀ a ∈ w, p a) : 0 ∉ w :=
  fun h ↦ Bool.false_ne_true (hp.symm.trans (hw 0 h))

/-- And with one of another class before them. -/
theorem zero_notMem_cons {p p' : UInt8 → Bool} (hp : p 0 = false) (hp' : p' 0 = false) {c : UInt8}
    {w : Bytes} (hc : p c) (hw : ∀ a ∈ w, p' a) : 0 ∉ c :: w :=
  List.not_mem_cons_of_ne_of_not_mem (fun h ↦ Bool.false_ne_true (hp.symm.trans (h ▸ hc)))
    (zero_notMem_of_class hp' hw)

theorem IsLexeme.zero_notMem {t : TokenKind} {w : Bytes} (h : IsLexeme t w) : 0 ∉ w := by
  cases h with
  | lbrack | rbrack | dot | eq | semicolon => decide
  | newline hc hw => exact zero_notMem_cons rfl rfl hc hw
  | space hc hw => exact zero_notMem_cons rfl rfl hc hw
  | id hc hw => exact zero_notMem_cons rfl rfl hc hw
  | int hc hw => exact zero_notMem_cons rfl rfl hc hw
  | float hc hw hw' =>
    exact fun h ↦ (List.mem_append.1 h).elim (zero_notMem_cons rfl rfl hc hw)
      (List.not_mem_cons_of_ne_of_not_mem (by decide) (zero_notMem_of_class rfl hw'))
  | @string q body hbody =>
    have hq : 0 ≠ q.char := by cases q <;> decide
    simp [hq, hbody.zero_notMem]
  | comment hw =>
    exact List.not_mem_cons_of_ne_of_not_mem (by decide) fun h ↦ (hw 0 h).2 rfl

theorem IsPrinted.zero_notMem {toks : List (LexToken TokenKind)} {tail : Bytes}
    (h : IsPrinted toks tail) : 0 ∉ texts toks := by
  intro h₀
  obtain ⟨tok, htok, hmem⟩ := List.mem_flatMap.1 h₀
  exact (h.lexemes tok htok).zero_notMem hmem

/-- **Lexing undoes printing.** -/
theorem tomlLex_texts {toks : List (LexToken TokenKind)} (h : IsPrinted toks []) (err : Bool) :
    tomlLex ⟨texts toks, h.zero_notMem⟩ err = some (.ok toks) :=
  tomlLex_of_isTail (List.append_nil _).symm h .nil err

/-- Tokens of every class. -/
def sampleLexemes : List (LexToken TokenKind) :=
  [⟨.lbrack, [0x5b]⟩, ⟨.id, [0x61, 0x2d]⟩, ⟨.dot, [0x2e]⟩, ⟨.id, [0x5f]⟩, ⟨.rbrack, [0x5d]⟩,
    ⟨.comment, [0x23, 0x22]⟩, ⟨.newline, [0x0d, 0x0a]⟩, ⟨.string, [0x27, 0x5c, 0x27, 0x27]⟩,
    ⟨.eq, [0x3d]⟩, ⟨.int, [0x2d, 0x31, 0x5f]⟩, ⟨.space, [0x20, 0x09]⟩, ⟨.semicolon, [0x3b]⟩,
    ⟨.string, [0x22, 0x27, 0x22]⟩, ⟨.float, [0x30, 0x2e]⟩]

theorem isPrinted_sampleLexemes : IsPrinted sampleLexemes [] where
  lexemes := by
    have hsingle : IsStringBody .single [0x5c, 0x27] := .escape (by decide) .nil
    have hdouble : IsStringBody .double [0x27] := .char (by decide) (by decide) (by decide) .nil
    have hfloat : IsLexeme .float ([0x30] ++ [0x2e]) :=
      .float rfl (List.forall_mem_nil _) (List.forall_mem_nil _)
    have hcomment : IsLexeme .comment [0x23, 0x22] :=
      .comment (List.forall_mem_singleton.2 ⟨rfl, by decide⟩)
    simp only [sampleLexemes, List.forall_mem_cons]
    exact ⟨.lbrack, .id rfl (List.all_eq_true.1 rfl), .dot, .id rfl (List.all_eq_true.1 rfl),
      .rbrack, hcomment, .newline rfl (List.all_eq_true.1 rfl), .string hsingle, .eq,
      .int rfl (List.all_eq_true.1 rfl), .space rfl (List.all_eq_true.1 rfl), .semicolon,
      .string hdouble, hfloat, List.forall_mem_nil _⟩
  separated := ⟨rfl, rfl, rfl, rfl, rfl, rfl, rfl, rfl, rfl, rfl, rfl, rfl, rfl, rfl, trivial⟩

theorem tomlLex_texts_sampleLexemes :
    tomlLex ⟨texts sampleLexemes, isPrinted_sampleLexemes.zero_notMem⟩ true =
      some (.ok sampleLexemes) :=
  tomlLex_texts isPrinted_sampleLexemes true

/-! ### What is lost -/

/-- Behind this quote, the literal does not end. -/
def Unclosed (q : Quote) (y : Bytes) : Prop :=
  ∀ body rest, IsStringBody q body → y ≠ body ++ q.char :: rest

/-- A source that is not accepted with anything lost: the tokens make up all of it but a comment at
the end, and with a string literal that does not end it is rejected. -/
structure LosesNothing (src : CString) : Prop where
  all : ∀ err toks, tomlLex src err = some (.ok toks) →
    src.1 = texts toks ∨ ∃ w, (∀ a ∈ w, isBreak a = false) ∧ src.1 = texts toks ++ 0x23 :: w
  unclosed : ∀ toks q y, src.1 = texts toks ++ q.char :: y → IsPrinted toks (q.char :: y) →
    Unclosed q y → ∃ e, tomlLex src true = some (.error e)

/-- The source ends in a string literal, behind a backslash that would escape the next
character. -/
def EndsInEscape (src : CString) : Prop :=
  ∃ toks q body, src.1 = texts toks ++ (q.char :: body ++ [0x5c]) ∧
    IsPrinted toks (q.char :: body ++ [0x5c]) ∧ IsStringBody q body

/-- **What the lexer loses**: a literal whose last backslash takes the terminating zero as the
character it escapes. -/
theorem losesNothing_iff (src : CString) : LosesNothing src ↔ ¬EndsInEscape src := by
  refine ⟨fun h ⟨toks, q, body, hsrc, hprinted, hbody⟩ ↦ ?_, fun h ↦ ⟨?_, ?_⟩⟩
  · -- the literal is in none of the tokens, and does not begin as a comment does
    have hok := tomlLex_of_isTail hsrc hprinted (.escape hbody) true
    rcases h.all true toks hok with hall | ⟨w, -, hall⟩
    · exact absurd (hsrc.symm.trans hall) (by simp)
    · have htail := List.append_cancel_left (hsrc.symm.trans hall)
      have hquote : q.char = 0x23 := (List.cons.inj htail).1
      exact absurd hquote (by cases q <;> decide)
  · intro err toks hok
    obtain ⟨tail, hsrc, hprinted, htail⟩ := tomlLex_eq_ok_iff.1 hok
    match tail, htail with
    | _, .nil => exact .inl (by rw [hsrc, List.append_nil])
    | _, .comment hw => exact .inr ⟨_, fun a ha ↦ (hw a ha).1, hsrc⟩
    | _, .escape hbody => exact absurd ⟨toks, _, _, hsrc, hprinted, hbody⟩ h
  · intro toks q y hsrc hprinted hunclosed
    have hy : 0 ∉ y := fun h₀ ↦
      src.2 (hsrc ▸ List.mem_append_right _ (List.mem_cons_of_mem _ h₀))
    -- it runs up to the end of the source: on a character of its own, or on a backslash
    obtain ⟨body, hbody, rfl | rfl | ⟨rest, rfl⟩⟩ := stringBody_cases q hy
    · exact tomlLex_error_of_stuck hsrc hprinted (stuck_stringBody hbody)
    · exact absurd ⟨toks, q, body, hsrc, hprinted, hbody⟩ h
    · exact absurd rfl (hunclosed body rest hbody)

/-- The source `"abc\`: the lexer accepts it with no token at all. -/
def sampleEscape : CString := ⟨[0x22, 0x61, 0x62, 0x63, 0x5c], by decide⟩

theorem not_losesNothing_sampleEscape :
    tomlLex sampleEscape true = some (.ok []) ∧ ¬LosesNothing sampleEscape := by
  have hok : tomlLex sampleEscape true = some (.ok []) := by decide
  refine ⟨hok, fun h ↦ ?_⟩
  rcases h.all true [] hok with hall | ⟨w, -, hall⟩
  · exact absurd hall (by decide)
  · exact absurd (List.cons.inj hall).1 (by decide)

end Vmecs
