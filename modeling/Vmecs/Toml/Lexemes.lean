import Vmecs.Toml.Lexer
import Vmecs.Toml.Parser

/-!
# The tokens of a document (`toml/toml.c`)

The table of `toml_lexer`, and the tokens that it makes. What the table does in a state is said once
(`tomlMove_init` and those behind it), in terms of classes of characters; and the texts of each
class of tokens are a grammar (`IsLexeme`), which the table follows: a token is read up to the first
character that does not continue it (`reaches_token`).

The two kinds of string literals have a state for each that does the same, and the proofs are over
both (`Quote`).
-/

namespace Vmecs

open Scanner

/-! ### The table -/

/-- The `S_` constants. -/
inductive TomlState where
  | init | inId | inSpace | inNewline
  | inDoubleStr | inDoubleStrEscape
  | inSingleStr | inSingleStrEscape
  | inInt | inFloat
  | inHashComment
  deriving DecidableEq

/-- The `table` of `toml_lexer`, with the pattern of each entry as it is in the source. -/
def tomlTable : TomlState → StateRow TomlState TokenKind
  | .init =>
    { entries := [
        { pattern := .range 0x61 0x7a, next := .inId }, -- "-az"
        { pattern := .range 0x41 0x5a, next := .inId }, -- "-AZ"
        { pattern := .oneOf [0x5f], next := .inId }, -- "|_"
        { pattern := .oneOf [0x2d, 0x2b], next := .inInt }, -- "|-+"
        { pattern := .range 0x30 0x39, next := .inInt }, -- "-09"
        { pattern := .eq 0x5b, next := .init, token := some .lbrack }, -- "=["
        { pattern := .eq 0x5d, next := .init, token := some .rbrack }, -- "=]"
        { pattern := .eq 0x3d, next := .init, token := some .eq }, -- "=="
        { pattern := .eq 0x2e, next := .init, token := some .dot }, -- "=."
        { pattern := .eq 0x3b, next := .init, token := some .semicolon }, -- "=;"
        { pattern := .eq 0x23, next := .inHashComment }, -- "=#"
        { pattern := .oneOf [0x0d, 0x0a], next := .inNewline, unwind := true }, -- "|\r\n"
        { pattern := .oneOf [0x20, 0x09], next := .inSpace, unwind := true }, -- "| \t"
        { pattern := .eq 0x22, next := .inDoubleStr }, -- "=\""
        { pattern := .eq 0x27, next := .inSingleStr }, -- "='"
        { pattern := .eq 0x00, next := .init }], -- "=\0"
      err := some "unrecognized char" }
  | .inId =>
    { entries := [
        { pattern := .range 0x61 0x7a, next := .inId }, -- "-az"
        { pattern := .range 0x41 0x5a, next := .inId }, -- "-AZ"
        { pattern := .range 0x30 0x39, next := .inId }, -- "-09"
        { pattern := .oneOf [0x5f, 0x2d], next := .inId }, -- "|_-"
        { pattern := .any, next := .init, token := some .id, unwind := true }] } -- "."
  | .inSpace =>
    { entries := [
        { pattern := .oneOf [0x20, 0x09], next := .inSpace }, -- "| \t"
        { pattern := .any, next := .init, token := some .space, unwind := true }] } -- "."
  | .inNewline =>
    { entries := [
        { pattern := .oneOf [0x0d, 0x0a], next := .inNewline }, -- "|\r\n"
        { pattern := .any, next := .init, token := some .newline, unwind := true }] } -- "."
  | .inDoubleStr =>
    { entries := [
        { pattern := .eq 0x22, next := .init, token := some .string }, -- "=\""
        { pattern := .eq 0x5c, next := .inDoubleStrEscape }, -- "=\\"
        { pattern := .eq 0x00, next := .init,
          err := some "unclosed double quote string literal" }, -- "=\0"
        { pattern := .any, next := .inDoubleStr }] } -- "."
  | .inDoubleStrEscape =>
    { entries := [{ pattern := .any, next := .inDoubleStr }] } -- "."
  | .inSingleStr =>
    { entries := [
        { pattern := .eq 0x27, next := .init, token := some .string }, -- "='"
        { pattern := .eq 0x5c, next := .inSingleStrEscape }, -- "=\\"
        { pattern := .eq 0x00, next := .init,
          err := some "unclosed single quote string literal" }, -- "=\0"
        { pattern := .any, next := .inSingleStr }] } -- "."
  | .inSingleStrEscape =>
    { entries := [{ pattern := .any, next := .inSingleStr }] } -- "."
  | .inInt =>
    { entries := [
        { pattern := .range 0x30 0x39, next := .inInt }, -- "-09"
        { pattern := .eq 0x5f, next := .inInt }, -- "=_"
        { pattern := .eq 0x2e, next := .inFloat }, -- "=."
        { pattern := .any, next := .init, token := some .int, unwind := true }] } -- "."
  | .inFloat =>
    { entries := [
        { pattern := .range 0x30 0x39, next := .inFloat }, -- "-09"
        { pattern := .eq 0x5f, next := .inFloat }, -- "=_"
        { pattern := .eq 0x2e, next := .init, err := some "more than one floating point" }, -- "=."
        { pattern := .any, next := .init, token := some .float, unwind := true }] } -- "."
  | .inHashComment =>
    { entries := [
        { pattern := .oneOf [0x0d, 0x0a], next := .init, token := some .comment,
          unwind := true }, -- "|\r\n"
        { pattern := .any, next := .inHashComment }] } -- "."

/-- More turns of the loop than the table makes on a source: three for each character, and one at
the end. -/
def tomlFuel (src : CString) : ℕ := 3 * (src.1.length + 1) + 1

/-- `lexer` with this table. -/
def tomlLex (src : CString) (err : Bool) : Option (Except LexerErr (List (LexToken TokenKind))) :=
  lexer tomlTable .init (tomlFuel src) src err

/-! ### The characters -/

/-- A letter. -/
def isLetter (c : UInt8) : Bool := 0x61 ≤ c && c ≤ 0x7a || 0x41 ≤ c && c ≤ 0x5a

/-- The first character of an identifier. -/
def isIdStart (c : UInt8) : Bool := isLetter c || c = 0x5f

/-- A character of an identifier behind the first. -/
def isIdChar (c : UInt8) : Bool := isLetter c || isDigit c || (c = 0x5f || c = 0x2d)

/-- The first character of a number: a sign, or a digit. -/
def isNumStart (c : UInt8) : Bool := c = 0x2d || c = 0x2b || isDigit c

/-- A character of a number behind the first. -/
def isNumChar (c : UInt8) : Bool := isDigit c || c = 0x5f

/-- A space, or a tab. -/
def isBlank (c : UInt8) : Bool := c = 0x20 || c = 0x09

theorem isBlank_iff {c : UInt8} : isBlank c ↔ c = 0x20 ∨ c = 0x09 := by simp [isBlank]

/-- A character of a line break. -/
def isBreak (c : UInt8) : Bool := c = 0x0d || c = 0x0a

theorem isBreak_iff {c : UInt8} : isBreak c ↔ c = 0x0d ∨ c = 0x0a := by simp [isBreak]

/-! ### The moves -/

/-- The moves of the lexer. -/
def tomlMove : TomlState → UInt8 → Move TomlState TokenKind RowErr := tableMove tomlTable

theorem tomlMove_init (c : UInt8) : tomlMove .init c =
    if isIdStart c then .shift .inId
    else if isNumStart c then .shift .inInt
    else if c = 0x5b then .emit .lbrack .init
    else if c = 0x5d then .emit .rbrack .init
    else if c = 0x3d then .emit .eq .init
    else if c = 0x2e then .emit .dot .init
    else if c = 0x3b then .emit .semicolon .init
    else if c = 0x23 then .shift .inHashComment
    else if isBreak c then .stay .inNewline
    else if isBlank c then .stay .inSpace
    else if c = 0x22 then .shift .inDoubleStr
    else if c = 0x27 then .shift .inSingleStr
    else if c = 0 then .shift .init
    else .fail ("unrecognized char", false) := by
  rw [tomlMove, tableMove_eq_entriesMove]
  simp [tomlTable, entriesMove, Pattern.matches, StateTrans.move, isIdStart, isLetter, isNumStart,
    isDigit, isBreak, isBlank, ite_or]

theorem tomlMove_inId (c : UInt8) :
    tomlMove .inId c = if isIdChar c then .shift .inId else .cut .id .init := by
  rw [tomlMove, tableMove_eq_entriesMove]
  simp [tomlTable, entriesMove, Pattern.matches, StateTrans.move, isIdChar, isLetter, isDigit,
    ite_or]

theorem tomlMove_inSpace (c : UInt8) :
    tomlMove .inSpace c = if isBlank c then .shift .inSpace else .cut .space .init := by
  rw [tomlMove, tableMove_eq_entriesMove]
  simp [tomlTable, entriesMove, Pattern.matches, StateTrans.move, isBlank]

theorem tomlMove_inNewline (c : UInt8) :
    tomlMove .inNewline c = if isBreak c then .shift .inNewline else .cut .newline .init := by
  rw [tomlMove, tableMove_eq_entriesMove]
  simp [tomlTable, entriesMove, Pattern.matches, StateTrans.move, isBreak]

theorem tomlMove_inInt (c : UInt8) : tomlMove .inInt c =
    if isNumChar c then .shift .inInt else if c = 0x2e then .shift .inFloat
    else .cut .int .init := by
  rw [tomlMove, tableMove_eq_entriesMove]
  simp [tomlTable, entriesMove, Pattern.matches, StateTrans.move, isNumChar, isDigit, ite_or]

theorem tomlMove_inFloat (c : UInt8) : tomlMove .inFloat c =
    if isNumChar c then .shift .inFloat
    else if c = 0x2e then .fail ("more than one floating point", true)
    else .cut .float .init := by
  rw [tomlMove, tableMove_eq_entriesMove]
  simp [tomlTable, entriesMove, Pattern.matches, StateTrans.move, isNumChar, isDigit, ite_or]

theorem tomlMove_inHashComment (c : UInt8) : tomlMove .inHashComment c =
    if isBreak c then .cut .comment .init else .shift .inHashComment := by
  rw [tomlMove, tableMove_eq_entriesMove]
  simp [tomlTable, entriesMove, Pattern.matches, StateTrans.move, isBreak]

/-- The two kinds of string literals. -/
inductive Quote where
  | double
  | single

namespace Quote

/-- The quote. -/
def char : Quote → UInt8
  | double => 0x22
  | single => 0x27

/-- The state between the quotes. -/
def state : Quote → TomlState
  | double => .inDoubleStr
  | single => .inSingleStr

/-- The state behind a backslash. -/
def escape : Quote → TomlState
  | double => .inDoubleStrEscape
  | single => .inSingleStrEscape

/-- The message of an unclosed literal. -/
def unclosed : Quote → String
  | double => "unclosed double quote string literal"
  | single => "unclosed single quote string literal"

end Quote

theorem tomlMove_init_quote (q : Quote) : tomlMove .init q.char = .shift q.state := by
  cases q <;> rfl

theorem tomlMove_quote (q : Quote) (c : UInt8) : tomlMove q.state c =
    if c = q.char then .emit .string .init
    else if c = 0x5c then .shift q.escape
    else if c = 0 then .fail (q.unclosed, true)
    else .shift q.state := by
  rw [tomlMove, tableMove_eq_entriesMove]
  cases q with
  | double =>
    simp only [tomlTable, entriesMove, Pattern.matches, StateTrans.move, Quote.state,
      decide_eq_true_eq]
    rfl
  | single =>
    simp only [tomlTable, entriesMove, Pattern.matches, StateTrans.move, Quote.state,
      decide_eq_true_eq]
    rfl

theorem tomlMove_escape (q : Quote) (c : UInt8) : tomlMove q.escape c = .shift q.state := by
  cases q <;> rfl

/-! ### The grammar -/

/-- What stands between two quotes: a quote or a backslash only behind a backslash. -/
inductive IsStringBody (q : Quote) : Bytes → Prop where
  | nil : IsStringBody q []
  | char {c body} (hq : c ≠ q.char) (hb : c ≠ 0x5c) (h₀ : c ≠ 0) (h : IsStringBody q body) :
    IsStringBody q (c :: body)
  | escape {c body} (h₀ : c ≠ 0) (h : IsStringBody q body) : IsStringBody q (0x5c :: c :: body)

/-- The texts of each class. -/
inductive IsLexeme : TokenKind → Bytes → Prop where
  | lbrack : IsLexeme .lbrack [0x5b]
  | rbrack : IsLexeme .rbrack [0x5d]
  | dot : IsLexeme .dot [0x2e]
  | eq : IsLexeme .eq [0x3d]
  | semicolon : IsLexeme .semicolon [0x3b]
  | newline {c w} (hc : isBreak c) (hw : ∀ a ∈ w, isBreak a) : IsLexeme .newline (c :: w)
  | space {c w} (hc : isBlank c) (hw : ∀ a ∈ w, isBlank a) : IsLexeme .space (c :: w)
  | id {c w} (hc : isIdStart c) (hw : ∀ a ∈ w, isIdChar a) : IsLexeme .id (c :: w)
  | int {c w} (hc : isNumStart c) (hw : ∀ a ∈ w, isNumChar a) : IsLexeme .int (c :: w)
  | float {c w w'} (hc : isNumStart c) (hw : ∀ a ∈ w, isNumChar a) (hw' : ∀ a ∈ w', isNumChar a) :
    IsLexeme .float (c :: w ++ 0x2e :: w')
  | string {q body} (h : IsStringBody q body) : IsLexeme .string (q.char :: body ++ [q.char])
  | comment {w} (hw : ∀ a ∈ w, isBreak a = false ∧ a ≠ 0) : IsLexeme .comment (0x23 :: w)

/-- The character can continue a token of this class. -/
def continues : TokenKind → UInt8 → Bool
  | .id, c => isIdChar c
  | .int, c => isNumChar c || c = 0x2e
  | .float, c => isNumChar c || c = 0x2e
  | .space, c => isBlank c
  | .newline, c => isBreak c
  | .comment, c => !isBreak c
  | _, _ => false

/-- No token goes on with what is behind it: the next token, or `tail`. A comment, which goes on up
to a line break, cannot be the last token. -/
def Separated : List (LexToken TokenKind) → Bytes → Prop
  | [], _ => True
  | tok :: toks, tail =>
    continues tok.token ((texts toks ++ tail).headD 0) = false ∧ Separated toks tail

/-- A list of tokens as one would print them, with `tail` behind them. -/
structure IsPrinted (toks : List (LexToken TokenKind)) (tail : Bytes) : Prop where
  lexemes : ∀ tok ∈ toks, IsLexeme tok.token tok.str
  separated : Separated toks tail

/-- What can be left at the end of a source that is accepted: nothing, a comment, or a string
literal of which the last character is a backslash that is not behind another. -/
inductive IsTail : Bytes → Prop where
  | nil : IsTail []
  | comment {w} (hw : ∀ a ∈ w, isBreak a = false ∧ a ≠ 0) : IsTail (0x23 :: w)
  | escape {q body} (h : IsStringBody q body) : IsTail (q.char :: body ++ [0x5c])

/-! ### A token is read -/

theorem isIdStart_of_isNumStart {c : UInt8} (h : isNumStart c) : isIdStart c = false := by
  simp only [isNumStart, isIdStart, isLetter, isDigit, Bool.or_eq_true, Bool.and_eq_true,
    decide_eq_true_eq] at *
  grind

/-- A state that takes the characters of a class takes a word of them. -/
theorem absorbsAll_of_class {s : TomlState} {p : UInt8 → Bool}
    (hs : ∀ c, p c → tomlMove s c = .shift s) {w : Bytes} (hw : ∀ a ∈ w, p a) :
    AbsorbsAll tomlMove s w s :=
  absorbsAll_of_forall fun a ha ↦ hs a (hw a ha)

theorem absorbsAll_inId {w : Bytes} (hw : ∀ a ∈ w, isIdChar a) :
    AbsorbsAll tomlMove .inId w .inId :=
  absorbsAll_of_class (fun c hc ↦ by rw [tomlMove_inId, if_pos hc]) hw

theorem absorbsAll_inInt {w : Bytes} (hw : ∀ a ∈ w, isNumChar a) :
    AbsorbsAll tomlMove .inInt w .inInt :=
  absorbsAll_of_class (fun c hc ↦ by rw [tomlMove_inInt, if_pos hc]) hw

theorem absorbsAll_inFloat {w : Bytes} (hw : ∀ a ∈ w, isNumChar a) :
    AbsorbsAll tomlMove .inFloat w .inFloat :=
  absorbsAll_of_class (fun c hc ↦ by rw [tomlMove_inFloat, if_pos hc]) hw

theorem absorbsAll_inSpace {w : Bytes} (hw : ∀ a ∈ w, isBlank a) :
    AbsorbsAll tomlMove .inSpace w .inSpace :=
  absorbsAll_of_class (fun c hc ↦ by rw [tomlMove_inSpace, if_pos hc]) hw

theorem absorbsAll_inNewline {w : Bytes} (hw : ∀ a ∈ w, isBreak a) :
    AbsorbsAll tomlMove .inNewline w .inNewline :=
  absorbsAll_of_class (fun c hc ↦ by rw [tomlMove_inNewline, if_pos hc]) hw

theorem absorbsAll_inHashComment {w : Bytes} (hw : ∀ a ∈ w, isBreak a = false) :
    AbsorbsAll tomlMove .inHashComment w .inHashComment :=
  absorbsAll_of_forall fun a ha ↦ by rw [tomlMove_inHashComment, hw a ha]; rfl

theorem absorbsAll_stringBody {q : Quote} {body : Bytes} (h : IsStringBody q body) :
    AbsorbsAll tomlMove q.state body q.state := by
  induction h with
  | nil => exact .nil
  | char hq hb h₀ _ ih =>
    refine .cons (.shift ?_) ih
    rw [tomlMove_quote, if_neg hq, if_neg hb, if_neg h₀]
  | escape _ _ ih =>
    refine .cons (.shift ?_) (.cons (.shift (tomlMove_escape q _)) ih)
    rw [tomlMove_quote, if_neg (by cases q <;> decide), if_pos rfl]

/-! From the initial state, up to where the class of the token is known. -/

theorem absorbs_idStart {c : UInt8} (h : isIdStart c) : Absorbs tomlMove .init c .inId :=
  .shift (by rw [tomlMove_init, if_pos h])

theorem absorbs_numStart {c : UInt8} (h : isNumStart c) : Absorbs tomlMove .init c .inInt :=
  .shift (by rw [tomlMove_init, isIdStart_of_isNumStart h, if_neg Bool.false_ne_true, if_pos h])

theorem absorbs_blank {c : UInt8} (h : isBlank c) : Absorbs tomlMove .init c .inSpace := by
  have hshift : tomlMove .inSpace c = .shift .inSpace := by rw [tomlMove_inSpace, if_pos h]
  refine .stay ?_ hshift
  rcases isBlank_iff.1 h with rfl | rfl <;> rfl

theorem absorbs_break {c : UInt8} (h : isBreak c) : Absorbs tomlMove .init c .inNewline := by
  have hshift : tomlMove .inNewline c = .shift .inNewline := by rw [tomlMove_inNewline, if_pos h]
  refine .stay ?_ hshift
  rcases isBreak_iff.1 h with rfl | rfl <;> rfl

/-- **A token is read**, up to a character that does not continue it. -/
theorem reaches_token {t : TokenKind} {w : Bytes} (h : IsLexeme t w)
    (out : List (LexToken TokenKind)) {a : UInt8} (ha : continues t a = false) (rest : Bytes) :
    Reaches tomlMove (2 * w.length + 1) ⟨.init, out, [], w ++ a :: rest⟩
      ⟨.init, out ++ [⟨t, w⟩], [], a :: rest⟩ := by
  -- a token of one character ends with it
  have hone {t : TokenKind} {c : UInt8} (hc : tomlMove .init c = .emit t .init) :
      Reaches tomlMove (2 * [c].length + 1) ⟨.init, out, [], [c] ++ a :: rest⟩
        ⟨.init, out ++ [⟨t, [c]⟩], [], a :: rest⟩ :=
    (AbsorbsAll.nil.reaches_of_emit hc out (a :: rest)).mono (by simp)
  cases h with
  | lbrack => exact hone rfl
  | rbrack => exact hone rfl
  | dot => exact hone rfl
  | eq => exact hone rfl
  | semicolon => exact hone rfl
  | newline hc hw =>
    refine (AbsorbsAll.cons (absorbs_break hc) (absorbsAll_inNewline hw)).reaches_of_cut ?_ out rest
    rw [tomlMove_inNewline, if_neg (by rw [show isBreak a = false from ha]; simp)]
  | space hc hw =>
    refine (AbsorbsAll.cons (absorbs_blank hc) (absorbsAll_inSpace hw)).reaches_of_cut ?_ out rest
    rw [tomlMove_inSpace, if_neg (by rw [show isBlank a = false from ha]; simp)]
  | id hc hw =>
    refine (AbsorbsAll.cons (absorbs_idStart hc) (absorbsAll_inId hw)).reaches_of_cut ?_ out rest
    rw [tomlMove_inId, if_neg (by rw [show isIdChar a = false from ha]; simp)]
  | int hc hw =>
    -- a point would go on with it as a floating point number
    obtain ⟨hnum, hdot⟩ := Bool.or_eq_false_iff.1 ha
    refine (AbsorbsAll.cons (absorbs_numStart hc) (absorbsAll_inInt hw)).reaches_of_cut ?_ out rest
    rw [tomlMove_inInt, hnum, if_neg Bool.false_ne_true, if_neg (of_decide_eq_false hdot)]
  | float hc hw hw' =>
    obtain ⟨hnum, hdot⟩ := Bool.or_eq_false_iff.1 ha
    have hint := AbsorbsAll.cons (absorbs_numStart hc) (absorbsAll_inInt hw)
    have hpoint : Absorbs tomlMove .inInt 0x2e .inFloat := .shift rfl
    refine (hint.append (.cons hpoint (absorbsAll_inFloat hw'))).reaches_of_cut ?_ out rest
    rw [tomlMove_inFloat, hnum, if_neg Bool.false_ne_true, if_neg (of_decide_eq_false hdot)]
  | @string q body hbody =>
    have hopen : Absorbs tomlMove .init q.char q.state := .shift (tomlMove_init_quote q)
    refine ((AbsorbsAll.cons hopen (absorbsAll_stringBody hbody)).reaches_of_emit ?_ out
      (a :: rest)).mono (by rw [List.length_append]; omega)
    rw [tomlMove_quote, if_pos rfl]
  | comment hw =>
    have hhash : Absorbs tomlMove .init 0x23 .inHashComment := .shift rfl
    have hall := absorbsAll_inHashComment fun a ha ↦ (hw a ha).1
    refine (AbsorbsAll.cons hhash hall).reaches_of_cut ?_ out rest
    rw [tomlMove_inHashComment, if_pos (by simpa [continues] using ha)]

end Vmecs
