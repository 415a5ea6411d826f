import Vmecs.Lib.Descent
import Vmecs.Pub.Text
import Vmecs.Toml.Ast

/-!
# The parser (`toml/parser.h`, `toml/toml.c`)

A rule of the parser takes the tokens from the position `cur` on and reports how many it matched;
here it takes the list of those tokens and leaves the rest. `IF_MATCH` with the symbols of an
alternative is a sequence, and the `IF_MATCH`es of a rule are an ordered choice.

The three rules that call themselves are bounded by `fuel`; `tomlParse` has more of it than there
are tokens, and each call of these rules from within itself is behind a token.
-/

namespace Vmecs

/-! ### Tokens -/

/-- The `T_` constants. -/
inductive TokenKind where
  | lbrack | rbrack | dot | eq | newline | space | semicolon
  | id | string | int | float
  | false | true
  | comment
  deriving DecidableEq

/-- `token_t`, with the `len` bytes at `str`. A string has its quotes: the lexer makes a `T_STRING`
of the text from one quote to another. -/
structure Token where
  token : TokenKind
  str : Bytes
  quoted : token = .string → 2 ≤ str.length
  deriving DecidableEq

/-- What `ast_node_string_new_n` keeps of a token without its quotes. -/
def Token.unquoted (tok : Token) : CString := cstr ((tok.str.drop 1).take (tok.str.length - 2))

/-- `atoll`, which is `strtoll` to base 10: white space, a sign, and the digits as far as they go; a
number that does not fit is replaced by the nearest that does. -/
def atoll (str : Bytes) : Int64 :=
  match str.dropWhile isSpace with
  | 45 :: ds => .ofInt (max (-2 ^ 63) (-decimal (ds.takeWhile isDigit)))
  | 43 :: ds => .ofInt (min (2 ^ 63 - 1) (decimal (ds.takeWhile isDigit)))
  | ds => .ofInt (min (2 ^ 63 - 1) (decimal (ds.takeWhile isDigit)))

/-- The value of an integer token: that of its text without the underscores. -/
def Token.int (tok : Token) : Int64 := atoll (tok.str.filter (· ≠ 95))

/-! ### Rules -/

/-- `TERM`. -/
def term (t : TokenKind) : Descent Token Token := Descent.term fun tok ↦ tok.token = t

def svSpaceOpt : Descent Token Unit :=
  (do let _ ← term .space)
  <|> return ()

def svBool : Descent Token Bool :=
  (do let _ ← term .false
      return Bool.false)
  <|> (do
      let _ ← term .true
      return Bool.true)

def svString : Descent Token CString := do
  let tok ← term .string
  return tok.unquoted

def svInt : Descent Token Int64 := do
  let tok ← term .int
  return tok.int

def svValue : Descent Token AstValue :=
  (do return .bool (← svBool))
  <|> (do return .string (← svString))
  <|> (do return .int (← svInt))

def svId : Descent Token CString :=
  (do let tok ← term .id
      return cstr tok.str)
  <|> (do
      let tok ← term .string
      return tok.unquoted)

def svKeyTail : ℕ → Descent Token (List CString)
  | 0 => failure
  | fuel + 1 =>
    (do svSpaceOpt
        let _ ← term .dot
        svSpaceOpt
        let id ← svId
        let next ← svKeyTail fuel
        return id :: next)
    <|> return []

def svKey (fuel : ℕ) : Descent Token AstKey := do
  let id ← svId
  let next ← svKeyTail fuel
  return { id, next }

def svEntry (fuel : ℕ) : Descent Token AstEntry :=
  (do svSpaceOpt
      let key ← svKey fuel
      svSpaceOpt
      let _ ← term .eq
      svSpaceOpt
      let value ← svValue
      svSpaceOpt
      return { key := some key, value := some value })
  <|> (do
      svSpaceOpt
      let _ ← term .lbrack
      svSpaceOpt
      let key ← svKey fuel
      svSpaceOpt
      let _ ← term .rbrack
      svSpaceOpt
      return { key := some key, value := none })
  <|> (do
      svSpaceOpt
      let _ ← term .lbrack
      svSpaceOpt
      let _ ← term .rbrack
      svSpaceOpt
      return { key := none, value := none })

def svNewlineListOpt : ℕ → Descent Token Unit
  | 0 => failure
  | fuel + 1 =>
    (do svSpaceOpt
        let _ ← term .newline
        svNewlineListOpt fuel
        svSpaceOpt)
    <|> return ()

def svNewlineList (fuel : ℕ) : Descent Token Unit := do
  svSpaceOpt
  let _ ← term .newline
  svNewlineListOpt fuel
  svSpaceOpt

def svSeparator (fuel : ℕ) : Descent Token Unit :=
  (do svNewlineListOpt fuel
      let _ ← term .semicolon
      svNewlineListOpt fuel)
  <|> svNewlineList fuel

/-- `sv_entry_list_tail`, with bounds for the rules it calls and for itself. -/
def svEntryListTail (bound : ℕ) : ℕ → Descent Token (List AstEntry)
  | 0 => failure
  | fuel + 1 =>
    (do svSeparator bound
        let entry ← svEntry bound
        let next ← svEntryListTail bound fuel
        return entry :: next)
    <|> return []

def svEntryList (fuel : ℕ) : Descent Token (List AstEntry) := do
  svNewlineListOpt fuel
  let entry ← svEntry fuel
  let next ← svEntryListTail fuel fuel
  return entry :: next

def svParseUnit (fuel : ℕ) : Descent Token (List AstEntry) := do
  let entries ← svEntryList fuel
  svNewlineListOpt fuel
  return entries

/-- `toml_parse`: the entries, or the message of the error. -/
def tomlParse (list : List Token) : Except String (List AstEntry) :=
  match (svParseUnit (list.length + 1)).run list with
  | some (entries, []) => .ok entries
  | _ => .error "not fully parsed"

end Vmecs
