import Mathlib.Data.List.GetD
import Vmecs.Lib.Scanner
import Vmecs.Pub.Type

/-!
# The lexer (`toml/lexer.h`, `toml/lexer.c`)

A lexer is driven by a table: in each state there is a list of entries, and the first one whose
pattern matches the next character says what to do. The terminating zero is a character as well.

The loop keeps two indices into the source, of the next character and of the start of the token it
is reading; it is the run of a scanner (`lexerLoop_eq_run`), in which these are lists.

The list it returns is `none` inside when it returns `NULL`, with what has been stored in `err`;
nothing at all is a store to an `err` that was not given. A table may have states that lead to each
other without taking a character, so the number of turns is bounded here, by `fuel`; what a table
needs is to be shown of it.
-/

namespace Vmecs

open Scanner

/-! ### The table -/

/-- The patterns of `_match`. The characters of a range are ASCII, so that it does not matter
whether a `char` has a sign. -/
inductive Pattern where
  /-- `"=c"` -/
  | eq (c : UInt8)
  /-- `"-cd"` -/
  | range (c d : UInt8)
  /-- `"."` -/
  | any
  /-- `"$"` -/
  | notAscii
  /-- `"|cs"` -/
  | oneOf (cs : List UInt8)

/-- `_match`. -/
def Pattern.matches : Pattern → UInt8 → Bool
  | eq p, c => c = p
  | range p q, c => if p ≤ q then p ≤ c && c ≤ q else c ≤ p && q ≤ c
  | any, _ => true
  | notAscii, c => 0x7f < c
  | oneOf ps, c => ps.any fun p ↦ c = p

/-- `state_trans_t`, an entry with a pattern; the token is -1 for none, and not read in an entry
with an error. -/
structure StateTrans (σ τ : Type) where
  pattern : Pattern
  next : σ
  token : Option τ := none
  unwind : Bool := false
  err : Option String := none

/-- A row of the table: its entries, and the `err` of the first one without a pattern. -/
structure StateRow (σ τ : Type) where
  entries : List (StateTrans σ τ)
  err : Option String := none

/-- The entry for a character. -/
def StateRow.find {σ τ : Type} (row : StateRow σ τ) (cur : UInt8) : Option (StateTrans σ τ) :=
  row.entries.find? fun entry ↦ entry.pattern.matches cur

/-! ### The loop -/

/-- `token_t`, as the lexer makes them. -/
abbrev LexToken (τ : Type) := Lexeme τ UInt8

/-- `lexer_err_t`. -/
structure LexerErr where
  msg : String
  pos : ℕ
  deriving DecidableEq

/-- The variables of `lexer`. -/
structure LexerState (σ τ : Type) where
  state : σ
  i : ℕ
  j : ℕ
  ret : List (LexToken τ)

variable {σ τ : Type}

/-- `len` characters of the source from `str` on, the terminating zero included. -/
def srcText (src : CString) (str len : ℕ) : Bytes := ((src.1 ++ [0]).drop str).take len

/-- A turn of the loop, with the entry that has been found. -/
def lexerNext (src : CString) (s : LexerState σ τ) (entry : StateTrans σ τ) : LexerState σ τ :=
  match entry.token with
  | none => { s with state := entry.next, i := if entry.unwind then s.i else s.i + 1 }
  | some token =>
    if entry.unwind then
      ⟨entry.next, s.i, s.i, s.ret ++ [⟨token, srcText src s.j (s.i - s.j)⟩]⟩
    else ⟨entry.next, s.i + 1, s.i + 1, s.ret ++ [⟨token, srcText src s.j (s.i - s.j + 1)⟩]⟩

/-- The loop of `lexer`; `err` says whether the argument is given. -/
def lexerLoop (table : σ → StateRow σ τ) (src : CString) (err : Bool) :
    ℕ → LexerState σ τ → Option (Except LexerErr (List (LexToken τ)))
  | 0, _ => none
  | fuel + 1, s =>
    if s.i = src.1.length + 1 then some (.ok s.ret)
    else
      match (table s.state).find ((src.1 ++ [0]).getD s.i 0) with
      | none => some (.error ⟨(table s.state).err.getD "lexer failed", s.i⟩)
      | some entry =>
        match entry.err with
        -- unlike above, `err` is not tested
        | some msg => if err then some (.error ⟨msg, s.i⟩) else none
        | none => lexerLoop table src err fuel (lexerNext src s entry)

/-- `lexer`, from the state `start` on. -/
def lexer (table : σ → StateRow σ τ) (start : σ) (fuel : ℕ) (src : CString) (err : Bool) :
    Option (Except LexerErr (List (LexToken τ))) :=
  lexerLoop table src err fuel ⟨start, 0, 0, []⟩

/-! ### The loop as a scanner -/

/-- An error: its message, and whether it comes from an entry with a pattern, for which `err` is
not tested. -/
abbrev RowErr := String × Bool

/-- What the scanner does at an entry. -/
def StateTrans.move (entry : StateTrans σ τ) : Move σ τ RowErr :=
  match entry.err, entry.token with
  | some msg, _ => .fail (msg, true)
  | none, none => if entry.unwind then .stay entry.next else .shift entry.next
  | none, some token => if entry.unwind then .cut token entry.next else .emit token entry.next

/-- The scanner of a table. -/
def tableMove (table : σ → StateRow σ τ) (state : σ) (cur : UInt8) : Move σ τ RowErr :=
  match (table state).find cur with
  | none => .fail ((table state).err.getD "lexer failed", false)
  | some entry => entry.move

/-- The entries are tried in order. -/
def entriesMove (err : String) (cur : UInt8) : List (StateTrans σ τ) → Move σ τ RowErr
  | [] => .fail (err, false)
  | entry :: entries =>
    if entry.pattern.matches cur then entry.move else entriesMove err cur entries

theorem tableMove_eq_entriesMove (table : σ → StateRow σ τ) (state : σ) (cur : UInt8) :
    tableMove table state cur =
      entriesMove ((table state).err.getD "lexer failed") cur (table state).entries := by
  rw [tableMove, StateRow.find]
  induction (table state).entries with
  | nil => rfl
  | cons entry entries ih =>
    rw [List.find?_cons, entriesMove, ← ih]
    cases entry.pattern.matches cur <;> rfl

/-- What the lexer makes of the result of the scanner. -/
def lexerResult (err : Bool) :
    Except (RowErr × ℕ) (List (LexToken τ)) → Option (Except LexerErr (List (LexToken τ)))
  | .ok toks => some (.ok toks)
  | .error ((msg, matched), pos) => if matched && !err then none else some (.error ⟨msg, pos⟩)

/-- The variables of the loop, of a scanner under way: the indices are the lengths of what has been
taken, and of the tokens it has been cut into. -/
def lexerState (c : Config UInt8 σ τ) : LexerState σ τ :=
  ⟨c.state, c.consumed.length, (texts c.out).length, c.out⟩

/-- The loop ends where nothing is left. -/
theorem lexerState_i_eq_iff {src : CString} {c : Config UInt8 σ τ}
    (hsrc : src.1 ++ [0] = c.consumed ++ c.rest) :
    (lexerState c).i = src.1.length + 1 ↔ c.rest = [] := by
  have hlen := congrArg List.length hsrc
  rw [List.length_append, List.length_append, List.length_singleton] at hlen
  show c.consumed.length = _ ↔ _
  rw [hlen, ← List.length_eq_zero_iff]
  omega

/-- And elsewhere `cur` is the first of what is left. -/
theorem getD_lexerState {src : CString} {c : Config UInt8 σ τ} {a : UInt8} {rest : Bytes}
    (hsrc : src.1 ++ [0] = c.consumed ++ a :: rest) :
    (src.1 ++ [0]).getD (lexerState c).i 0 = a := by
  show (src.1 ++ [0]).getD c.consumed.length 0 = a
  rw [hsrc, List.getD_append_right _ _ _ _ (Nat.le_refl _), Nat.sub_self]
  rfl

/-- What the loop does to them at an entry without an error. -/
theorem lexerNext_lexerState {src : CString} {s : σ} {out : List (LexToken τ)} {pend rest : Bytes}
    {a : UInt8} (hsrc : src.1 ++ [0] = texts out ++ (pend ++ a :: rest))
    (entry : StateTrans σ τ) :
    lexerNext src (lexerState ⟨s, out, pend, a :: rest⟩) entry =
      match entry.token, entry.unwind with
      | none, true => lexerState ⟨entry.next, out, pend, a :: rest⟩
      | none, false => lexerState ⟨entry.next, out, pend ++ [a], rest⟩
      | some token, true => lexerState ⟨entry.next, out ++ [⟨token, pend⟩], [], a :: rest⟩
      | some token, false => lexerState ⟨entry.next, out ++ [⟨token, pend ++ [a]⟩], [], rest⟩ := by
  obtain ⟨pattern, next, token, unwind, err⟩ := entry
  have hpend : srcText src (texts out).length pend.length = pend := by
    rw [srcText, hsrc, List.drop_left, List.take_left]
  have hpend' : srcText src (texts out).length (pend.length + 1) = pend ++ [a] := by
    rw [srcText, hsrc, List.drop_left, List.append_cons, List.take_left' (by simp)]
  match token, unwind with
  | none, true => rfl
  | none, false => simp [lexerNext, lexerState, Config.consumed, Nat.add_assoc]
  | some token, true => simp [lexerNext, lexerState, Config.consumed, hpend]
  | some token, false => simp [lexerNext, lexerState, Config.consumed, hpend', Nat.add_assoc]

/-- **The lexer is a scanner.** -/
theorem lexerLoop_eq_run (table : σ → StateRow σ τ) {src : CString} (err : Bool) (fuel : ℕ)
    {c : Config UInt8 σ τ} (hsrc : src.1 ++ [0] = c.consumed ++ c.rest) :
    lexerLoop table src err fuel (lexerState c) =
      (run (tableMove table) fuel c).bind (lexerResult err) := by
  induction fuel generalizing c with
  | zero => rfl
  | succ fuel ih =>
    obtain ⟨state, out, pend, rest⟩ := c
    rw [lexerLoop, run]
    cases rest with
    | nil =>
      rw [if_pos ((lexerState_i_eq_iff hsrc).2 rfl)]
      rfl
    | cons a rest =>
      have hsrc' : src.1 ++ [0] = texts out ++ (pend ++ a :: rest) :=
        hsrc.trans (List.append_assoc _ _ _)
      have hstate : (lexerState ⟨state, out, pend, a :: rest⟩).state = state := rfl
      rw [if_neg (mt (lexerState_i_eq_iff hsrc).1 (List.cons_ne_nil _ _)), getD_lexerState hsrc,
        hstate]
      dsimp only
      -- the two choose by the same entry
      rcases hfind : (table state).find a with _ | entry
      · have hmove : tableMove table state a =
            .fail ((table state).err.getD "lexer failed", false) := by rw [tableMove, hfind]
        rw [hmove]
        rfl
      · have hmove : tableMove table state a = entry.move := by rw [tableMove, hfind]
        have hnext := lexerNext_lexerState (s := state) hsrc' entry
        rw [hmove]
        obtain ⟨pattern, next, token, unwind, _ | msg⟩ := entry
        · -- they go on from the same place, behind what is still the whole source
          dsimp only at hnext ⊢
          rw [hnext]
          rcases token with _ | token <;> rcases unwind with _ | _
          · exact ih (by simpa [Config.consumed] using hsrc)
          · exact ih hsrc
          · exact ih (by simpa [Config.consumed] using hsrc)
          · exact ih (by simpa [Config.consumed] using hsrc)
        · rcases err with _ | _
          · rfl
          · rfl

/-- From the beginning of the source. -/
theorem lexer_eq_run (table : σ → StateRow σ τ) (start : σ) (fuel : ℕ) (src : CString)
    (err : Bool) : lexer table start fuel src err =
      (run (tableMove table) fuel ⟨start, [], [], src.1 ++ [0]⟩).bind (lexerResult err) :=
  lexerLoop_eq_run table err fuel (c := ⟨start, [], [], src.1 ++ [0]⟩) rfl

end Vmecs
