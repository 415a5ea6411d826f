import Vmecs.Toml.Parser
import Mathlib.Data.List.Chain

/-!
# The grammar of a document

A document is a list of entries with separators between them and blank tokens around them; the
relations below give this grammar with the syntax tree of each of its words. They mention no parser.

The rules of the parser overlap: an entry takes a space on either side, which the separator before
or behind it could take as well, and a separator tries a semicolon before it settles for newlines.
`tomlParse_eq_ok_iff` is that it nevertheless accepts exactly the documents, of lists without two
spaces in a row.

* That the parser takes nothing else (`svEntryListTail_within`) is an induction over the recursion
  bound; the spaces that an entry has taken go to the separators on its two sides.
* That it takes all of a document (`run_svEntryListTail`) is an induction over the document. The
  parser is followed from behind the space that the last entry has taken (`trim`): there a run of
  blanks is a single space that no rule will miss, or it has a newline, and then
  `svNewlineListOpt` takes it whole (`run_svNewlineList`).
-/

namespace Vmecs

/-! ### The language -/

/-- An optional space. -/
inductive IsWs : List Token → Prop where
  | nil : IsWs []
  | space {tok} (h : tok.token = .space) : IsWs [tok]

/-- A run of spaces and newlines. -/
def IsBlank (l : List Token) : Prop := ∀ tok ∈ l, tok.token = .space ∨ tok.token = .newline

/-- A list has a newline. -/
def HasNewline (l : List Token) : Prop := ∃ tok ∈ l, tok.token = .newline

/-- What stands between two entries: blanks with a newline, or with a semicolon. -/
inductive IsSeparator : List Token → Prop where
  | newline {b} (hb : IsBlank b) (hn : HasNewline b) : IsSeparator b
  | semicolon {b tok b'} (hb : IsBlank b) (h : tok.token = .semicolon) (hb' : IsBlank b') :
    IsSeparator (b ++ tok :: b')

/-- An identifier. -/
inductive IsId : List Token → CString → Prop where
  | id {tok} (h : tok.token = .id) : IsId [tok] (cstr tok.str)
  | string {tok} (h : tok.token = .string) : IsId [tok] tok.unquoted

/-- A value. -/
inductive IsValue : List Token → AstValue → Prop where
  | false {tok} (h : tok.token = .false) : IsValue [tok] (.bool false)
  | true {tok} (h : tok.token = .true) : IsValue [tok] (.bool true)
  | string {tok} (h : tok.token = .string) : IsValue [tok] (.string tok.unquoted)
  | int {tok} (h : tok.token = .int) : IsValue [tok] (.int tok.int)

/-- Identifiers with a dot before each. -/
inductive IsKeyTail : List Token → List CString → Prop where
  | nil : IsKeyTail [] []
  | cons {w dot w' i id l ids} (hw : IsWs w) (hdot : dot.token = .dot) (hw' : IsWs w')
    (hid : IsId i id) (hl : IsKeyTail l ids) : IsKeyTail (w ++ dot :: (w' ++ (i ++ l))) (id :: ids)

/-- A key: identifiers with dots between them. -/
inductive IsKey : List Token → AstKey → Prop where
  | mk {i id l next} (hid : IsId i id) (hl : IsKeyTail l next) : IsKey (i ++ l) { id, next }

/-- An entry: an assignment, a table declaration, or one of the root. -/
inductive IsEntry : List Token → AstEntry → Prop where
  | assignment {k key w eq w' v value} (hk : IsKey k key) (hw : IsWs w) (heq : eq.token = .eq)
    (hw' : IsWs w') (hv : IsValue v value) :
    IsEntry (k ++ (w ++ eq :: (w' ++ v))) { key := some key, value := some value }
  | table {lbrack w k key w' rbrack} (hl : lbrack.token = .lbrack) (hw : IsWs w) (hk : IsKey k key)
    (hw' : IsWs w') (hr : rbrack.token = .rbrack) :
    IsEntry (lbrack :: (w ++ (k ++ (w' ++ [rbrack])))) { key := some key, value := none }
  | root {lbrack w rbrack} (hl : lbrack.token = .lbrack) (hw : IsWs w)
    (hr : rbrack.token = .rbrack) :
    IsEntry (lbrack :: (w ++ [rbrack])) { key := none, value := none }

/-- Entries with a separator before each. -/
inductive IsEntries : List Token → List AstEntry → Prop where
  | nil : IsEntries [] []
  | cons {s e entry l entries} (hs : IsSeparator s) (he : IsEntry e entry)
    (hl : IsEntries l entries) : IsEntries (s ++ (e ++ l)) (entry :: entries)

/-- **A document.** -/
inductive IsDocument : List Token → List AstEntry → Prop where
  | mk {b e entry l entries b'} (hb : IsBlank b) (he : IsEntry e entry) (hl : IsEntries l entries)
    (hb' : IsBlank b') : IsDocument (b ++ (e ++ (l ++ b'))) (entry :: entries)

/-- No two spaces in a row: the lexer puts them into one token. -/
def NoAdjacentSpaces (l : List Token) : Prop :=
  l.IsChain fun tok tok' ↦ tok.token = .space → tok'.token ≠ .space

instance (l : List Token) : Decidable (NoAdjacentSpaces l) :=
  inferInstanceAs (Decidable (l.IsChain _))

/-! ### Blanks and separators -/

theorem IsBlank.append {b b' : List Token} (h : IsBlank b) (h' : IsBlank b') :
    IsBlank (b ++ b') := by
  intro tok htok
  rcases List.mem_append.1 htok with ht | ht
  · exact h tok ht
  · exact h' tok ht

theorem IsWs.isBlank {w : List Token} (h : IsWs w) : IsBlank w := by
  intro tok htok
  cases h with
  | nil => exact absurd htok List.not_mem_nil
  | space h => exact .inl (List.mem_singleton.1 htok ▸ h)

theorem isBlank_newline {tok : Token} (h : tok.token = .newline) : IsBlank [tok] := by
  intro tok' htok'
  exact .inr (List.mem_singleton.1 htok' ▸ h)

/-- Spaces on either side of a separator can be taken to belong to it. -/
theorem IsSeparator.surround {w s w' : List Token} (hw : IsWs w) (hs : IsSeparator s)
    (hw' : IsWs w') : IsSeparator (w ++ (s ++ w')) := by
  cases hs with
  | newline hb hn =>
    refine .newline (hw.isBlank.append (hb.append hw'.isBlank)) ?_
    obtain ⟨tok, htok, h⟩ := hn
    exact ⟨tok, List.mem_append_right w (List.mem_append_left w' htok), h⟩
  | @semicolon b tok b' hb h hb' =>
    have hsplit : w ++ ((b ++ tok :: b') ++ w') = (w ++ b) ++ tok :: (b' ++ w') := by simp
    rw [hsplit]
    exact .semicolon (hw.isBlank.append hb) h (hb'.append hw'.isBlank)

/-! ### What the parser takes -/

theorem term_within (t : TokenKind) :
    Descent.Within (term t) fun w tok ↦ tok.token = t ∧ w = [tok] :=
  Descent.Within.term.mono fun _ _ h ↦ ⟨of_decide_eq_true h.1, h.2⟩

theorem svSpaceOpt_within : Descent.Within svSpaceOpt fun w _ ↦ IsWs w := by
  refine .orElse (.bind (term_within .space) ?_) (.pure .nil)
  rintro tok w ⟨h, rfl⟩
  exact .pure (.space h)

theorem svValue_within : Descent.Within svValue IsValue := by
  refine .orElse (.bind (D := fun w b ↦ IsValue w (.bool b)) (.orElse ?_ ?_) ?_)
    (.orElse ?_ ?_)
  · refine .bind (term_within .false) ?_
    rintro tok w ⟨h, rfl⟩
    exact .pure (.false h)
  · refine .bind (term_within .true) ?_
    rintro tok w ⟨h, rfl⟩
    exact .pure (.true h)
  · intro b w h
    exact .pure (by simpa using h)
  · refine .bind (D := fun w s ↦ IsValue w (.string s)) (.bind (term_within .string) ?_) ?_
    · rintro tok w ⟨h, rfl⟩
      exact .pure (.string h)
    · intro s w h
      exact .pure (by simpa using h)
  · refine .bind (D := fun w n ↦ IsValue w (.int n)) (.bind (term_within .int) ?_) ?_
    · rintro tok w ⟨h, rfl⟩
      exact .pure (.int h)
    · intro n w h
      exact .pure (by simpa using h)

theorem svId_within : Descent.Within svId IsId := by
  refine .orElse (.bind (term_within .id) ?_) (.bind (term_within .string) ?_)
  · rintro tok w ⟨h, rfl⟩
    exact .pure (.id h)
  · rintro tok w ⟨h, rfl⟩
    exact .pure (.string h)

theorem svKeyTail_within (fuel : ℕ) : Descent.Within (svKeyTail fuel) IsKeyTail := by
  induction fuel with
  | zero => exact .failure
  | succ fuel ih =>
    refine .orElse (.bind svSpaceOpt_within ?_) (.pure .nil)
    intro _ w hw
    refine .bind (term_within .dot) ?_
    rintro dot _ ⟨hdot, rfl⟩
    refine .bind svSpaceOpt_within fun _ w' hw' ↦ .bind svId_within fun id i hid ↦ .bind ih ?_
    intro ids l hl
    refine .pure ?_
    simpa using IsKeyTail.cons hw hdot hw' hid hl

theorem svKey_within (fuel : ℕ) : Descent.Within (svKey fuel) IsKey := by
  refine .bind svId_within fun id i hid ↦ .bind (svKeyTail_within fuel) ?_
  intro next l hl
  exact .pure (by simpa using IsKey.mk hid hl)

/-- An entry is taken with the spaces around it. -/
def IsSpacedEntry (l : List Token) (entry : AstEntry) : Prop :=
  ∃ w e w', l = w ++ (e ++ w') ∧ IsWs w ∧ IsEntry e entry ∧ IsWs w'

theorem svEntry_within (fuel : ℕ) : Descent.Within (svEntry fuel) IsSpacedEntry := by
  refine .orElse (.bind svSpaceOpt_within ?_) (.orElse (.bind svSpaceOpt_within ?_)
    (.bind svSpaceOpt_within ?_)) <;> intro _ w₀ hw₀
  · refine .bind (svKey_within fuel) fun key k hk ↦ .bind svSpaceOpt_within fun _ w hw ↦
      .bind (term_within .eq) ?_
    rintro eq _ ⟨heq, rfl⟩
    refine .bind svSpaceOpt_within fun _ w' hw' ↦ .bind svValue_within fun value v hv ↦
      .bind svSpaceOpt_within fun _ w₁ hw₁ ↦ .pure ?_
    exact ⟨w₀, _, w₁, by simp, hw₀, .assignment hk hw heq hw' hv, hw₁⟩
  · refine .bind (term_within .lbrack) ?_
    rintro lbrack _ ⟨hl, rfl⟩
    refine .bind svSpaceOpt_within fun _ w hw ↦ .bind (svKey_within fuel) fun key k hk ↦
      .bind svSpaceOpt_within fun _ w' hw' ↦ .bind (term_within .rbrack) ?_
    rintro rbrack _ ⟨hr, rfl⟩
    refine .bind svSpaceOpt_within fun _ w₁ hw₁ ↦ .pure ?_
    exact ⟨w₀, _, w₁, by simp, hw₀, .table hl hw hk hw' hr, hw₁⟩
  · refine .bind (term_within .lbrack) ?_
    rintro lbrack _ ⟨hl, rfl⟩
    refine .bind svSpaceOpt_within fun _ w hw ↦ .bind (term_within .rbrack) ?_
    rintro rbrack _ ⟨hr, rfl⟩
    refine .bind svSpaceOpt_within fun _ w₁ hw₁ ↦ .pure ?_
    exact ⟨w₀, _, w₁, by simp, hw₀, .root hl hw hr, hw₁⟩

theorem svNewlineListOpt_within (fuel : ℕ) :
    Descent.Within (svNewlineListOpt fuel) fun w _ ↦ IsBlank w := by
  induction fuel with
  | zero => exact .failure
  | succ fuel ih =>
    refine .orElse (.bind svSpaceOpt_within fun _ w hw ↦ .bind (term_within .newline) ?_)
      (.pure fun _ h ↦ absurd h List.not_mem_nil)
    rintro nl _ ⟨hnl, rfl⟩
    refine .bind ih fun _ b hb ↦ svSpaceOpt_within.mono fun w' _ hw' ↦ ?_
    exact hw.isBlank.append ((isBlank_newline hnl).append (hb.append hw'.isBlank))

theorem svSeparator_within (fuel : ℕ) :
    Descent.Within (svSeparator fuel) fun w _ ↦ IsSeparator w := by
  refine .orElse (.bind (svNewlineListOpt_within fuel) fun _ b hb ↦
    .bind (term_within .semicolon) ?_) (.bind svSpaceOpt_within fun _ w hw ↦
    .bind (term_within .newline) ?_)
  · rintro tok _ ⟨htok, rfl⟩
    refine (svNewlineListOpt_within fuel).mono fun b' _ hb' ↦ ?_
    exact .semicolon hb htok hb'
  · rintro nl _ ⟨hnl, rfl⟩
    refine .bind (svNewlineListOpt_within fuel) fun _ b hb ↦
      svSpaceOpt_within.mono fun w' _ hw' ↦ ?_
    refine .newline (hw.isBlank.append ((isBlank_newline hnl).append (hb.append hw'.isBlank))) ?_
    exact ⟨nl, by simp, hnl⟩

/-- The further entries, with the space `w` that the entry before them has taken. -/
theorem svEntryListTail_within (bound fuel : ℕ) :
    Descent.Within (svEntryListTail bound fuel) fun r entries ↦
      ∀ w, IsWs w → ∃ l w', w ++ r = l ++ w' ∧ IsEntries l entries ∧ IsWs w' := by
  induction fuel with
  | zero => exact .failure
  | succ fuel ih =>
    refine .orElse (.bind (svSeparator_within bound) fun _ s hs ↦
      .bind (svEntry_within bound) ?_) (.pure fun w hw ↦ ⟨[], w, by simp, .nil, hw⟩)
    rintro entry _ ⟨w₁, e, w₂, rfl, hw₁, he, hw₂⟩
    refine .bind ih fun entries r hr ↦ .pure fun w hw ↦ ?_
    obtain ⟨l, w', heq, hl, hw'⟩ := hr w₂ hw₂
    refine ⟨_, w', ?_, .cons (hs.surround hw hw₁) he hl, hw'⟩
    simp [heq]

theorem svParseUnit_within (fuel : ℕ) : Descent.Within (svParseUnit fuel) IsDocument := by
  have hlist : Descent.Within (svEntryList fuel) fun r entries ↦
      ∃ b w, IsWs w ∧ IsBlank b ∧ ∃ e entry l rest, IsEntry e entry ∧ IsEntries l rest ∧
        entries = entry :: rest ∧ r = b ++ (e ++ (l ++ w)) := by
    refine .bind (svNewlineListOpt_within fuel) fun _ b hb ↦ .bind (svEntry_within fuel) ?_
    rintro entry _ ⟨w₁, e, w₂, rfl, hw₁, he, hw₂⟩
    refine .bind (svEntryListTail_within fuel fuel) fun entries r hr ↦ .pure ?_
    obtain ⟨l, w, heq, hl, hw⟩ := hr w₂ hw₂
    refine ⟨b ++ w₁, w, hw, hb.append hw₁.isBlank, e, entry, l, entries, he, hl, rfl, ?_⟩
    simp [heq]
  refine .bind hlist ?_
  rintro entries _ ⟨b, w, hw, hb, e, entry, l, rest, he, hl, rfl, rfl⟩
  refine .bind (svNewlineListOpt_within fuel) fun _ b' hb' ↦ .pure ?_
  simpa using IsDocument.mk hb he hl (hw.isBlank.append hb')

/-! ### Blanks, as the parser meets them -/

/-- What `svSpaceOpt` leaves. -/
def trim : List Token → List Token
  | [] => []
  | tok :: l => if tok.token = .space then l else tok :: l

/-- The first token, if there is one, is of another kind than `t`. -/
def NotAhead (t : TokenKind) (l : List Token) : Prop := ∀ tok ∈ l.head?, tok.token ≠ t

/-- There is no blank ahead. -/
def NoBlankAhead (l : List Token) : Prop := NotAhead .space l ∧ NotAhead .newline l

variable {l r w b : List Token} {tok : Token} {t : TokenKind} {fuel : ℕ}

theorem notAhead_nil : NotAhead t [] := by
  intro tok h
  exact absurd h (by simp)

theorem notAhead_cons : NotAhead t (tok :: l) ↔ tok.token ≠ t := by
  simp [NotAhead]

theorem trim_of_notAhead (h : NotAhead .space l) : trim l = l := by
  cases l with
  | nil => rfl
  | cons tok l => exact if_neg (notAhead_cons.1 h)

theorem IsWs.trim_append (hw : IsWs w) (hr : NotAhead .space r) : trim (w ++ r) = r := by
  cases hw with
  | nil => exact trim_of_notAhead hr
  | space h => exact if_pos h

theorem run_term (h : tok.token = t) : (term t).run (tok :: l) = some (tok, l) :=
  Descent.run_term_of (decide_eq_true h)

theorem run_term_none (h : NotAhead t l) : (term t).run l = none :=
  Descent.run_term_of_not fun tok htok ↦ decide_eq_false (h tok htok)

theorem run_svSpaceOpt : svSpaceOpt.run l = some ((), trim l) := by
  cases l with
  | nil => rfl
  | cons tok l =>
    by_cases h : tok.token = .space
    · rw [trim, if_pos h]
      exact Descent.run_orElse_left (Descent.run_bind_of (run_term h))
    · rw [trim_of_notAhead (notAhead_cons.2 h)]
      exact Descent.run_orElse_right
        (Descent.run_bind_none (run_term_none (notAhead_cons.2 h)))

theorem NoAdjacentSpaces.left {l r : List Token} (h : NoAdjacentSpaces (l ++ r)) :
    NoAdjacentSpaces l := (List.isChain_append.1 h).1

theorem NoAdjacentSpaces.right {l r : List Token} (h : NoAdjacentSpaces (l ++ r)) :
    NoAdjacentSpaces r := (List.isChain_append.1 h).2.1

/-- A run of blanks, without two spaces in a row, is a single space or has a newline at its front.
-/
theorem IsBlank.cases (hb : IsBlank b) (hc : NoAdjacentSpaces b) :
    IsWs b ∨ ∃ w nl b', b = w ++ nl :: b' ∧ IsWs w ∧ nl.token = .newline ∧ IsBlank b' := by
  rcases b with - | ⟨tok, b⟩
  · exact .inl .nil
  · rcases hb tok List.mem_cons_self with htok | htok
    · rcases b with - | ⟨nl, b⟩
      · exact .inl (.space htok)
      · have hnl : nl.token = .newline :=
          (hb nl (by simp)).resolve_left ((List.isChain_cons_cons.1 hc).1 htok)
        refine .inr ⟨[tok], nl, b, rfl, .space htok, hnl, fun tok' h ↦ hb tok' (by simp [h])⟩
    · exact .inr ⟨[], tok, b, rfl, .nil, htok, fun tok' h ↦ hb tok' (by simp [h])⟩

/-- Without a newline there is no list of newlines. -/
theorem run_svNewlineList_none (hw : IsWs w) (hr : NoBlankAhead r) :
    (svNewlineList fuel).run (w ++ r) = none := by
  refine (Descent.run_bind_of run_svSpaceOpt).trans (Descent.run_bind_none ?_)
  rw [hw.trim_append hr.1]
  exact run_term_none hr.2

/-- **A list of newlines is taken with all the blanks around it.** -/
theorem run_svNewlineList {nl : Token} (hw : IsWs w) (hnl : nl.token = .newline)
    (hb : IsBlank b) (hc : NoAdjacentSpaces b) (hr : NoBlankAhead r) (hf : b.length < fuel) :
    (svNewlineList fuel).run (w ++ nl :: (b ++ r)) = some ((), r) := by
  induction fuel generalizing w nl b with
  | zero => exact absurd hf (by omega)
  | succ fuel ih =>
    have hnl' : NotAhead .space (nl :: (b ++ r)) := notAhead_cons.2 (by simp [hnl])
    refine (Descent.run_bind_of run_svSpaceOpt).trans ?_
    rw [hw.trim_append hnl']
    refine (Descent.run_bind_of (run_term hnl)).trans ?_
    rcases hb.cases hc with hws | ⟨w', nl', b', rfl, hw', hnl', hb'⟩
    · have hopt : (svNewlineListOpt (fuel + 1)).run (b ++ r) = some ((), b ++ r) :=
        Descent.run_orElse_right (run_svNewlineList_none hws hr)
      refine (Descent.run_bind_of hopt).trans ?_
      rw [run_svSpaceOpt, hws.trim_append hr.1]
    · have hc' : NoAdjacentSpaces b' := (NoAdjacentSpaces.right (l := [nl']) hc.right)
      have hlen : b'.length < fuel := by
        simp only [List.length_append, List.length_cons] at hf
        omega
      have hopt : (svNewlineListOpt (fuel + 1)).run ((w' ++ nl' :: b') ++ r) = some ((), r) := by
        rw [List.append_assoc]
        exact Descent.run_orElse_left (ih hw' hnl' hb' hc' hlen)
      refine (Descent.run_bind_of hopt).trans ?_
      rw [run_svSpaceOpt, trim_of_notAhead hr.1]

/-! ### Identifiers, values and keys -/

theorem run_svId {i : List Token} {id : CString} (h : IsId i id) :
    svId.run (i ++ r) = some (id, r) := by
  cases h with
  | id h => exact Descent.run_orElse_left (Descent.run_bind_of (run_term h))
  | string h =>
    refine (Descent.run_orElse_right (Descent.run_bind_none (run_term_none ?_))).trans
      (Descent.run_bind_of (run_term h))
    exact notAhead_cons.2 (by simp [h])

theorem run_svId_none (hid : NotAhead .id l) (hs : NotAhead .string l) : svId.run l = none :=
  (Descent.run_orElse_right (Descent.run_bind_none (run_term_none hid))).trans
    (Descent.run_bind_none (run_term_none hs))

theorem run_svBool_none (hf : NotAhead .false l) (ht : NotAhead .true l) : svBool.run l = none :=
  (Descent.run_orElse_right (Descent.run_bind_none (run_term_none hf))).trans
    (Descent.run_bind_none (run_term_none ht))

theorem run_svValue {v : List Token} {value : AstValue} (h : IsValue v value) :
    svValue.run (v ++ r) = some (value, r) := by
  cases h with
  | false h =>
    have hbool : svBool.run _ = some (false, r) :=
      Descent.run_orElse_left (Descent.run_bind_of (run_term h))
    exact Descent.run_orElse_left (Descent.run_bind_of hbool)
  | true h =>
    have hbool : svBool.run _ = some (true, r) :=
      (Descent.run_orElse_right (Descent.run_bind_none (run_term_none
        (notAhead_cons.2 (by simp [h]))))).trans (Descent.run_bind_of (run_term h))
    exact Descent.run_orElse_left (Descent.run_bind_of hbool)
  | string h =>
    refine (Descent.run_orElse_right (Descent.run_bind_none (run_svBool_none ?_ ?_))).trans ?_
    · exact notAhead_cons.2 (by simp [h])
    · exact notAhead_cons.2 (by simp [h])
    · have hstring : svString.run _ = some (_, r) := Descent.run_bind_of (run_term h)
      exact Descent.run_orElse_left (Descent.run_bind_of hstring)
  | int h =>
    refine (Descent.run_orElse_right (Descent.run_bind_none (run_svBool_none ?_ ?_))).trans
      ((Descent.run_orElse_right (Descent.run_bind_none (Descent.run_bind_none
        (run_term_none ?_)))).trans ?_)
    · exact notAhead_cons.2 (by simp [h])
    · exact notAhead_cons.2 (by simp [h])
    · exact notAhead_cons.2 (by simp [h])
    · have hint : svInt.run _ = some (_, r) := Descent.run_bind_of (run_term h)
      exact Descent.run_bind_of hint

/-- An identifier begins with neither a blank nor punctuation. -/
theorem IsId.notAhead {i : List Token} {id : CString} (h : IsId i id) (hid : t ≠ .id)
    (hs : t ≠ .string) : NotAhead t (i ++ r) := by
  cases h with
  | id h => exact notAhead_cons.2 (by simpa [h] using hid.symm)
  | string h => exact notAhead_cons.2 (by simpa [h] using hs.symm)

theorem IsKey.notAhead {k : List Token} {key : AstKey} (h : IsKey k key) (hid : t ≠ .id)
    (hs : t ≠ .string) : NotAhead t (k ++ r) := by
  obtain ⟨hid', _⟩ := h
  rw [List.append_assoc]
  exact hid'.notAhead hid hs

/-- A value begins with no blank. -/
theorem IsValue.notAhead_space {v : List Token} {value : AstValue} (h : IsValue v value) :
    NotAhead .space (v ++ r) := by
  cases h <;> rename_i h <;> exact notAhead_cons.2 (by simp [h])

/-- The tail of a key goes on to where no dot follows. -/
theorem run_svKeyTail {ids : List CString} (h : IsKeyTail l ids) (hr : NotAhead .dot (trim r))
    (hf : l.length < fuel) : (svKeyTail fuel).run (l ++ r) = some (ids, r) := by
  induction h generalizing fuel with
  | nil =>
    obtain ⟨fuel, rfl⟩ := Nat.exists_eq_add_of_lt hf
    refine Descent.run_orElse_right ((Descent.run_bind_of run_svSpaceOpt).trans ?_)
    exact Descent.run_bind_none (run_term_none hr)
  | @cons w dot w' i id l ids hw hdot hw' hid hl ih =>
    obtain ⟨fuel, rfl⟩ : ∃ n, fuel = n + 1 := ⟨fuel - 1, by omega⟩
    have hlen : l.length < fuel := by
      simp only [List.length_append, List.length_cons] at hf
      omega
    have hdot' : NotAhead .space (dot :: (w' ++ (i ++ l) ++ r)) :=
      notAhead_cons.2 (by simp [hdot])
    refine Descent.run_orElse_left ((Descent.run_bind_of run_svSpaceOpt).trans ?_)
    rw [List.append_assoc, List.cons_append, hw.trim_append hdot']
    refine (Descent.run_bind_of (run_term hdot)).trans
      ((Descent.run_bind_of run_svSpaceOpt).trans ?_)
    rw [List.append_assoc, List.append_assoc,
      hw'.trim_append (hid.notAhead (by simp) (by simp))]
    exact (Descent.run_bind_of (run_svId hid)).trans (Descent.run_bind_of (ih hlen))

theorem run_svKey {k : List Token} {key : AstKey} (h : IsKey k key)
    (hr : NotAhead .dot (trim r)) (hf : k.length < fuel) :
    (svKey fuel).run (k ++ r) = some (key, r) := by
  obtain ⟨hid, hl⟩ := h
  rw [List.length_append] at hf
  rw [List.append_assoc]
  exact (Descent.run_bind_of (run_svId hid)).trans
    (Descent.run_bind_of (run_svKeyTail hl hr (by omega)))

theorem run_svKey_none (hid : NotAhead .id l) (hs : NotAhead .string l) :
    (svKey fuel).run l = none := Descent.run_bind_none (run_svId_none hid hs)

/-! ### Entries -/

/-- An entry begins with an identifier or a bracket. -/
theorem IsEntry.notAhead {e : List Token} {entry : AstEntry} (h : IsEntry e entry) (hid : t ≠ .id)
    (hs : t ≠ .string) (hl : t ≠ .lbrack) : NotAhead t (e ++ r) := by
  cases h with
  | assignment hk => rw [List.append_assoc]; exact hk.notAhead hid hs
  | table hl' => exact notAhead_cons.2 (by simpa [hl'] using hl.symm)
  | root hl' => exact notAhead_cons.2 (by simpa [hl'] using hl.symm)

theorem IsEntry.noBlankAhead {e : List Token} {entry : AstEntry} (h : IsEntry e entry) :
    NoBlankAhead (e ++ r) :=
  ⟨h.notAhead (by simp) (by simp) (by simp), h.notAhead (by simp) (by simp) (by simp)⟩

/-- An entry is taken with a space before it and one behind. -/
theorem run_svEntry {e : List Token} {entry : AstEntry} (h : IsEntry e entry) (hw : IsWs w)
    (hf : e.length < fuel) : (svEntry fuel).run (w ++ (e ++ r)) = some (entry, trim r) := by
  have hspace : svSpaceOpt.run (w ++ (e ++ r)) = some ((), e ++ r) := by
    rw [run_svSpaceOpt, hw.trim_append h.noBlankAhead.1]
  cases h with
  | @assignment k key w₁ eq w₂ v value hk hw₁ heq hw₂ hv =>
    simp only [List.length_append, List.length_cons] at hf
    simp only [List.append_assoc, List.cons_append] at hspace ⊢
    have heq' : NotAhead .space (eq :: (w₂ ++ (v ++ r))) := notAhead_cons.2 (by simp [heq])
    have hdot : NotAhead .dot (trim (w₁ ++ eq :: (w₂ ++ (v ++ r)))) := by
      rw [hw₁.trim_append heq']
      exact notAhead_cons.2 (by simp [heq])
    refine Descent.run_orElse_left ((Descent.run_bind_of hspace).trans
      ((Descent.run_bind_of (run_svKey hk hdot (by omega))).trans
      ((Descent.run_bind_of run_svSpaceOpt).trans ?_)))
    rw [hw₁.trim_append heq']
    refine (Descent.run_bind_of (run_term heq)).trans ?_
    refine (Descent.run_bind_of run_svSpaceOpt).trans ?_
    rw [hw₂.trim_append hv.notAhead_space]
    exact (Descent.run_bind_of (run_svValue hv)).trans (Descent.run_bind_of run_svSpaceOpt)
  | @table lbrack w₁ k key w₂ rbrack hl hw₁ hk hw₂ hr =>
    simp only [List.length_append, List.length_cons] at hf
    simp only [List.append_assoc, List.cons_append, List.nil_append] at hspace ⊢
    have hr' : NotAhead .space (rbrack :: r) := notAhead_cons.2 (by simp [hr])
    have hdot : NotAhead .dot (trim (w₂ ++ rbrack :: r)) := by
      rw [hw₂.trim_append hr']
      exact notAhead_cons.2 (by simp [hr])
    -- a bracket is not the key of an assignment
    refine (Descent.run_orElse_right ((Descent.run_bind_of hspace).trans (Descent.run_bind_none
      (run_svKey_none (notAhead_cons.2 (by simp [hl])) (notAhead_cons.2 (by simp [hl])))))).trans ?_
    refine Descent.run_orElse_left ((Descent.run_bind_of hspace).trans
      ((Descent.run_bind_of (run_term hl)).trans ((Descent.run_bind_of run_svSpaceOpt).trans ?_)))
    rw [hw₁.trim_append (hk.notAhead (by simp) (by simp))]
    refine (Descent.run_bind_of (run_svKey hk hdot (by omega))).trans
      ((Descent.run_bind_of run_svSpaceOpt).trans ?_)
    rw [hw₂.trim_append hr']
    exact (Descent.run_bind_of (run_term hr)).trans (Descent.run_bind_of run_svSpaceOpt)
  | @root lbrack w₁ rbrack hl hw₁ hr =>
    simp only [List.append_assoc, List.cons_append, List.nil_append] at hspace ⊢
    have hr' : NotAhead .space (rbrack :: r) := notAhead_cons.2 (by simp [hr])
    refine (Descent.run_orElse_right ((Descent.run_bind_of hspace).trans (Descent.run_bind_none
      (run_svKey_none (notAhead_cons.2 (by simp [hl])) (notAhead_cons.2 (by simp [hl])))))).trans ?_
    -- nor is the other bracket the key of a table
    refine (Descent.run_orElse_right ((Descent.run_bind_of hspace).trans
      ((Descent.run_bind_of (run_term hl)).trans ((Descent.run_bind_of run_svSpaceOpt).trans
      (Descent.run_bind_none ?_))))).trans ?_
    · rw [hw₁.trim_append hr']
      exact run_svKey_none (notAhead_cons.2 (by simp [hr])) (notAhead_cons.2 (by simp [hr]))
    · refine (Descent.run_bind_of hspace).trans
        ((Descent.run_bind_of (run_term hl)).trans ((Descent.run_bind_of run_svSpaceOpt).trans ?_))
      rw [hw₁.trim_append hr']
      exact (Descent.run_bind_of (run_term hr)).trans (Descent.run_bind_of run_svSpaceOpt)

theorem run_svEntry_none (hw : IsWs w) : (svEntry fuel).run w = none := by
  have hspace : svSpaceOpt.run w = some ((), []) := by
    rw [run_svSpaceOpt, ← List.append_nil w, hw.trim_append notAhead_nil]
  refine (Descent.run_orElse_right ((Descent.run_bind_of hspace).trans rfl)).trans
    ((Descent.run_orElse_right ((Descent.run_bind_of hspace).trans rfl)).trans
    ((Descent.run_bind_of hspace).trans rfl))

/-! ### Separators -/

/-- An optional list of newlines leaves at most a space of the blanks it is given. -/
theorem run_svNewlineListOpt (hb : IsBlank b) (hc : NoAdjacentSpaces b) (hr : NoBlankAhead r)
    (hf : b.length < fuel) :
    ∃ w, IsWs w ∧ (svNewlineListOpt fuel).run (b ++ r) = some ((), w ++ r) := by
  obtain ⟨fuel, rfl⟩ : ∃ n, fuel = n + 1 := ⟨fuel - 1, by omega⟩
  rcases hb.cases hc with hw | ⟨w, nl, b', rfl, hw, hnl, hb'⟩
  · exact ⟨b, hw, Descent.run_orElse_right (run_svNewlineList_none hw hr)⟩
  · have hlen : b'.length < fuel := by
      simp only [List.length_append, List.length_cons] at hf
      omega
    refine ⟨[], .nil, Descent.run_orElse_left ?_⟩
    rw [List.append_assoc]
    exact run_svNewlineList hw hnl hb' (NoAdjacentSpaces.right (l := [nl]) hc.right) hr hlen

/-- Behind an entry, where the space is gone, a list of newlines leaves none. -/
theorem run_svNewlineList_trim {nl : Token} (hw : IsWs w) (hnl : nl.token = .newline)
    (hb : IsBlank b) (hc : NoAdjacentSpaces (w ++ nl :: b)) (hr : NoBlankAhead r)
    (hf : (w ++ nl :: b).length < fuel + 1) :
    (svNewlineList fuel).run (trim (w ++ nl :: b ++ r)) = some ((), r) := by
  have hlen : b.length < fuel := by
    simp only [List.length_append, List.length_cons] at hf
    omega
  rw [List.append_assoc, List.cons_append, hw.trim_append (notAhead_cons.2 (by simp [hnl]))]
  exact run_svNewlineList (w := []) .nil hnl hb (NoAdjacentSpaces.right (l := [nl]) hc.right) hr
    hlen

/-- The optional one leaves none either. -/
theorem run_svNewlineListOpt_trim (hb : IsBlank b) (hc : NoAdjacentSpaces b) (hr : NoBlankAhead r)
    (hf : b.length < fuel) : (svNewlineListOpt fuel).run (trim (b ++ r)) = some ((), r) := by
  obtain ⟨fuel, rfl⟩ : ∃ n, fuel = n + 1 := ⟨fuel - 1, by omega⟩
  rcases hb.cases hc with hw | ⟨w, nl, b', rfl, hw, hnl, hb'⟩
  · rw [hw.trim_append hr.1]
    exact Descent.run_orElse_right (run_svNewlineList_none (w := []) .nil hr)
  · exact Descent.run_orElse_left (run_svNewlineList_trim hw hnl hb' hc hr hf)

theorem IsWs.not_hasNewline (hw : IsWs w) : ¬HasNewline w := by
  rintro ⟨tok, htok, hn⟩
  cases hw with
  | nil => exact List.not_mem_nil htok
  | space h => simp [List.mem_singleton.1 htok, h] at hn

/-- A separator behind an entry is taken up to a last space. -/
theorem run_svSeparator {s : List Token} (hs : IsSeparator s) (hc : NoAdjacentSpaces s)
    (hr : NoBlankAhead r) (hsemi : NotAhead .semicolon r) (hf : s.length < fuel) :
    ∃ w, IsWs w ∧ (svSeparator fuel).run (trim (s ++ r)) = some ((), w ++ r) := by
  cases hs with
  | newline hb hn =>
    refine ⟨[], .nil, ?_⟩
    refine (Descent.run_orElse_right ((Descent.run_bind_of
      (run_svNewlineListOpt_trim hb hc hr hf)).trans
      (Descent.run_bind_none (run_term_none hsemi)))).trans ?_
    rcases hb.cases hc with hw | ⟨w, nl, b', rfl, hw, hnl, hb'⟩
    · exact absurd hn hw.not_hasNewline
    · exact run_svNewlineList_trim hw hnl hb' hc hr (by omega)
  | @semicolon b tok b' hb htok hb' =>
    simp only [List.length_append, List.length_cons] at hf
    have htok' : NoBlankAhead (tok :: (b' ++ r)) :=
      ⟨notAhead_cons.2 (by simp [htok]), notAhead_cons.2 (by simp [htok])⟩
    obtain ⟨w, hw, hrun⟩ :
        ∃ w, IsWs w ∧ (svNewlineListOpt fuel).run (b' ++ r) = some ((), w ++ r) :=
      run_svNewlineListOpt hb' (NoAdjacentSpaces.right (l := [tok]) hc.right) hr (by omega)
    refine ⟨w, hw, ?_⟩
    rw [List.append_assoc, List.cons_append]
    exact Descent.run_orElse_left ((Descent.run_bind_of
      (run_svNewlineListOpt_trim hb hc.left htok' (by omega))).trans
      ((Descent.run_bind_of (run_term htok)).trans hrun))

/-- Blanks at the end are no separator, or one with nothing behind it. -/
theorem run_svSeparator_end (hb : IsBlank b) (hc : NoAdjacentSpaces b) (hf : b.length < fuel) :
    (svSeparator fuel).run (trim b) = none ∨
      ∃ w, IsWs w ∧ (svSeparator fuel).run (trim b) = some ((), w) := by
  have hnil : NoBlankAhead [] := ⟨notAhead_nil, notAhead_nil⟩
  rw [← List.append_nil b]
  rcases hb.cases hc with hw | ⟨w, nl, b', rfl, hw, hnl, hb'⟩
  · refine .inl ((Descent.run_orElse_right ((Descent.run_bind_of
      (run_svNewlineListOpt_trim hb hc hnil hf)).trans rfl)).trans ?_)
    rw [hw.trim_append notAhead_nil]
    exact run_svNewlineList_none (w := []) .nil hnil
  · obtain ⟨w', hw', hrun⟩ :=
      run_svSeparator (.newline hb ⟨nl, by simp, hnl⟩) hc hnil notAhead_nil hf
    exact .inr ⟨w', hw', by simpa using hrun⟩

/-! ### Documents -/

/-- The further entries and the blanks at the end, behind the first entry. -/
theorem run_svEntryListTail {bound : ℕ} {entries : List AstEntry} (h : IsEntries l entries)
    (hb : IsBlank b) (hc : NoAdjacentSpaces (l ++ b)) (hbound : (l ++ b).length < bound)
    (hf : l.length < fuel) :
    (svEntryListTail bound fuel).run (trim (l ++ b)) = some (entries, trim b) := by
  induction h generalizing fuel with
  | nil =>
    obtain ⟨fuel, rfl⟩ := Nat.exists_eq_add_of_lt hf
    refine Descent.run_orElse_right ?_
    rcases run_svSeparator_end hb hc hbound with hrun | ⟨w, hw, hrun⟩
    · exact Descent.run_bind_none hrun
    · exact (Descent.run_bind_of hrun).trans (Descent.run_bind_none (run_svEntry_none hw))
  | @cons s e entry l entries hs he hl ih =>
    obtain ⟨fuel, rfl⟩ : ∃ n, fuel = n + 1 := ⟨fuel - 1, by omega⟩
    simp only [List.append_assoc] at hc hbound ⊢
    have hspos : 0 < e.length := by
      cases he <;> (simp only [List.length_append, List.length_cons]; omega)
    simp only [List.length_append] at hbound hf
    obtain ⟨w, hw, hrun⟩ : ∃ w, IsWs w ∧
        (svSeparator bound).run (trim (s ++ (e ++ (l ++ b)))) = some ((), w ++ (e ++ (l ++ b))) :=
      run_svSeparator hs hc.left he.noBlankAhead (he.notAhead (by simp) (by simp) (by simp))
        (by omega)
    refine Descent.run_orElse_left ((Descent.run_bind_of hrun).trans
      ((Descent.run_bind_of (run_svEntry he hw (by omega))).trans
      (Descent.run_bind_of (ih hc.right.right ?_ ?_))))
    · simp only [List.length_append]
      omega
    · omega

/-- **A document is parsed, to its entries.** -/
theorem run_svParseUnit {entries : List AstEntry} (h : IsDocument l entries)
    (hc : NoAdjacentSpaces l) (hf : l.length < fuel) :
    (svParseUnit fuel).run l = some (entries, []) := by
  obtain ⟨hb, he, hl, hb'⟩ := h
  rename_i b e entry l entries b'
  simp only [List.length_append] at hf
  obtain ⟨w, hw, hrun⟩ : ∃ w, IsWs w ∧
      (svNewlineListOpt fuel).run (b ++ (e ++ (l ++ b'))) = some ((), w ++ (e ++ (l ++ b'))) :=
    run_svNewlineListOpt hb hc.left he.noBlankAhead (by omega)
  have hlist : (svEntryList fuel).run (b ++ (e ++ (l ++ b'))) = some (entry :: entries, trim b') :=
    (Descent.run_bind_of hrun).trans ((Descent.run_bind_of (run_svEntry he hw (by omega))).trans
      (Descent.run_bind_of (run_svEntryListTail hl hb' hc.right.right
        (by simp only [List.length_append]; omega) (by omega))))
  have hend : (svNewlineListOpt fuel).run (trim b') = some ((), []) := by
    rw [← List.append_nil b']
    exact run_svNewlineListOpt_trim hb' hc.right.right.right ⟨notAhead_nil, notAhead_nil⟩ (by omega)
  exact (Descent.run_bind_of hlist).trans (Descent.run_bind_of hend)

/-- **The parser accepts exactly the documents**, whatever the bound on its recursion as long as it
exceeds the number of tokens. -/
theorem svParseUnit_iff {entries : List AstEntry} (hc : NoAdjacentSpaces l) (hf : l.length < fuel) :
    (svParseUnit fuel).run l = some (entries, []) ↔ IsDocument l entries := by
  constructor
  · intro hrun
    obtain ⟨w, rfl, hw⟩ := svParseUnit_within fuel l entries [] hrun
    rwa [List.append_nil]
  · intro h
    exact run_svParseUnit h hc hf

/-- **`toml_parse` accepts exactly the documents**, and returns their entries in order. -/
theorem tomlParse_eq_ok_iff {list : List Token} (hc : NoAdjacentSpaces list)
    (entries : List AstEntry) : tomlParse list = .ok entries ↔ IsDocument list entries := by
  rw [← svParseUnit_iff hc (Nat.lt_succ_self list.length), tomlParse]
  constructor
  · intro h
    split at h
    · next heq => rw [heq, Except.ok.inj h]
    · exact absurd h (by simp)
  · intro h
    rw [h]

/-- The tokens of a table declaration and, behind a newline, an assignment: `[t]`, `a.'b' = -1_0`.
-/
def sampleTokens : List Token :=
  [{ token := .lbrack, str := [91], quoted := by decide },
   { token := .id, str := [116], quoted := by decide },
   { token := .rbrack, str := [93], quoted := by decide },
   { token := .newline, str := [10], quoted := by decide },
   { token := .id, str := [97], quoted := by decide },
   { token := .dot, str := [46], quoted := by decide },
   { token := .string, str := [39, 98, 39], quoted := by decide },
   { token := .space, str := [32], quoted := by decide },
   { token := .eq, str := [61], quoted := by decide },
   { token := .space, str := [32], quoted := by decide },
   { token := .int, str := [45, 49, 95, 48], quoted := by decide }]

/-- The entries of `sampleTokens`. -/
def sampleEntries : List AstEntry :=
  [{ key := some { id := cstr [116], next := [] }, value := none },
   { key := some { id := cstr [97], next := [cstr [98]] }, value := some (.int (-10)) }]

theorem tomlParse_eq_ok_sampleTokens : IsDocument sampleTokens sampleEntries :=
  (tomlParse_eq_ok_iff (by decide) sampleEntries).1 (by decide)

end Vmecs
