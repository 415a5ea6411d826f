import Vmecs.App.Main
import Vmecs.Proto.Relay.Chain
import Vmecs.Toml.Reading

/-!
# What a configuration says

The program runs the relay exactly for the configurations that describe one: the text is a document
that can be loaded, and the strings that it assigns describe an inbound and an outbound
(`InboundOf`, `OutboundOf`). These relations are about the entries of the document alone, whatever
way they are written.

A builder is a sequence of lookups, each of which returns what it looks for or says what is missing.
So what it returns is put together in the same way (`Builds`): a sequence returns what the last
makes of what the first has returned.
-/

namespace Vmecs

open Scanner

/-! ### Names in a query -/

/-- A name: an identifier that is not taken for a keyword. -/
def isName (s : CString) : Bool :=
  match s.1 with
  | [] => false
  | c :: w => isIdStart c && w.all isIdChar && keywordClass (c :: w) = .id

/-- The token of a name. -/
def nameToken (s : CString) : Token := ⟨.id, s.1, fun h ↦ absurd h (by simp)⟩

theorem isLexeme_of_isName {s : CString} (h : isName s) : IsLexeme .id s.1 ∧
    keywordClass s.1 = .id := by
  obtain ⟨_ | ⟨c, w⟩, hs⟩ := s
  · exact absurd h (by simp [isName])
  · simp only [isName, Bool.and_eq_true, decide_eq_true_eq, List.all_eq_true] at h
    exact ⟨.id h.1.1 h.1.2, h.2⟩

/-- **A query**: two names with a dot between them are a key. -/
theorem keyText_dotted {table name : CString} (htable : isName table) (hname : isName name) :
    KeyText (dotted table name) ⟨table, [name]⟩ := by
  obtain ⟨htableLex, htableClass⟩ := isLexeme_of_isName htable
  obtain ⟨hnameLex, hnameClass⟩ := isLexeme_of_isName hname
  let dot : Token := ⟨.dot, [0x2e], fun h ↦ absurd h (by simp)⟩
  refine ⟨[nameToken table, dot, nameToken name], ⟨[⟨.id, table.1⟩, ⟨.dot, [0x2e]⟩, ⟨.id, name.1⟩],
    [], ?_, ⟨?_, ?_⟩, .nil, ?_⟩, ?_⟩
  · simp [dotted, texts]
  · simp only [List.mem_cons, List.not_mem_nil, or_false, forall_eq_or_imp, forall_eq]
    exact ⟨htableLex, .dot, hnameLex⟩
  · exact ⟨rfl, rfl, rfl, trivial⟩
  · simp [tomlKeyword, keywordToken, removeComments, htableClass, hnameClass, nameToken, dot,
      Token.lexeme]
  · have hkey : IsKey ([nameToken table] ++ [dot, nameToken name])
        ⟨cstr table.1, [cstr name.1]⟩ := .mk (.id rfl) (.cons .nil rfl .nil (.id rfl) .nil)
    rwa [cstr_val, cstr_val] at hkey

/-! ### Strings of a document -/

/-- The document assigns this string to the name in the table. -/
def Assigns (es : List FullEntry) (table name str : CString) : Prop :=
  ([table, name], some (.string str)) ∈ es

instance (es : List FullEntry) (table name str : CString) :
    Decidable (Assigns es table name str) :=
  inferInstanceAs (Decidable (_ ∈ _))

section

variable {conf : Heap} {es : List FullEntry} {table name : CString}

/-- What is looked up is what is assigned. -/
theorem configLookupString_eq (h : Means conf 0 es) (htable : isName table) (hname : isName name) :
    ∃ r, configLookupString conf (dotted table name) = some r ∧
      ∀ str, r = some str ↔ Assigns es table name str := by
  have hans := h.answers (keyText_dotted htable hname)
  rw [configLookupString]
  by_cases hvalue : ∃ v, ([table, name], some v) ∈ es
  · obtain ⟨v, hv⟩ := hvalue
    rw [hans.value v hv]
    have honly (str : CString) (hstr : Assigns es table name str) : v = .string str := by
      have heq := (hans.value v hv).symm.trans (hans.value _ hstr)
      rcases v with _ | _ | str'
      · simp [AstValue.gen] at heq
      · simp [AstValue.gen] at heq
      · simpa [AstValue.gen] using heq
    rcases v with val | val | str
    · exact ⟨none, rfl, fun str ↦ ⟨fun h ↦ absurd h (by simp), fun h ↦
        absurd (honly str h) (by simp)⟩⟩
    · exact ⟨none, rfl, fun str ↦ ⟨fun h ↦ absurd h (by simp), fun h ↦
        absurd (honly str h) (by simp)⟩⟩
    · refine ⟨some str, rfl, fun str' ↦ ⟨fun h ↦ ?_, fun h ↦ ?_⟩⟩
      · obtain rfl := Option.some.inj h
        exact hv
      · rw [AstValue.string.inj (honly str' h)]
  · have hnone (str : CString) : ¬Assigns es table name str := fun h ↦ hvalue ⟨_, h⟩
    refine ⟨none, ?_, fun str ↦ ⟨fun h ↦ absurd h (by simp), fun h ↦ absurd h (hnone str)⟩⟩
    by_cases htablePath : IsTablePath es [table, name]
    · obtain ⟨addr, haddr⟩ := hans.table htablePath
      rw [haddr]
    · obtain ⟨e, he⟩ := hans.other (fun v hv ↦ hvalue ⟨v, hv⟩) htablePath
      rw [he]

end

/-! ### Builders -/

section

variable {α β : Type}

/-- The builder returns what satisfies `P`, or says something. -/
structure Builds (build : Builder α) (P : α → Prop) : Prop where
  returns : ∃ r, ExceptT.run build = some r
  ok_iff : ∀ a, ExceptT.run build = some (.ok a) ↔ P a

namespace Builds

theorem pure (a : α) : Builds (Pure.pure a) (· = a) :=
  ⟨⟨_, rfl⟩, fun _ ↦ ⟨fun h ↦ (Except.ok.inj (Option.some.inj h)).symm, fun h ↦ h ▸ rfl⟩⟩

theorem run_bind_ok {build : Builder α} {f : α → Builder β} {a : α}
    (h : ExceptT.run build = some (.ok a)) : ExceptT.run (build >>= f) = ExceptT.run (f a) := by
  rw [ExceptT.run_bind, h]
  rfl

theorem run_bind_error {build : Builder α} {f : α → Builder β} {report : Report}
    (h : ExceptT.run build = some (.error report)) :
    ExceptT.run (build >>= f) = some (.error report) := by
  rw [ExceptT.run_bind, h]
  rfl

/-- **A sequence** returns what the last makes of what the first has returned. -/
theorem bind {build : Builder α} {P : α → Prop} {f : α → Builder β} {Q : α → β → Prop}
    (h : Builds build P) (hf : ∀ a, P a → Builds (f a) (Q a)) :
    Builds (build >>= f) fun b ↦ ∃ a, P a ∧ Q a b := by
  obtain ⟨⟨r, hr⟩, hok⟩ := h
  rcases r with report | a
  · have hnone (a : α) : ¬P a := fun ha ↦
      absurd (Option.some.inj (hr.symm.trans ((hok a).2 ha))) (by simp)
    refine ⟨⟨_, run_bind_error hr⟩, fun b ↦ ⟨fun hb ↦ ?_, fun ⟨a, ha, _⟩ ↦ absurd ha (hnone a)⟩⟩
    rw [run_bind_error hr] at hb
    exact absurd (Option.some.inj hb) (by simp)
  · have ha := (hok a).1 hr
    have honly (a' : α) (ha' : P a') : a' = a :=
      Except.ok.inj (Option.some.inj (((hok a').2 ha').symm.trans hr))
    refine ⟨run_bind_ok hr ▸ (hf a ha).returns, fun b ↦ ?_⟩
    rw [run_bind_ok hr, (hf a ha).ok_iff]
    refine ⟨fun hb ↦ ⟨a, ha, hb⟩, ?_⟩
    rintro ⟨a', ha', hb⟩
    rwa [← honly a' ha']

theorem congr {build : Builder α} {P Q : α → Prop} (h : Builds build P) (hPQ : ∀ a, P a ↔ Q a) :
    Builds build Q :=
  ⟨h.returns, fun a ↦ (h.ok_iff a).trans (hPQ a)⟩

end Builds

end

/-- A target whose two texts are assigned. -/
def AssignsTarget (I : Inet) (unset : ℤ) (es : List FullEntry) (table name : CString)
    (target : TargetId) : Prop :=
  ∃ node, Assigns es table name node ∧ ∃ port, Assigns es table textPort port ∧
    targetIdParse I unset node port = some target

section

variable {C : Crypto} {I : Inet} {unset : ℤ} {conf : Heap} {es : List FullEntry}

theorem builds_configNeedString (h : Means conf 0 es) {table name : CString}
    (htable : isName table) (hname : isName name) (undefined : String) :
    Builds (configNeedString conf (dotted table name) undefined) (Assigns es table name) := by
  obtain ⟨r, hr, hok⟩ := configLookupString_eq h htable hname
  rw [configNeedString, hr]
  rcases r with _ | str
  · exact ⟨⟨_, rfl⟩, fun str ↦ ⟨fun h ↦ absurd (Option.some.inj h) (by simp), fun hstr ↦
      absurd ((hok str).2 hstr) (by simp)⟩⟩
  · refine (Builds.pure str).congr fun str' ↦ ?_
    rw [← hok, Option.some_inj, eq_comm]

theorem builds_loadParam (h : Means conf 0 es) {table name : CString} (htable : isName table)
    (hname : isName name) (nodeUndefined portUndefined unparsed : String) :
    Builds (loadParam I unset conf (dotted table name) nodeUndefined (dotted table textPort)
      portUndefined unparsed) (AssignsTarget I unset es table name) := by
  refine (builds_configNeedString h htable hname _).bind fun node _ ↦
    (builds_configNeedString h htable (by decide) _).bind fun port _ ↦ ?_
  rcases hparse : targetIdParse I unset node port with _ | target
  · exact ⟨⟨_, rfl⟩, fun a ↦ ⟨fun h ↦ absurd (Option.some.inj h) (by simp), fun h ↦
      absurd h (by simp)⟩⟩
  · refine (Builds.pure target).congr fun target' ↦ ?_
    rw [Option.some_inj, eq_comm]

/-- The target of the inbound. -/
abbrev InboundTarget (I : Inet) (unset : ℤ) (es : List FullEntry) : TargetId → Prop :=
  AssignsTarget I unset es textInbound textLocal

/-- The target of the outbound. -/
abbrev OutboundTarget (I : Inet) (unset : ℤ) (es : List FullEntry) : TargetId → Prop :=
  AssignsTarget I unset es textOutbound textProxy

/-- A builder that needs a target only. -/
theorem Builds.target {α : Type} {build : Builder TargetId} {P : TargetId → Prop}
    (h : Builds build P) (f : TargetId → α) :
    Builds (build >>= fun target ↦ Pure.pure (f target)) fun a ↦
      ∃ target, P target ∧ a = f target :=
  h.bind fun target _ ↦ .pure (f target)

/-! ### What the two tables describe -/

/-- The document describes this inbound of a protocol. -/
inductive InboundFor (C : Crypto) (I : Inet) (unset : ℤ) (es : List FullEntry) (proto : CString) :
    TcpInbound → Prop where
  | vmess {pass : CString} {bind : TargetId} (hproto : proto = textVmess)
      (hpass : Assigns es textInbound textPass pass) (hbind : InboundTarget I unset es bind) :
      InboundFor C I unset es proto (.vmess (passwordConfig C pass) bind)
  | socks {bind : TargetId} (hproto : proto ∈ [textSocks, textSocks4, textSocks5])
      (hbind : InboundTarget I unset es bind) : InboundFor C I unset es proto (.socks bind)
  | dokodemo {bind : TargetId} (hproto : proto = textDokodemo)
      (hbind : InboundTarget I unset es bind) : InboundFor C I unset es proto (.dokodemo bind)

/-- The document describes this outbound of a protocol. -/
inductive OutboundFor (C : Crypto) (I : Inet) (unset : ℤ) (es : List FullEntry) (proto : CString) :
    TcpOutbound → Prop where
  | vmess {pass : CString} {proxy : TargetId} (hproto : proto = textVmess)
      (hpass : Assigns es textOutbound textPass pass) (hproxy : OutboundTarget I unset es proxy) :
      OutboundFor C I unset es proto (.vmess (passwordConfig C pass) proxy)
  | socks4 {proxy : TargetId} (hproto : proto = textSocks4)
      (hproxy : OutboundTarget I unset es proxy) :
      OutboundFor C I unset es proto (.socks proxy .v4)
  | socks5 {proxy : TargetId} (hproto : proto = textSocks5)
      (hproxy : OutboundTarget I unset es proxy) :
      OutboundFor C I unset es proto (.socks proxy .v5)
  | dokodemo {proxy : TargetId} (hproto : proto = textDokodemo)
      (hproxy : OutboundTarget I unset es proxy) : OutboundFor C I unset es proto (.dokodemo proxy)
  | native (hproto : proto = textNative) : OutboundFor C I unset es proto .native

/-- The document describes this inbound. -/
def InboundOf (C : Crypto) (I : Inet) (unset : ℤ) (es : List FullEntry) (inbound : TcpInbound) :
    Prop :=
  ∃ proto, Assigns es textInbound textProto proto ∧ InboundFor C I unset es proto inbound

/-- The document describes this outbound. -/
def OutboundOf (C : Crypto) (I : Inet) (unset : ℤ) (es : List FullEntry) (outbound : TcpOutbound) :
    Prop :=
  ∃ proto, Assigns es textOutbound textProto proto ∧ OutboundFor C I unset es proto outbound

theorem builds_vmessInboundBuilder (h : Means conf 0 es) :
    Builds (vmessInboundBuilder C I unset conf) (InboundFor C I unset es textVmess) := by
  refine ((builds_configNeedString h (by decide) (by decide) _).bind fun pass _ ↦
    (builds_loadParam h (by decide) (by decide) _ _ _).target _).congr fun inbound ↦ ⟨?_, ?_⟩
  · rintro ⟨pass, hpass, bind, hbind, rfl⟩
    exact .vmess rfl hpass hbind
  · rintro (⟨-, hpass, hbind⟩ | ⟨hproto, -⟩ | ⟨hproto, -⟩)
    · exact ⟨_, hpass, _, hbind, rfl⟩
    · exact absurd hproto (by decide)
    · exact absurd hproto (by decide)

theorem builds_vmessOutboundBuilder (h : Means conf 0 es) :
    Builds (vmessOutboundBuilder C I unset conf) (OutboundFor C I unset es textVmess) := by
  refine ((builds_configNeedString h (by decide) (by decide) _).bind fun pass _ ↦
    (builds_loadParam h (by decide) (by decide) _ _ _).target _).congr fun outbound ↦ ⟨?_, ?_⟩
  · rintro ⟨pass, hpass, proxy, hproxy, rfl⟩
    exact .vmess rfl hpass hproxy
  · rintro (⟨-, hpass, hproxy⟩ | ⟨hproto, -⟩ | ⟨hproto, -⟩ | ⟨hproto, -⟩ | hproto)
    · exact ⟨_, hpass, _, hproxy, rfl⟩
    · exact absurd hproto (by decide)
    · exact absurd hproto (by decide)
    · exact absurd hproto (by decide)
    · exact absurd hproto (by decide)

/-- The three names of a SOCKS inbound have the same builder. -/
theorem builds_socksInboundBuilder (h : Means conf 0 es) {proto : CString}
    (hproto : proto ∈ [textSocks, textSocks4, textSocks5]) :
    Builds (socksInboundBuilder I unset conf) (InboundFor C I unset es proto) := by
  have hne : proto ≠ textVmess ∧ proto ≠ textDokodemo := by
    simp only [List.mem_cons, List.not_mem_nil, or_false] at hproto
    rcases hproto with rfl | rfl | rfl
    · decide
    · decide
    · decide
  refine ((builds_loadParam h (by decide) (by decide) _ _ _).target _).congr fun inbound ↦ ⟨?_, ?_⟩
  · rintro ⟨bind, hbind, rfl⟩
    exact .socks hproto hbind
  · rintro (⟨hvmess, -⟩ | ⟨-, hbind⟩ | ⟨hdokodemo, -⟩)
    · exact absurd hvmess hne.1
    · exact ⟨_, hbind, rfl⟩
    · exact absurd hdokodemo hne.2

theorem builds_dokodemoInboundBuilder (h : Means conf 0 es) :
    Builds (dokodemoInboundBuilder I unset conf) (InboundFor C I unset es textDokodemo) := by
  refine ((builds_loadParam h (by decide) (by decide) _ _ _).target _).congr fun inbound ↦ ⟨?_, ?_⟩
  · rintro ⟨bind, hbind, rfl⟩
    exact .dokodemo rfl hbind
  · rintro (⟨hproto, -⟩ | ⟨hproto, -⟩ | ⟨-, hbind⟩)
    · exact absurd hproto (by decide)
    · exact absurd hproto (by decide)
    · exact ⟨_, hbind, rfl⟩

/-- The outbounds of SOCKS differ in their version. -/
theorem builds_socksOutboundBuilder (h : Means conf 0 es) {proto : CString} {vers : SocksVersion}
    (hproto : proto = textSocks4 ∧ vers = .v4 ∨ proto = textSocks5 ∧ vers = .v5) :
    Builds (do let proxy ← loadOutboundParam I unset conf; return .socks proxy vers)
      (OutboundFor C I unset es proto) := by
  refine ((builds_loadParam h (by decide) (by decide) _ _ _).target _).congr fun outbound ↦ ⟨?_, ?_⟩
  · rintro ⟨proxy, hproxy, rfl⟩
    rcases hproto with ⟨hproto, rfl⟩ | ⟨hproto, rfl⟩
    · exact .socks4 hproto hproxy
    · exact .socks5 hproto hproxy
  · rcases hproto with ⟨rfl, rfl⟩ | ⟨rfl, rfl⟩
    · rintro (⟨hproto, -⟩ | ⟨-, hproxy⟩ | ⟨hproto, -⟩ | ⟨hproto, -⟩ | hproto)
      · exact absurd hproto (by decide)
      · exact ⟨_, hproxy, rfl⟩
      · exact absurd hproto (by decide)
      · exact absurd hproto (by decide)
      · exact absurd hproto (by decide)
    · rintro (⟨hproto, -⟩ | ⟨hproto, -⟩ | ⟨-, hproxy⟩ | ⟨hproto, -⟩ | hproto)
      · exact absurd hproto (by decide)
      · exact absurd hproto (by decide)
      · exact ⟨_, hproxy, rfl⟩
      · exact absurd hproto (by decide)
      · exact absurd hproto (by decide)

theorem builds_dokodemoOutboundBuilder (h : Means conf 0 es) :
    Builds (dokodemoOutboundBuilder I unset conf) (OutboundFor C I unset es textDokodemo) := by
  refine ((builds_loadParam h (by decide) (by decide) _ _ _).target _).congr fun outbound ↦ ⟨?_, ?_⟩
  · rintro ⟨proxy, hproxy, rfl⟩
    exact .dokodemo rfl hproxy
  · rintro (⟨hproto, -⟩ | ⟨hproto, -⟩ | ⟨hproto, -⟩ | ⟨-, hproxy⟩ | hproto)
    · exact absurd hproto (by decide)
    · exact absurd hproto (by decide)
    · exact absurd hproto (by decide)
    · exact ⟨_, hproxy, rfl⟩
    · exact absurd hproto (by decide)

theorem builds_nativeOutboundBuilder :
    Builds nativeOutboundBuilder (OutboundFor C I unset es textNative) := by
  refine (Builds.pure _).congr fun outbound ↦ ⟨?_, ?_⟩
  · rintro rfl
    exact .native rfl
  · rintro (⟨hproto, -⟩ | ⟨hproto, -⟩ | ⟨hproto, -⟩ | ⟨hproto, -⟩ | -)
    · exact absurd hproto (by decide)
    · exact absurd hproto (by decide)
    · exact absurd hproto (by decide)
    · exact absurd hproto (by decide)
    · rfl

/-! ### The loop over the protocols -/

/-- The function returns what satisfies `P`, and says something exactly if it returns nothing. -/
structure Loads {α : Type} (loaded : Option (Loaded α)) (P : α → Prop) : Prop where
  returns : ∃ said res, loaded = some (said, res) ∧ (∀ a, res = some a ↔ P a) ∧
    (said = [] ↔ res.isSome)

theorem loads_run {α : Type} {build : Builder α} {P : α → Prop} (h : Builds build P) :
    Loads build.run P := by
  obtain ⟨⟨r, hr⟩, hok⟩ := h
  rcases r with report | a
  · refine ⟨[report], none, by rw [Builder.run, hr]; rfl, fun a ↦ ?_, by simp⟩
    rw [← hok, hr]
    simp
  · refine ⟨[], some a, by rw [Builder.run, hr]; rfl, fun a' ↦ ?_, by simp⟩
    rw [← hok, hr, Option.some_inj, Option.some_inj, Except.ok.injEq]

theorem Loads.congr {α : Type} {loaded : Option (Loaded α)} {P Q : α → Prop} (h : Loads loaded P)
    (hPQ : ∀ a, P a ↔ Q a) : Loads loaded Q := by
  obtain ⟨said, res, hloaded, hres, hsaid⟩ := h.returns
  exact ⟨said, res, hloaded, fun a ↦ (hres a).trans (hPQ a), hsaid⟩

/-- A failure that has been said. -/
theorem loads_none {α : Type} {P : α → Prop} {said : List Report} (hsaid : said ≠ [])
    (h : ∀ a, ¬P a) : Loads (some (said, none)) P :=
  ⟨said, none, rfl, fun a ↦ ⟨fun h ↦ absurd h (by simp), fun ha ↦ absurd ha (h a)⟩, by simp [hsaid]⟩

theorem loadLoop_of_forall_ne {α : Type} {build : ProtoEntry → Option (Builder α)}
    {unable notFound : Report} {proto : CString} {entries : List ProtoEntry}
    (h : ∀ entry ∈ entries, entry.proto ≠ proto) :
    loadLoop build unable notFound proto entries = some ([notFound], none) := by
  induction entries with
  | nil => rfl
  | cons entry entries ih =>
    rw [loadLoop, if_neg (h entry List.mem_cons_self)]
    exact ih fun e he ↦ h e (List.mem_cons_of_mem _ he)

/-- By induction on the entries, of which no two have one name. -/
theorem loads_loadLoop {α : Type} {build : ProtoEntry → Option (Builder α)}
    {unable notFound : Report} {proto : CString} {P : CString → α → Prop}
    {entries : List ProtoEntry} (hnodup : (entries.map (·.proto)).Nodup)
    (hbuild : ∀ entry ∈ entries, ∀ b, build entry = some b → Builds b (P entry.proto))
    (hexists : ∀ a, P proto a → ∃ entry ∈ entries, entry.proto = proto ∧ (build entry).isSome) :
    Loads (loadLoop build unable notFound proto entries) (P proto) := by
  induction entries with
  | nil => exact loads_none (by simp) fun a ha ↦ by simpa using hexists a ha
  | cons entry entries ih =>
    rw [List.map_cons, List.nodup_cons] at hnodup
    rw [loadLoop]
    rcases eq_or_ne entry.proto proto with heq | hne
    · rw [if_pos heq]
      rcases hentry : build entry with _ | b
      · -- no other entry has this name
        have hothers (e : ProtoEntry) (he : e ∈ entries) : e.proto ≠ proto := fun h ↦
          hnodup.1 (heq ▸ h ▸ List.mem_map_of_mem he)
        rw [loadLoop_of_forall_ne hothers]
        refine loads_none (by simp) fun a ha ↦ ?_
        obtain ⟨e, he, hproto, hsome⟩ := hexists a ha
        rcases List.mem_cons.1 he with rfl | he
        · simp [hentry] at hsome
        · exact hothers e he hproto
      · exact heq ▸ loads_run (hbuild entry List.mem_cons_self b hentry)
    · rw [if_neg hne]
      refine ih hnodup.2 (fun e he ↦ hbuild e (List.mem_cons_of_mem _ he)) fun a ha ↦ ?_
      obtain ⟨e, he, hproto, hsome⟩ := hexists a ha
      rcases List.mem_cons.1 he with rfl | he
      · exact absurd hproto hne
      · exact ⟨e, he, hproto, hsome⟩

theorem nodup_protoMap : ((protoMap C I unset conf).map (·.proto)).Nodup := by
  show [textVmess, textSocks, textSocks4, textSocks5, textDokodemo, textNative].Nodup
  decide

/-- What the entries of `protoMap` have to build. -/
theorem forall_mem_protoMap {p : ProtoEntry → Prop}
    (hvmess : p ⟨textVmess, some (vmessInboundBuilder C I unset conf),
      some (vmessOutboundBuilder C I unset conf)⟩)
    (hsocks : p ⟨textSocks, some (socksInboundBuilder I unset conf), none⟩)
    (hsocks4 : p ⟨textSocks4, some (socksInboundBuilder I unset conf),
      some (socks4OutboundBuilder I unset conf)⟩)
    (hsocks5 : p ⟨textSocks5, some (socksInboundBuilder I unset conf),
      some (socks5OutboundBuilder I unset conf)⟩)
    (hdokodemo : p ⟨textDokodemo, some (dokodemoInboundBuilder I unset conf),
      some (dokodemoOutboundBuilder I unset conf)⟩)
    (hnative : p ⟨textNative, none, some nativeOutboundBuilder⟩) :
    ∀ entry ∈ protoMap C I unset conf, p entry := by
  simp only [protoMap, List.mem_cons, List.not_mem_nil, or_false, forall_eq_or_imp, forall_eq]
  exact ⟨hvmess, hsocks, hsocks4, hsocks5, hdokodemo, hnative⟩

/-- Each inbound of the document has an entry with a builder. -/
theorem InboundFor.exists_entry {proto : CString} {inbound : TcpInbound}
    (h : InboundFor C I unset es proto inbound) :
    ∃ entry ∈ protoMap C I unset conf, entry.proto = proto ∧ entry.inBuild.isSome := by
  rcases h with ⟨rfl, -⟩ | ⟨hproto, -⟩ | ⟨rfl, -⟩
  · exact ⟨_, .head _, rfl, rfl⟩
  · simp only [List.mem_cons, List.not_mem_nil, or_false] at hproto
    rcases hproto with rfl | rfl | rfl
    · exact ⟨_, .tail _ (.head _), rfl, rfl⟩
    · exact ⟨_, .tail _ (.tail _ (.head _)), rfl, rfl⟩
    · exact ⟨_, .tail _ (.tail _ (.tail _ (.head _))), rfl, rfl⟩
  · exact ⟨_, .tail _ (.tail _ (.tail _ (.tail _ (.head _)))), rfl, rfl⟩

/-- Each outbound of the document has an entry with a builder. -/
theorem OutboundFor.exists_entry {proto : CString} {outbound : TcpOutbound}
    (h : OutboundFor C I unset es proto outbound) :
    ∃ entry ∈ protoMap C I unset conf, entry.proto = proto ∧ entry.outBuild.isSome := by
  rcases h with ⟨rfl, -⟩ | ⟨rfl, -⟩ | ⟨rfl, -⟩ | ⟨rfl, -⟩ | rfl
  · exact ⟨_, .head _, rfl, rfl⟩
  · exact ⟨_, .tail _ (.tail _ (.head _)), rfl, rfl⟩
  · exact ⟨_, .tail _ (.tail _ (.tail _ (.head _))), rfl, rfl⟩
  · exact ⟨_, .tail _ (.tail _ (.tail _ (.tail _ (.head _)))), rfl, rfl⟩
  · exact ⟨_, .tail _ (.tail _ (.tail _ (.tail _ (.tail _ (.head _))))), rfl, rfl⟩

theorem builds_inBuild (h : Means conf 0 es) :
    ∀ entry ∈ protoMap C I unset conf, ∀ b, entry.inBuild = some b →
      Builds b (InboundFor C I unset es entry.proto) := by
  refine forall_mem_protoMap ?_ ?_ ?_ ?_ ?_ ?_
  · rintro _ ⟨⟩
    exact builds_vmessInboundBuilder h
  · rintro _ ⟨⟩
    exact builds_socksInboundBuilder h (.head _)
  · rintro _ ⟨⟩
    exact builds_socksInboundBuilder h (.tail _ (.head _))
  · rintro _ ⟨⟩
    exact builds_socksInboundBuilder h (.tail _ (.tail _ (.head _)))
  · rintro _ ⟨⟩
    exact builds_dokodemoInboundBuilder h
  · rintro _ ⟨⟩

theorem builds_outBuild (h : Means conf 0 es) :
    ∀ entry ∈ protoMap C I unset conf, ∀ b, entry.outBuild = some b →
      Builds b (OutboundFor C I unset es entry.proto) := by
  refine forall_mem_protoMap ?_ ?_ ?_ ?_ ?_ ?_
  · rintro _ ⟨⟩
    exact builds_vmessOutboundBuilder h
  · rintro _ ⟨⟩
  · rintro _ ⟨⟩
    exact builds_socksOutboundBuilder h (.inl ⟨rfl, rfl⟩)
  · rintro _ ⟨⟩
    exact builds_socksOutboundBuilder h (.inr ⟨rfl, rfl⟩)
  · rintro _ ⟨⟩
    exact builds_dokodemoOutboundBuilder h
  · rintro _ ⟨⟩
    exact builds_nativeOutboundBuilder

/-- `load_inbound` and `load_outbound`, behind the lookup of the protocol. -/
theorem Loads.ofProto {α : Type} {table proto : CString} {loaded : Option (Loaded α)}
    {P : CString → α → Prop} (h : Loads loaded (P proto))
    (hproto : ∀ proto', some proto = some proto' ↔ Assigns es table textProto proto') :
    Loads loaded fun a ↦ ∃ proto', Assigns es table textProto proto' ∧ P proto' a := by
  refine h.congr fun a ↦ ⟨fun ha ↦ ⟨proto, (hproto proto).1 rfl, ha⟩, ?_⟩
  rintro ⟨proto', hproto', ha⟩
  rwa [Option.some.inj ((hproto proto').2 hproto')]

/-- `load_inbound` returns the inbound that the document describes. -/
theorem loads_loadInbound (h : Means conf 0 es) :
    Loads (loadInbound C I unset conf) (InboundOf C I unset es) := by
  obtain ⟨r, hr, hok⟩ := configLookupString_eq h (by decide : isName textInbound)
    (by decide : isName textProto)
  rw [loadInbound, hr]
  rcases r with _ | proto
  · refine loads_none (by simp) fun inbound ↦ ?_
    rintro ⟨proto, hproto, -⟩
    exact absurd ((hok proto).2 hproto) (by simp)
  · exact (loads_loadLoop nodup_protoMap (builds_inBuild h) fun _ ha ↦ ha.exists_entry).ofProto hok

/-- `load_outbound` returns the outbound that the document describes. -/
theorem loads_loadOutbound (h : Means conf 0 es) :
    Loads (loadOutbound C I unset conf) (OutboundOf C I unset es) := by
  obtain ⟨r, hr, hok⟩ := configLookupString_eq h (by decide : isName textOutbound)
    (by decide : isName textProto)
  rw [loadOutbound, hr]
  rcases r with _ | proto
  · refine loads_none (by simp) fun outbound ↦ ?_
    rintro ⟨proto, hproto, -⟩
    exact absurd ((hok proto).2 hproto) (by simp)
  · exact (loads_loadLoop nodup_protoMap (builds_outBuild h) fun _ ha ↦ ha.exists_entry).ofProto hok

/-! ### The program -/

/-- The content describes a relay with this inbound and this outbound. -/
def Describes (C : Crypto) (I : Inet) (unsetIn unsetOut : ℤ) (content : Bytes)
    (inbound : TcpInbound) (outbound : TcpOutbound) : Prop :=
  ∃ nodes, DocumentText (cstr content) nodes ∧ Consistent (fullEntries [] nodes) ∧
    Fits (fullEntries [] nodes) ∧ InboundOf C I unsetIn (fullEntries [] nodes) inbound ∧
    OutboundOf C I unsetOut (fullEntries [] nodes) outbound

section

variable {unsetIn unsetOut : ℤ} {prog : Option CString} {path : CString} {content : Bytes}

/-- What `main` does with a document that has been loaded. -/
theorem vmecsMain_of_tomlLoad (hload : tomlLoad (cstr content) = some (.ok conf))
    (h : Means conf 0 es) :
    ∃ saidIn saidOut resIn resOut,
      (∀ inbound, resIn = some inbound ↔ InboundOf C I unsetIn es inbound) ∧
      (saidIn = [] ↔ resIn.isSome) ∧
      (∀ outbound, resOut = some outbound ↔ OutboundOf C I unsetOut es outbound) ∧
      (saidOut = [] ↔ resOut.isSome) ∧
      vmecsMain C I unsetIn unsetOut prog (some (path, .read content)) = some
        (match resIn, resOut with
        | some inbound, some outbound =>
          .relays tcpRelayDefaultMaxConnectRetry inbound outbound 4
        | _, _ => .exits (saidIn ++ saidOut ++ [.text "failed to load inbound/outbound\n"])) := by
  obtain ⟨saidIn, resIn, hin, hresIn, hsaidIn⟩ := (loads_loadInbound h :
    Loads (loadInbound C I unsetIn conf) (InboundOf C I unsetIn es)).returns
  obtain ⟨saidOut, resOut, hout, hresOut, hsaidOut⟩ := (loads_loadOutbound h :
    Loads (loadOutbound C I unsetOut conf) (OutboundOf C I unsetOut es)).returns
  refine ⟨saidIn, saidOut, resIn, resOut, hresIn, hsaidIn, hresOut, hsaidOut, ?_⟩
  have hconf : loadConfig (.read content) = some ([], some conf) := by rw [loadConfig, hload]; rfl
  rcases resIn with _ | inbound <;> rcases resOut with _ | outbound <;>
    · simp only [vmecsMain, hconf, Option.bind_eq_bind, Option.bind_some, hin, hout]

/-- Without a document there is no relay. -/
theorem exists_tomlLoad_of_relays {arg : Option (CString × ConfigFile)} {r : ℤ}
    {inbound : TcpInbound} {outbound : TcpOutbound} {n : ℕ}
    (h : vmecsMain C I unsetIn unsetOut prog arg = some (.relays r inbound outbound n)) :
    ∃ path content conf, arg = some (path, .read content) ∧
      tomlLoad (cstr content) = some (.ok conf) := by
  rcases arg with _ | ⟨path, _ | _ | content⟩
  · simp [vmecsMain] at h
  · simp [vmecsMain, loadConfig] at h
  · simp [vmecsMain, loadConfig] at h
  · rcases hload : tomlLoad (cstr content) with _ | err | conf
    · simp [vmecsMain, loadConfig, hload] at h
    · simp [vmecsMain, loadConfig, hload] at h
    · exact ⟨path, content, conf, rfl, hload⟩

/-- The relay that runs is described. -/
theorem describes_of_relays {arg : Option (CString × ConfigFile)} {r : ℤ} {inbound : TcpInbound}
    {outbound : TcpOutbound} {n : ℕ}
    (h : vmecsMain C I unsetIn unsetOut prog arg = some (.relays r inbound outbound n)) :
    r = tcpRelayDefaultMaxConnectRetry ∧ n = 4 ∧ ∃ path content,
      arg = some (path, .read content) ∧
        Describes C I unsetIn unsetOut content inbound outbound := by
  obtain ⟨path, content, conf, rfl, hload⟩ := exists_tomlLoad_of_relays h
  obtain ⟨nodes, hdoc, hgen⟩ := documentText_of_tomlLoad hload
  obtain ⟨hcons, hfits⟩ := (exists_tomlLoad_iff hdoc).1 ⟨conf, hload⟩
  obtain ⟨saidIn, saidOut, resIn, resOut, hin, -, hout, -, hmain⟩ :=
    vmecsMain_of_tomlLoad hload (means_of_astNodeEntryGen hgen)
  have hres := Option.some.inj (h.symm.trans hmain)
  rcases resIn with _ | inbound'
  · exact absurd hres (by simp)
  · rcases resOut with _ | outbound'
    · exact absurd hres (by simp)
    · obtain ⟨rfl, rfl, rfl, rfl⟩ := MainResult.relays.inj hres
      exact ⟨rfl, rfl, path, content, rfl, nodes, hdoc, hcons, hfits, (hin inbound).1 rfl,
        (hout outbound).1 rfl⟩

/-- The relay that is described runs. -/
theorem relays_of_describes {inbound : TcpInbound} {outbound : TcpOutbound}
    (h : Describes C I unsetIn unsetOut content inbound outbound) :
    vmecsMain C I unsetIn unsetOut prog (some (path, .read content)) =
      some (.relays tcpRelayDefaultMaxConnectRetry inbound outbound 4) := by
  obtain ⟨nodes, hdoc, hcons, hfits, hinbound, houtbound⟩ := h
  obtain ⟨conf, hload⟩ := (exists_tomlLoad_iff hdoc).2 ⟨hcons, hfits⟩
  have hgen := (tomlLoad_eq_ok_iff_gen hdoc).1 hload
  obtain ⟨saidIn, saidOut, resIn, resOut, hin, -, hout, -, hmain⟩ :=
    vmecsMain_of_tomlLoad hload (means_of_astNodeEntryGen hgen)
  rw [hmain, (hin inbound).2 hinbound, (hout outbound).2 houtbound]

end

end

/-- **What a configuration says.** The program runs the relay if and only if its argument names a
text that is a document, consistent and not too large for its tables, whose strings describe an
inbound and an outbound; these are the two ends of the relay. With any other such document it ends,
after it has said something about each of the two ends that is not described, and about no other. -/
theorem vmecsMain_relays_iff (C : Crypto) (I : Inet) (unsetIn unsetOut : ℤ) (prog : Option CString)
    (arg : Option (CString × ConfigFile)) :
    (∀ r inbound outbound n,
      vmecsMain C I unsetIn unsetOut prog arg = some (.relays r inbound outbound n) ↔
        r = tcpRelayDefaultMaxConnectRetry ∧ n = 4 ∧ ∃ path content,
          arg = some (path, .read content) ∧
            Describes C I unsetIn unsetOut content inbound outbound) ∧
    ∀ path content nodes, arg = some (path, .read content) → DocumentText (cstr content) nodes →
      Consistent (fullEntries [] nodes) → Fits (fullEntries [] nodes) →
      (∀ inbound outbound, ¬Describes C I unsetIn unsetOut content inbound outbound) →
      ∃ saidIn saidOut,
        vmecsMain C I unsetIn unsetOut prog arg =
          some (.exits (saidIn ++ saidOut ++ [.text "failed to load inbound/outbound\n"])) ∧
        (saidIn = [] ↔ ∃ inbound, InboundOf C I unsetIn (fullEntries [] nodes) inbound) ∧
        (saidOut = [] ↔ ∃ outbound, OutboundOf C I unsetOut (fullEntries [] nodes) outbound) := by
  refine ⟨fun r inbound outbound n ↦ ⟨describes_of_relays, ?_⟩, ?_⟩
  · rintro ⟨rfl, rfl, path, content, rfl, hdesc⟩
    exact relays_of_describes hdesc
  · rintro path content nodes rfl hdoc hcons hfits hno
    obtain ⟨conf, hload⟩ := (exists_tomlLoad_iff hdoc).2 ⟨hcons, hfits⟩
    have hgen := (tomlLoad_eq_ok_iff_gen hdoc).1 hload
    obtain ⟨saidIn, saidOut, resIn, resOut, hin, hsaidIn, hout, hsaidOut, hmain⟩ :=
      vmecsMain_of_tomlLoad hload (means_of_astNodeEntryGen hgen)
    refine ⟨saidIn, saidOut, ?_, ?_, ?_⟩
    · rw [hmain]
      rcases resIn with _ | inbound
      · rfl
      · rcases resOut with _ | outbound
        · rfl
        · exact absurd ⟨nodes, hdoc, hcons, hfits, (hin inbound).1 rfl, (hout outbound).1 rfl⟩
            (hno inbound outbound)
    · rw [hsaidIn, Option.isSome_iff_exists]
      exact exists_congr hin
    · rw [hsaidOut, Option.isSome_iff_exists]
      exact exists_congr hout

end Vmecs
