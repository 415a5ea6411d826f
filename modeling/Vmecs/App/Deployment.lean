import Vmecs.App.Configuration

/-!
# Programs that are configured for each other

The programs of a chain know of each other only what their configurations say. `TextsMeet` is what
two of these have to agree on: a protocol, and for VMess the password. Then the outbound that the
one program makes of its text meets the inbound that the other makes of its own (`TextsMeet.meets`),
and what the first is asked for goes from one to the next (`configured_target`).
-/

namespace Vmecs

/-! ### Two configurations -/

/-- The outbound of the first document has its server in the inbound of the second. -/
inductive TextsMeet (es es' : List FullEntry) : Prop where
  | socks {proto proto' : CString} (hout : Assigns es textOutbound textProto proto)
      (hproto : proto ∈ [textSocks4, textSocks5]) (hin : Assigns es' textInbound textProto proto')
      (hproto' : proto' ∈ [textSocks, textSocks4, textSocks5]) : TextsMeet es es'
  | vmess {pass : CString} (hout : Assigns es textOutbound textProto textVmess)
      (hpassOut : Assigns es textOutbound textPass pass)
      (hin : Assigns es' textInbound textProto textVmess)
      (hpassIn : Assigns es' textInbound textPass pass) : TextsMeet es es'

/-- The server of a VMess outbound sees the time of its client in the window of its clock. -/
def InTime (C : Crypto) (node next : RelayNode) : Prop :=
  ∀ userId proxy, node.outbound = .vmess (vmessConfigNew userId) proxy → ∀ k,
    (next.accepting.clock (vmessConfigNew userId) k).Near node.connecting.time ∧
      (next.accepting.clock (vmessConfigNew userId) k).FirstWithCode C node.connecting.time

/-- A document has one string for a name. -/
theorem Assigns.unique {es : List FullEntry} (hcons : Consistent es) {table name s s' : CString}
    (h : Assigns es table name s) (h' : Assigns es table name s') : s = s' := by
  by_contra hne
  -- of two entries that differ the second may not have the path of the first
  have hpair := (consistent_iff_pairwise.1 hcons).imp
    (S := fun e e' ↦ e.1 ≠ e'.1) fun {e e'} hadmits heq ↦ hadmits.1 (heq ▸ List.prefix_rfl)
  have hsymm : Std.Symm fun e e' : FullEntry ↦ e.1 ≠ e'.1 := ⟨fun _ _ hpath ↦ hpath.symm⟩
  refine hpair.forall h h' (fun heq ↦ hne ?_) rfl
  exact AstValue.string.inj (Option.some.inj (congrArg Prod.snd heq))

section

variable {C : Crypto} {I : Inet} {unset unset' : ℤ} {es es' : List FullEntry}

/-- The outbound of a SOCKS protocol. -/
theorem OutboundFor.socks_cases {proto : CString} {outbound : TcpOutbound}
    (h : OutboundFor C I unset es proto outbound) (hproto : proto ∈ [textSocks4, textSocks5]) :
    ∃ proxy, outbound = .socks proxy .v4 ∨ outbound = .socks proxy .v5 := by
  rcases h with ⟨rfl, -⟩ | ⟨-, -⟩ | ⟨-, -⟩ | ⟨rfl, -⟩ | rfl
  · exact absurd hproto (by decide)
  · exact ⟨_, .inl rfl⟩
  · exact ⟨_, .inr rfl⟩
  · exact absurd hproto (by decide)
  · exact absurd hproto (by decide)

/-- The inbound of a SOCKS protocol. -/
theorem InboundFor.socks_eq {proto : CString} {inbound : TcpInbound}
    (h : InboundFor C I unset es proto inbound)
    (hproto : proto ∈ [textSocks, textSocks4, textSocks5]) : ∃ bind, inbound = .socks bind := by
  rcases h with ⟨rfl, -⟩ | ⟨-, -⟩ | ⟨rfl, -⟩
  · exact absurd hproto (by decide)
  · exact ⟨_, rfl⟩
  · exact absurd hproto (by decide)

/-- The outbound of VMess has the user of the password. -/
theorem OutboundFor.vmess_eq {outbound : TcpOutbound}
    (h : OutboundFor C I unset es textVmess outbound) :
    ∃ pass proxy, Assigns es textOutbound textPass pass ∧
      outbound = .vmess (passwordConfig C pass) proxy := by
  rcases h with ⟨-, hpass, -⟩ | ⟨hproto, -⟩ | ⟨hproto, -⟩ | ⟨hproto, -⟩ | hproto
  · exact ⟨_, _, hpass, rfl⟩
  · exact absurd hproto (by decide)
  · exact absurd hproto (by decide)
  · exact absurd hproto (by decide)
  · exact absurd hproto (by decide)

/-- The inbound of VMess has the user of the password. -/
theorem InboundFor.vmess_eq {inbound : TcpInbound} (h : InboundFor C I unset es textVmess inbound) :
    ∃ pass bind, Assigns es textInbound textPass pass ∧
      inbound = .vmess (passwordConfig C pass) bind := by
  rcases h with ⟨-, hpass, -⟩ | ⟨hproto, -⟩ | ⟨hproto, -⟩
  · exact ⟨_, _, hpass, rfl⟩
  · exact absurd hproto (by decide)
  · exact absurd hproto (by decide)

/-- **Configurations that meet**: so do the relays. -/
theorem TextsMeet.meets (h : TextsMeet es es') (hcons : Consistent es) (hcons' : Consistent es')
    {node next : RelayNode} (hout : OutboundOf C I unset es node.outbound)
    (hin : InboundOf C I unset' es' next.inbound) (htime : InTime C node next) :
    Meets C node next := by
  obtain ⟨protoOut, hprotoOut, hout⟩ := hout
  obtain ⟨protoIn, hprotoIn, hin⟩ := hin
  rcases h with @⟨proto, proto', hout', hproto, hin', hproto'⟩ | @⟨pass, hout', hpass, hin', hpass'⟩
  · obtain rfl := hprotoOut.unique hcons hout'
    obtain rfl := hprotoIn.unique hcons' hin'
    obtain ⟨bind, hin⟩ := hin.socks_eq hproto'
    rcases hout.socks_cases hproto with ⟨proxy, hout | hout⟩
    · exact .socks4 hout hin
    · exact .socks5 hout hin
  · obtain rfl := hprotoOut.unique hcons hout'
    obtain rfl := hprotoIn.unique hcons' hin'
    obtain ⟨passOut, proxy, hpassOut, hout⟩ := hout.vmess_eq
    obtain ⟨passIn, bind, hpassIn, hin⟩ := hin.vmess_eq
    obtain rfl := hpassOut.unique hcons hpass
    obtain rfl := hpassIn.unique hcons' hpass'
    have hclock := htime _ proxy hout
    exact .vmess hout hin (fun k ↦ (hclock k).1) fun k ↦ (hclock k).2

end

/-! ### A chain of programs -/

/-- The program has been started with this configuration, and runs the relay with the two ends of
the node. -/
def Started (C : Crypto) (I : Inet) (content : Bytes) (node : RelayNode) : Prop :=
  ∃ unsetIn unsetOut prog path r n,
    vmecsMain C I unsetIn unsetOut prog (some (path, .read content)) =
      some (.relays r node.inbound node.outbound n)

/-- Programs that have been started from configurations, each for the next. -/
inductive Deployed (C : Crypto) (I : Inet) : List Bytes → List RelayNode → Prop where
  | last {content : Bytes} {node : RelayNode} (h : Started C I content node) :
      Deployed C I [content] [node]
  | cons {content content' : Bytes} {contents : List Bytes} {node next : RelayNode}
      {nodes : List RelayNode} {doc doc' : List AstEntry} (h : Started C I content node)
      (hdoc : DocumentText (cstr content) doc) (hdoc' : DocumentText (cstr content') doc')
      (hmeet : TextsMeet (fullEntries [] doc) (fullEntries [] doc')) (htime : InTime C node next)
      (ht : Deployed C I (content' :: contents) (next :: nodes)) :
      Deployed C I (content :: content' :: contents) (node :: next :: nodes)

/-- Each of the nodes but the first has accepted a connection of the one before, and the targets are
those they have found. -/
inductive HandedOn (C : Crypto) (I : Inet) : List RelayNode → TargetId → TargetId → Prop where
  | last (node : RelayNode) (target : TargetId) : HandedOn C I [node] target target
  | hop {node next : RelayNode} {nodes : List RelayNode} {target target₁ target' : TargetId}
      {answered got : Reads} (hrun : HopRun C I node next target target₁ answered got)
      (ht : HandedOn C I (next :: nodes) target₁ target') :
      HandedOn C I (node :: next :: nodes) target target'

section

variable {C : Crypto} {I : Inet}

/-- What a started program has been described. -/
theorem Started.describes {content : Bytes} {node : RelayNode} (h : Started C I content node) :
    ∃ unsetIn unsetOut, Describes C I unsetIn unsetOut content node.inbound node.outbound := by
  obtain ⟨unsetIn, unsetOut, prog, path, r, n, hmain⟩ := h
  obtain ⟨-, -, path', content', harg, hdesc⟩ := describes_of_relays hmain
  obtain ⟨-, ⟨⟩⟩ := Prod.mk.inj (Option.some.inj harg)
  exact ⟨unsetIn, unsetOut, hdesc⟩

theorem Deployed.started {content : Bytes} {contents : List Bytes} {node : RelayNode}
    {nodes : List RelayNode} (h : Deployed C I (content :: contents) (node :: nodes)) :
    Started C I content node := by
  cases h with
  | last h => exact h
  | cons h => exact h

/-- Deployed programs are a chain. By induction on the hops. -/
theorem HandedOn.relayed {contents : List Bytes} {nodes : List RelayNode}
    {target target' : TargetId} (h : HandedOn C I nodes target target')
    (hdeployed : Deployed C I contents nodes) : Relayed C I nodes target target' := by
  induction h generalizing contents with
  | last node target => exact .last node target
  | hop hrun _ ih =>
    rcases hdeployed with _ | ⟨h, hdoc, hdoc', hmeet, htime, ht⟩
    obtain ⟨_, _, doc, hdoc₁, hcons, -, -, hout⟩ := h.describes
    obtain ⟨_, _, doc', hdoc₁', hcons', -, hin, -⟩ := ht.started.describes
    obtain rfl := hdoc.unique hdoc₁
    obtain rfl := hdoc'.unique hdoc₁'
    exact .hop (hmeet.meets hcons hcons' hout hin htime) hrun (ih ht)

end

/-- **Programs that are configured for each other.** Each has been started from a text of its own,
and its outbound is described as the inbound of the next one is. Then the last has the target that
the client of the first has asked for, as the outbounds on the way ask for it; without SOCKS4 it is
what the client's target denotes. -/
theorem configured_target {C : Crypto} (hC : CfbLaws C) {I : Inet} (hI : InetLaws I)
    {contents : List Bytes} {first : RelayNode} {nodes : List RelayNode}
    (hdeployed : Deployed C I contents (first :: nodes)) {got : Reads} {target target' : TargetId}
    (hfail : .fail ∉ got)
    (hposs : Possible (fun s ↦ (tcpInboundHandshake C first.accepting first.inbound s {}).2) got)
    (haccept : (tcpInboundHandshake C first.accepting first.inbound got {}).2.Returns
      (some (some target)))
    (h : HandedOn C I (first :: nodes) target target') :
    route I (first :: nodes) target = some target' ∧
      (NoSocks4 (first :: nodes) →
        target' = if nodes = [] then target else target.denoted I) := by
  have hshort := short_of_tcpInboundHandshake hfail hposs haccept
  have hrelayed := h.relayed hdeployed
  refine ⟨hrelayed.route_eq hC hI hshort, fun hno ↦ ?_⟩
  rw [hrelayed.denoted_eq hC hI hshort hno]
  rcases nodes with _ | ⟨next, nodes⟩
  · rfl
  · rfl

/-! ### Two programs -/

/-- The line of a header. -/
def headerLine (table : CString) : Bytes := 0x5b :: table.1 ++ [0x5d, 0x0a]

/-- The line of a string. -/
def stringLine (name str : CString) : Bytes := name.1 ++ [0x3d, 0x27] ++ str.1 ++ [0x27, 0x0a]

/-- The host name `a`. -/
def sampleHost : CString := ⟨[0x61], by decide⟩

/-- The port 1. -/
def samplePort : CString := ⟨[0x31], by decide⟩

/-- A program with SOCKS on both sides. -/
def sampleConfig : Bytes :=
  headerLine textInbound ++ stringLine textProto textSocks ++ stringLine textLocal sampleHost ++
    stringLine textPort samplePort ++ headerLine textOutbound ++ stringLine textProto textSocks5 ++
    stringLine textProxy sampleHost ++ stringLine textPort samplePort

/-- Its document. -/
def sampleConfigNodes : List AstEntry :=
  [⟨some ⟨textInbound, []⟩, none⟩, ⟨some ⟨textProto, []⟩, some (.string textSocks)⟩,
    ⟨some ⟨textLocal, []⟩, some (.string sampleHost)⟩,
    ⟨some ⟨textPort, []⟩, some (.string samplePort)⟩, ⟨some ⟨textOutbound, []⟩, none⟩,
    ⟨some ⟨textProto, []⟩, some (.string textSocks5)⟩,
    ⟨some ⟨textProxy, []⟩, some (.string sampleHost)⟩,
    ⟨some ⟨textPort, []⟩, some (.string samplePort)⟩]

/-- The program that it connects to. -/
def sampleNextConfig : Bytes :=
  headerLine textInbound ++ stringLine textProto textSocks ++ stringLine textLocal sampleHost ++
    stringLine textPort samplePort ++ headerLine textOutbound ++ stringLine textProto textNative

/-- Its document. -/
def sampleNextConfigNodes : List AstEntry :=
  [⟨some ⟨textInbound, []⟩, none⟩, ⟨some ⟨textProto, []⟩, some (.string textSocks)⟩,
    ⟨some ⟨textLocal, []⟩, some (.string sampleHost)⟩,
    ⟨some ⟨textPort, []⟩, some (.string samplePort)⟩, ⟨some ⟨textOutbound, []⟩, none⟩,
    ⟨some ⟨textProto, []⟩, some (.string textNative)⟩]

/-- The host and the port. -/
def sampleServer : TargetId := ⟨.domain sampleHost, 1⟩

/-- Every name is resolved. -/
def sampleResolving : SocketCalls :=
  { sampleSocketCalls with getsockaddr := fun _ _ ↦ some (.sin .inet 1 ⟨[10, 0, 0, 1], rfl⟩) }

theorem documentText_sampleConfig : DocumentText (cstr sampleConfig) sampleConfigNodes :=
  documentText_of_parse (by decide +kernel)

theorem documentText_sampleNextConfig :
    DocumentText (cstr sampleNextConfig) sampleNextConfigNodes :=
  documentText_of_parse (by decide +kernel)

theorem describes_sampleConfig : Describes openssl sampleInet 0 0 sampleConfig
    (.socks sampleServer) (.socks sampleServer .v5) := by
  refine ⟨_, documentText_sampleConfig, consistent_iff_pairwise.2 (by unfold Admits; decide),
    fits_of_length_le (by decide), ?_, ?_⟩
  · refine ⟨textSocks, ?_, .socks ?_ ⟨sampleHost, ?_, samplePort, ?_, ?_⟩⟩
    all_goals decide +kernel
  · refine ⟨textSocks5, ?_, .socks5 rfl ⟨sampleHost, ?_, samplePort, ?_, ?_⟩⟩
    all_goals decide +kernel

theorem describes_sampleNextConfig : Describes openssl sampleInet 0 0 sampleNextConfig
    (.socks sampleServer) .native := by
  refine ⟨_, documentText_sampleNextConfig, consistent_iff_pairwise.2 (by unfold Admits; decide),
    fits_of_length_le (by decide), ?_, ?_⟩
  · refine ⟨textSocks, ?_, .socks ?_ ⟨sampleHost, ?_, samplePort, ?_, ?_⟩⟩
    all_goals decide +kernel
  · exact ⟨textNative, by decide +kernel, .native rfl⟩

/-- A program that is described has been started. -/
theorem started_of_describes {C : Crypto} {I : Inet} {content : Bytes} {node : RelayNode}
    (h : Describes C I 0 0 content node.inbound node.outbound) : Started C I content node :=
  ⟨0, 0, none, textInbound, _, _, relays_of_describes h⟩

/-- The two relays. -/
def sampleDeployed : List RelayNode :=
  [⟨.socks sampleServer, .socks sampleServer .v5, sampleResolving, sampleResolving⟩,
    ⟨.socks sampleServer, .native, sampleResolving, sampleResolving⟩]

theorem configured_target_sampleConfig :
    Deployed openssl sampleInet [sampleConfig, sampleNextConfig] sampleDeployed ∧
      HandedOn openssl sampleInet sampleDeployed sampleDomain sampleDomain ∧
      route sampleInet sampleDeployed sampleDomain = some sampleDomain := by
  have hdeployed :
      Deployed openssl sampleInet [sampleConfig, sampleNextConfig] sampleDeployed := by
    have hmeet : TextsMeet (fullEntries [] sampleConfigNodes)
        (fullEntries [] sampleNextConfigNodes) := by
      refine @TextsMeet.socks _ _ textSocks5 textSocks ?_ ?_ ?_ ?_
      all_goals decide +kernel
    exact .cons (started_of_describes describes_sampleConfig) documentText_sampleConfig
      documentText_sampleNextConfig hmeet (fun _ _ h ↦ absurd h (by simp))
      (.last (started_of_describes describes_sampleNextConfig))
  have hposs : Possible (fun s ↦ (tcpInboundHandshake openssl sampleResolving
      (.socks sampleServer) s {}).2) sampleAsked := by decide +kernel
  have haccept : (tcpInboundHandshake openssl sampleResolving (.socks sampleServer)
      sampleAsked {}).2.Returns (some (some sampleDomain)) := ⟨[], by decide +kernel⟩
  have hhanded : HandedOn openssl sampleInet sampleDeployed sampleDomain sampleDomain := by
    have hrun : HopRun openssl sampleInet
        ⟨.socks sampleServer, .socks sampleServer .v5, sampleResolving, sampleResolving⟩
        ⟨.socks sampleServer, .native, sampleResolving, sampleResolving⟩ sampleDomain
        sampleDomain [.data [5, 0], .data [5, 0, 0, 1, 0, 0, 0, 0, 0, 0]] sampleAsked :=
      ⟨by decide, hposs, by decide +kernel, haccept⟩
    exact .hop hrun (.last _ _)
  exact ⟨hdeployed, hhanded, (configured_target cfbLaws_openssl inetLaws_sampleInet hdeployed
    (by decide) hposs haccept hhanded).1⟩

end Vmecs
