import Vmecs.Proto.Dialogue
import Vmecs.Proto.Socks.Accept

/-!
# A SOCKS client and a SOCKS server

The handshakes of both roles against each other. For a target that its version can name, a client
and the server keep to the same rounds of messages: two of them in version 5, the choice of a method
and the request (`socks5Rounds`), and one in version 4 (`socks4Rounds`). So neither ever fails, and
they do not get stuck before both have returned (`socksPeers_agree`).
-/

namespace Vmecs

open StreamDecoder

/-! ### The client as a function of its stream -/

/-- A version 5 client. -/
def socks5ClientReaction (sock : SocksTcpSocket) (target : TargetId) :
    Reaction (Bool × SocksTcpSocket) :=
  .write (socks5EncodeAuthSel [socks5AuthMethodNoAuth] 1) <|
    .read socks5DecodeAuthAck (fun authAck ↦
      if authAck = socks5AuthMethodNoAuth then
        .write (socks5EncodeRequest ⟨target, socks5CmdConnect⟩) <|
          .read socks5DecodeResponse (fun resp ↦
            if resp.rep = socks5RepSuccess then .done (true, sock) else .done (false, sock))
            (false, sock)
      else .done (false, sock)) (false, sock)

/-- A version 4 client, with the request it sends. -/
def socks4ClientReaction (sock : SocksTcpSocket) (req : Bytes) : Reaction (Bool × SocksTcpSocket) :=
  .write req <|
    .read socks4DecodeResponse (fun resp ↦
      if resp.rep = socks4RepSuccess then .done (true, sock) else .done (false, sock)) (false, sock)

theorem reacts_socks5ClientHandshake (rbuf : RBuffer) (sock : SocksTcpSocket) (target : TargetId) :
    Reacts (socks5ClientHandshake rbuf sock target) rbuf.data
      (socks5ClientReaction sock target) := by
  refine .write (reacts_readDecode prompt_socks5DecodeAuthAck fun _ _ ↦ .ite (.write ?_) (.done _))
  exact reacts_readDecode prompt_socks5DecodeResponse fun _ _ ↦ .ite (.done _) (.done _)

/-- The request of a version 4 client. -/
def socks4Request (addr : Block 4) (port : UInt16) : Bytes :=
  [socks4Version, socks4CmdConnect] ++ (be16 port).1 ++ addr.1 ++ [0]

theorem reacts_socks4ClientHandshake (getsockaddr : CString → UInt16 → Option SockAddr)
    (rbuf : RBuffer) (sock : SocksTcpSocket) (addr : Block 4) (port : UInt16) :
    Reacts (socks4ClientHandshake getsockaddr rbuf sock ⟨.ipv4 addr, port⟩) rbuf.data
      (socks4ClientReaction sock (socks4Request addr port)) :=
  .write (reacts_readDecode prompt_socks4DecodeResponse fun _ _ ↦ .ite (.done _) (.done _))

/-! ### The rounds -/

/-- The version can name the target. -/
def SocksVersion.Speaks (vers : SocksVersion) (target : TargetId) : Prop :=
  vers = .v5 ∧ target.Short ∨ vers = .v4 ∧ ∃ addr, target.addr = .ipv4 addr

/-- The messages of version 5. -/
def socks5Rounds (target : TargetId) : Rounds :=
  [(socks5EncodeAuthSel [socks5AuthMethodNoAuth] 1, socks5EncodeAuthAck socks5AuthMethodNoAuth),
    (socks5EncodeRequest ⟨target, socks5CmdConnect⟩, socks5EncodeResponse ⟨socks5RepSuccess⟩)]

/-- The messages of version 4. -/
def socks4Rounds (addr : Block 4) (port : UInt16) : Rounds :=
  [(socks4Request addr port, socks4EncodeResponse ⟨socks4RepSuccess⟩)]

theorem framed_socks5DecodeAuthSel :
    socks5DecodeAuthSel.Framed (socks5EncodeAuthSel [socks5AuthMethodNoAuth] 1)
      [socks5AuthMethodNoAuth] :=
  (parses_socks5DecodeAuthSel (by decide) (⟨[0], rfl⟩ : Block (1 : UInt8).toNat)).framed
    prompt_socks5DecodeAuthSel.toStreaming

theorem framed_socks5DecodeAuthAck :
    socks5DecodeAuthAck.Framed (socks5EncodeAuthAck socks5AuthMethodNoAuth)
      socks5AuthMethodNoAuth :=
  prompt_socks5DecodeAuthAck.framed rfl

theorem framed_socks5DecodeRequest {target : TargetId} (h : target.Short) :
    socks5DecodeRequest.Framed (socks5EncodeRequest ⟨target, socks5CmdConnect⟩)
      ⟨target, socks5CmdConnect⟩ :=
  (parses_socks5EncodeRequest h socks5CmdConnect).framed prompt_socks5DecodeRequest.toStreaming

theorem framed_socks5DecodeResponse :
    socks5DecodeResponse.Framed (socks5EncodeResponse ⟨socks5RepSuccess⟩) ⟨socks5RepSuccess⟩ :=
  prompt_socks5DecodeResponse.framed rfl

theorem framed_socks4DecodeRequest (addr : Block 4) (port : UInt16) :
    socks4DecodeRequest.Framed (socks4Request addr port)
      ⟨⟨.ipv4 addr, port⟩, socks4CmdConnect⟩ :=
  (parses_socks4EncodeRequest socks4CmdConnect addr port).framed
    prompt_socks4DecodeRequest.toStreaming

theorem framed_socks4DecodeResponse :
    socks4DecodeResponse.Framed (socks4EncodeResponse ⟨socks4RepSuccess⟩) ⟨socks4RepSuccess⟩ :=
  prompt_socks4DecodeResponse.framed rfl

theorem socks5ClientReaction_rounds {sock : SocksTcpSocket} {target : TargetId} {x : Bytes}
    (hx : x <+: (socks5Rounds target).said .server) :
    socks5ClientReaction sock target x false =
      clientRounds (true, sock) (socks5Rounds target) x := by
  rw [socks5ClientReaction, Reaction.write, Reaction.read_of_isPrefix framed_socks5DecodeAuthAck hx,
    socks5Rounds, clientRounds]
  split
  case isTrue => rfl
  case isFalse hlen =>
    obtain ⟨x', rfl, hx'⟩ := exists_append_of_isPrefix hx hlen
    rw [List.drop_left, if_pos rfl, Reaction.write,
      Reaction.read_of_isPrefix framed_socks5DecodeResponse hx', clientRounds]
    split <;> rfl

theorem socks5ServerReaction_rounds {sock : SocksTcpSocket} {target : TargetId}
    (h : target.Short) {x : Bytes} (hx : x <+: (socks5Rounds target).said .client) :
    socks5ServerReaction sock x false =
      serverRounds (true, socksTcpSocketSetTarget sock target) (socks5Rounds target) x := by
  rw [socks5ServerReaction, Reaction.read_of_isPrefix framed_socks5DecodeAuthSel hx, socks5Rounds,
    serverRounds]
  split
  case isTrue => rfl
  case isFalse hlen =>
    obtain ⟨x', rfl, hx'⟩ := exists_append_of_isPrefix hx hlen
    rw [List.drop_left, if_pos List.mem_cons_self, Reaction.write,
      Reaction.read_of_isPrefix (framed_socks5DecodeRequest h) hx', serverRounds]
    split <;> rfl

theorem socks4ClientReaction_rounds {sock : SocksTcpSocket} {addr : Block 4} {port : UInt16}
    {x : Bytes} (hx : x <+: (socks4Rounds addr port).said .server) :
    socks4ClientReaction sock (socks4Request addr port) x false =
      clientRounds (true, sock) (socks4Rounds addr port) x := by
  rw [socks4ClientReaction, Reaction.write,
    Reaction.read_of_isPrefix framed_socks4DecodeResponse hx, socks4Rounds, clientRounds]
  split <;> rfl

theorem socks4ServerReaction_rounds {sock : SocksTcpSocket} {addr : Block 4} {port : UInt16}
    {x : Bytes} (hx : x <+: (socks4Rounds addr port).said .client) :
    socks4ServerReaction sock x false =
      serverRounds (true, socksTcpSocketSetTarget sock ⟨.ipv4 addr, port⟩)
        (socks4Rounds addr port) x := by
  rw [socks4ServerReaction,
    Reaction.read_of_isPrefix (framed_socks4DecodeRequest addr port) hx, socks4Rounds, serverRounds]
  split <;> rfl

/-- A server goes by the first byte of its version. -/
theorem socksServerReaction_of_isPrefix {sock : SocksTcpSocket} {vers : UInt8} {m x : Bytes}
    {R : Reaction (Bool × SocksTcpSocket)} (hx : x <+: vers :: m) (hnil : R [] false = ([], none))
    (hR : (if vers = socks5Version then socks5ServerReaction sock
      else if vers = socks4Version then socks4ServerReaction sock
      else .done (false, sock)) = R) : socksServerReaction sock x false = R x false := by
  cases x with
  | nil => exact hnil.symm
  | cons b x =>
    obtain ⟨rfl, -⟩ := List.cons_prefix_cons.1 hx
    rw [← hR]
    rfl

/-! ### Dialogues -/

/-- The two ends of a handshake. -/
def socksPeers (getsockaddr : CString → UInt16 → Option SockAddr) (client server : SocksTcpSocket)
    (target : TargetId) : Role → FdProc (Bool × SocksTcpSocket)
  | .client => socksTcpSocketHandshakeC getsockaddr client (some target)
  | .server => socksTcpSocketHandshakeC getsockaddr server none

/-- What they are to return. -/
def socksReturns (client server : SocksTcpSocket) (target : TargetId) :
    Role → Bool × SocksTcpSocket
  | .client => (true, client)
  | .server => (true, { server with addr := some target })

theorem grows_socksServerReaction (sock : SocksTcpSocket) : (socksServerReaction sock).Grows := by
  refine .peek fun vers ↦ .ite ?v5 (.ite ?v4 (.done _))
  case v5 =>
    refine .read prompt_socks5DecodeAuthSel.toStreaming fun _ ↦ .ite (.write ?_) (.done _)
    exact .read prompt_socks5DecodeRequest.toStreaming fun _ ↦ .ite (.write (.done _)) (.done _)
  case v4 =>
    exact .read prompt_socks4DecodeRequest.toStreaming fun _ ↦ .ite (.write (.done _)) (.done _)

theorem grows_socks5ClientReaction (sock : SocksTcpSocket) (target : TargetId) :
    (socks5ClientReaction sock target).Grows := by
  refine .write (.read prompt_socks5DecodeAuthAck.toStreaming fun _ ↦ .ite (.write ?_) (.done _))
  exact .read prompt_socks5DecodeResponse.toStreaming fun _ ↦ .ite (.done _) (.done _)

theorem grows_socks4ClientReaction (sock : SocksTcpSocket) (req : Bytes) :
    (socks4ClientReaction sock req).Grows :=
  .write (.read prompt_socks4DecodeResponse.toStreaming fun _ ↦ .ite (.done _) (.done _))

section

variable {client server : SocksTcpSocket}

/-- In version 5 the two ends agree. -/
theorem agree_socks5 {target : TargetId} (h : target.Short) :
    Agree
      (fun
        | .client => socks5ClientReaction client target
        | .server => socksServerReaction server)
      (socks5Rounds target).said (socksReturns client server target) := by
  refine agree_of_rounds (fun x ↦ ?_) (fun x hx ↦ socks5ClientReaction_rounds hx) fun x hx ↦ ?_
  · cases x with
    | client => exact grows_socks5ClientReaction client target
    | server => exact grows_socksServerReaction server
  · exact (socksServerReaction_of_isPrefix hx rfl rfl).trans (socks5ServerReaction_rounds h hx)

/-- In version 4 too. -/
theorem agree_socks4 {addr : Block 4} {port : UInt16} :
    Agree
      (fun
        | .client => socks4ClientReaction client (socks4Request addr port)
        | .server => socksServerReaction server)
      (socks4Rounds addr port).said (socksReturns client server ⟨.ipv4 addr, port⟩) := by
  refine agree_of_rounds (fun x ↦ ?_) (fun x hx ↦ socks4ClientReaction_rounds hx) fun x hx ↦ ?_
  · cases x with
    | client => exact grows_socks4ClientReaction client _
    | server => exact grows_socksServerReaction server
  · exact (socksServerReaction_of_isPrefix hx rfl rfl).trans (socks4ServerReaction_rounds hx)

/-- **Client and server agree.** In every run of the two handshakes, with any interleaving and any
cut of what is sent, neither end has failed; and when neither can do anything any more, both have
returned true, the server's target is the client's, and both channels are empty. -/
theorem socksPeers_agree {getsockaddr : CString → UInt16 → Option SockAddr} {target : TargetId}
    (h : client.socksVers.Speaks target) {es : List DialogueEvent} {d : Dialogue}
    (hrun : Run (DialogueStep (socksPeers getsockaddr client server target)) dialogueStart es d) :
    (∀ x, d.call (socksPeers getsockaddr client server target) x ≠ .abort ∧
      ∀ sock, ¬(d.call (socksPeers getsockaddr client server target) x).Returns (false, sock)) ∧
    (d.Stuck (socksPeers getsockaddr client server target) →
      d.HasReturned (socksPeers getsockaddr client server target) .client (true, client) ∧
      d.HasReturned (socksPeers getsockaddr client server target) .server
        (true, { server with addr := some target }) ∧ ∀ x, d.Arrived x) := by
  have hdialogue : (∀ x, d.call (socksPeers getsockaddr client server target) x ≠ .abort ∧
      ∀ a, (d.call (socksPeers getsockaddr client server target) x).Returns a →
        a = socksReturns client server target x) ∧
      (d.Stuck (socksPeers getsockaddr client server target) → ∀ x,
        d.HasReturned (socksPeers getsockaddr client server target) x
          (socksReturns client server target x) ∧ d.Arrived x) := by
    rcases h with ⟨hvers, hshort⟩ | ⟨hvers, addr, haddr⟩
    · refine (agree_socks5 hshort).dialogue (fun x ↦ ?_) hrun
      cases x with
      | client =>
        obtain ⟨_, _⟩ := client
        obtain rfl := hvers
        exact reacts_socks5ClientHandshake (rbufferNew socksDefaultBuffer) _ target
      | server => exact reacts_socksServerHandshake getsockaddr server
    · obtain ⟨_, port⟩ := target
      obtain rfl := haddr
      refine agree_socks4.dialogue (fun x ↦ ?_) hrun
      cases x with
      | client =>
        obtain ⟨_, _⟩ := client
        obtain rfl := hvers
        exact reacts_socks4ClientHandshake getsockaddr (rbufferNew socksDefaultBuffer) _ addr port
      | server => exact reacts_socksServerHandshake getsockaddr server
  obtain ⟨hreturns, hstuck⟩ := hdialogue
  refine ⟨fun x ↦ ⟨(hreturns x).1, fun sock hret ↦ ?_⟩, fun h ↦ ?_⟩
  · have := (hreturns x).2 _ hret
    cases x <;> simp [socksReturns] at this
  · have hboth := hstuck h
    exact ⟨(hboth .client).1, (hboth .server).1, fun x ↦ (hboth x).2⟩

/-- A version 4 handshake that is cut behind the first byte of the request. -/
theorem socksPeers_agree_v4 :
    let P := socksPeers (fun _ _ ↦ none) ⟨none, .v4⟩ ⟨none, .any⟩
      ⟨.ipv4 ⟨[127, 0, 0, 1], rfl⟩, 80⟩
    ∃ es d, Run (DialogueStep P) dialogueStart es d ∧
      d.HasReturned P .server (true, ⟨some ⟨.ipv4 ⟨[127, 0, 0, 1], rfl⟩, 80⟩, .any⟩) := by
  intro P
  let d₁ := dialogueStart.write .client [4, 1, 0, 80, 127, 0, 0, 1, 0]
  let d₂ := d₁.give .server (.data [4])
  let d₃ := d₂.give .server (.data [1, 0, 80, 127, 0, 0, 1, 0])
  let d₄ := d₃.write .server [0, 90, 0, 0, 0, 0, 0, 0]
  let d₅ := d₄.give .client (.data [0, 90, 0, 0, 0, 0, 0, 0])
  have h₁ : DialogueStep P dialogueStart _ d₁ := .wrote (by decide) (by decide)
  have h₂ : DialogueStep P d₁ _ d₂ :=
    @DialogueStep.answer _ P d₁ .server 1 _ (by decide) rfl (by decide) (by decide)
  have h₃ : DialogueStep P d₂ _ d₃ :=
    @DialogueStep.answer _ P d₂ .server 31 _ (by decide) rfl (by decide) (by decide)
  have h₄ : DialogueStep P d₃ _ d₄ := .wrote (by decide) (by decide)
  have h₅ : DialogueStep P d₄ _ d₅ :=
    @DialogueStep.answer _ P d₄ .client 32 _ (by decide) rfl (by decide) (by decide)
  have hrun : Run (DialogueStep P) dialogueStart _ d₅ :=
    ((((Run.nil.snoc h₁).snoc h₂).snoc h₃).snoc h₄).snoc h₅
  have hstuck : d₅.Stuck P :=
    Dialogue.stuck_of_hasReturned (r := socksReturns ⟨none, .v4⟩ ⟨none, .any⟩ _) fun x ↦ by
      cases x with
      | client => exact ⟨rfl, _, rfl⟩
      | server => exact ⟨rfl, _, rfl⟩
  exact ⟨_, d₅, hrun, ((socksPeers_agree (.inr ⟨rfl, _, rfl⟩) hrun).2 hstuck).2.1⟩

end

end Vmecs
