import Vmecs.Proto.Reaction
import Vmecs.Proto.Socks.Tcp

/-!
# What a SOCKS server accepts

The server's handshake as a function of the client's bytes (`socksServerReaction`), and the requests
of the protocol, written down byte by byte (`SocksAccepted`). The function returns true on just the
streams that begin with such a request, with the request's target, and answers it with the replies
of its version (`socksServerHandshake_accepts`).

A server that does not accept has not necessarily been silent: the acknowledgement of version 5 is
sent before the request is read.
-/

namespace Vmecs

open StreamDecoder

/-! ### The requests -/

/-- What a client sends to be served, the target it asks for, and the replies. -/
inductive SocksAccepted : Bytes → TargetId → List Bytes → Prop where
  | v5 {n resv : UInt8} {methods : Block n.toNat} {bs : Bytes} {addr : TargetAddr} {port : Block 2}
      (hn : 1 ≤ n) (hmethods : 0 ∈ methods.1) (haddr : Socks5Address bs addr) :
      SocksAccepted ([5, n] ++ methods.1 ++ [5, 1, resv] ++ bs ++ port.1) ⟨addr, fromBe16 port⟩
        [[5, 0], [5, 0, 0, 1, 0, 0, 0, 0, 0, 0]]
  | v4 {addr : Block 4} {port : Block 2} (userId : CString) :
      SocksAccepted ([4, 1] ++ port.1 ++ addr.1 ++ userId.1 ++ [0]) ⟨.ipv4 addr, fromBe16 port⟩
        [[0, 90, 0, 0, 0, 0, 0, 0]]

/-- The stream begins with such a request. -/
def SocksAccepts (x : Bytes) (target : TargetId) (reply : List Bytes) : Prop :=
  ∃ req rest, x = req ++ rest ∧ SocksAccepted req target reply

/-! ### The server as a function of its stream -/

/-- A version 5 server, from the first byte on. -/
def socks5ServerReaction (sock : SocksTcpSocket) : Reaction (Bool × SocksTcpSocket) :=
  .read socks5DecodeAuthSel (fun authSel ↦
    if socks5AuthMethodNoAuth ∈ authSel then
      .write (socks5EncodeAuthAck socks5AuthMethodNoAuth) <|
        .read socks5DecodeRequest (fun req ↦
          if req.cmd = socks5CmdConnect then
            .write (socks5EncodeResponse ⟨socks5RepSuccess⟩)
              (.done (true, socksTcpSocketSetTarget sock req.target))
          else .done (false, sock)) (false, sock)
    else .done (false, sock)) (false, sock)

/-- A version 4 server. -/
def socks4ServerReaction (sock : SocksTcpSocket) : Reaction (Bool × SocksTcpSocket) :=
  .read socks4DecodeRequest (fun req ↦
    if req.cmd = socks4CmdConnect then
      .write (socks4EncodeResponse ⟨socks4RepSuccess⟩)
        (.done (true, socksTcpSocketSetTarget sock req.target))
    else .done (false, sock)) (false, sock)

/-- The server finds its version in the first byte. -/
def socksServerReaction (sock : SocksTcpSocket) : Reaction (Bool × SocksTcpSocket) :=
  .peek (fun vers ↦
    if vers = socks5Version then socks5ServerReaction sock
    else if vers = socks4Version then socks4ServerReaction sock
    else .done (false, sock)) (false, sock)

/-- The next message of a handshake. -/
theorem reacts_readDecode {V : Type} {D : StreamDecoder UInt8 V} (hD : D.Prompt) {rbuf : RBuffer}
    {sock : SocksTcpSocket} {next : V → RBuffer → SocksHandshake}
    {R : V → Reaction (Bool × SocksTcpSocket)}
    (hnext : ∀ v rbuf', Reacts (next v rbuf') rbuf'.data (R v)) :
    Reacts (readDecode D rbuf sock next) rbuf.data (.read D R (false, sock)) :=
  .read hD.toStreaming hnext (fun _ ↦ rfl) fun _ ↦ rfl

theorem reacts_socks5ServerHandshake (rbuf : RBuffer) (sock : SocksTcpSocket) :
    Reacts (socks5ServerHandshake rbuf sock) rbuf.data (socks5ServerReaction sock) := by
  refine reacts_readDecode prompt_socks5DecodeAuthSel fun _ _ ↦ .ite (.write ?_) (.done _)
  exact reacts_readDecode prompt_socks5DecodeRequest fun _ _ ↦
    .ite (.write (.done _)) (.done _)

theorem reacts_socks4ServerHandshake (rbuf : RBuffer) (sock : SocksTcpSocket) :
    Reacts (socks4ServerHandshake rbuf sock) rbuf.data (socks4ServerReaction sock) :=
  reacts_readDecode prompt_socks4DecodeRequest fun _ _ ↦ .ite (.write (.done _)) (.done _)

/-- **The server is this function of its stream.** -/
theorem reacts_socksServerHandshake (getsockaddr : CString → UInt16 → Option SockAddr)
    (sock : SocksTcpSocket) :
    Reacts (socksTcpSocketHandshakeC getsockaddr sock none) [] (socksServerReaction sock) := by
  refine Reacts.peek (fun vers ↦ ?_) rfl
  set rbuf := rbufferPush (rbufferNew socksDefaultBuffer) [vers]
  exact .ite (reacts_socks5ServerHandshake rbuf sock)
    (.ite (reacts_socks4ServerHandshake rbuf sock) (.done _))

/-! ### What it accepts -/

/-- An accepted request is answered with its replies. -/
theorem socksServerReaction_of_accepted {req : Bytes} {target : TargetId} {reply : List Bytes}
    (h : SocksAccepted req target reply) (sock : SocksTcpSocket) (rest : Bytes) (ended : Bool) :
    socksServerReaction sock (req ++ rest) ended =
      (reply, some (true, socksTcpSocketSetTarget sock target)) := by
  cases h with
  | @v5 n resv methods bs addr port hn hmethods haddr =>
    have hlen : n ≠ 0 := by
      rintro rfl
      exact absurd hn (by decide)
    have hsel := parses_socks5DecodeAuthSel hlen methods
      ([5, 1, resv] ++ bs ++ port.1 ++ rest)
    have hreq := parses_socks5DecodeRequest 1 resv haddr port rest
    have hsplit : [5, n] ++ methods.1 ++ [5, 1, resv] ++ bs ++ port.1 ++ rest =
        ([5, n] ++ methods.1) ++ ([5, 1, resv] ++ bs ++ port.1 ++ rest) := by
      simp only [List.append_assoc]
    rw [hsplit]
    show socks5ServerReaction sock _ _ = _
    rw [socks5ServerReaction, Reaction.read_of_ok hsel, List.drop_left,
      if_pos (show socks5AuthMethodNoAuth ∈ methods.1 from hmethods), Reaction.write,
      Reaction.read_of_ok hreq]
    rfl
  | @v4 addr port userId =>
    have hreq := parses_socks4DecodeRequest 1 port addr userId rest
    show socks4ServerReaction sock _ _ = _
    rw [socks4ServerReaction, Reaction.read_of_ok hreq]
    rfl

/-- And nothing else is accepted. -/
theorem accepts_of_socksServerReaction {sock sock' : SocksTcpSocket} {x : Bytes} {ended : Bool}
    (h : (socksServerReaction sock x ended).2 = some (true, sock')) :
    ∃ target reply, SocksAccepts x target reply := by
  have hne : (true, sock') ≠ (false, sock) := by simp
  cases x with
  | nil => cases ended <;> exact absurd h (by simp [socksServerReaction, Reaction.peek])
  | cons vers x =>
    rw [socksServerReaction, Reaction.peek] at h
    split at h
    case isTrue hv5 =>
      obtain ⟨n, methods, hsel, h⟩ := (Reaction.read_eq_some hne).1 h
      split at h
      case isTrue hauth =>
        obtain ⟨_, req, hreq, h⟩ := (Reaction.read_eq_some hne).1 h
        obtain ⟨len, hlen, hlength, rest, hx⟩ := socks5DecodeAuthSel_eq_ok hsel
        rw [hx, parses_socks5DecodeAuthSel hlen ⟨methods, hlength⟩ rest] at hsel
        obtain ⟨rfl, -⟩ := Decode.ok.inj hsel
        rw [hx, List.drop_left] at hreq
        obtain ⟨resv, bs, addr, port, rest', rfl, haddr, -⟩ := socks5DecodeRequest_eq_ok hreq
        split at h
        case isTrue hcmd =>
          have hn : 1 ≤ len := UInt8.le_iff_toNat_le.2 <| Nat.one_le_iff_ne_zero.2 fun h0 ↦
            hlen (UInt8.toNat_inj.1 h0)
          have haccept : SocksAccepted ([5, len] ++ (⟨methods, hlength⟩ : Block len.toNat).1 ++
              [5, 1, resv] ++ bs ++ port.1) ⟨addr, fromBe16 port⟩ _ := .v5 hn hauth haddr
          refine ⟨_, _, _, rest', ?_, haccept⟩
          rw [hx, hcmd]
          simp only [List.append_assoc]
          rfl
        case isFalse => exact absurd (Option.some.inj h) hne.symm
      case isFalse => exact absurd (Option.some.inj h) hne.symm
    case isFalse =>
      split at h
      case isTrue hv4 =>
        obtain ⟨n, req, hreq, h⟩ := (Reaction.read_eq_some hne).1 h
        obtain ⟨port, addr, userId, rest, hx, htarget⟩ := socks4DecodeRequest_eq_ok hreq
        split at h
        case isTrue hcmd =>
          rw [hx, hcmd]
          exact ⟨_, _, _, rest, rfl, .v4 userId⟩
        case isFalse => exact absurd (Option.some.inj h) hne.symm
      case isFalse => exact absurd (Option.some.inj h) hne.symm

/-- A server returns when the stream ends. -/
theorem returns_socksServerReaction (sock : SocksTcpSocket) :
    (socksServerReaction sock).Returns := by
  refine .peek fun vers ↦ .ite ?v5 (.ite ?v4 (.done _))
  case v5 =>
    refine .read fun authSel ↦ .ite (.write ?_) (.done _)
    exact .read fun req ↦ .ite (.write (.done _)) (.done _)
  case v4 => exact .read fun req ↦ .ite (.write (.done _)) (.done _)

/-- **What a server accepts.** On every stream without read errors, however it is cut, the handshake
returns true exactly if the stream begins with an accepted request. Then the target is that of the
request, and what has been sent is its replies. It does return when the stream ends, and nothing
depends on the cut. -/
theorem socksServerHandshake_accepts (getsockaddr : CString → UInt16 → Option SockAddr)
    (sock : SocksTcpSocket) (out : OutFd) {s : Reads} (hs : .fail ∉ s)
    (hposs : Possible (fun t ↦ (socksTcpSocketHandshakeC getsockaddr sock none t out).2) s) :
    ((∃ sock', (socksTcpSocketHandshakeC getsockaddr sock none s out).2.Returns (true, sock')) ↔
      ∃ target reply, SocksAccepts (streamBytes s) target reply) ∧
    (∀ target reply, SocksAccepts (streamBytes s) target reply →
      (socksTcpSocketHandshakeC getsockaddr sock none s out).2.Returns
        (true, { sock with addr := some target }) ∧
      (out.answers = [] →
        (socksTcpSocketHandshakeC getsockaddr sock none s out).1.sent =
          out.sent ++ reply.flatten)) ∧
    (.eof ∈ s → ∃ r, (socksTcpSocketHandshakeC getsockaddr sock none s out).2.Returns r) ∧
    ∀ s₂, .fail ∉ s₂ →
      Possible (fun t ↦ (socksTcpSocketHandshakeC getsockaddr sock none t out).2) s₂ →
      streamBytes s₂ = streamBytes s → (.eof ∈ s₂ ↔ .eof ∈ s) →
      (socksTcpSocketHandshakeC getsockaddr sock none s₂ out).1 =
        (socksTcpSocketHandshakeC getsockaddr sock none s out).1 ∧
      ∀ r, (socksTcpSocketHandshakeC getsockaddr sock none s₂ out).2.Returns r ↔
        (socksTcpSocketHandshakeC getsockaddr sock none s out).2.Returns r := by
  have hreacts := reacts_socksServerHandshake getsockaddr sock
  have haccepts : ∀ target reply, SocksAccepts (streamBytes s) target reply →
      socksServerReaction sock (streamBytes s) (decide (.eof ∈ s)) =
        (reply, some (true, socksTcpSocketSetTarget sock target)) := by
    rintro target reply ⟨req, rest, hx, hreq⟩
    rw [hx]
    exact socksServerReaction_of_accepted hreq sock rest _
  refine ⟨⟨?_, ?_⟩, ?_, ?_, ?_⟩
  · rintro ⟨sock', hret⟩
    exact accepts_of_socksServerReaction ((hreacts.returns_iff hs hposs).1 hret)
  · rintro ⟨target, reply, h⟩
    exact ⟨_, (hreacts.returns_iff hs hposs).2 (congrArg Prod.snd (haccepts target reply h))⟩
  · intro target reply h
    refine ⟨(hreacts.returns_iff hs hposs).2 (congrArg Prod.snd (haccepts target reply h)), ?_⟩
    intro hout
    rw [(hreacts s out hs hposs).1, List.nil_append, haccepts target reply h,
      fdWrites_of_reliable hout]
  · intro heof
    obtain ⟨r, hr⟩ := returns_socksServerReaction sock (streamBytes s)
    refine ⟨r, (hreacts.returns_iff hs hposs).2 ?_⟩
    rw [decide_eq_true heof]
    exact hr
  · intro s₂ hs₂ hposs₂ hbytes heof
    exact hreacts.eq_of_streamBytes_eq hs₂ hs hposs₂ hposs hbytes heof

/-- A version 4 request in three segments. -/
theorem socksServerHandshake_accepts_v4 :
    (socksTcpSocketHandshakeC (fun _ _ ↦ none) ⟨none, .any⟩ none
      [.data [4], .data [1, 0, 80, 127, 0, 0], .data [1, 117, 0]] {}).2.Returns
        (true, ⟨some ⟨.ipv4 ⟨[127, 0, 0, 1], rfl⟩, 80⟩, .any⟩) :=
  ((socksServerHandshake_accepts (fun _ _ ↦ none) ⟨none, .any⟩ {} (by decide) (by decide)).2.1 _ _
    ⟨_, [], rfl, @SocksAccepted.v4 ⟨[127, 0, 0, 1], rfl⟩ ⟨[0, 80], rfl⟩ ⟨[117], by decide⟩⟩).1

end Vmecs
