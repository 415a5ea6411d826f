import Vmecs.Proto.Socks.Tcp

/-!
# What a SOCKS client asks for

Every message of the two versions is read back as what it was written for (`socks_roundTrips`), so a
server is asked for the target that the client has put into its request.

In version 4 that is an IPv4 address, and the client finds out whether its target has one by
resolving it to a socket address (`NeverElsewhere`). An IPv6 address is resolved to one that says it
is of the other family, so the client takes four bytes of it for the address and asks for them;
`neverElsewhere_iff` is that this happens to all IPv6 addresses, and to no IPv4 address.
-/

namespace Vmecs

open StreamDecoder

/-! ### Messages come back -/

/-- A choice of at most 255 methods. -/
theorem parses_socks5EncodeAuthSel {methods : Bytes} (hne : methods ≠ [])
    (hlen : methods.length ≤ 255) :
    socks5DecodeAuthSel.Parses (socks5EncodeAuthSel methods (UInt8.ofNat methods.length))
      methods := by
  have hcount : (UInt8.ofNat methods.length).toNat = methods.length := by
    rw [UInt8.toNat_ofNat']
    omega
  have hzero : UInt8.ofNat methods.length ≠ 0 := fun h ↦ by
    rw [h] at hcount
    exact hne (List.length_eq_zero_iff.1 hcount.symm)
  rw [socks5EncodeAuthSel, hcount, List.take_length]
  exact parses_socks5DecodeAuthSel hzero ⟨methods, hcount.symm⟩

/-- A response of version 5: the address in it is skipped. -/
theorem parses_socks5EncodeResponse (rep : UInt8) :
    socks5DecodeResponse.Parses (socks5EncodeResponse ⟨rep⟩) ⟨rep⟩ := by
  have hparse : socks5DecodeResponse.Parses ([5] ++ ([rep] ++ ([0] ++ ([1] ++ [0, 0, 0, 0, 0, 0]))))
      ⟨rep⟩ := by
    refine .take_bind ⟨[5], rfl⟩ ?_
    show (if (5 : UInt8) ≠ 5 then reject else _).Parses _ _
    rw [if_neg (by simp)]
    refine .take_bind ⟨[rep], rfl⟩ (.take_bind ⟨[0], rfl⟩ (.take_bind ⟨[1], rfl⟩ ?_))
    exact (parses_socks5DecodeTarget (.ipv4 ⟨[0, 0, 0, 0], rfl⟩) ⟨[0, 0], rfl⟩).bind_pure
      fun _ ↦ (⟨rep⟩ : Socks5Response)
  have hwire : socks5EncodeResponse ⟨rep⟩ = [5, rep, 0, 1, 0, 0, 0, 0, 0, 0] :=
    ((((((holds_serialInit.write [5]).write [rep]).write [0]).write [1]).write (be32 0).1).write
      (be16 0).1).2
  rwa [hwire]

/-- **The messages of the handshakes come back**, with their exact lengths, whatever follows. -/
theorem socks_roundTrips :
    (∀ (cmd : UInt8) (target : TargetId), target.Short → ∀ y,
      socks5DecodeRequest (socks5EncodeRequest ⟨target, cmd⟩ ++ y) =
        .ok (socks5EncodeRequest ⟨target, cmd⟩).length ⟨target, cmd⟩) ∧
    (∀ methods : Bytes, methods ≠ [] → methods.length ≤ 255 → ∀ y,
      socks5DecodeAuthSel (socks5EncodeAuthSel methods (UInt8.ofNat methods.length) ++ y) =
        .ok (methods.length + 2) methods) ∧
    (∀ (method : UInt8) (y : Bytes),
      socks5DecodeAuthAck (socks5EncodeAuthAck method ++ y) = .ok 2 method) ∧
    (∀ (rep : UInt8) (y : Bytes), socks5DecodeResponse (socks5EncodeResponse ⟨rep⟩ ++ y) =
      .ok (socks5EncodeResponse ⟨rep⟩).length ⟨rep⟩) ∧
    (∀ (rep : UInt8) (y : Bytes), socks4DecodeResponse (socks4EncodeResponse ⟨rep⟩ ++ y) =
      .ok 8 ⟨rep⟩) ∧
    ∀ (cmd : UInt8) (addr : Block 4) (port : UInt16), ∃ req,
      socks4EncodeRequest ⟨⟨.ipv4 addr, port⟩, cmd⟩ = some req ∧ ∀ y,
        socks4DecodeRequest (req ++ y) = .ok req.length ⟨⟨.ipv4 addr, port⟩, cmd⟩ := by
  refine ⟨fun cmd target h ↦ parses_socks5EncodeRequest h cmd, fun methods hne hlen y ↦ ?_,
    fun method y ↦ ?_, parses_socks5EncodeResponse, fun rep y ↦ ?_,
    fun cmd addr port ↦ ⟨_, rfl, parses_socks4EncodeRequest cmd addr port⟩⟩
  · have hcount : methods.length % 2 ^ 8 = methods.length := Nat.mod_eq_of_lt (by omega)
    rw [parses_socks5EncodeAuthSel hne hlen y, socks5EncodeAuthSel, UInt8.toNat_ofNat', hcount,
      List.take_length]
    rfl
  · exact Parses.take_pure (⟨[5, method], rfl⟩ : Block 2) (fun head ↦ byteAt head 1) y
  · exact Parses.take_pure (⟨[0, rep, 0, 0, 0, 0, 0, 0], rfl⟩ : Block 8)
      (fun head ↦ (⟨byteAt head 1⟩ : Socks4Response)) y

theorem socks_roundTrips_sample :
    socks5DecodeRequest (socks5EncodeRequest ⟨⟨.domain ⟨[0x61], by decide⟩, 443⟩, 1⟩ ++ [5, 5]) =
      .ok (socks5EncodeRequest ⟨⟨.domain ⟨[0x61], by decide⟩, 443⟩, 1⟩).length
        ⟨⟨.domain ⟨[0x61], by decide⟩, 443⟩, 1⟩ ∧
    socks5DecodeAuthSel (socks5EncodeAuthSel [0, 2] (UInt8.ofNat 2) ++ [5, 5]) = .ok 4 [0, 2] :=
  ⟨socks_roundTrips.1 1 ⟨.domain ⟨[0x61], by decide⟩, 443⟩ (show 1 ≤ 255 by decide) [5, 5],
    socks_roundTrips.2.1 [0, 2] (by decide) (by decide) [5, 5]⟩

/-! ### The target of version 4 -/

/-- The family of an address; a domain name has none. -/
def TargetAddr.family : TargetAddr → Option SockFamily
  | .ipv4 _ => some .inet
  | .domain _ => none
  | .ipv6 _ => some .inet6

/-- The socket address is that of the target, as far as its accessors tell. -/
structure Resolves (target : TargetId) (addr : SockAddr) : Prop where
  family : target.addr.family = some addr.family
  port : socketSockaddrPort addr = target.port
  ipv4 : ∀ ip, target.addr = .ipv4 ip → socketSockaddrGetIpv4 addr = ip

/-- A client of version 4, at any point of its handshake, has sent the request for its target; or
the target is an IPv6 address, and the client has refused it. -/
def AsksFor (getsockaddr : CString → UInt16 → Option SockAddr) (target : TargetId) : Prop :=
  ∀ (sock : SocksTcpSocket) (s : Reads) (out : OutFd), sock.socksVers = .v4 →
    let run := socksTcpSocketHandshakeC getsockaddr sock (some target) s out
    (∃ req, socks4EncodeRequest ⟨target, socks4CmdConnect⟩ = some req ∧
      run.1 = (fdWrite out req).2) ∨
    ((∃ ip, target.addr = .ipv6 ip) ∧ run = (out, .done (false, sock) s))

/-- **No request for another address**: the target is resolved to a socket address of its own
family, port and address, and the client asks for it or refuses. -/
structure NeverElsewhere (getsockaddr : CString → UInt16 → Option SockAddr) (target : TargetId) :
    Prop where
  resolves : ∃ addr, targetIdResolve getsockaddr target = some addr ∧ Resolves target addr
  asksFor : AsksFor getsockaddr target

/-- Reading an answer writes nothing. -/
theorem readDecode_sent {V : Type} (D : StreamDecoder UInt8 V) (rbuf : RBuffer)
    (sock : SocksTcpSocket) {next : V → RBuffer → SocksHandshake}
    (hnext : ∀ v rbuf s out, (next v rbuf s out).1 = out) (s : Reads) (out : OutFd) :
    (readDecode D rbuf sock next s out).1 = out := by
  rw [readDecode, FdProc.read_bind_apply]
  rcases rbufferRead D rbuf s with ⟨⟨v | _ | _, rbuf'⟩, s₁⟩ | want | _
  · exact hnext v rbuf' s₁ out
  · rfl
  · rfl
  · rfl
  · rfl

/-- What the client of version 4 writes for a resolved target. -/
theorem socks4ClientHandshake_sent {getsockaddr : CString → UInt16 → Option SockAddr}
    {target : TargetId} {addr : SockAddr}
    (hresolve : targetIdResolve getsockaddr target = some addr)
    (hfamily : addr.family = .inet) (rbuf : RBuffer) (sock : SocksTcpSocket) (s : Reads)
    (out : OutFd) : ∃ req, socks4EncodeRequest ⟨⟨.ipv4 (socketSockaddrGetIpv4 addr),
        socketSockaddrPort addr⟩, socks4CmdConnect⟩ = some req ∧
      (socks4ClientHandshake getsockaddr rbuf sock target s out).1 = (fdWrite out req).2 := by
  refine ⟨_, rfl, ?_⟩
  have hipv4 : socketSockaddrIsIpv4 addr = true := decide_eq_true hfamily
  rw [socks4ClientHandshake, hresolve]
  dsimp only
  rw [if_pos hipv4]
  refine readDecode_sent socks4DecodeResponse rbuf sock (fun resp rbuf' s₁ out₁ ↦ ?_) s _
  split <;> rfl

theorem socksTcpSocketHandshakeC_v4 (getsockaddr : CString → UInt16 → Option SockAddr)
    (addr : Option TargetId) (target : TargetId) :
    socksTcpSocketHandshakeC getsockaddr ⟨addr, .v4⟩ (some target) =
      socks4ClientHandshake getsockaddr (rbufferNew socksDefaultBuffer) ⟨addr, .v4⟩ target := rfl

/-- **Which targets the client of version 4 asks for**: those that are IPv4 addresses. An IPv6
address is resolved to a socket address that says it is an IPv4 address, and the client asks for the
four bytes that are in its place. -/
theorem asksFor_iff {target : TargetId} (hname : ∀ name, target.addr ≠ .domain name)
    (getsockaddr : CString → UInt16 → Option SockAddr) :
    AsksFor getsockaddr target ↔ ∃ ip, target.addr = .ipv4 ip := by
  obtain ⟨addr, port⟩ := target
  match addr with
  | .ipv4 ip =>
    refine iff_of_true ?_ ⟨ip, rfl⟩
    rintro ⟨addr, vers⟩ s out rfl
    have hresolve : targetIdResolve getsockaddr ⟨.ipv4 ip, port⟩ =
        some (socketSockaddrIpv4 ip port) := rfl
    rw [socksTcpSocketHandshakeC_v4]
    exact .inl (socks4ClientHandshake_sent hresolve rfl _ _ s out)
  | .domain name => exact absurd rfl (hname name)
  | .ipv6 ip =>
    refine iff_of_false (fun h ↦ ?_) fun ⟨ip', h⟩ ↦ by simp at h
    rcases h ⟨none, .v4⟩ [] {} rfl with ⟨req, hreq, -⟩ | ⟨-, hrun⟩
    · exact absurd hreq (by simp [socks4EncodeRequest])
    · -- something has been sent
      have hresolve : targetIdResolve getsockaddr ⟨.ipv6 ip, port⟩ =
          some (socketSockaddrIpv6 ip port) := rfl
      obtain ⟨req, hreq, hsent⟩ := socks4ClientHandshake_sent hresolve rfl
        (rbufferNew socksDefaultBuffer) ⟨none, .v4⟩ [] {}
      obtain rfl := Option.some.inj hreq
      rw [socksTcpSocketHandshakeC_v4] at hrun
      have hempty := hsent.symm.trans (congrArg Prod.fst hrun)
      exact absurd (congrArg OutFd.sent hempty) (by simp [fdWrite])

/-- And those are the targets that keep their family. -/
theorem neverElsewhere_iff {target : TargetId} (hname : ∀ name, target.addr ≠ .domain name)
    (getsockaddr : CString → UInt16 → Option SockAddr) :
    NeverElsewhere getsockaddr target ↔ ∃ ip, target.addr = .ipv4 ip := by
  refine ⟨fun h ↦ (asksFor_iff hname getsockaddr).1 h.asksFor, fun h ↦
    ⟨?_, (asksFor_iff hname getsockaddr).2 h⟩⟩
  obtain ⟨ip, hip⟩ := h
  refine ⟨socketSockaddrIpv4 ip target.port, by rw [targetIdResolve, hip], ?_, rfl, ?_⟩
  · rw [hip]
    rfl
  · exact fun ip' hip' ↦ TargetAddr.ipv4.inj (hip.symm.trans hip')

theorem neverElsewhere_iff_localhost :
    NeverElsewhere (fun _ _ ↦ none) ⟨.ipv4 ⟨[127, 0, 0, 1], rfl⟩, 80⟩ ↔
      ∃ ip, TargetAddr.ipv4 ⟨[127, 0, 0, 1], rfl⟩ = .ipv4 ip :=
  neverElsewhere_iff (fun _ h ↦ by simp at h) _

/-- The IPv6 address of the host itself, port 80: the client asks for 0.0.0.0. -/
theorem not_neverElsewhere_localhost6 :
    ¬NeverElsewhere (fun _ _ ↦ none) ⟨.ipv6 ⟨List.replicate 15 0 ++ [1], rfl⟩, 80⟩ ∧
    (socksTcpSocketHandshakeC (fun _ _ ↦ none) ⟨none, .v4⟩
      (some ⟨.ipv6 ⟨List.replicate 15 0 ++ [1], rfl⟩, 80⟩) [] {}).1.sent =
        [4, 1, 0, 80, 0, 0, 0, 0, 0] := by
  refine ⟨fun h ↦ ?_, rfl⟩
  obtain ⟨ip, hip⟩ := (asksFor_iff (fun _ h ↦ by simp at h) _).1 h.asksFor
  simp at hip

end Vmecs
