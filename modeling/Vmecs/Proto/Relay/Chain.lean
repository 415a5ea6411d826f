import Vmecs.Proto.Relay.Outbound
import Vmecs.Proto.Socks.Peers
import Vmecs.Proto.Vmess.Handshake
import Vmecs.Proto.Vmess.Hop

/-!
# Chains of relays

A relay asks the next one for the target that it was asked for, and this one the next. At each hop
the target is written as two texts, read back, and put into the handshake of the outbound; the next
relay finds it there. So a target that has come by a hop is denoted by its own texts, and every hop
behind that is the identity (`denoted_denoted`).

A hop is seen through the bytes alone. What a client sends while it connects is a part of what it
has to say (`Says`), whatever it is answered; the server has got a part of that, cut in any way; and
if it accepts the connection, the target is the one that its outbound asks for (`Hop.asks`), which a
client of version 4 has resolved itself. A chain is such hops, one behind the other
(`relayed_target`).
-/

namespace Vmecs

open StreamDecoder

/-! ### What a client says -/

section

variable {α β : Type} {p : FdProc α} {m : Bytes}

/-- On a reliable descriptor the program sends a part of `m`, whatever it is answered. -/
def Says (p : FdProc α) (m : Bytes) : Prop :=
  ∀ s out, out.answers = [] → ∃ said, said <+: m ∧ (p s out).1.sent = out.sent ++ said

namespace Says

theorem pure (a : α) : Says (Pure.pure a) m :=
  fun _ out _ ↦ ⟨[], List.nil_prefix, (List.append_nil out.sent).symm⟩

theorem abort : Says (FdProc.abort : FdProc α) m :=
  fun _ out _ ↦ ⟨[], List.nil_prefix, (List.append_nil out.sent).symm⟩

/-- What is written is said first. -/
theorem write (bs : Bytes) (h : Says p m) : Says (FdProc.write bs >>= fun _ ↦ p) (bs ++ m) := by
  intro s out hout
  have hrun : (FdProc.write bs >>= fun _ ↦ p) s out =
      p s { out with sent := out.sent ++ bs } := by
    show p s (fdWrite out bs).2 = _
    rw [fdWrite_of_reliable hout]
  obtain ⟨said, hsaid, hsent⟩ := h s { out with sent := out.sent ++ bs } hout
  exact ⟨bs ++ said, (List.prefix_append_right_inj bs).2 hsaid, by
    rw [hrun, hsent, List.append_assoc]⟩

/-- Nothing is said while it reads. -/
theorem read {f : Reads → Outcome β} {k : β → FdProc α} (h : ∀ b, Says (k b) m) :
    Says (FdProc.read f >>= k) m := by
  intro s out hout
  rw [FdProc.read_bind_apply]
  rcases f s with ⟨b, s'⟩ | want | _
  · exact h b s' out hout
  · exact pure () s out hout
  · exact pure () s out hout

theorem ofOption {o : Option β} {k : β → FdProc α} (h : ∀ b, Says (k b) m) :
    Says (FdProc.ofOption o >>= k) m := by
  rcases o with _ | b
  · exact abort
  · exact h b

theorem ite {P : Prop} [Decidable P] {q : FdProc α} (hp : Says p m) (hq : Says q m) :
    Says (if P then p else q) m := by
  split
  · exact hp
  · exact hq

theorem pure_bind {a : α} {k : α → FdProc β} (h : Says (k a) m) : Says (Pure.pure a >>= k) m := h

/-- Nothing is said behind `p`. -/
theorem bind {k : α → FdProc β} (h : Says p m) (hk : ∀ a s out, (k a s out).1.sent = out.sent) :
    Says (p >>= k) m := by
  intro s out hout
  obtain ⟨said, hsaid, hsent⟩ := h s out hout
  refine ⟨said, hsaid, ?_⟩
  rw [FdProc.bind_apply]
  split
  case h_1 hrun => rw [hk, ← hsent, hrun]
  case h_2 hrun => rw [← hsent, hrun]
  case h_3 hrun => rw [← hsent, hrun]

theorem mono {m' : Bytes} (h : Says p m) (hm : m <+: m') : Says p m' := by
  intro s out hout
  obtain ⟨said, hsaid, hsent⟩ := h s out hout
  exact ⟨said, hsaid.trans hm, hsent⟩

end Says

end

/-! ### SOCKS clients -/

theorem Says.readDecode {V : Type} {D : StreamDecoder UInt8 V} {rbuf : RBuffer}
    {sock : SocksTcpSocket} {next : V → RBuffer → SocksHandshake} {m : Bytes}
    (h : ∀ v rbuf', Says (next v rbuf') m) : Says (Vmecs.readDecode D rbuf sock next) m := by
  refine .read fun r ↦ ?_
  obtain ⟨_ | _ | _, rbuf'⟩ := r
  · exact h _ rbuf'
  · exact .pure _
  · exact .pure _

/-- A version 5 client says its rounds. -/
theorem says_socks5ClientHandshake (rbuf : RBuffer) (sock : SocksTcpSocket) (target : TargetId) :
    Says (socks5ClientHandshake rbuf sock target) ((socks5Rounds target).said .client) := by
  refine .write _ (.readDecode fun authAck rbuf' ↦ .ite (.write _ ?_) (.pure _))
  exact .readDecode fun resp rbuf'' ↦ .ite (.pure _) (.pure _)

/-- The IPv4 address that a version 4 client asks for: what it has resolved the target to. -/
def socks4Target (getsockaddr : CString → UInt16 → Option SockAddr) (target : TargetId) :
    Option (Block 4 × UInt16) :=
  (targetIdResolve getsockaddr target).bind fun addr ↦
    if socketSockaddrIsIpv4 addr then
      some (socketSockaddrGetIpv4 addr, socketSockaddrPort addr)
    else none

/-- A version 4 client says the round for this address, or nothing. -/
theorem says_socks4ClientHandshake {getsockaddr : CString → UInt16 → Option SockAddr}
    (rbuf : RBuffer) (sock : SocksTcpSocket) (target : TargetId) :
    (∃ addr port, socks4Target getsockaddr target = some (addr, port) ∧
      Says (socks4ClientHandshake getsockaddr rbuf sock target)
        ((socks4Rounds addr port).said .client)) ∨
    Says (socks4ClientHandshake getsockaddr rbuf sock target) [] := by
  rw [socks4ClientHandshake, socks4Target]
  rcases targetIdResolve getsockaddr target with _ | addr
  · exact .inr (.pure _)
  · dsimp only [Option.bind_some]
    split
    case isFalse => exact .inr (.pure _)
    case isTrue =>
      refine .inl ⟨_, _, rfl, ?_⟩
      refine Says.write (socks4Request _ _) (m := []) (.readDecode fun resp rbuf' ↦ ?_)
      exact .ite (.pure _) (.pure _)

/-! ### What a server finds -/

/-- Two programs, of which the first waits when the second does. -/
theorem Possible.of_waits {α β : Type} {f : Reads → Outcome α} {g : Reads → Outcome β} {s : Reads}
    (h : Possible f s) (hfg : ∀ t want, g t = .wait want → f t = .wait want) : Possible g s :=
  h.shift [] hfg

theorem FdProc.bind_of_wait {α β : Type} {p : FdProc α} {k : α → FdProc β} {s : Reads}
    {out : OutFd} {want : ℕ} (h : (p s out).2 = .wait want) :
    ((p >>= k) s out).2 = .wait want := by
  rcases hrun : p s out with ⟨out', o⟩
  obtain rfl : o = .wait want := by rwa [hrun] at h
  rw [FdProc.bind_apply, hrun]

theorem FdProc.bind_of_abort {α β : Type} {p : FdProc α} {k : α → FdProc β} {s : Reads}
    {out : OutFd} (h : (p s out).2 = .abort) : ((p >>= k) s out).2 = .abort := by
  rcases hrun : p s out with ⟨out', o⟩
  obtain rfl : o = .abort := by rwa [hrun] at h
  rw [FdProc.bind_apply, hrun]

/-- A server that accepts a part of what a client has to say to it has the client's target. -/
theorem Agree.addr_eq {client server sock : SocksTcpSocket}
    {R : Reaction (Bool × SocksTcpSocket)} {M : Role → Bytes} {target : TargetId}
    (h : Agree
      (fun
        | .client => R
        | .server => socksServerReaction server) M (socksReturns client server target))
    {x : Bytes} (hx : x <+: M .client) {ended : Bool}
    (hret : (socksServerReaction server x ended).2 = some (true, sock)) :
    sock.addr = some target := by
  obtain ⟨target', reply, req, rest, rfl, hacc⟩ := accepts_of_socksServerReaction hret
  have hthen := socksServerReaction_of_accepted hacc server rest
  rw [hthen ended, Option.some_inj] at hret
  obtain rfl := (Prod.mk.inj hret).2
  have hopen : (socksServerReaction server (req ++ rest) false).2 =
      some (true, socksTcpSocketSetTarget server target') := by rw [hthen false]
  have hagrees := (h.returns .server (req ++ rest) _ hx hopen).1
  exact congrArg SocksTcpSocket.addr (Prod.mk.inj hagrees).2

/-- A VMess server that succeeds has read a request, and has its target. -/
theorem vmessServerHandshake_addr {C : Crypto} {sock sock' : VmessTcpSocket}
    {clock : ℕ → Clock sock.config} {s rest : Reads} {out out' : OutFd}
    (h : vmessServerHandshake C sock clock s out = (out', .done (true, sock') rest)) :
    ∃ req, rbufferRead (vmessRequestDecoder C sock.config clock) sock.rawBuf s =
      .done (.success (req, sock'.auth), sock'.rawBuf) rest ∧ sock'.addr = some req.target := by
  obtain ⟨req, hread, -⟩ := vmessServerHandshake_success sock clock h
  rw [vmessServerHandshake_of_success sock clock hread out] at h
  have hsock := (Prod.mk.inj (Outcome.done.inj (Prod.mk.inj h).2).1).2
  exact ⟨req, hread, hsock ▸ rfl⟩

/-- It has got the code that a request begins with. -/
theorem length_of_vmessServerHandshake {C : Crypto} {sock sock' : VmessTcpSocket}
    {clock : ℕ → Clock sock.config} {s rest : Reads} {out out' : OutFd}
    (hraw : sock.rawBuf.data = [])
    (h : vmessServerHandshake C sock clock s out = (out', .done (true, sock') rest)) :
    16 ≤ (streamBytes s).length := by
  obtain ⟨req, hread, -⟩ := vmessServerHandshake_addr h
  obtain ⟨used, n, rfl, hcomp, -⟩ := rbufferRead_completed (vmessRequestDecoder_nil C _ clock) hread
  obtain ⟨code, y, m, hx, -⟩ := take_bind_eq_ok.1 hcomp.decode
  rw [hraw, List.nil_append] at hx
  rw [streamBytes_append hcomp.not_eof, hx]
  simp only [List.length_append, code.2]
  omega

/-- What is accepted from a VMess client. -/
theorem target_of_vmessServerHandshake {C : Crypto} (hC : CfbLaws C) {userId : Data128}
    {auth : VmessAuth} {clock : ℕ → Clock (vmessConfigNew userId)} {rand : ℕ → Rand}
    {genTime : UInt64} {target : TargetId} {header y : Bytes} {s rest : Reads} {out out' : OutFd}
    {sock' : VmessTcpSocket} (hshort : target.Short) (hnear : ∀ k, (clock k).Near genTime)
    (hfirst : ∀ k, (clock k).FirstWithCode C genTime)
    (hheader : requestHeader C rand (vmessConfigNew userId)
      (vmessAuthInit C (vmessConfigNew userId) genTime) (vmessClientRequest target) = some header)
    (hs : streamBytes s <+: header ++ y)
    (h : vmessServerHandshake C (vmessTcpSocketNewFd (vmessConfigNew userId) auth) clock s out =
      (out', .done (true, sock') rest)) : sock'.addr = some target := by
  obtain ⟨req, hread, haddr⟩ := vmessServerHandshake_addr h
  obtain ⟨used, n, rfl, hcomp, -⟩ := rbufferRead_completed (vmessRequestDecoder_nil C _ clock) hread
  -- the whole of what the client has sent is decoded as this part of it is
  obtain ⟨rest', hrest⟩ : streamBytes used <+: header ++ y := by
    refine List.IsPrefix.trans ?_ hs
    rw [streamBytes_append hcomp.not_eof]
    exact List.prefix_append ..
  have hdecode : vmessDecodeRequest C (vmessConfigNew userId) (clock (streamBytes used).length)
      (streamBytes used) = .ok n (req, _) := hcomp.decode
  have hall := (prompt_vmessDecodeRequest hC.toCfbDecLaws _ _).incremental.ok_append rest' hdecode
  rw [hrest] at hall
  have hnonce : requestHeader C rand (vmessConfigNew userId)
      (vmessAuthSetNonce (vmessAuthInit C (vmessConfigNew userId) genTime) 0)
      (vmessClientRequest target) = some header := hheader
  have hreq := vmessDecodeRequest_header_eq_ok hC
    (show (vmessClientRequest target).target.Short from hshort) (hnear _) (hfirst _) hnonce hall
  rw [haddr, (Prod.mk.inj hreq).1]
  rfl

/-! ### What an outbound asks for -/

section

variable {I : Inet} {calls : SocketCalls} {target : TargetId}

/-- A connection is told two texts that are parsed as what the target denotes, if there is a socket.
-/
theorem tcpClientConnect_eq (hI : InetLaws I) (h : target.Short) (calls : SocketCalls) :
    ∃ node port, (∀ unset, targetIdParse I unset node port = some (target.denoted I)) ∧
      ∀ {σ : Type} (connect : CString → CString → FdProc (Bool × σ)) (close : OutFd → OutFd),
        tcpClientConnect I calls connect close (some target) =
          (FdProc.ofOption (socketStream calls) >>= fun _ ↦
            connect node port >>= tcpClientResult close) := by
  obtain ⟨node, port, hparse, hcall⟩ := tcpSocketConnectTarget_eq hI h calls.nodeBuf calls.servBuf
  refine ⟨node, port, hparse, fun connect close ↦ ?_⟩
  exact congrArg (fun o ↦ FdProc.ofOption (socketStream calls) >>= fun _ ↦
    FdProc.ofOption o >>= fun p ↦ p >>= tcpClientResult close) (hcall connect)

/-- Nothing is said by a socket that is only shut down. -/
theorem sent_tcpClientResult {σ : Type} (r : Bool × σ) (s : Reads) (out : OutFd) :
    (tcpClientResult socketShutdownWrite r s out).1.sent = out.sent := by
  obtain ⟨_ | _, sock⟩ := r <;> rfl

/-- A SOCKS client says what its handshake says. -/
theorem says_socksTcpOutboundClient (hI : InetLaws I) (h : target.Short) {proxy : TargetId}
    {vers : SocksVersion} {m : Bytes}
    (hm : Says (socksTcpSocketHandshakeC calls.resolver ⟨some proxy, vers⟩
      (some (target.denoted I))) m) (C : Crypto) :
    Says (TcpOutbound.client I calls C (.socks proxy vers) (some target)) m := by
  obtain ⟨node, port, hparse, hcall⟩ := tcpClientConnect_eq hI h calls
  rw [TcpOutbound.client]
  refine Says.bind ?_ fun _ _ _ ↦ rfl
  rw [socksTcpOutboundClient, hcall]
  refine .ofOption fun _ ↦ Says.bind ?_ sent_tcpClientResult
  rw [socksTcpSocketConnect]
  dsimp only [socksTcpSocketSetProxy, socksTcpSocketNewFd]
  rcases targetIdResolve calls.resolver proxy with _ | addr
  · exact .pure _
  · refine .ofOption fun _ ↦ .ite (.ofOption fun _ ↦ ?_) (.pure _)
    rw [hparse]
    refine .ofOption fun _ ↦ .bind hm fun r s out ↦ ?_
    obtain ⟨_ | _, sock⟩ := r
    · rfl
    · show (((FdProc.ofOption _) >>= _ : SocksHandshake) s out).1.sent = _
      rcases printTargetText I (target.denoted I) (calls.printBuf 3) with _ | node <;> rfl

/-- A VMess socket says the end as it is closed. -/
theorem says_tcpClientResult (r : Bool × VmessTcpSocket) :
    Says (tcpClientResult vmessTcpSocketClose r) vmessSerialEnd := by
  obtain ⟨_ | _, sock⟩ := r
  · intro s out hout
    refine ⟨vmessSerialEnd, List.prefix_rfl, ?_⟩
    show (vmessTcpSocketClose out).sent = _
    rw [vmessTcpSocketClose, fdWrite_of_reliable hout]
    rfl
  · exact .pure _

/-- The handshake of a VMess client says its request, and what is behind it no more than the end. -/
theorem says_vmessClientHandshake {C : Crypto} {rand : ℕ → Rand} (sock : VmessTcpSocket)
    {header : Bytes}
    (hheader : requestHeader C rand sock.config sock.auth (vmessClientRequest target) =
      some header) :
    Says (vmessClientHandshake C rand sock target >>= tcpClientResult vmessTcpSocketClose)
      (header ++ vmessSerialEnd) := by
  intro s out hout
  have hsaying {o : Outcome (Bool × VmessTcpSocket)}
      (hrun : vmessClientHandshake C rand sock target s out = ((fdWrite out header).2, o)) :
      ∃ said, said <+: header ++ vmessSerialEnd ∧ ((vmessClientHandshake C rand sock target >>=
        tcpClientResult vmessTcpSocketClose) s out).1.sent = out.sent ++ said := by
    rw [FdProc.bind_apply, hrun, fdWrite_of_reliable hout]
    rcases o with ⟨r, s'⟩ | want | _
    · obtain ⟨said, hsaid, hsent⟩ := says_tcpClientResult r s'
        { out with sent := out.sent ++ header } hout
      exact ⟨header ++ said, (List.prefix_append_right_inj header).2 hsaid, by
        rw [hsent, List.append_assoc]⟩
    · exact ⟨header, List.prefix_append .., rfl⟩
    · exact ⟨header, List.prefix_append .., rfl⟩
  have hrun := vmessClientHandshake_eq C rand sock target hheader s out
  rcases hread : rbufferRead (vmessDecodeResponse C sock.auth) sock.rawBuf s with
    ⟨⟨_ | _ | _, rawBuf⟩, s'⟩ | want | _
  all_goals rw [hread] at hrun
  · exact hsaying hrun
  · exact hsaying hrun
  · exact hsaying hrun
  · exact hsaying hrun
  · exact hsaying hrun

/-- A VMess client says its request, and the end if the connection fails; that is all when there is
no connection. -/
theorem says_vmessTcpOutboundClient (hI : InetLaws I) (h : target.Short) (C : Crypto)
    (config : VmessConfig) (proxy : TargetId) {header : Bytes}
    (hheader : requestHeader C calls.rand config (vmessAuthInit C config calls.time)
      (vmessClientRequest (target.denoted I)) = some header) :
    Says (TcpOutbound.client I calls C (.vmess config proxy) (some target)) vmessSerialEnd ∨
      Says (TcpOutbound.client I calls C (.vmess config proxy) (some target))
        (header ++ vmessSerialEnd) := by
  obtain ⟨node, port, hparse, hcall⟩ := tcpClientConnect_eq hI h calls
  rw [TcpOutbound.client, vmessTcpOutboundClient]
  rw [hcall, vmessTcpSocketConnect]
  dsimp only [vmessTcpSocketAuth, vmessTcpSocketSetProxy, vmessTcpSocketNewFd]
  rcases targetIdResolve calls.resolver proxy with _ | addr
  · exact .inl (.bind (.ofOption fun _ ↦ .pure_bind (says_tcpClientResult _)) fun _ _ _ ↦ rfl)
  · dsimp only
    split
    case isFalse =>
      exact .inl (.bind (.ofOption fun _ ↦ .pure_bind (says_tcpClientResult _)) fun _ _ _ ↦ rfl)
    case isTrue =>
      rw [hparse]
      exact .inr (.bind (.ofOption fun _ ↦ says_vmessClientHandshake _ hheader) fun _ _ _ ↦ rfl)

end

/-! ### Hops -/

/-- A relay in a chain: its configuration, what the calls answer for the connection that it accepts,
and for the one that it makes. -/
structure RelayNode where
  inbound : TcpInbound
  outbound : TcpOutbound
  accepting : SocketCalls
  connecting : SocketCalls

/-- The target that an outbound asks the next relay for. -/
def TcpOutbound.asks (I : Inet) (calls : SocketCalls) (outbound : TcpOutbound)
    (target : TargetId) : Option TargetId :=
  match outbound with
  | .vmess _ _ => some (target.denoted I)
  | .socks _ .v5 => some (target.denoted I)
  | .socks _ .v4 =>
    (socks4Target calls.resolver (target.denoted I)).map fun addr ↦ ⟨.ipv4 addr.1, addr.2⟩
  | _ => none

/-- The inbound of a relay is a server for the outbound of the one before it: of VMess, they have
the same user, and the server sees the time of the client in the window of its clock. -/
inductive Meets (C : Crypto) (node next : RelayNode) : Prop where
  | socks5 {proxy bind : TargetId} (hout : node.outbound = .socks proxy .v5)
      (hin : next.inbound = .socks bind) : Meets C node next
  | socks4 {proxy bind : TargetId} (hout : node.outbound = .socks proxy .v4)
      (hin : next.inbound = .socks bind) : Meets C node next
  | vmess {userId : Data128} {proxy bind : TargetId}
      (hout : node.outbound = .vmess (vmessConfigNew userId) proxy)
      (hin : next.inbound = .vmess (vmessConfigNew userId) bind)
      (hnear : ∀ k, (next.accepting.clock (vmessConfigNew userId) k).Near node.connecting.time)
      (hfirst : ∀ k, (next.accepting.clock (vmessConfigNew userId) k).FirstWithCode C
        node.connecting.time) : Meets C node next

/-- A connection from a relay to the next, which accepts it: `answered` is what the client has been
answered, and `got` the pieces of what it has sent that the server has got. -/
structure HopRun (C : Crypto) (I : Inet) (node next : RelayNode) (target target' : TargetId)
    (answered got : Reads) : Prop where
  not_fail : .fail ∉ got
  possible : Possible (fun s ↦ (tcpInboundHandshake C next.accepting next.inbound s {}).2) got
  heard : streamBytes got <+:
    (TcpOutbound.client I node.connecting C node.outbound (some target) answered {}).1.sent
  accepted : (tcpInboundHandshake C next.accepting next.inbound got {}).2.Returns
    (some (some target'))

/-- What a program has said from the start. -/
theorem Says.sent_isPrefix {α : Type} {p : FdProc α} {m : Bytes} (h : Says p m) (s : Reads) :
    (p s {}).1.sent <+: m := by
  obtain ⟨said, hsaid, hsent⟩ := h s {} rfl
  rw [hsent]
  exact hsaid

section

variable {C : Crypto} {I : Inet} {node next : RelayNode} {target target' : TargetId}
  {answered got : Reads}

/-- A SOCKS server has the target that its client has to say. -/
theorem HopRun.socks {bind : TargetId} (hrun : HopRun C I node next target target' answered got)
    (hin : next.inbound = .socks bind) {client : SocksTcpSocket}
    {R : Reaction (Bool × SocksTcpSocket)} {M : Role → Bytes} {asked : TargetId}
    (hagree : Agree
      (fun
        | .client => R
        | .server => socksServerReaction (socksTcpSocketNewFd .any)) M
      (socksReturns client (socksTcpSocketNewFd .any) asked))
    (hsaying : Says (TcpOutbound.client I node.connecting C node.outbound (some target))
      (M .client)) : target' = asked := by
  obtain ⟨hfail, hposs, hheard, hacc⟩ := hrun
  rw [hin] at hposs hacc
  obtain ⟨rest, hacc⟩ := hacc
  rw [tcpInboundHandshake, FdProc.bind_apply] at hacc
  have hreacts := reacts_socksServerHandshake next.accepting.resolver (socksTcpSocketNewFd .any)
  have hposs' := hposs.of_waits fun t want h ↦ FdProc.bind_of_wait h
  split at hacc
  case h_2 => exact absurd hacc (by simp)
  case h_3 => exact absurd hacc (by simp)
  case h_1 out' r s' hserver =>
    obtain ⟨_ | _, sock⟩ := r
    · exact absurd hacc (by simp)
    · have hret := (hreacts.returns_iff hfail hposs').1 ⟨s', congrArg Prod.snd hserver⟩
      have haddr := hagree.addr_eq (hheard.trans (hsaying.sent_isPrefix answered)) hret
      dsimp only at hacc
      rw [haddr] at hacc
      exact (Option.some.inj (Option.some.inj (Outcome.done.inj hacc).1)).symm

/-- A VMess server has the target that its client has to say. -/
theorem HopRun.vmess (hC : CfbLaws C) (hI : InetLaws I) {userId : Data128} {proxy bind : TargetId}
    (hrun : HopRun C I node next target target' answered got) (hshort : target.Short)
    (hout : node.outbound = .vmess (vmessConfigNew userId) proxy)
    (hin : next.inbound = .vmess (vmessConfigNew userId) bind)
    (hnear : ∀ k, (next.accepting.clock (vmessConfigNew userId) k).Near node.connecting.time)
    (hfirst : ∀ k, (next.accepting.clock (vmessConfigNew userId) k).FirstWithCode C
      node.connecting.time) : target' = target.denoted I := by
  obtain ⟨-, -, hheard, rest, hacc⟩ := hrun
  rw [hin, tcpInboundHandshake, FdProc.bind_apply] at hacc
  rw [hout] at hheard
  obtain ⟨header, hheader⟩ := exists_requestHeader C node.connecting.rand (vmessConfigNew userId)
    (vmessAuthInit C (vmessConfigNew userId) node.connecting.time) (target.denoted I)
  split at hacc
  case h_2 => exact absurd hacc (by simp)
  case h_3 => exact absurd hacc (by simp)
  case h_1 out' r s' hserver =>
    obtain ⟨_ | _, sock⟩ := r
    · exact absurd hacc (by simp)
    · have haddr : sock.addr = some (target.denoted I) := by
        rcases says_vmessTcpOutboundClient hI hshort C (vmessConfigNew userId) proxy hheader with
          hsaying | hsaying
        · have hle := ((hheard.trans (hsaying.sent_isPrefix answered)).length_le).trans' <|
            length_of_vmessServerHandshake rfl hserver
          exact absurd hle (by decide)
        · exact target_of_vmessServerHandshake hC (hshort.denoted I) hnear hfirst hheader
            (hheard.trans (hsaying.sent_isPrefix answered)) hserver
      dsimp only at hacc
      rw [haddr] at hacc
      exact (Option.some.inj (Option.some.inj (Outcome.done.inj hacc).1)).symm

end

/-- **A hop**: the next relay has the target that the outbound asks for. -/
theorem HopRun.asks (hC : CfbLaws C) (hI : InetLaws I) (hmeets : Meets C node next)
    (hshort : target.Short) (hrun : HopRun C I node next target target' answered got) :
    node.outbound.asks I node.connecting target = some target' := by
  rcases hmeets with @⟨proxy, _, hout, hin⟩ | @⟨proxy, _, hout, hin⟩ | ⟨hout, hin, hnear, hfirst⟩
  · have hsaying : Says (TcpOutbound.client I node.connecting C node.outbound (some target))
        ((socks5Rounds (target.denoted I)).said .client) := by
      rw [hout]
      refine says_socksTcpOutboundClient hI hshort ?_ C
      exact says_socks5ClientHandshake _ _ _
    rw [hrun.socks hin (@agree_socks5 ⟨some proxy, .v5⟩ _ _ (hshort.denoted I)) hsaying, hout]
    rfl
  · have hsaying {m : Bytes} (hm : Says (socks4ClientHandshake node.connecting.resolver
        (rbufferNew socksDefaultBuffer) ⟨some proxy, .v4⟩ (target.denoted I)) m) :
        Says (TcpOutbound.client I node.connecting C node.outbound (some target)) m := by
      rw [hout]
      refine says_socksTcpOutboundClient hI hshort ?_ C
      exact hm
    rw [hout]
    rcases says_socks4ClientHandshake (rbufferNew socksDefaultBuffer) ⟨some proxy, .v4⟩
      (target.denoted I) with ⟨addr, port, htarget, hm⟩ | hm
    · rw [hrun.socks hin (@agree_socks4 ⟨some proxy, .v4⟩ _ addr port) (hsaying hm)]
      show (socks4Target _ _).map _ = _
      rw [htarget]
      rfl
    · -- a server that has heard nothing accepts nothing
      have hany (port : UInt16) := hrun.socks hin
        (@agree_socks4 ⟨some proxy, .v4⟩ _ ⟨[0, 0, 0, 0], rfl⟩ port)
        ((hsaying hm).mono List.nil_prefix)
      exact absurd (congrArg TargetId.port ((hany 0).symm.trans (hany 1))) (by decide)
  · rw [hout, hrun.vmess hC hI hshort hout hin hnear hfirst]
    rfl

/-! ### Targets fit -/

theorem yields_vmessDecodeTarget (addrType : UInt8) (port : UInt16) :
    (vmessDecodeTarget addrType port).Yields TargetId.Short := by
  refine .ite (.of_forall fun _ ↦ .pure trivial) (.ite ?_ (.ite (.of_forall fun _ ↦ .pure trivial)
    .reject))
  refine .of_forall fun len ↦ .of_forall fun domain ↦ .pure ?_
  -- the name is cut at its first zero, of a length that a byte has told
  have hle := (List.takeWhile_prefix (l := domain.1) (· ≠ 0)).length_le
  have hbyte := (byteAt len 0).toNat_lt
  rw [domain.2] at hle
  show (domain.1.takeWhile (· ≠ 0)).length ≤ 255
  omega

/-- The target of a VMess request fits. -/
theorem yields_vmessDecodeRequest (C : Crypto) (config : VmessConfig) (clock : Clock config) :
    (vmessDecodeRequest C config clock).Yields fun r ↦ r.1.target.Short := by
  have hfields (auth : VmessAuth) :
      (vmessDecodeFields auth).Yields fun r ↦ r.1.target.Short := by
    iterate 10 refine .of_forall fun _ ↦ ?_
    exact .bind (yields_vmessDecodeTarget _ _) fun _ hshort ↦ .of_forall fun _ ↦ .pure hshort
  refine .of_forall fun code ↦ ?_
  rcases vmessLookupAuth C config clock code with _ | auth
  · exact .reject
  · refine .through ?_ _
    exact .bind (hfields auth).recording fun r hr ↦ .of_forall fun _ ↦ .ite (.pure hr) .reject

/-- The target of a SOCKS request fits. -/
theorem SocksAccepted.short {req : Bytes} {target : TargetId} {reply : List Bytes}
    (h : SocksAccepted req target reply) : target.Short := by
  rcases h with ⟨_, _, haddr⟩ | _
  · exact haddr.short _
  · trivial

/-- The target that a relay finds in a connection fits. -/
theorem short_of_tcpInboundHandshake {C : Crypto} {calls : SocketCalls} {inbound : TcpInbound}
    {target : TargetId} {s : Reads} (hfail : .fail ∉ s)
    (hposs : Possible (fun t ↦ (tcpInboundHandshake C calls inbound t {}).2) s)
    (h : (tcpInboundHandshake C calls inbound s {}).2.Returns (some (some target))) :
    target.Short := by
  obtain ⟨rest, h⟩ := h
  rcases inbound with ⟨config, bind⟩ | bind | bind
  · rw [tcpInboundHandshake, FdProc.bind_apply] at h
    split at h
    case h_2 => exact absurd h (by simp)
    case h_3 => exact absurd h (by simp)
    case h_1 out' r s' hserver =>
      obtain ⟨_ | _, sock⟩ := r
      · exact absurd h (by simp)
      · obtain ⟨req, hread, haddr⟩ := vmessServerHandshake_addr hserver
        obtain ⟨used, n, -, hcomp, -⟩ :=
          rbufferRead_completed (vmessRequestDecoder_nil C _ _) hread
        dsimp only at h
        rw [haddr] at h
        obtain rfl := Option.some.inj (Option.some.inj (Outcome.done.inj h).1)
        exact yields_vmessDecodeRequest C _ _ _ _ _ hcomp.decode
  · have hreacts := reacts_socksServerHandshake calls.resolver (socksTcpSocketNewFd .any)
    have hposs' := hposs.of_waits fun t want h ↦ FdProc.bind_of_wait h
    rw [tcpInboundHandshake, FdProc.bind_apply] at h
    split at h
    case h_2 => exact absurd h (by simp)
    case h_3 => exact absurd h (by simp)
    case h_1 out' r s' hserver =>
      obtain ⟨_ | _, sock⟩ := r
      · exact absurd h (by simp)
      · have hret := (hreacts.returns_iff hfail hposs').1 ⟨s', congrArg Prod.snd hserver⟩
        obtain ⟨target', reply, req, x, hx, hacc⟩ := accepts_of_socksServerReaction hret
        rw [hx, socksServerReaction_of_accepted hacc, Option.some_inj] at hret
        obtain rfl := (Prod.mk.inj hret).2
        obtain rfl := Option.some.inj (Option.some.inj (Outcome.done.inj h).1)
        exact hacc.short
  · exact absurd h (by simp [tcpInboundHandshake])

/-! ### Chains -/

/-- The target is relayed along these nodes, and arrives as `target'` at the last. -/
inductive Relayed (C : Crypto) (I : Inet) : List RelayNode → TargetId → TargetId → Prop where
  | last (node : RelayNode) (target : TargetId) : Relayed C I [node] target target
  | hop {node next : RelayNode} {nodes : List RelayNode} {target target₁ target' : TargetId}
      {answered got : Reads} (hmeets : Meets C node next)
      (hrun : HopRun C I node next target target₁ answered got)
      (ht : Relayed C I (next :: nodes) target₁ target') :
      Relayed C I (node :: next :: nodes) target target'

/-- The target that the last of the nodes is asked for, if all goes well. -/
def route (I : Inet) : List RelayNode → TargetId → Option TargetId
  | node :: next :: nodes, target =>
    (node.outbound.asks I node.connecting target).bind (route I (next :: nodes))
  | _, target => some target

/-- No outbound but the last is one of SOCKS4. -/
def NoSocks4 (nodes : List RelayNode) : Prop :=
  ∀ node ∈ nodes.dropLast, ∀ proxy, node.outbound ≠ .socks proxy .v4

/-- What is denoted by the texts of a target is denoted by its own. -/
theorem denoted_denoted (I : Inet) (target : TargetId) :
    (target.denoted I).denoted I = target.denoted I := by
  obtain ⟨addr, port⟩ := target
  rcases addr with addr | name | addr
  · rfl
  · show TargetId.denoted I ⟨.ofText I name, port⟩ = ⟨.ofText I name, port⟩
    rcases h4 : I.pton4 name with _ | ipv4
    · rcases h6 : I.pton6 name with _ | ipv6
      · have hname : TargetAddr.ofText I name = .domain name := by rw [TargetAddr.ofText, h4, h6]
        rw [hname]
        show (⟨.ofText I name, port⟩ : TargetId) = _
        rw [hname]
      · rw [show TargetAddr.ofText I name = .ipv6 ipv6 by rw [TargetAddr.ofText, h4, h6]]
        rfl
    · rw [show TargetAddr.ofText I name = .ipv4 ipv4 by rw [TargetAddr.ofText, h4]]
      rfl
  · rfl

section

variable {C : Crypto} {I : Inet}

/-- Without SOCKS4 a hop asks for what the target denotes. -/
theorem asks_of_meets {node next : RelayNode} (hmeets : Meets C node next)
    (h : ∀ proxy, node.outbound ≠ .socks proxy .v4) (target : TargetId) :
    node.outbound.asks I node.connecting target = some (target.denoted I) := by
  rcases hmeets with ⟨hout, -⟩ | ⟨hout, -⟩ | ⟨hout, -, -, -⟩
  · rw [hout]
    rfl
  · exact absurd hout (h _)
  · rw [hout]
    rfl

/-- What the next relay has found fits. -/
theorem HopRun.short {node next : RelayNode}
    {target target' : TargetId} {answered got : Reads}
    (hrun : HopRun C I node next target target' answered got) : target'.Short :=
  short_of_tcpInboundHandshake hrun.not_fail hrun.possible hrun.accepted

/-- By induction on the hops. -/
theorem Relayed.route_eq (hC : CfbLaws C) (hI : InetLaws I) {nodes : List RelayNode}
    {target target' : TargetId} (h : Relayed C I nodes target target') (hshort : target.Short) :
    route I nodes target = some target' := by
  induction h with
  | last => rfl
  | hop hmeets hrun _ ih =>
    rw [route, hrun.asks hC hI hmeets hshort, Option.bind_some]
    exact ih hrun.short

/-- Behind a hop every target is what it denotes. -/
theorem Relayed.denoted_eq (hC : CfbLaws C) (hI : InetLaws I) {nodes : List RelayNode}
    {target target' : TargetId} (h : Relayed C I nodes target target') (hshort : target.Short)
    (hno : NoSocks4 nodes) : target' = if nodes.length = 1 then target else target.denoted I := by
  induction h with
  | last => rfl
  | @hop node next nodes target target₁ target' _ _ hmeets hrun ht ih =>
    have hasks := hrun.asks hC hI hmeets hshort
    rw [asks_of_meets hmeets (hno node List.mem_cons_self), Option.some_inj] at hasks
    subst hasks
    have hrest := ih hrun.short fun m hm ↦ hno m (List.mem_cons_of_mem _ hm)
    rw [if_neg (by simp), hrest, denoted_denoted, ite_self]

end

/-- **Where a chain of relays leads.** Whatever the connections are answered, and however their
bytes are cut: when the first relay has accepted a client and each of the others the relay before
it, the last one has the target that the client has asked for, as the outbounds on the way ask for
it. Without SOCKS4 on the way it is what the client's target denotes, however many hops there
are. -/
theorem relayed_target {C : Crypto} (hC : CfbLaws C) {I : Inet} (hI : InetLaws I)
    {first : RelayNode} {nodes : List RelayNode} {got : Reads} {target target' : TargetId}
    (hfail : .fail ∉ got)
    (hposs : Possible (fun s ↦ (tcpInboundHandshake C first.accepting first.inbound s {}).2) got)
    (haccept : (tcpInboundHandshake C first.accepting first.inbound got {}).2.Returns
      (some (some target)))
    (h : Relayed C I (first :: nodes) target target') :
    route I (first :: nodes) target = some target' ∧
      (NoSocks4 (first :: nodes) →
        target' = if nodes = [] then target else target.denoted I) := by
  have hshort := short_of_tcpInboundHandshake hfail hposs haccept
  refine ⟨h.route_eq hC hI hshort, fun hno ↦ ?_⟩
  rw [h.denoted_eq hC hI hshort hno]
  rcases nodes with _ | ⟨next, nodes⟩
  · rfl
  · rfl

/-! ### A chain of two -/

/-- Everything is answered, and nothing has to be resolved. -/
def sampleSocketCalls : SocketCalls where
  socket := true
  getsockaddr _ _ := none
  connect _ := true
  time := 0
  rand _ := Fin.last randMax
  clock config _ := ⟨0 - config.timeDelta, by rw [UInt64.sub_add_cancel]; decide⟩
  auth := ⟨sampleUserId, sampleUserId, 0, 0⟩
  unset := 0
  nodeBuf := ⟨List.replicate 257 0, List.length_replicate⟩
  servBuf := ⟨List.replicate 9 0, rfl⟩
  printBuf _ := ⟨List.replicate 257 0, List.length_replicate⟩

def sampleProxyAddr : Block 4 := ⟨[192, 168, 0, 1], rfl⟩

/-- 192.168.0.1, port 3133. -/
def sampleProxy : TargetId := ⟨.ipv4 sampleProxyAddr, 3133⟩

/-- A relay with SOCKS on both sides, and one that connects by itself. -/
def sampleChain : List RelayNode :=
  [⟨.socks sampleProxy, .socks sampleProxy .v5, sampleSocketCalls, sampleSocketCalls⟩,
    ⟨.socks sampleProxy, .native, sampleSocketCalls, sampleSocketCalls⟩]

/-- A version 5 client asks for `go`, port 443. -/
def sampleAsked : Reads := [.data [5], .data [1, 0], .data [5, 1, 0, 3, 2, 0x67, 0x6f, 1, 187]]

theorem relayed_target_sampleChain :
    Relayed openssl sampleInet sampleChain sampleDomain sampleDomain ∧
      route sampleInet sampleChain sampleDomain = some sampleDomain := by
  have hposs : Possible (fun s ↦ (tcpInboundHandshake openssl sampleSocketCalls
      (.socks sampleProxy) s {}).2) sampleAsked := by decide +kernel
  have haccept : (tcpInboundHandshake openssl sampleSocketCalls (.socks sampleProxy)
      sampleAsked {}).2.Returns (some (some sampleDomain)) := ⟨[], by decide +kernel⟩
  have hchain : Relayed openssl sampleInet sampleChain sampleDomain sampleDomain := by
    have hrun : HopRun openssl sampleInet
        ⟨.socks sampleProxy, .socks sampleProxy .v5, sampleSocketCalls, sampleSocketCalls⟩
        ⟨.socks sampleProxy, .native, sampleSocketCalls, sampleSocketCalls⟩ sampleDomain
        sampleDomain [.data [5, 0], .data [5, 0, 0, 1, 0, 0, 0, 0, 0, 0]] sampleAsked :=
      ⟨by decide, hposs, by decide +kernel, haccept⟩
    exact .hop (.socks5 rfl rfl) hrun (.last _ _)
  exact ⟨hchain, (relayed_target cfbLaws_openssl inetLaws_sampleInet (by decide) hposs haccept
    hchain).1⟩

end Vmecs
