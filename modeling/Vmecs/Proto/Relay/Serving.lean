import Vmecs.Proto.Relay.Chain

/-!
# Serving a client (`etcp_handle` of a listening socket)

The worker accepts a client, finds out where it wants to go, and connects to it, on descriptors that
may answer anything. On the way there are assertions, pointers that may be `NULL`, and a byte that
may be read before it is written. None of this is reached (`Ensures`), but for two things that an
outbound begins with (`client_eq_abort_iff`): that there is a socket is asserted, and every outbound
but that of dokodemo dereferences the target, which the clients of a dokodemo inbound do not have.
-/

namespace Vmecs

/-- How the worker is done with a client. -/
inductive ServeResult where
  | refused
  | unconnected (target : Option TargetId)
  | connected (target : Option TargetId)
  /-- in a `read(2)` -/
  | waits
  | faults

/-- The print of the target of a client, if it has one; it ends in its buffer. -/
def printRequest (I : Inet) (printBuf : Block (targetIdMaxDomain + 1)) (target : Option TargetId) :
    Option (Option CString) :=
  match target with
  | none => some none
  | some target => (printTargetText I target printBuf).map some

/-- `etcp_handle` of a listening socket with a client, up to the two descriptors: `got` is what the
client sends, `answered` what the other side answers, and `printBuf` what the buffer of
`print_target` holds at first. -/
def etcpServe (C : Crypto) (I : Inet) (inbound : TcpInbound) (outbound : TcpOutbound)
    (accepting connecting : SocketCalls) (printBuf : Block (targetIdMaxDomain + 1))
    (got answered : Reads) : ServeResult :=
  match (tcpInboundHandshake C accepting inbound got {}).2 with
  | .wait _ => .waits
  | .abort => .faults
  | .done none _ => .refused
  | .done (some target) _ =>
    match printRequest I printBuf target with
    | none => .faults
    | some _ =>
      match (TcpOutbound.client I connecting C outbound target answered {}).2 with
      | .wait _ => .waits
      | .abort => .faults
      | .done false _ => .unconnected target
      | .done true _ => .connected target

/-! ### Programs without a fault -/

section

variable {α β : Type} {p : FdProc α} {Q : α → Prop}

/-- It is not a fault, and what is returned satisfies `Q`. -/
def Outcome.Holds (Q : α → Prop) : Outcome α → Prop
  | done a _ => Q a
  | wait _ => True
  | abort => False

theorem Outcome.Holds.ne_abort {o : Outcome α} (h : o.Holds Q) : o ≠ .abort := by
  rintro rfl
  exact h

theorem Outcome.Holds.mono {o : Outcome α} {R : α → Prop} (h : o.Holds Q) (hQR : ∀ a, Q a → R a) :
    o.Holds R := by
  rcases o with ⟨a, rest⟩ | want | _
  · exact hQR a h
  · trivial
  · exact h

/-- Whatever it is answered, the program does not fault, and what it returns satisfies `Q`. -/
def Ensures (p : FdProc α) (Q : α → Prop) : Prop := ∀ s out, (p s out).2.Holds Q

namespace Ensures

theorem pure {a : α} (h : Q a) : Ensures (Pure.pure a) Q := fun _ _ ↦ h

theorem write (bs : Bytes) : Ensures (FdProc.write bs) fun _ ↦ True := fun _ _ ↦ trivial

theorem read {f : Reads → Outcome α} (h : ∀ s, f s ≠ .abort) :
    Ensures (FdProc.read f) fun _ ↦ True := by
  intro s out
  show (f s).Holds _
  rcases hread : f s with ⟨a, rest⟩ | want | _
  · trivial
  · trivial
  · exact h s hread

/-- **A sequence.** The second need only be without a fault for what the first returns. -/
theorem bind {k : α → FdProc β} {R : β → Prop} (h : Ensures p Q)
    (hk : ∀ a, Q a → Ensures (k a) R) : Ensures (p >>= k) R := by
  intro s out
  have hp := h s out
  rw [FdProc.bind_apply]
  rcases hrun : p s out with ⟨out', ⟨a, s'⟩ | want | _⟩
  · rw [hrun] at hp
    exact hk a hp s' out'
  · trivial
  · rw [hrun] at hp
    exact hp

/-- Of what the first returns nothing has to be known. -/
theorem bind_any {k : α → FdProc β} {R : β → Prop} (h : Ensures p fun _ ↦ True)
    (hk : ∀ a, Ensures (k a) R) : Ensures (p >>= k) R :=
  h.bind fun a _ ↦ hk a

theorem ite {P : Prop} [Decidable P] {q : FdProc α} (hp : Ensures p Q) (hq : Ensures q Q) :
    Ensures (if P then p else q) Q := by
  split
  · exact hp
  · exact hq

theorem ofOption {o : Option α} (h : ∃ a, o = some a) :
    Ensures (FdProc.ofOption o) fun _ ↦ True := by
  obtain ⟨a, rfl⟩ := h
  exact pure trivial

end Ensures

end

/-! ### Handshakes -/

section

variable {rbuf : RBuffer} {sock : SocksTcpSocket} {Q : Bool × SocksTcpSocket → Prop}

theorem ensures_readDecode {V : Type} {D : StreamDecoder UInt8 V}
    {next : V → RBuffer → SocksHandshake} (hfail : Q (false, sock))
    (h : ∀ v rbuf', Ensures (next v rbuf') Q) : Ensures (readDecode D rbuf sock next) Q := by
  refine .bind_any (.read (rbufferRead_ne_abort rbuf)) fun r ↦ ?_
  obtain ⟨_ | _ | _, rbuf'⟩ := r
  · exact h _ rbuf'
  · exact .pure hfail
  · exact .pure hfail

theorem ensures_socks5ServerHandshake (hfail : Q (false, sock))
    (hok : ∀ target, Q (true, socksTcpSocketSetTarget sock target)) :
    Ensures (socks5ServerHandshake rbuf sock) Q := by
  refine ensures_readDecode hfail fun authSel rbuf' ↦
    .ite (.bind_any (.write _) fun _ ↦ ensures_readDecode hfail fun req _ ↦ ?_) (.pure hfail)
  exact .ite (.bind_any (.write _) fun _ ↦ .pure (hok req.target)) (.pure hfail)

theorem ensures_socks4ServerHandshake (hfail : Q (false, sock))
    (hok : ∀ target, Q (true, socksTcpSocketSetTarget sock target)) :
    Ensures (socks4ServerHandshake rbuf sock) Q :=
  ensures_readDecode hfail fun req _ ↦
    .ite (.bind_any (.write _) fun _ ↦ .pure (hok req.target)) (.pure hfail)

theorem ensures_socks5ClientHandshake (target : TargetId) :
    Ensures (socks5ClientHandshake rbuf sock target) fun _ ↦ True := by
  refine .bind_any (.write _) fun _ ↦ ensures_readDecode trivial fun authAck rbuf' ↦
    .ite (.bind_any (.write _) fun _ ↦ ?_) (.pure trivial)
  exact ensures_readDecode trivial fun _ _ ↦ .ite (.pure trivial) (.pure trivial)

/-- The request has the IPv4 address that its encoding asserts. -/
theorem ensures_socks4ClientHandshake (getsockaddr : CString → UInt16 → Option SockAddr)
    (target : TargetId) :
    Ensures (socks4ClientHandshake getsockaddr rbuf sock target) fun _ ↦ True := by
  rw [socks4ClientHandshake]
  split
  case h_1 => exact .pure trivial
  case h_2 addr _ =>
    refine .ite ?_ (.pure trivial)
    refine Ensures.bind_any (.write (socks4Request _ _)) fun _ ↦ ?_
    exact ensures_readDecode trivial fun _ _ ↦ .ite (.pure trivial) (.pure trivial)

end

theorem fdRead_ne_abort {want : ℕ} : ∀ s, fdRead want s ≠ .abort
  | [] => by simp [fdRead]
  | .data bs :: s => by
    rw [fdRead]
    split
    · simp
    · simp
  | .eof :: s => by simp [fdRead]
  | .again :: s => fdRead_ne_abort s
  | .fail :: s => by simp [fdRead]

/-- A read of one byte, on a descriptor without an error. -/
theorem fdRead_one_cases {s : Reads} (hfail : .fail ∉ s) :
    (∃ want, fdRead 1 s = .wait want) ∨ (∃ rest, fdRead 1 s = .done .eof rest) ∨
      ∃ vers rest, fdRead 1 s = .done (.data [vers]) rest := by
  rcases hread : fdRead 1 s with ⟨a, rest⟩ | want | _
  · rcases fdRead_done hread with ⟨bs, rfl, hfits, -⟩ | ⟨rfl, -, -⟩ | ⟨rfl, hmem, -⟩
    · obtain ⟨vers, rfl⟩ := List.length_eq_one_iff.1 (le_antisymm hfits.2 hfits.1)
      exact .inr (.inr ⟨vers, rest, rfl⟩)
    · exact .inr (.inl ⟨rest, rfl⟩)
    · exact absurd hmem hfail
  · exact .inl ⟨want, rfl⟩
  · exact absurd hread (fdRead_ne_abort s)

/-- A server of SOCKS that succeeds has a target; the byte that it looks at is there unless the
descriptor fails. -/
theorem socksServerHandshake_spec (getsockaddr : CString → UInt16 → Option SockAddr)
    (sock : SocksTcpSocket) {s : Reads} (hfail : .fail ∉ s) (out : OutFd) :
    (socksTcpSocketHandshakeC getsockaddr sock none s out).2.Holds fun r ↦
      r.1 → ∃ target, r.2.addr = some target := by
  have hbyte (vers : UInt8) (rbuf : RBuffer) :
      Ensures (if vers = socks5Version then socks5ServerHandshake rbuf sock
        else if vers = socks4Version then socks4ServerHandshake rbuf sock
        else return (false, sock)) fun r ↦ r.1 → ∃ target, r.2.addr = some target := by
    have hfalse : (false, sock).1 → ∃ target, (false, sock).2.addr = some target :=
      fun h ↦ absurd h (by simp)
    exact .ite (ensures_socks5ServerHandshake hfalse fun target _ ↦ ⟨target, rfl⟩)
      (.ite (ensures_socks4ServerHandshake hfalse fun target _ ↦ ⟨target, rfl⟩) (.pure hfalse))
  rw [socksTcpSocketHandshakeC, FdProc.read_bind_apply]
  rcases fdRead_one_cases hfail with ⟨want, hread⟩ | ⟨rest, hread⟩ | ⟨vers, rest, hread⟩
  · rw [hread]
    trivial
  · rw [hread]
    exact fun h ↦ absurd h (by simp)
  · rw [hread]
    exact hbyte vers _ rest out

/-- A server of VMess that succeeds has a target. -/
theorem ensures_vmessServerHandshake {C : Crypto} (sock : VmessTcpSocket)
    (clock : ℕ → Clock sock.config) :
    Ensures (vmessServerHandshake C sock clock) fun r ↦
      r.1 → ∃ target, r.2.addr = some target := by
  intro s out
  rw [vmessServerHandshake_eq]
  rcases hread : rbufferRead (vmessRequestDecoder C sock.config clock) sock.rawBuf s with
    ⟨⟨_ | _ | _, rawBuf⟩, s'⟩ | want | _
  · exact fun _ ↦ ⟨_, rfl⟩
  · exact fun h ↦ absurd h (by simp)
  · exact fun h ↦ absurd h (by simp)
  · trivial
  · exact absurd hread (rbufferRead_ne_abort sock.rawBuf s)

theorem ensures_vmessClientHandshake {C : Crypto} {rand : ℕ → Rand} (sock : VmessTcpSocket)
    (target : TargetId) : Ensures (vmessClientHandshake C rand sock target) fun _ ↦ True := by
  intro s out
  obtain ⟨header, hheader⟩ := exists_requestHeader C rand sock.config sock.auth target
  rw [vmessClientHandshake_eq C rand sock target hheader]
  rcases hread : rbufferRead (vmessDecodeResponse C sock.auth) sock.rawBuf s with
    ⟨⟨_ | _ | _, rawBuf⟩, s'⟩ | want | _
  · trivial
  · trivial
  · trivial
  · trivial
  · exact absurd hread (rbufferRead_ne_abort sock.rawBuf s)

/-! ### Clients -/

/-- The sockets of the inbound have no target. -/
def TcpInbound.IsDokodemo (inbound : TcpInbound) : Prop := ∃ bind, inbound = .dokodemo bind

section

variable {I : Inet} {calls : SocketCalls} {target : TargetId}

theorem ensures_tcpClientResult {σ : Type} (close : OutFd → OutFd) (r : Bool × σ) :
    Ensures (tcpClientResult close r) fun _ ↦ True := by
  obtain ⟨_ | _, sock⟩ := r
  · exact fun _ _ ↦ trivial
  · exact .pure trivial

theorem ensures_tcpClientConnect {σ : Type} (hI : InetLaws I) (hsocket : calls.socket = true)
    (h : target.Short)
    {connect : CString → CString → FdProc (Bool × σ)} {close : OutFd → OutFd}
    (hconnect : ∀ node port, (∀ unset, targetIdParse I unset node port = some (target.denoted I)) →
      Ensures (connect node port) fun _ ↦ True) :
    Ensures (tcpClientConnect I calls connect close (some target)) fun _ ↦ True := by
  obtain ⟨node, port, hparse, hcall⟩ := tcpClientConnect_eq hI h calls
  rw [hcall]
  exact .bind_any (.ofOption ⟨(), if_pos hsocket⟩) fun _ ↦
    .bind_any (hconnect node port hparse) (ensures_tcpClientResult close)

theorem ensures_vmessTcpOutboundClient (hI : InetLaws I) (hsocket : calls.socket = true)
    (h : target.Short) (C : Crypto) (config : VmessConfig) (proxy : TargetId) :
    Ensures (vmessTcpOutboundClient I calls C config proxy (some target)) fun _ ↦ True := by
  refine ensures_tcpClientConnect hI hsocket h fun node port hparse ↦ ?_
  rw [vmessTcpSocketConnect]
  dsimp only [vmessTcpSocketAuth, vmessTcpSocketSetProxy, vmessTcpSocketNewFd]
  rw [hparse]
  rcases targetIdResolve calls.resolver proxy with _ | addr
  · exact .pure trivial
  · exact .ite (ensures_vmessClientHandshake _ _) (.pure trivial)

theorem ensures_socksTcpOutboundClient (hI : InetLaws I) (hsocket : calls.socket = true)
    (h : target.Short) {proxy : TargetId} (hproxy : proxy.Short) {vers : SocksVersion}
    (hvers : vers ≠ .any) :
    Ensures (socksTcpOutboundClient I calls proxy vers (some target)) fun _ ↦ True := by
  have hprint {target : TargetId} (h : target.Short) (buf : Block (targetIdMaxDomain + 1)) :
      Ensures (FdProc.ofOption (printTargetText I target buf)) fun _ ↦ True :=
    .ofOption (exists_printTargetText hI h buf)
  refine ensures_tcpClientConnect hI hsocket h fun node port hparse ↦ ?_
  rw [socksTcpSocketConnect]
  dsimp only [socksTcpSocketSetProxy, socksTcpSocketNewFd]
  rw [hparse]
  rcases targetIdResolve calls.resolver proxy with _ | addr
  · exact .pure trivial
  · refine .bind_any (hprint hproxy _) fun _ ↦
      .ite (.bind_any (hprint hproxy _) fun _ ↦ ?_) (.pure trivial)
    refine .bind_any (hprint (h.denoted I) _) fun _ ↦ .bind_any ?_ fun r ↦ ?_
    · rcases vers with _ | _ | _
      · exact ensures_socks4ClientHandshake _ _
      · exact ensures_socks5ClientHandshake _
      · exact absurd rfl hvers
    · exact .ite (.bind_any (hprint (h.denoted I) _) fun _ ↦ .pure trivial) (.pure trivial)

theorem ensures_nativeTcpOutboundClient (hI : InetLaws I) (hsocket : calls.socket = true)
    (h : target.Short) : Ensures (nativeTcpOutboundClient I calls (some target)) fun _ ↦ True :=
  ensures_tcpClientConnect hI hsocket h fun _ _ _ ↦ .pure trivial

/-- With a socket, and a target unless it has its own, no outbound faults. -/
theorem ensures_client (hI : InetLaws I) (C : Crypto) {outbound : TcpOutbound}
    (houtbound : outbound.Usable) {target : Option TargetId}
    (hshort : ∀ t, target = some t → t.Short) (h : outbound.Starts calls.socket target) :
    Ensures (TcpOutbound.client I calls C outbound target) fun _ ↦ True := by
  obtain ⟨hsocket, htarget⟩ := h
  rcases outbound with ⟨config, proxy⟩ | ⟨proxy, vers⟩ | own | _
  case dokodemo =>
    exact .bind_any (ensures_nativeTcpOutboundClient hI hsocket houtbound) fun _ ↦ .pure trivial
  all_goals
    obtain ⟨t, rfl⟩ := Option.isSome_iff_exists.1 <|
      htarget.resolve_right (by simp [TcpOutbound.IsDokodemo])
    have ht := hshort t rfl
  · exact .bind_any (ensures_vmessTcpOutboundClient hI hsocket ht C config proxy) fun _ ↦
      .pure trivial
  · exact .bind_any (ensures_socksTcpOutboundClient hI hsocket ht houtbound.1 houtbound.2)
      fun _ ↦ .pure trivial
  · exact .bind_any (ensures_nativeTcpOutboundClient hI hsocket ht) fun _ ↦ .pure trivial

/-- Without a socket, or without a target, there is no connection. -/
theorem tcpClientConnect_eq_abort {σ : Type} {target : Option TargetId}
    (h : ¬(calls.socket = true ∧ target.isSome = true))
    (connect : CString → CString → FdProc (Bool × σ)) (close : OutFd → OutFd) (s : Reads)
    (out : OutFd) : (tcpClientConnect I calls connect close target s out).2 = .abort := by
  rw [tcpClientConnect, socketStream]
  by_cases hsocket : calls.socket = true
  · have htarget : target = none := by
      rcases target with _ | t
      · rfl
      · exact absurd ⟨hsocket, rfl⟩ h
    rw [if_pos hsocket, htarget]
    rfl
  · rw [if_neg hsocket]
    rfl

/-- **When an outbound faults**: exactly when what it begins with is not there. -/
theorem client_eq_abort_iff (hI : InetLaws I) (C : Crypto) {outbound : TcpOutbound}
    (houtbound : outbound.Usable) {target : Option TargetId}
    (hshort : ∀ t, target = some t → t.Short) (s : Reads) (out : OutFd) :
    (TcpOutbound.client I calls C outbound target s out).2 = .abort ↔
      ¬outbound.Starts calls.socket target := by
  refine ⟨fun hfault h ↦ (ensures_client hI C houtbound hshort h s out).ne_abort hfault, fun h ↦ ?_⟩
  rcases outbound with ⟨config, proxy⟩ | ⟨proxy, vers⟩ | own | _
  case dokodemo =>
    refine FdProc.bind_of_abort (tcpClientConnect_eq_abort (fun h' ↦ h ?_) _ _ s out)
    exact ⟨h'.1, .inr ⟨own, rfl⟩⟩
  all_goals
    exact FdProc.bind_of_abort (tcpClientConnect_eq_abort (fun h' ↦ h ⟨h'.1, .inl h'.2⟩) _ _ s out)

end

/-! ### The worker -/

section

variable {C : Crypto} {calls : SocketCalls}

/-- A server that succeeds has a target, and the program goes on. -/
theorem holds_target {σ : Type} {p : FdProc (Bool × σ)} {addr : σ → Option TargetId} {s : Reads}
    {out : OutFd} (h : (p s out).2.Holds fun r ↦ r.1 → ∃ target, addr r.2 = some target) :
    ((p >>= fun r ↦
      if r.1 then FdProc.ofOption (addr r.2) >>= fun target ↦ Pure.pure (some (some target))
      else Pure.pure none) s out).2.Holds fun r ↦ ∀ target, r = some target → target ≠ none := by
  rw [FdProc.bind_apply]
  rcases hrun : p s out with ⟨out', ⟨⟨_ | _, sock⟩, s'⟩ | want | _⟩
  · exact fun target h ↦ absurd h (by simp)
  · rw [hrun] at h
    obtain ⟨target, htarget⟩ := h rfl
    dsimp only at htarget ⊢
    rw [htarget]
    rintro _ ⟨⟩
    simp
  · trivial
  · rw [hrun] at h
    exact h

/-- Serving a client: no fault, and a target unless the inbound is dokodemo. -/
theorem tcpInboundHandshake_spec (inbound : TcpInbound) {s : Reads} (hfail : .fail ∉ s)
    (out : OutFd) : (tcpInboundHandshake C calls inbound s out).2.Holds fun r ↦
      ∀ target, r = some target → (target = none ↔ inbound.IsDokodemo) := by
  have hother (h : ¬inbound.IsDokodemo) {o : Outcome (Option (Option TargetId))}
      (ho : o.Holds fun r ↦ ∀ target, r = some target → target ≠ none) :
      o.Holds fun r ↦ ∀ target, r = some target → (target = none ↔ inbound.IsDokodemo) :=
    ho.mono fun r hr target hsome ↦ iff_of_false (hr target hsome) h
  rcases inbound with ⟨config, bind⟩ | bind | bind
  · refine hother (by simp [TcpInbound.IsDokodemo]) ?_
    exact holds_target (ensures_vmessServerHandshake _ _ s out)
  · refine hother (by simp [TcpInbound.IsDokodemo]) ?_
    exact holds_target (socksServerHandshake_spec _ _ hfail out)
  · rintro target ⟨⟩
    exact iff_of_true rfl ⟨bind, rfl⟩

end

/-- Behind the handshake and the print it is the outbound that faults. -/
theorem etcpServe_eq_faults_iff {C : Crypto} {I : Inet} {inbound : TcpInbound}
    {outbound : TcpOutbound} {accepting connecting : SocketCalls}
    {printBuf : Block (targetIdMaxDomain + 1)} {got answered rest : Reads}
    {target : Option TargetId} {text : Option CString}
    (hhandshake : (tcpInboundHandshake C accepting inbound got {}).2 = .done (some target) rest)
    (hprint : printRequest I printBuf target = some text) :
    etcpServe C I inbound outbound accepting connecting printBuf got answered = .faults ↔
      (TcpOutbound.client I connecting C outbound target answered {}).2 = .abort := by
  simp only [etcpServe, hhandshake, hprint]
  rcases (TcpOutbound.client I connecting C outbound target answered {}).2 with
    ⟨_ | _, rest'⟩ | want | _
  · simp
  · simp
  · simp
  · simp

/-- **When serving a client faults**: whatever the client sends and the other side answers, whatever
the resolver, the clock and the memory are like, the worker faults exactly when there is no socket
for the target of a client that it has accepted, or with a dokodemo inbound and another outbound. -/
theorem etcpServe_faults_iff {I : Inet} (hI : InetLaws I) (C : Crypto) (inbound : TcpInbound)
    {outbound : TcpOutbound} (houtbound : outbound.Usable) (accepting connecting : SocketCalls)
    (printBuf : Block (targetIdMaxDomain + 1)) {got answered : Reads} (hfail : .fail ∉ got)
    (hposs : Possible (fun s ↦ (tcpInboundHandshake C accepting inbound s {}).2) got) :
    etcpServe C I inbound outbound accepting connecting printBuf got answered = .faults ↔
      (connecting.socket = false ∧ ∃ target rest,
        (tcpInboundHandshake C accepting inbound got {}).2 = .done (some target) rest) ∨
      (inbound.IsDokodemo ∧ ¬outbound.IsDokodemo) := by
  have hspec := @tcpInboundHandshake_spec C accepting inbound _ hfail {}
  have hdokodemo : inbound.IsDokodemo →
      ∃ rest, (tcpInboundHandshake C accepting inbound got {}).2 = .done (some none) rest := by
    rintro ⟨bind, rfl⟩
    exact ⟨got, rfl⟩
  rcases hrun : (tcpInboundHandshake C accepting inbound got {}).2 with
    ⟨_ | target, rest⟩ | want | _
  · refine iff_of_false (by simp [etcpServe, hrun]) ?_
    rintro (⟨-, _, _, h⟩ | ⟨hin, -⟩)
    · exact absurd h (by simp)
    · obtain ⟨_, h⟩ := hdokodemo hin
      exact absurd (hrun.symm.trans h) (by simp)
  · rw [hrun] at hspec
    have hshort : ∀ t, target = some t → t.Short := by
      rintro t rfl
      exact short_of_tcpInboundHandshake hfail hposs ⟨rest, hrun⟩
    obtain ⟨text, hprint⟩ : ∃ text, printRequest I printBuf target = some text := by
      rcases target with _ | t
      · exact ⟨none, rfl⟩
      · obtain ⟨text, htext⟩ := exists_printTargetText hI (hshort t rfl) printBuf
        exact ⟨some text, by rw [printRequest, htext, Option.map_some]⟩
    have hnone : target.isSome = true ↔ ¬inbound.IsDokodemo := by
      rw [← hspec target rfl]
      rcases target with _ | t <;> simp
    rw [etcpServe_eq_faults_iff hrun hprint, client_eq_abort_iff hI C houtbound hshort,
      TcpOutbound.Starts, hnone]
    have hsome : ∃ t r, Outcome.done (some target) rest = .done (some t) r := ⟨_, _, rfl⟩
    simp only [hsome, and_true]
    rcases connecting.socket with _ | _ <;> simp
  · refine iff_of_false (by simp [etcpServe, hrun]) ?_
    rintro (⟨-, _, _, h⟩ | ⟨hin, -⟩)
    · exact absurd h (by simp)
    · obtain ⟨_, h⟩ := hdokodemo hin
      exact absurd (hrun.symm.trans h) (by simp)
  · rw [hrun] at hspec
    exact absurd hspec id

/-- A SOCKS proxy for the clients of SOCKS, for those that have no target, and without a socket. -/
theorem etcpServe_faults_iff_sampleAsked :
    etcpServe openssl sampleInet (.socks sampleProxy) (.socks sampleProxy .v5) sampleSocketCalls
        sampleSocketCalls (sampleSocketCalls.printBuf 0) sampleAsked [] ≠ .faults ∧
      etcpServe openssl sampleInet (.dokodemo sampleProxy) (.socks sampleProxy .v5)
        sampleSocketCalls sampleSocketCalls (sampleSocketCalls.printBuf 0) [] [] = .faults ∧
      etcpServe openssl sampleInet (.dokodemo sampleProxy) (.dokodemo sampleProxy)
        sampleSocketCalls { sampleSocketCalls with socket := false }
        (sampleSocketCalls.printBuf 0) [] [] = .faults := by
  have husable : (TcpOutbound.socks sampleProxy .v5).Usable := ⟨trivial, by decide⟩
  have hposs : Possible (fun s ↦
      (tcpInboundHandshake openssl sampleSocketCalls (.dokodemo sampleProxy) s {}).2) [] :=
    fun pre a post h ↦ absurd h (by simp)
  refine ⟨fun h ↦ ?_, ?_, ?_⟩
  · rcases (etcpServe_faults_iff inetLaws_sampleInet openssl (.socks sampleProxy) husable
      sampleSocketCalls sampleSocketCalls (sampleSocketCalls.printBuf 0) (by decide)
      (by decide +kernel)).1 h with ⟨hsocket, -⟩ | ⟨⟨bind, hbind⟩, -⟩
    · exact absurd hsocket (by decide)
    · exact absurd hbind (by simp)
  · exact (etcpServe_faults_iff inetLaws_sampleInet openssl (.dokodemo sampleProxy) husable
      sampleSocketCalls sampleSocketCalls (sampleSocketCalls.printBuf 0) (by simp) hposs).2
      (.inr ⟨⟨_, rfl⟩, by decide⟩)
  · exact (etcpServe_faults_iff inetLaws_sampleInet openssl (.dokodemo sampleProxy)
      (show (TcpOutbound.dokodemo sampleProxy).Usable from trivial) sampleSocketCalls
      { sampleSocketCalls with socket := false } (sampleSocketCalls.printBuf 0) (by simp) hposs).2
      (.inl ⟨rfl, _, _, rfl⟩)

end Vmecs
