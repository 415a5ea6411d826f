import Vmecs.Proto.Receive
import Vmecs.Proto.Tcp
import Vmecs.Proto.Socks.Socks4
import Vmecs.Proto.Socks.Socks5

/-!
# SOCKS sockets (`proto/socks/tcp.c`)

The handshake of either role, in both versions of the protocol, and the reads that come after it.
The handshake re-assembles the peer's messages in a buffer of its own, which it frees at the end;
the reads take what they return from the descriptor. `socks_to_socket` hands this descriptor on, and
a native socket reads it with the same two functions.

The messages a handshake reads are, in order, one message of the decoder `socksHandshakeMessages`,
and a handshake that succeeds has received just this message (`socksTcpSocketHandshakeC_receives`).
-/

namespace Vmecs

open StreamDecoder

/-- `SOCKS_VERSION_4`, `SOCKS_VERSION_5` and `SOCKS_VERSION_ANY`. -/
inductive SocksVersion where
  | v4
  | v5
  | any
  deriving DecidableEq

/-- `socks_tcp_socket_t`, less the descriptor. The address is that of the target, or of the proxy of
a client. -/
structure SocksTcpSocket where
  addr : Option TargetId
  socksVers : SocksVersion
  deriving DecidableEq

/-- `DEFAULT_BUFFER`. -/
def socksDefaultBuffer : ℕ := 32

/-- `socks_tcp_socket_set_target`. -/
def socksTcpSocketSetTarget (sock : SocksTcpSocket) (target : TargetId) : SocksTcpSocket :=
  { sock with addr := some target }

/-- `socks_tcp_socket_set_proxy`. -/
def socksTcpSocketSetProxy (sock : SocksTcpSocket) (proxy : TargetId) : SocksTcpSocket :=
  { sock with addr := some proxy }

/-- `socks_tcp_socket_new_fd`. -/
def socksTcpSocketNewFd (socksVers : SocksVersion) : SocksTcpSocket where
  addr := none
  socksVers := socksVers

/-- `_socks_tcp_socket_read`. -/
def socksTcpSocketRead (size : ℕ) : Reads → Outcome ReadAnswer := fdRead size

/-- `_socks_tcp_socket_try_read`. -/
def socksTcpSocketTryRead (size : ℕ) : Reads → Outcome ReadAnswer := fdTryRead size

/-- A SOCKS socket with its descriptor. -/
structure SocksConn where
  sock : SocksTcpSocket
  reads : Reads
  out : OutFd

/-- The table of `socks_tcp_socket_new_fd`: the functions pass the calls on to the descriptor. -/
def socksTcpSocketOps : TcpSocketOps SocksConn where
  tryRead size conn :=
    match socksTcpSocketTryRead size conn.reads with
    | .done a reads => some (a.result, a.bytes, { conn with reads })
    | _ => none
  write buf conn := some ((fdWrite conn.out buf).1, { conn with out := (fdWrite conn.out buf).2 })
  close conn := { conn with out := socketShutdownWrite conn.out }

/-! ### The handshake -/

/-- A program that is part of a handshake: whether it succeeds, and the socket. -/
abbrev SocksHandshake := FdProc (Bool × SocksTcpSocket)

/-- `READ_DECODE`: go on with the next message, or give the connection up. -/
def readDecode {V : Type} (D : StreamDecoder UInt8 V) (rbuf : RBuffer) (sock : SocksTcpSocket)
    (next : V → RBuffer → SocksHandshake) : SocksHandshake := do
  match ← FdProc.read (rbufferRead D rbuf) with
  | (.success v, rbuf) => next v rbuf
  | (.error, _) => return (false, sock)
  | (.incomplete, _) => return (false, sock)

/-- The server's part of version 5, behind the first byte. -/
def socks5ServerHandshake (rbuf : RBuffer) (sock : SocksTcpSocket) : SocksHandshake :=
  readDecode socks5DecodeAuthSel rbuf sock fun authSel rbuf ↦
    if socks5AuthMethodNoAuth ∈ authSel then do
      let _ ← FdProc.write (socks5EncodeAuthAck socks5AuthMethodNoAuth)
      readDecode socks5DecodeRequest rbuf sock fun req _ ↦
        if req.cmd = socks5CmdConnect then do
          let _ ← FdProc.write (socks5EncodeResponse ⟨socks5RepSuccess⟩)
          return (true, socksTcpSocketSetTarget sock req.target)
        else return (false, sock)
    else return (false, sock)

/-- The server's part of version 4, behind the first byte. -/
def socks4ServerHandshake (rbuf : RBuffer) (sock : SocksTcpSocket) : SocksHandshake :=
  readDecode socks4DecodeRequest rbuf sock fun req _ ↦
    if req.cmd = socks4CmdConnect then do
      let _ ← FdProc.write (socks4EncodeResponse ⟨socks4RepSuccess⟩)
      return (true, socksTcpSocketSetTarget sock req.target)
    else return (false, sock)

/-- The client's part of version 5. -/
def socks5ClientHandshake (rbuf : RBuffer) (sock : SocksTcpSocket) (target : TargetId) :
    SocksHandshake := do
  let _ ← FdProc.write (socks5EncodeAuthSel [socks5AuthMethodNoAuth] 1)
  readDecode socks5DecodeAuthAck rbuf sock fun authAck rbuf ↦
    if authAck = socks5AuthMethodNoAuth then do
      let _ ← FdProc.write (socks5EncodeRequest ⟨target, socks5CmdConnect⟩)
      readDecode socks5DecodeResponse rbuf sock fun resp _ ↦
        if resp.rep = socks5RepSuccess then return (true, sock) else return (false, sock)
    else return (false, sock)

/-- The client's part of version 4. -/
def socks4ClientHandshake (getsockaddr : CString → UInt16 → Option SockAddr) (rbuf : RBuffer)
    (sock : SocksTcpSocket) (target : TargetId) : SocksHandshake :=
  match targetIdResolve getsockaddr target with
  | none => return (false, sock)
  | some addr =>
    if socketSockaddrIsIpv4 addr then
      let tmpTarget := targetIdNewIpv4 (socketSockaddrGetIpv4 addr) (socketSockaddrPort addr)
      match socks4EncodeRequest ⟨tmpTarget, socks4CmdConnect⟩ with
      | none => FdProc.abort
      | some tmp => do
        let _ ← FdProc.write tmp
        readDecode socks4DecodeResponse rbuf sock fun resp _ ↦
          if resp.rep = socks4RepSuccess then return (true, sock) else return (false, sock)
    else return (false, sock)

/-- `_socks_tcp_socket_handshake_c`: the server's part without a target, the client's with one. -/
def socksTcpSocketHandshakeC (getsockaddr : CString → UInt16 → Option SockAddr)
    (sock : SocksTcpSocket) (target : Option TargetId) : SocksHandshake :=
  let rbuf := rbufferNew socksDefaultBuffer
  match target with
  | none => do
    match ← FdProc.read (fdRead 1) with
    | .eof => return (false, sock)
    | .data (vers :: _) =>
      let rbuf := rbufferPush rbuf [vers]
      if vers = socks5Version then socks5ServerHandshake rbuf sock
      else if vers = socks4Version then socks4ServerHandshake rbuf sock
      else return (false, sock)
    -- a result of -1 passes the test, and `vers` is read uninitialized
    | _ => FdProc.abort
  | some target =>
    match sock.socksVers with
    | .v5 => socks5ClientHandshake rbuf sock target
    | .v4 => socks4ClientHandshake getsockaddr rbuf sock target
    | .any => FdProc.abort

/-- `_socks_tcp_socket_connect`; `socketConnect` tells whether the descriptor gets connected to an
address, and `printBuf` is what the buffers of the four `print_target`s hold at first. -/
def socksTcpSocketConnect (I : Inet) (unset : ℤ) (printBuf : ℕ → Block (targetIdMaxDomain + 1))
    (getsockaddr : CString → UInt16 → Option SockAddr) (socketConnect : SockAddr → Bool)
    (sock : SocksTcpSocket) (node port : CString) : SocksHandshake :=
  match sock.addr with
  | none => FdProc.abort
  | some proxy =>
    match targetIdResolve getsockaddr proxy with
    | none => return (false, sock)
    | some addr => do
      let _ ← FdProc.ofOption (printTargetText I proxy (printBuf 0))
      if socketConnect addr then
        let _ ← FdProc.ofOption (printTargetText I proxy (printBuf 1))
        match targetIdParse I unset node port with
        | none => return (false, sock)
        | some target =>
          let _ ← FdProc.ofOption (printTargetText I target (printBuf 2))
          let (ret, sock) ← socksTcpSocketHandshakeC getsockaddr sock (some target)
          if ret then
            let _ ← FdProc.ofOption (printTargetText I target (printBuf 3))
            return (true, sock)
          else return (false, sock)
      else return (false, sock)

/-! ### The messages of a handshake -/

/-- What a server reads, by the version it finds. -/
def socksServerMessages : StreamDecoder UInt8 Unit :=
  peek fun vers ↦
    if vers = socks5Version then do let _ ← socks5DecodeAuthSel; let _ ← socks5DecodeRequest
    else if vers = socks4Version then do let _ ← socks4DecodeRequest
    else reject

/-- What a client reads. -/
def socksClientMessages : SocksVersion → StreamDecoder UInt8 Unit
  | .v5 => do let _ ← socks5DecodeAuthAck; let _ ← socks5DecodeResponse
  | .v4 => do let _ ← socks4DecodeResponse
  | .any => reject

/-- The messages a handshake reads, in sequence. -/
def socksHandshakeMessages (sock : SocksTcpSocket) (target : Option TargetId) :
    StreamDecoder UInt8 Unit :=
  if target.isNone then socksServerMessages else socksClientMessages sock.socksVers

/-! ### What a handshake takes off the stream -/

/-- When the program succeeds, from a buffer that holds `data`, it has received the messages `M`. -/
def Receives (p : SocksHandshake) (data : Bytes) (M : StreamDecoder UInt8 Unit) : Prop :=
  ∀ s out out' sock s', p s out = (out', .done (true, sock) s') →
    ∃ used n, s = used ++ s' ∧ Received M data used n ()

namespace Receives

variable {p : SocksHandshake} {data : Bytes} {M : StreamDecoder UInt8 Unit}

/-- A handshake that fails has received nothing of interest. -/
theorem fail (sock : SocksTcpSocket) : Receives (pure (false, sock)) data M := by
  intro s out out' sock' s' h
  exact absurd h (by simp)

theorem abort : Receives FdProc.abort data M := by
  intro s out out' sock' s' h
  exact absurd h (by simp [FdProc.abort])

theorem done (sock : SocksTcpSocket) : Receives (pure (true, sock)) data (pure ()) := by
  intro s out out' sock' s' h
  obtain ⟨-, rfl⟩ := Outcome.done.inj (Prod.ext_iff.1 h).2
  exact ⟨[], 0, rfl, .nil rfl⟩

/-- Writing takes nothing. -/
theorem write {bs : Bytes} (h : Receives p data M) :
    Receives (FdProc.write bs >>= fun _ ↦ p) data M := by
  intro s out out' sock s' hrun
  exact h s _ out' sock s' hrun

theorem ite {P : Prop} [Decidable P] (h : Receives p data M) (sock : SocksTcpSocket) :
    Receives (if P then p else pure (false, sock)) data M := by
  split
  · exact h
  · exact fail sock

/-- A message, and those that the rest of the program reads. -/
theorem readDecode {V : Type} {D : StreamDecoder UInt8 V} (hD : D.Prompt) {rbuf : RBuffer}
    {sock : SocksTcpSocket} {next : V → RBuffer → SocksHandshake}
    {N : V → StreamDecoder UInt8 Unit}
    (hnext : ∀ v rbuf', Receives (next v rbuf') rbuf'.data (N v)) :
    Receives (readDecode D rbuf sock next) rbuf.data (D >>= N) := by
  intro s out out' sock' s' h
  rw [Vmecs.readDecode, FdProc.read_bind_apply] at h
  match hr : rbufferRead D rbuf s with
  | .wait want => simp [hr] at h
  | .abort => simp [hr] at h
  | .done (.error, rbuf') s₁ => simp [hr] at h
  | .done (.incomplete, rbuf') s₁ => simp [hr] at h
  | .done (.success v, rbuf') s₁ =>
    simp only [hr] at h
    obtain ⟨used, n, rfl, hrec, hleft⟩ := rbufferRead_received hD hr
    obtain ⟨used', m, rfl, hrec'⟩ := hnext v rbuf' s₁ out out' sock' s' h
    rw [hleft] at hrec'
    exact ⟨used ++ used', n + m, (List.append_assoc _ _ _).symm, hrec.bind hD.incremental hrec'⟩

end Receives

theorem socks5ServerHandshake_receives (rbuf : RBuffer) (sock : SocksTcpSocket) :
    Receives (socks5ServerHandshake rbuf sock) rbuf.data
      (do let _ ← socks5DecodeAuthSel; let _ ← socks5DecodeRequest) := by
  refine .readDecode prompt_socks5DecodeAuthSel fun authSel rbuf' ↦ .ite (.write ?_) sock
  refine .readDecode prompt_socks5DecodeRequest fun req rbuf'' ↦ .ite (.write ?_) sock
  exact .done _

theorem socks4ServerHandshake_receives (rbuf : RBuffer) (sock : SocksTcpSocket) :
    Receives (socks4ServerHandshake rbuf sock) rbuf.data (do let _ ← socks4DecodeRequest) := by
  refine .readDecode prompt_socks4DecodeRequest fun req rbuf' ↦ .ite (.write ?_) sock
  exact .done _

theorem socks5ClientHandshake_receives (rbuf : RBuffer) (sock : SocksTcpSocket)
    (target : TargetId) :
    Receives (socks5ClientHandshake rbuf sock target) rbuf.data (socksClientMessages .v5) := by
  refine .write (.readDecode prompt_socks5DecodeAuthAck fun authAck rbuf' ↦ .ite (.write ?_) sock)
  exact .readDecode prompt_socks5DecodeResponse fun resp rbuf'' ↦ .ite (.done sock) sock

theorem socks4ClientHandshake_receives (getsockaddr : CString → UInt16 → Option SockAddr)
    (rbuf : RBuffer) (sock : SocksTcpSocket) (target : TargetId) :
    Receives (socks4ClientHandshake getsockaddr rbuf sock target) rbuf.data
      (socksClientMessages .v4) := by
  rw [socks4ClientHandshake]
  split
  · exact .fail sock
  · refine .ite ?_ sock
    -- the target is an IPv4 address, so the encoder does not fail
    refine Receives.write (.readDecode prompt_socks4DecodeResponse fun resp rbuf' ↦ ?_)
    exact .ite (.done sock) sock

theorem prompt_socksServerMessages : socksServerMessages.Prompt := by
  have h₅ : (do let _ ← socks5DecodeAuthSel; let _ ← socks5DecodeRequest :
      StreamDecoder UInt8 Unit).Prompt :=
    prompt_socks5DecodeAuthSel.bind fun _ ↦ prompt_socks5DecodeRequest.incremental.bind fun _ ↦
      .pure ()
  have h₄ : (do let _ ← socks4DecodeRequest : StreamDecoder UInt8 Unit).Prompt :=
    prompt_socks4DecodeRequest.bind fun _ ↦ .pure ()
  refine .peek (fun vers ↦ .ite h₅.incremental (.ite h₄.incremental .reject)) fun vers x n v h ↦ ?_
  split at h
  · exact h₅.pos h
  · split at h
    · exact h₄.pos h
    · exact absurd h (by simp)

theorem incremental_socksClientMessages (socksVers : SocksVersion) :
    (socksClientMessages socksVers).Incremental := by
  cases socksVers with
  | v5 =>
    exact prompt_socks5DecodeAuthAck.incremental.bind fun _ ↦
      prompt_socks5DecodeResponse.incremental.bind fun _ ↦ .pure ()
  | v4 => exact prompt_socks4DecodeResponse.incremental.bind fun _ ↦ .pure ()
  | any => exact .reject

theorem incremental_socksHandshakeMessages (sock : SocksTcpSocket) (target : Option TargetId) :
    (socksHandshakeMessages sock target).Incremental :=
  .ite prompt_socksServerMessages.incremental (incremental_socksClientMessages _)

/-- A server that succeeds has received its messages, of which it has read the first byte on its
own. -/
theorem socksServerHandshake_receives (getsockaddr : CString → UInt16 → Option SockAddr)
    (sock : SocksTcpSocket) :
    Receives (socksTcpSocketHandshakeC getsockaddr sock none) [] socksServerMessages := by
  intro s out out' sock' s' h
  rw [socksTcpSocketHandshakeC, FdProc.read_bind_apply] at h
  match hr : fdRead 1 s with
  | .wait want => simp [hr] at h
  | .abort => simp [hr] at h
  | .done .eof s₁ => simp [hr] at h
  | .done .again s₁ => simp [hr, FdProc.abort] at h
  | .done .fail s₁ => simp [hr, FdProc.abort] at h
  | .done (.data []) s₁ => simp [hr, FdProc.abort] at h
  | .done (.data (vers :: bs)) s₁ =>
    simp only [hr] at h
    have hbs : bs = [] := by
      obtain ⟨bs', heq, hfit, -⟩ | ⟨heq, -⟩ | ⟨heq, -⟩ := fdRead_done hr
      · exact List.length_eq_zero_iff.1 (Nat.le_zero.1 (Nat.le_of_succ_le_succ hfit.2))
      · exact absurd heq (by simp)
      · exact absurd heq (by simp)
    subst hbs
    have hrec : ∃ used n, s₁ = used ++ s' ∧ Received socksServerMessages [vers] used n () := by
      split at h
      case isTrue hv =>
        obtain ⟨used, n, hs, hrec⟩ := socks5ServerHandshake_receives _ sock s₁ out out' sock' s' h
        refine ⟨used, n, hs, hrec.not_eof, ?_, hrec.needed⟩
        show (if vers = socks5Version then _ else _ : StreamDecoder UInt8 Unit) _ = _
        rw [if_pos hv]
        exact hrec.decode
      case isFalse hv =>
        split at h
        case isTrue hv' =>
          obtain ⟨used, n, hs, hrec⟩ :=
            socks4ServerHandshake_receives _ sock s₁ out out' sock' s' h
          refine ⟨used, n, hs, hrec.not_eof, ?_, hrec.needed⟩
          show (if vers = socks5Version then _ else _ : StreamDecoder UInt8 Unit) _ = _
          rw [if_neg hv, if_pos hv']
          exact hrec.decode
        case isFalse => exact absurd h (by simp)
    obtain ⟨used, n, rfl, hrec⟩ := hrec
    obtain ⟨used', rfl, hrec'⟩ := hrec.of_fdRead (prompt_socksServerMessages.pos hrec.decode) hr
    exact ⟨used', n, rfl, hrec'⟩

/-- **What a handshake takes off the stream**: one that succeeds has received its messages. -/
theorem socksTcpSocketHandshakeC_receives (getsockaddr : CString → UInt16 → Option SockAddr)
    (sock : SocksTcpSocket) (target : Option TargetId) :
    Receives (socksTcpSocketHandshakeC getsockaddr sock target) []
      (socksHandshakeMessages sock target) := by
  cases target with
  | none => exact socksServerHandshake_receives getsockaddr sock
  | some target =>
    obtain ⟨addr, socksVers⟩ := sock
    cases socksVers with
    | v5 => exact socks5ClientHandshake_receives _ _ target
    | v4 => exact socks4ClientHandshake_receives getsockaddr _ _ target
    | any => exact .abort

end Vmecs
