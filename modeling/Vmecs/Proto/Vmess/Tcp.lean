import Vmecs.Proto.Buf
import Vmecs.Proto.Tcp
import Vmecs.Proto.Vmess.Decoding
import Vmecs.Proto.Vmess.Request

/-!
# VMess sockets (`proto/vmess/tcp.c`)

A VMess socket re-assembles what it receives in its `raw_buf`, from the handshake on, and keeps the
bytes of a chunk that a reader had no room for in its `read_buf`. A read works on these two buffers
and on the descriptor alone, so `vmessTcpSocketReadC` is a function of them; writing and closing
work on the serializer and the writing side of the descriptor.

A handshake that succeeds has read one message, the request or the response
(`vmessHandshakeMessage`), and leaves in `raw_buf` what the last segment has brought behind it.
-/

namespace Vmecs

/-- `TCP_DEFAULT_BUF`. -/
def vmessTcpDefaultBuf : ℕ := 4096

/-- `read_buf` and `raw_buf`: the part of a socket that its reads change. -/
structure VmessReadBuffers where
  readBuf : VBuffer
  rawBuf : RBuffer

/-- `vmess_tcp_socket_t`, less the descriptor. The address is that of the target, or of the proxy
of a client. -/
structure VmessTcpSocket extends VmessReadBuffers where
  auth : VmessAuth
  vser : Option VmessSerial
  config : VmessConfig
  addr : Option TargetId

/-- `_vmess_tcp_socket_new_fd`. The field `auth` is not initialized there: it is what it is. -/
def vmessTcpSocketNewFd (config : VmessConfig) (auth : VmessAuth) : VmessTcpSocket where
  readBuf := vbufferNew vmessTcpDefaultBuf
  rawBuf := rbufferNew vmessTcpDefaultBuf
  auth := auth
  vser := none
  config := config
  addr := none

/-- `vmess_tcp_socket_auth`. -/
def vmessTcpSocketAuth (C : Crypto) (sock : VmessTcpSocket) (genTime : UInt64) : VmessTcpSocket :=
  { sock with auth := vmessAuthInit C sock.config genTime }

/-- `vmess_tcp_socket_set_proxy`. -/
def vmessTcpSocketSetProxy (sock : VmessTcpSocket) (proxy : TargetId) : VmessTcpSocket :=
  { sock with addr := some proxy }

/-- `vmess_tcp_socket_set_target`. -/
def vmessTcpSocketSetTarget (sock : VmessTcpSocket) (target : TargetId) : VmessTcpSocket :=
  { sock with addr := some target }

/-! ### Reading -/

/-- The switch over the result of the re-assembly: what a read returns, the bytes it stores, and the
two buffers afterwards. -/
def vmessReadResult (size : ℕ) (readBuf : VBuffer) :
    RBufferResult DataTrunk × RBuffer → ℤ × Bytes × VmessReadBuffers
  | (.success trunk, rawBuf) =>
    if trunk.bytes.length = 0 then (0, [], ⟨vbufferClose readBuf, rawBuf⟩)
    else if trunk.bytes.length > size then
      (size, trunk.bytes.take size, ⟨vbufferWrite readBuf (trunk.bytes.drop size), rawBuf⟩)
    else (trunk.bytes.length, trunk.bytes, ⟨readBuf, rawBuf⟩)
  | (.error, rawBuf) => (-1, [], ⟨readBuf, rawBuf⟩)
  | (.incomplete, rawBuf) => (-2, [], ⟨readBuf, rawBuf⟩)

/-- `_vmess_tcp_socket_read_c`. -/
def vmessTcpSocketReadC (C : Crypto) (auth : VmessAuth) (size : ℕ) (block : Bool)
    (bufs : VmessReadBuffers) (s : Reads) : Outcome (ℤ × Bytes × VmessReadBuffers) :=
  let (ret, buf, readBuf) := vbufferTryRead bufs.readBuf size
  if ret = -1 then .done (0, [], { bufs with readBuf }) s
  else if ret ≠ 0 then .done (ret, buf, { bufs with readBuf }) s
  else if block then
    (rbufferRead (vmessDecodeData C auth) bufs.rawBuf s).map (vmessReadResult size readBuf)
  else (rbufferTryRead (vmessDecodeData C auth) bufs.rawBuf s).map (vmessReadResult size readBuf)

/-- The socket after a read. -/
def VmessTcpSocket.setBuffers (sock : VmessTcpSocket) (bufs : VmessReadBuffers) : VmessTcpSocket :=
  { sock with toVmessReadBuffers := bufs }

/-! ### Writing -/

/-- The loop over `vmess_serial_digest`: `size` is the variable that the next piece sets and that is
returned at the end. A write to the socket looks at the result of each `fd_write` and ends with -1
at the first failure (`checked`); the handshake does not look. Nothing is a failed assertion. -/
def vmessFlush (C : Crypto) (checked : Bool) :
    ℕ → VmessSerial → ℤ → OutFd → Option (ℤ × VmessSerial × OutFd)
  | 0, _, _, _ => none
  | fuel + 1, vser, size, out =>
    match vmessSerialDigest C vser with
    | none => none
    | some (none, vser) => some (size, vser, out)
    | some (some trunk, vser) =>
      let (n, out) := fdWrite out trunk
      if checked ∧ n = -1 then some (-1, vser, out)
      else vmessFlush C checked fuel vser trunk.length out

/-- As many turns as the loop can take: one for the header, one for each byte in the buffer, one for
a buffer without any, and the last. -/
def vmessFlushFuel (vser : VmessSerial) : ℕ := (vser.buf.getD []).length + 3

/-- `_vmess_tcp_socket_write`. Nothing is a call that does not return: before the handshake there is
no serializer to write to. -/
def vmessTcpSocketWrite (C : Crypto) (buf : Bytes) (sock : VmessTcpSocket) (out : OutFd) :
    Option (ℤ × VmessTcpSocket × OutFd) := do
  let vser ← sock.vser
  let vser := vmessSerialWrite vser buf
  let (ret, vser, out) ← vmessFlush C true (vmessFlushFuel vser) vser buf.length out
  some (ret, { sock with vser := some vser }, out)

/-- `_vmess_tcp_socket_close`. -/
def vmessTcpSocketClose (out : OutFd) : OutFd := socketShutdownWrite (fdWrite out vmessSerialEnd).2

/-! ### The handshake -/

/-- The flush loop of the handshake. -/
def vmessHandshakeFlush (C : Crypto) (vser : VmessSerial) : FdProc VmessSerial := fun s out ↦
  match vmessFlush C false (vmessFlushFuel vser) vser 0 out with
  | none => (out, .abort)
  | some (_, vser, out) => (out, .done vser s)

/-- The request decoder of a handshake, which asks for the time each time it is called: `clock` is
the time at the call with so many bytes, and every call is with more bytes than the one before. -/
def vmessRequestDecoder (C : Crypto) (config : VmessConfig) (clock : ℕ → Clock config) :
    StreamDecoder UInt8 (VmessRequest × VmessAuth) := fun x ↦
  vmessDecodeRequest C config (clock x.length) x

/-- The server's part. -/
def vmessServerHandshake (C : Crypto) (sock : VmessTcpSocket) (clock : ℕ → Clock sock.config) :
    FdProc (Bool × VmessTcpSocket) := do
  match ← FdProc.read (rbufferRead (vmessRequestDecoder C sock.config clock) sock.rawBuf) with
  | (.success (req, auth), rawBuf) =>
    let sock := { sock with rawBuf, auth }
    match vmessSerialResponse C (vmessSerialNew sock.auth) ⟨1⟩ with
    | none => FdProc.abort
    | some vser => do
      let vser ← vmessHandshakeFlush C vser
      return (true, { vmessTcpSocketSetTarget sock req.target with vser := some vser })
  | (.error, rawBuf) => return (false, { sock with rawBuf })
  | (.incomplete, rawBuf) => return (false, { sock with rawBuf })

/-- The request a client sends. -/
def vmessClientRequest (target : TargetId) : VmessRequest where
  target := target
  vers := 1
  crypt := BitVec.ofNat 4 vmessCryptAes128Cfb.toNat
  cmd := vmessReqCmdTcp
  opt := 1

/-- The client's part; `rand` are the results of `rand()`. -/
def vmessClientHandshake (C : Crypto) (rand : ℕ → Rand) (sock : VmessTcpSocket)
    (target : TargetId) : FdProc (Bool × VmessTcpSocket) :=
  match vmessSerialRequest C rand (vmessSerialNew sock.auth) sock.config
      (vmessClientRequest target) with
  | none => FdProc.abort
  | some vser => do
    let vser ← vmessHandshakeFlush C vser
    match ← FdProc.read (rbufferRead (vmessDecodeResponse C sock.auth) sock.rawBuf) with
    | (.success _, rawBuf) => return (true, { sock with rawBuf, vser := some vser })
    | (.error, rawBuf) => return (false, { sock with rawBuf })
    | (.incomplete, rawBuf) => return (false, { sock with rawBuf })

/-- `_vmess_tcp_socket_handshake_c`: the server's part without a target, the client's with one. -/
def vmessTcpSocketHandshakeC (C : Crypto) (rand : ℕ → Rand) (sock : VmessTcpSocket)
    (clock : ℕ → Clock sock.config) (target : Option TargetId) : FdProc (Bool × VmessTcpSocket) :=
  match target with
  | none => vmessServerHandshake C sock clock
  | some target => vmessClientHandshake C rand sock target

/-- `_vmess_tcp_socket_connect`; `socketConnect` tells whether the descriptor gets connected to an
address. -/
def vmessTcpSocketConnect (C : Crypto) (I : Inet) (unset : ℤ) (rand : ℕ → Rand)
    (getsockaddr : CString → UInt16 → Option SockAddr) (socketConnect : SockAddr → Bool)
    (sock : VmessTcpSocket) (clock : ℕ → Clock sock.config) (node port : CString) :
    FdProc (Bool × VmessTcpSocket) :=
  match sock.addr with
  | none => FdProc.abort
  | some proxy =>
    match targetIdResolve getsockaddr proxy with
    | none => return (false, sock)
    | some addr =>
      if socketConnect addr then
        match targetIdParse I unset node port with
        | none => return (false, sock)
        | some target => vmessTcpSocketHandshakeC C rand sock clock (some target)
      else return (false, sock)

/-! ### The table of functions -/

/-- A VMess socket with its descriptor. -/
structure VmessConn where
  sock : VmessTcpSocket
  reads : Reads
  out : OutFd

/-- `_vmess_tcp_socket_read`. -/
def vmessTcpSocketRead (C : Crypto) (size : ℕ) (conn : VmessConn) :
    Option (ℤ × Bytes × VmessConn) :=
  match vmessTcpSocketReadC C conn.sock.auth size true conn.sock.toVmessReadBuffers conn.reads with
  | .done (ret, buf, bufs) reads =>
    some (ret, buf, { conn with sock := conn.sock.setBuffers bufs, reads })
  | _ => none

/-- `_vmess_tcp_socket_try_read`. -/
def vmessTcpSocketTryRead (C : Crypto) (size : ℕ) (conn : VmessConn) :
    Option (ℤ × Bytes × VmessConn) :=
  match vmessTcpSocketReadC C conn.sock.auth size false conn.sock.toVmessReadBuffers conn.reads with
  | .done (ret, buf, bufs) reads =>
    some (ret, buf, { conn with sock := conn.sock.setBuffers bufs, reads })
  | _ => none

/-- A try_read of a VMess socket changes its buffers and takes from the descriptor. -/
theorem vmessTcpSocketTryRead_eq_some {C : Crypto} {size : ℕ} {conn conn' : VmessConn} {res : ℤ}
    {buf : Bytes} (h : vmessTcpSocketTryRead C size conn = some (res, buf, conn')) :
    ∃ bufs reads, vmessTcpSocketReadC C conn.sock.auth size false conn.sock.toVmessReadBuffers
        conn.reads = .done (res, buf, bufs) reads ∧
      conn' = { conn with sock := conn.sock.setBuffers bufs, reads } := by
  rw [vmessTcpSocketTryRead] at h
  split at h
  case h_1 hread =>
    obtain ⟨rfl, hrest⟩ := Prod.mk.inj (Option.some.inj h)
    obtain ⟨rfl, rfl⟩ := Prod.mk.inj hrest
    exact ⟨_, _, hread, rfl⟩
  case h_2 => exact absurd h (by simp)

/-- The table of `_vmess_tcp_socket_new_fd`. -/
def vmessTcpSocketOps (C : Crypto) : TcpSocketOps VmessConn where
  tryRead := vmessTcpSocketTryRead C
  write buf conn :=
    (vmessTcpSocketWrite C buf conn.sock conn.out).map fun (ret, sock, out) ↦
      (ret, { conn with sock, out })
  close conn := { conn with out := vmessTcpSocketClose conn.out }

end Vmecs
