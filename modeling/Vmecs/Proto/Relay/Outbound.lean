import Vmecs.Proto.Native.Tcp
import Vmecs.Proto.Socks.Tcp
import Vmecs.Proto.Vmess.Tcp

/-!
# Inbounds and outbounds (`proto/relay/inbound.h`, `proto/relay/outbound.h`)

An inbound makes the sockets that the relay listens on, and an outbound the sockets that it connects
for the clients it has accepted. Each protocol has its own, with what its configuration says about
it: the address to listen on, the proxy, the version, the user.

`tcpInboundHandshake` is what the relay does with a socket it has accepted, up to the target that
the client asks for; `TcpOutbound.client` is the connection it then makes for this target. What
comes from outside, the answers of `socket`, of the resolver and of `connect`, the time, and the
memory that is read before it is written, is in `SocketCalls`.
-/

namespace Vmecs

/-- `tcp_inbound_t`: `vmess_tcp_inbound_t`, `socks_tcp_inbound_t` or `dokodemo_tcp_inbound_t`. -/
inductive TcpInbound where
  | vmess (config : VmessConfig) (bind : TargetId)
  | socks (bind : TargetId)
  | dokodemo (bind : TargetId)

/-- `tcp_outbound_t`: `vmess_tcp_outbound_t`, `socks_tcp_outbound_t`, `dokodemo_tcp_outbound_t` or
`native_tcp_outbound_t`. -/
inductive TcpOutbound where
  | vmess (config : VmessConfig) (proxy : TargetId)
  | socks (proxy : TargetId) (socksVers : SocksVersion)
  | dokodemo (target : TargetId)
  | native

/-- What calls outside the program answer to a socket, and what it finds in memory that has not been
initialized. -/
structure SocketCalls where
  /-- `socket`: whether there is one -/
  socket : Bool
  /-- `socket_getsockaddr` -/
  getsockaddr : CString → CString → Option SockAddr
  /-- `socket_connect` -/
  connect : SockAddr → Bool
  /-- `time(NULL)` -/
  time : UInt64
  rand : ℕ → Rand
  clock : (config : VmessConfig) → ℕ → Clock config
  /-- the field `auth` of a new VMess socket -/
  auth : VmessAuth
  /-- the port in `target_id_parse` -/
  unset : ℤ
  nodeBuf : Block (targetIdMaxDomain + 1)
  servBuf : Block (targetIdMaxPort + 1)
  printBuf : ℕ → Block (targetIdMaxDomain + 1)

/-- `socket_stream`: that there is a socket is asserted. -/
def socketStream (calls : SocketCalls) : Option Unit := if calls.socket then some () else none

/-- `socket_getsockaddr`, as `target_id_resolve` calls it. -/
def SocketCalls.resolver (calls : SocketCalls) (name : CString) (port : UInt16) :
    Option SockAddr :=
  calls.getsockaddr name ⟨sprintfD port.toNat, zero_notMem_sprintfD _⟩

/-- The outbound has a target of its own. -/
def TcpOutbound.IsDokodemo (outbound : TcpOutbound) : Prop := ∃ own, outbound = .dokodemo own

instance (outbound : TcpOutbound) : Decidable outbound.IsDokodemo :=
  match outbound with
  | .dokodemo own => isTrue ⟨own, rfl⟩
  | .vmess _ _ => isFalse fun ⟨_, h⟩ ↦ absurd h (by simp)
  | .socks _ _ => isFalse fun ⟨_, h⟩ ↦ absurd h (by simp)
  | .native => isFalse fun ⟨_, h⟩ ↦ absurd h (by simp)

/-- A host name that the outbound writes into a buffer fits in it, and the version of SOCKS is 4 or
5. -/
def TcpOutbound.Usable : TcpOutbound → Prop
  | .socks proxy vers => proxy.Short ∧ vers ≠ .any
  | .dokodemo own => own.Short
  | _ => True

/-- What `tcp_outbound_client` begins with is there: the socket, and the target, if the outbound has
none of its own. -/
def TcpOutbound.Starts (outbound : TcpOutbound) (socket : Bool) (target : Option TargetId) : Prop :=
  socket = true ∧ (target.isSome = true ∨ outbound.IsDokodemo)

instance (outbound : TcpOutbound) (socket : Bool) (target : Option TargetId) :
    Decidable (outbound.Starts socket target) := inferInstanceAs (Decidable (_ ∧ _))

/-! ### Accepting -/

/-- `tcp_socket_handshake` of a socket that the relay has accepted and, if that succeeds,
`tcp_socket_target`; the sockets of a dokodemo inbound are native ones, which have none. -/
def tcpInboundHandshake (C : Crypto) (calls : SocketCalls) :
    TcpInbound → FdProc (Option (Option TargetId))
  | .vmess config _ => do
    let sock := vmessTcpSocketNewFd config calls.auth
    let (ret, sock) ← vmessTcpSocketHandshakeC C calls.rand sock (calls.clock sock.config) none
    if ret then
      let target ← FdProc.ofOption sock.addr
      return some (some target)
    else return none
  | .socks _ => do
    let (ret, sock) ← socksTcpSocketHandshakeC calls.resolver (socksTcpSocketNewFd .any) none
    if ret then
      let target ← FdProc.ofOption sock.addr
      return some (some target)
    else return none
  | .dokodemo _ => return some none

/-! ### Connecting -/

section

variable (I : Inet) (calls : SocketCalls)

/-- The end of the `client` of every outbound: a socket that is connected is returned, and another
one closed and freed. -/
def tcpClientResult {σ : Type} (close : OutFd → OutFd) : Bool × σ → FdProc (Option σ)
  | (true, sock) => return some sock
  | (false, _) => fun s out ↦ (close out, .done none s)

/-- What the `client` of every outbound does: a socket is made, the target is dereferenced, and the
socket is connected to it. -/
def tcpClientConnect {σ : Type} (connect : CString → CString → FdProc (Bool × σ))
    (close : OutFd → OutFd) (target : Option TargetId) : FdProc (Option σ) := do
  FdProc.ofOption (socketStream calls)
  let target ← FdProc.ofOption target
  let connected ← FdProc.ofOption <|
    tcpSocketConnectTarget I connect target calls.nodeBuf calls.servBuf
  tcpClientResult close (← connected)

/-- `_vmess_tcp_outbound_client`. -/
def vmessTcpOutboundClient (C : Crypto) (config : VmessConfig) (proxy : TargetId)
    (target : Option TargetId) : FdProc (Option VmessTcpSocket) :=
  let sock := vmessTcpSocketAuth C
    (vmessTcpSocketSetProxy (vmessTcpSocketNewFd config calls.auth) proxy) calls.time
  tcpClientConnect I calls
    (vmessTcpSocketConnect C I calls.unset calls.rand calls.resolver calls.connect sock
      (calls.clock sock.config)) vmessTcpSocketClose target

/-- `_socks_tcp_outbound_client`. -/
def socksTcpOutboundClient (proxy : TargetId) (socksVers : SocksVersion)
    (target : Option TargetId) : FdProc (Option SocksTcpSocket) :=
  let sock := socksTcpSocketSetProxy (socksTcpSocketNewFd socksVers) proxy
  tcpClientConnect I calls
    (socksTcpSocketConnect I calls.unset calls.printBuf calls.resolver calls.connect sock)
    socketShutdownWrite target

/-- `_native_tcp_outbound_client`. -/
def nativeTcpOutboundClient (target : Option TargetId) : FdProc (Option Unit) :=
  tcpClientConnect I calls
    (fun node port ↦ return (nativeTcpSocketConnect calls.getsockaddr calls.connect node port, ()))
    socketShutdownWrite target

/-- `_dokodemo_tcp_outbound_client`: the target is its own. -/
def dokodemoTcpOutboundClient (own : TargetId) (_ : Option TargetId) : FdProc (Option Unit) :=
  nativeTcpOutboundClient I calls (some own)

/-- `tcp_outbound_client`: whether a socket is returned. -/
def TcpOutbound.client (C : Crypto) (outbound : TcpOutbound) (target : Option TargetId) :
    FdProc Bool :=
  match outbound with
  | .vmess config proxy => return (← vmessTcpOutboundClient I calls C config proxy target).isSome
  | .socks proxy vers => return (← socksTcpOutboundClient I calls proxy vers target).isSome
  | .dokodemo own => return (← dokodemoTcpOutboundClient I calls own target).isSome
  | .native => return (← nativeTcpOutboundClient I calls target).isSome

end

end Vmecs
