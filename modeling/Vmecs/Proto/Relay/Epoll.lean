import Vmecs.Proto.Relay.Etcp
import Vmecs.Proto.Vmess.Tcp

/-!
# A pair of VMess sockets under epoll

The descriptors of a relayed pair are registered with `FD_EPOLL_ET`: an event is reported when
something arrives, and not because there is still something to be had. `KernelFd` is what the kernel
has received for a descriptor and not yet given out, and whether something has arrived since the
handler last found nothing there. While a handler runs more may arrive; so the answers to its reads
are served by a kernel whose arrivals come in between (`Serves`).

A run begins where the pair is registered: both handshakes have returned, with what they have had
from the kernel, and some bytes may have arrived since (`Registration`).
-/

namespace Vmecs

/-! ### The kernel -/

/-- The reading side of a descriptor, as the kernel has it. -/
structure KernelFd where
  /-- the bytes received and not yet read -/
  queue : Bytes
  /-- the end of the stream has been received -/
  fin : Bool
  /-- something has arrived since the descriptor was last found drained -/
  pending : Bool

/-- Something arrives. -/
inductive Arrives : KernelFd → KernelFd → Prop where
  | data {fd : KernelFd} {bs : Bytes} (hopen : fd.fin = false) (hbs : bs ≠ []) :
      Arrives fd { fd with queue := fd.queue ++ bs, pending := true }
  | fin {fd : KernelFd} (hopen : fd.fin = false) :
      Arrives fd { fd with fin := true, pending := true }

/-- The kernel answers a sequence of reads, while more may arrive. A descriptor that has nothing to
give is drained. -/
inductive Serves : KernelFd → Reads → KernelFd → Prop where
  | nil (fd : KernelFd) : Serves fd [] fd
  | arrive {fd fd₁ fd' : KernelFd} {ans : Reads} (h : Arrives fd fd₁) (ht : Serves fd₁ ans fd') :
      Serves fd ans fd'
  | data {fd fd' : KernelFd} {bs queue : Bytes} {ans : Reads} (h : fd.queue = bs ++ queue)
      (ht : Serves { fd with queue } ans fd') : Serves fd (.data bs :: ans) fd'
  | again {fd fd' : KernelFd} {ans : Reads} (h : fd.queue = []) (hopen : fd.fin = false)
      (ht : Serves { fd with pending := false } ans fd') : Serves fd (.again :: ans) fd'
  | eof {fd fd' : KernelFd} {ans : Reads} (h : fd.queue = []) (hfin : fd.fin = true)
      (ht : Serves { fd with pending := false } ans fd') : Serves fd (.eof :: ans) fd'
  | fail {fd fd' : KernelFd} {ans : Reads} (ht : Serves fd ans fd') : Serves fd (.fail :: ans) fd'

/-! ### Registration -/

/-- The socket before the handshake, with its target: one that was accepted, or a client's. -/
inductive FreshSocket (C : Crypto) : VmessTcpSocket → Option TargetId → Prop where
  | server (config : VmessConfig) (auth : VmessAuth) :
      FreshSocket C (vmessTcpSocketNewFd config auth) none
  | client (config : VmessConfig) (auth : VmessAuth) (proxy : TargetId) (genTime : UInt64)
      (target : TargetId) :
      FreshSocket C
        (vmessTcpSocketAuth C (vmessTcpSocketSetProxy (vmessTcpSocketNewFd config auth) proxy)
          genTime) (some target)

/-- A socket at its registration: its handshake, on what the kernel has answered to it, and what the
kernel has received by then. -/
structure Registration (C : Crypto) where
  sock : VmessTcpSocket
  target : Option TargetId
  fresh : FreshSocket C sock target
  rand : ℕ → Rand
  clock : ℕ → Clock sock.config
  reads : Reads
  out : OutFd
  /-- the socket after the handshake, and the writing side of its descriptor -/
  shaken : VmessTcpSocket
  out' : OutFd
  rest : Reads
  returns : vmessTcpSocketHandshakeC C rand sock clock target reads out =
    (out', .done (true, shaken) rest)
  queue : Bytes
  fin : Bool

namespace Registration

variable {C : Crypto}

/-- The socket as the relay has it. -/
def conn (reg : Registration C) : VmessConn := ⟨reg.shaken, [], reg.out'⟩

/-- Something can be read from the descriptor as it is registered. -/
def Readable (reg : Registration C) : Prop := reg.queue ≠ [] ∨ reg.fin = true

instance (reg : Registration C) : Decidable reg.Readable := inferInstanceAs (Decidable (_ ∨ _))

/-- A descriptor that is readable when it is added to the epoll instance is reported. -/
def fd (reg : Registration C) : KernelFd := ⟨reg.queue, reg.fin, decide reg.Readable⟩

end Registration

/-! ### The relay -/

/-- A relayed pair, and the descriptors that its records read from. -/
structure EpollPair where
  pair : EtcpPair VmessConn
  fd : EtcpRelayConn → KernelFd

/-- The pair at its registration. -/
def epollPairNew {C : Crypto} (inbound outbound : Registration C) : EpollPair where
  pair := etcpPairNew inbound.conn outbound.conn
  fd
    | .conn1 => inbound.fd
    | .conn2 => outbound.fd

/-- The inbound socket of a record. -/
def EpollPair.sock (r : EpollPair) (conn : EtcpRelayConn) : VmessTcpSocket :=
  (r.pair.inSock conn).sock

/-- The pair, with the kernel's answers to the inbound socket of a record. -/
def EpollPair.withReads (r : EpollPair) (conn : EtcpRelayConn) (ans : Reads) : EtcpPair VmessConn :=
  { r.pair with
    inSock := Function.update r.pair.inSock conn { r.pair.inSock conn with reads := ans } }

/-- What happens to a pair. -/
inductive EpollEvent where
  /-- something arrives for a record -/
  | arrived (conn : EtcpRelayConn)
  /-- a record is handled; `seen` is what its socket had in `raw_buf` and what the handler has read
  -/
  | handled (conn : EtcpRelayConn) (seen : Bytes) (res : ℤ)

/-- The steps of a pair. The kernel gives the handler the answers it asks for, and no more. -/
inductive EpollStep (C : Crypto) : EpollPair → EpollEvent → EpollPair → Prop where
  | arrived {r : EpollPair} {conn : EtcpRelayConn} {fd' : KernelFd} (h : Arrives (r.fd conn) fd') :
      EpollStep C r (.arrived conn) { r with fd := Function.update r.fd conn fd' }
  | handled {r : EpollPair} {conn : EtcpRelayConn} {ans : Reads} {fd' : KernelFd}
      {p' : EtcpPair VmessConn} {res : ℤ} (hserves : Serves (r.fd conn) ans fd')
      (hasked : ∀ pre, pre <+: ans → pre ≠ ans →
        ∀ fuel, etcpHandle (vmessTcpSocketOps C) fuel conn (r.withReads conn pre) = none)
      (h : EtcpStep (vmessTcpSocketOps C) (r.withReads conn ans) ⟨conn, res⟩ p') :
      EpollStep C r (.handled conn ((r.sock conn).rawBuf.data ++ streamBytes ans) res)
        ⟨p', Function.update r.fd conn fd'⟩

end Vmecs
