import Vmecs.Lib.Heap
import Vmecs.Proto.Relay.Etcp

/-!
# The worker of the epoll relay (`proto/relay/etcp.c`)

The worker as it runs on its heap: the records and the sockets are blocks, the pointers of a record
may dangle, and every access asks whether its block is there. An access to a block that is not is a
fault (`EtcpStop.fault`), as is a second `free`; a handling without a fault has used and freed
nothing that had been freed.

What the calls of a handling return is up to the environment (`EtcpAnswers`): an accepted socket or
none, the success of a handshake and of a connection, the number of turns of the loop. The sockets
that it hands out have descriptors that are not open (`EtcpAnswers.Valid`). Both calls of
`epoll_ctl` succeed.
-/

namespace Vmecs

variable {σ : Type}

/-- A `tcp_socket_t` with the descriptor that `tcp_socket_revent` returns. -/
structure TcpEndpoint (σ : Type) where
  fd : ℤ
  sock : σ

/-- `etcp_relay_conn_t`; pointers are numbers of blocks. -/
structure EtcpConnBlock where
  inFd : ℤ
  outFd : ℤ
  inSock : ℕ
  outSock : Option ℕ
  pair : Option ℕ
  nclosed : ℕ

/-- What a worker works on: the records, the sockets, and the pointer that is registered with its
epoll instance for a descriptor. -/
structure EtcpHeap (σ : Type) where
  conns : BlockHeap EtcpConnBlock
  socks : BlockHeap (TcpEndpoint σ)
  epoll : ℤ → Option ℕ

/-- Why a handling does not come to its end: it has used a block that is not there, or the loop is
not done within its turns. -/
inductive EtcpStop where
  | fault
  | waits

/-- A function of the worker. -/
abbrev EtcpM (σ : Type) := StateT (EtcpHeap σ) (Except EtcpStop)

/-- What the calls of a handling return. -/
structure EtcpAnswers (σ : Type) where
  /-- `tcp_socket_accept`: the new socket, if there is one -/
  accept : Option (TcpEndpoint σ)
  /-- `tcp_socket_handshake`: whether it succeeds, and what it makes of the socket -/
  handshake : σ → Bool × σ
  /-- `tcp_outbound_client`: the socket that it creates and tries to connect, and whether it is -/
  client : TcpEndpoint σ × Bool
  /-- the number of turns of the loop -/
  fuel : ℕ

/-! ### Blocks -/

/-- A dereferenced `etcp_relay_conn_t *`. -/
def etcpLoadConn (conn : ℕ) : EtcpM σ EtcpConnBlock := fun w ↦
  match w.conns.get conn with
  | some c => .ok (c, w)
  | none => .error .fault

/-- A field of a record is assigned. -/
def etcpModifyConn (conn : ℕ) (f : EtcpConnBlock → EtcpConnBlock) : EtcpM σ Unit := fun w ↦
  match w.conns.get conn with
  | some _ => .ok ((), { w with conns := w.conns.modify conn f })
  | none => .error .fault

/-- A dereferenced `tcp_socket_t *`. -/
def tcpLoadSocket (sock : ℕ) : EtcpM σ (TcpEndpoint σ) := fun w ↦
  match w.socks.get sock with
  | some s => .ok (s, w)
  | none => .error .fault

/-- A call that changes a socket. -/
def tcpModifySocket (sock : ℕ) (f : σ → σ) : EtcpM σ Unit := fun w ↦
  match w.socks.get sock with
  | some _ => .ok ((), { w with socks := w.socks.modify sock fun s ↦ { s with sock := f s.sock } })
  | none => .error .fault

/-- A new socket. -/
def tcpSocketNew (s : TcpEndpoint σ) : EtcpM σ ℕ := fun w ↦
  .ok (w.socks.next, { w with socks := w.socks.alloc s })

/-- `tcp_socket_free`. -/
def tcpSocketFree (sock : ℕ) : EtcpM σ Unit := fun w ↦
  match w.socks.get sock with
  | some _ => .ok ((), { w with socks := w.socks.free sock })
  | none => .error .fault

/-- `tcp_socket_close`. -/
def tcpSocketClose (ops : TcpSocketOps σ) (sock : ℕ) : EtcpM σ Unit :=
  tcpModifySocket sock ops.close

/-- `tcp_socket_revent`. -/
def tcpSocketRevent (sock : ℕ) : EtcpM σ ℤ := return (← tcpLoadSocket sock).fd

/-- A pointer that is dereferenced is not `NULL`. -/
def etcpNotNull (p : Option ℕ) : EtcpM σ ℕ :=
  match p with
  | some p => pure p
  | none => throw .fault

/-- `fd_epoll_ctl` with `FD_EPOLL_ADD`. -/
def fdEpollAdd (fd : ℤ) (ptr : ℕ) : EtcpM σ Unit := fun w ↦
  .ok ((), { w with epoll := Function.update w.epoll fd (some ptr) })

/-- `fd_epoll_ctl` with `FD_EPOLL_DEL`. -/
def fdEpollDel (fd : ℤ) : EtcpM σ Unit := fun w ↦
  .ok ((), { w with epoll := Function.update w.epoll fd none })

/-! ### Calls that the environment answers -/

/-- `tcp_socket_accept`. -/
def tcpSocketAccept (a : EtcpAnswers σ) (sock : ℕ) : EtcpM σ (Option ℕ) := do
  let _ ← tcpLoadSocket sock
  match a.accept with
  | none => return none
  | some s => return some (← tcpSocketNew s)

/-- `tcp_socket_handshake`: whether it succeeds. -/
def tcpSocketHandshake (a : EtcpAnswers σ) (sock : ℕ) : EtcpM σ Bool := do
  let s ← tcpLoadSocket sock
  tcpModifySocket sock fun s ↦ (a.handshake s).2
  return (a.handshake s.sock).1

/-- `tcp_outbound_client`: every outbound creates a socket, and closes and frees it if it does not
get connected. -/
def tcpOutboundClient (ops : TcpSocketOps σ) (a : EtcpAnswers σ) : EtcpM σ (Option ℕ) := do
  let sock ← tcpSocketNew a.client.1
  if a.client.2 then return some sock
  else do
    tcpSocketClose ops sock
    tcpSocketFree sock
    return none

/-- The loop of `etcp_handle`, on the two sockets: the result it ends with. -/
def etcpPumpSockets (ops : TcpSocketOps σ) (fuel : ℕ) (inSock outSock : ℕ) : EtcpM σ ℤ := do
  let i ← tcpLoadSocket inSock
  let o ← tcpLoadSocket outSock
  match etcpPump ops fuel i.sock o.sock with
  | none => throw .waits
  | some (res, i', o') => do
    tcpModifySocket inSock fun _ ↦ i'
    tcpModifySocket outSock fun _ ↦ o'
    return res

namespace EtcpHeap

/-! ### Records -/

/-- `etcp_relay_conn_new`. -/
def etcpRelayConnNew (inFd outFd : ℤ) (inSock : ℕ) (outSock : Option ℕ) : EtcpM σ ℕ := fun w ↦
  .ok (w.conns.next,
    { w with conns := w.conns.alloc ⟨inFd, outFd, inSock, outSock, none, 0⟩ })

/-- `etcp_relay_conn_link`. -/
def etcpRelayConnLink (c1 c2 : ℕ) : EtcpM σ Unit := do
  etcpModifyConn c1 fun c ↦ { c with pair := some c2 }
  etcpModifyConn c2 fun c ↦ { c with pair := some c1 }

/-- `etcp_relay_conn_free`. -/
def etcpRelayConnFree (conn : ℕ) : EtcpM σ Unit := fun w ↦
  match w.conns.get conn with
  | some _ => .ok ((), { w with conns := w.conns.free conn })
  | none => .error .fault

/-- `etcp_remove_conn`. -/
def etcpRemoveConn (ops : TcpSocketOps σ) (conn : ℕ) : EtcpM σ Unit := do
  let c ← etcpLoadConn conn
  fdEpollDel c.inFd
  fdEpollDel c.outFd
  let outSock ← etcpNotNull c.outSock
  if c.nclosed = 0 then do
    tcpSocketClose ops c.inSock
    tcpSocketClose ops outSock
  tcpSocketFree c.inSock
  tcpSocketFree outSock
  match c.pair with
  | some pair => etcpRelayConnFree pair
  | none => pure ()
  etcpRelayConnFree conn

/-- The part of `etcp_handle` for a listening socket. -/
def etcpHandleServer (ops : TcpSocketOps σ) (a : EtcpAnswers σ) (inSock : ℕ) : EtcpM σ Unit := do
  match ← tcpSocketAccept a inSock with
  | none => pure ()
  | some newIn =>
    if ← tcpSocketHandshake a newIn then do
      -- `tcp_socket_target`
      let _ ← tcpLoadSocket newIn
      match ← tcpOutboundClient ops a with
      | none => do
        tcpSocketClose ops newIn
        tcpSocketFree newIn
      | some newOut => do
        let inFd ← tcpSocketRevent newIn
        let outFd ← tcpSocketRevent newOut
        let conn1 ← etcpRelayConnNew inFd outFd newIn (some newOut)
        let conn2 ← etcpRelayConnNew outFd inFd newOut (some newIn)
        etcpRelayConnLink conn1 conn2
        fdEpollAdd inFd conn1
        fdEpollAdd outFd conn2
    else do
      tcpSocketClose ops newIn
      tcpSocketFree newIn

/-- The part of `etcp_handle` for a record of a pair. -/
def etcpHandlePipe (ops : TcpSocketOps σ) (fuel : ℕ) (conn inSock outSock : ℕ) : EtcpM σ Unit := do
  let res ← etcpPumpSockets ops fuel inSock outSock
  if res = 0 then do
    tcpSocketClose ops outSock
    etcpModifyConn conn fun c ↦ { c with nclosed := c.nclosed + 1 }
    let pair ← etcpNotNull (← etcpLoadConn conn).pair
    etcpModifyConn pair fun c ↦ { c with nclosed := c.nclosed + 1 }
    if (← etcpLoadConn conn).nclosed = 2 then etcpRemoveConn ops conn
  else if res = -2 then pure ()
  else etcpRemoveConn ops conn

/-- `etcp_handle`. -/
def etcpHandle (ops : TcpSocketOps σ) (a : EtcpAnswers σ) (conn : ℕ) : EtcpM σ Unit := do
  let c ← etcpLoadConn conn
  match c.outSock with
  | none => etcpHandleServer ops a c.inSock
  | some outSock => etcpHandlePipe ops a.fuel conn c.inSock outSock

/-! ### Runs of a worker -/

/-- A worker as `tcp_relay_epoll` starts it, with the record of its listening socket. -/
def start (server : TcpEndpoint σ) : EtcpHeap σ where
  conns := BlockHeap.empty.alloc ⟨server.fd, -1, 0, none, none, 0⟩
  socks := BlockHeap.empty.alloc server
  epoll := Function.update (fun _ ↦ none) server.fd (some 0)

end EtcpHeap

/-- The descriptors of new sockets are those of no socket that is there. -/
structure EtcpAnswers.Valid (a : EtcpAnswers σ) (w : EtcpHeap σ) : Prop where
  accept : ∀ newIn, a.accept = some newIn → ∀ p s, w.socks.get p = some s → s.fd ≠ newIn.fd
  client : ∀ p s, w.socks.get p = some s → s.fd ≠ a.client.1.fd
  distinct : ∀ newIn, a.accept = some newIn → newIn.fd ≠ a.client.1.fd

/-- An event was reported for a registered pointer and handled. -/
structure EtcpDispatch (σ : Type) where
  ptr : ℕ
  answers : EtcpAnswers σ

/-- One turn of `etcp_worker`. -/
def EtcpWorkerStep (ops : TcpSocketOps σ) (w : EtcpHeap σ) (e : EtcpDispatch σ)
    (w' : EtcpHeap σ) : Prop :=
  (∃ fd, w.epoll fd = some e.ptr) ∧ e.answers.Valid w ∧
    EtcpHeap.etcpHandle ops e.answers e.ptr w = .ok ((), w')

end Vmecs
