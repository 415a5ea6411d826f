import Vmecs.Proto.Tcp

/-!
# Native sockets (`proto/native/tcp.c`)

A native socket passes every call on to its descriptor.
-/

namespace Vmecs

/-- `native_tcp_socket_t`: the two sides of its descriptor. -/
structure NativeTcpSocket where
  reads : Reads
  out : OutFd

/-- `_native_tcp_socket_read`. -/
def nativeTcpSocketRead (size : ℕ) (sock : NativeTcpSocket) :
    Option (ℤ × Bytes × NativeTcpSocket) :=
  match fdRead size sock.reads with
  | .done a reads => some (a.result, a.bytes, { sock with reads })
  | _ => none

/-- `_native_tcp_socket_try_read`. -/
def nativeTcpSocketTryRead (size : ℕ) (sock : NativeTcpSocket) :
    Option (ℤ × Bytes × NativeTcpSocket) :=
  match fdTryRead size sock.reads with
  | .done a reads => some (a.result, a.bytes, { sock with reads })
  | _ => none

/-- `_native_tcp_socket_write`. -/
def nativeTcpSocketWrite (buf : Bytes) (sock : NativeTcpSocket) : Option (ℤ × NativeTcpSocket) :=
  some ((fdWrite sock.out buf).1, { sock with out := (fdWrite sock.out buf).2 })

/-- `_native_tcp_socket_close`. -/
def nativeTcpSocketClose (sock : NativeTcpSocket) : NativeTcpSocket :=
  { sock with out := socketShutdownWrite sock.out }

/-- `_native_tcp_socket_connect`: whether the descriptor gets connected; `socketGetsockaddr` and
`socketConnect` are what the two calls answer. -/
def nativeTcpSocketConnect (socketGetsockaddr : CString → CString → Option SockAddr)
    (socketConnect : SockAddr → Bool) (node port : CString) : Bool :=
  match socketGetsockaddr node port with
  | none => false
  | some addr => socketConnect addr

/-- The table of `native_tcp_socket_new_fd`. -/
def nativeTcpSocketOps : TcpSocketOps NativeTcpSocket where
  tryRead := nativeTcpSocketTryRead
  write := nativeTcpSocketWrite
  close := nativeTcpSocketClose

end Vmecs
