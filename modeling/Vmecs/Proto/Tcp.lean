import Vmecs.Proto.Common
import Vmecs.Pub.Fd

/-!
# The socket interface (`proto/tcp.h`)

A `tcp_socket_t` is a table of functions and the state they work on. Of the table, these are the
functions that the relay calls on the sockets of a pair. The state of a socket includes all that the
kernel will answer to it, so that each function is one of the state alone.

`tcp_socket_connect_target` hands a target to the `connect` of a socket as two texts.
-/

namespace Vmecs

/-- `tcp_socket_try_read`, `tcp_socket_write` and `tcp_socket_close`, on sockets with state `σ`. A
read gives its result and the bytes it has stored, a write its result; nothing is a call that does
not return. -/
structure TcpSocketOps (σ : Type) where
  tryRead : ℕ → σ → Option (ℤ × Bytes × σ)
  write : Bytes → σ → Option (ℤ × σ)
  close : σ → σ

/-- `tcp_socket_connect_target`: `connect` is what the socket does with the two texts, and `nodeBuf`
and `servBuf` are what the buffers hold at first. Nothing is a failed assertion, or an access out of
bounds. -/
def tcpSocketConnectTarget {β : Type} (I : Inet) (connect : CString → CString → β)
    (target : TargetId) (nodeBuf : Block (targetIdMaxDomain + 1))
    (servBuf : Block (targetIdMaxPort + 1)) : Option β := do
  let nodeBuf ← targetIdNode I target nodeBuf
  let servBuf ← targetIdPort target servBuf
  let node ← nodeBuf.string
  let port ← servBuf.string
  some (connect node port)

/-- **What a connection is told**: two texts that are parsed as what the target denotes. -/
theorem tcpSocketConnectTarget_eq {I : Inet} (hI : InetLaws I) {target : TargetId}
    (h : target.Short) (nodeBuf : Block (targetIdMaxDomain + 1))
    (servBuf : Block (targetIdMaxPort + 1)) :
    ∃ node port, (∀ unset, targetIdParse I unset node port = some (target.denoted I)) ∧
      ∀ {β : Type} (connect : CString → CString → β),
        tcpSocketConnectTarget I connect target nodeBuf servBuf = some (connect node port) := by
  obtain ⟨nodeBuf', node, hnode, hnodeString, hdenoted⟩ :=
    string_targetIdNode hI h nodeBuf (Nat.le_succ _)
  obtain ⟨servBuf', hport, hportString⟩ := string_targetIdPort target servBuf (Nat.le_succ _)
  refine ⟨node, ⟨sprintfD target.port.toNat, zero_notMem_sprintfD _⟩, fun unset ↦ ?_,
    fun connect ↦ ?_⟩
  · rw [targetIdParse_sprintfD, hdenoted]
  · simp only [tcpSocketConnectTarget, hnode, hport, hnodeString, hportString, Option.bind_eq_bind,
      Option.bind_some]

/-- The result of `read(2)` as `fd_try_read` returns it. -/
def ReadAnswer.result : ReadAnswer → ℤ
  | .data bs => bs.length
  | .eof => 0
  | .again => -2
  | .fail => -1

end Vmecs
