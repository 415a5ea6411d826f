import Mathlib.Logic.Function.Basic
import Vmecs.Lib.Run
import Vmecs.Proto.Vmess.Chunks

/-!
# Sessions

A client and a server of one user, with a reliable transport in between that keeps the order of the
bytes and cuts them as it likes. Each end is in its handshake or established, and in either may be
in the middle of a call; the answers that a call has had come one at a time, whenever it waits, and
each brings some of what the peer has sent and the end has not yet taken. While a read waits its
socket can be written to and closed: the two work on different parts of the socket.

A handshake in progress is the function of the source on the answers so far, so what it has written
until then is what the function has written on them.
-/

namespace Vmecs

/-- The ends of a session. -/
inductive SessionEnd where
  | client
  | server
  deriving DecidableEq

/-- The other end. -/
def SessionEnd.peer : SessionEnd → SessionEnd
  | client => server
  | server => client

/-- What a client and a server of one user begin with. -/
structure VmessPeers where
  userId : Data128
  /-- the argument of `vmess_tcp_socket_auth` -/
  genTime : UInt64
  /-- the target that the client is to be connected to, and its proxy -/
  target : TargetId
  proxy : TargetId
  /-- the results of `rand()` in the client -/
  rand : ℕ → Rand
  /-- the time in the server, at each call of its decoder -/
  clock : ℕ → Clock (vmessConfigNew userId)
  /-- the field `auth` of a new socket -/
  uninit : SessionEnd → VmessAuth

namespace VmessPeers

/-- The socket of an end before the handshake. -/
def socket (C : Crypto) (P : VmessPeers) : SessionEnd → VmessTcpSocket
  | .client =>
    vmessTcpSocketAuth C
      (vmessTcpSocketSetProxy
        (vmessTcpSocketNewFd (vmessConfigNew P.userId) (P.uninit .client)) P.proxy) P.genTime
  | .server => vmessTcpSocketNewFd (vmessConfigNew P.userId) (P.uninit .server)

/-- The handshake of an end. -/
def handshake (C : Crypto) (P : VmessPeers) : SessionEnd → FdProc (Bool × VmessTcpSocket)
  | .client => vmessTcpSocketHandshakeC C P.rand (P.socket C .client) P.clock (some P.target)
  | .server => vmessTcpSocketHandshakeC C P.rand (P.socket C .server) P.clock none

end VmessPeers

/-! ### States -/

/-- A read in progress: its arguments, and the answers it has had. -/
structure ReadCall where
  size : ℕ
  block : Bool
  got : Reads

/-- An end of a session. -/
inductive VmessParty where
  /-- in its handshake, which has had these answers -/
  | handshaking (got : Reads)
  /-- after its handshake, perhaps in a read -/
  | established (sock : VmessTcpSocket) (out : OutFd) (call : Option ReadCall)
  /-- after a handshake that failed -/
  | failed (out : OutFd)

/-- A session: its ends, and all that each of them has taken off the stream of its peer. -/
structure Session where
  party : SessionEnd → VmessParty
  taken : SessionEnd → Bytes

/-- Both ends begin with their handshake. -/
def sessionStart : Session where
  party _ := .handshaking []
  taken _ := []

/-- The answers that the read in progress has had. -/
def readAnswers : Option ReadCall → Reads
  | none => []
  | some call => call.got

/-- A read on a socket. -/
def ReadCall.run (C : Crypto) (sock : VmessTcpSocket) (call : ReadCall) (s : Reads) :
    Outcome (ℤ × Bytes × VmessReadBuffers) :=
  vmessTcpSocketReadC C sock.auth call.size call.block sock.toVmessReadBuffers s

/-- The writing side of an end. -/
def VmessParty.out (C : Crypto) (P : VmessPeers) (x : SessionEnd) : VmessParty → OutFd
  | handshaking got => (P.handshake C x got {}).1
  | established _ out _ => out
  | failed out => out

/-- The call in progress waits for up to `want` bytes. -/
def VmessParty.Waits (C : Crypto) (P : VmessPeers) (x : SessionEnd) (want : ℕ) : VmessParty → Prop
  | handshaking got => (P.handshake C x got {}).2 = .wait want
  | established sock _ (some call) => call.run C sock call.got = .wait want
  | _ => False

/-- One more answer for the call in progress. -/
def VmessParty.give (a : ReadAnswer) : VmessParty → VmessParty
  | handshaking got => handshaking (got ++ [a])
  | established sock out (some call) =>
    established sock out (some { call with got := call.got ++ [a] })
  | party => party

/-- The answers that the transport can give to an end that has taken `taken`: some bytes, in the
order in which the peer has sent them; the end of the stream, when the peer has shut it down and
everything has been taken; and that there is nothing yet, whatever is on its way. -/
def CanAnswer (taken : Bytes) (peer : OutFd) : ReadAnswer → Prop
  | .data bs => taken ++ bs <+: peer.sent
  | .eof => peer.shut = true ∧ taken = peer.sent
  | .again => True
  | .fail => False

namespace Session

/-- The writing side of an end. -/
def out (C : Crypto) (P : VmessPeers) (s : Session) (x : SessionEnd) : OutFd :=
  (s.party x).out C P x

/-- Nothing is on its way to the end. -/
def Arrived (C : Crypto) (P : VmessPeers) (s : Session) (x : SessionEnd) : Prop :=
  s.taken x = (s.out C P x.peer).sent

/-- The session with an end changed. -/
def setParty (s : Session) (x : SessionEnd) (party : VmessParty) : Session :=
  { s with party := Function.update s.party x party }

end Session

/-! ### Steps -/

/-- What happens in a session. -/
inductive SessionEvent where
  /-- the call in progress gets an answer -/
  | answer (x : SessionEnd) (a : ReadAnswer)
  /-- the handshake returns -/
  | handshook (x : SessionEnd) (ok : Bool)
  /-- `tcp_socket_read` (`block`) or `tcp_socket_try_read` is called -/
  | readCalled (x : SessionEnd) (size : ℕ) (block : Bool)
  /-- and returns, with these bytes stored -/
  | readReturned (x : SessionEnd) (block : Bool) (res : ℤ) (bs : Bytes)
  /-- `tcp_socket_write` -/
  | wrote (x : SessionEnd) (bs : Bytes)
  /-- `tcp_socket_close` -/
  | closed (x : SessionEnd)

/-- The steps of a session. An end writes nothing empty, nothing after it has closed, and closes
once. -/
inductive SessionStep (C : Crypto) (P : VmessPeers) : Session → SessionEvent → Session → Prop where
  | answer {s : Session} {x : SessionEnd} {want : ℕ} {a : ReadAnswer}
      (hw : (s.party x).Waits C P x want) (hfit : a.Fits want)
      (hcan : CanAnswer (s.taken x) (s.out C P x.peer) a) :
      SessionStep C P s (.answer x a)
        ⟨Function.update s.party x ((s.party x).give a),
          Function.update s.taken x (s.taken x ++ a.bytes)⟩
  | handshook {s : Session} {x : SessionEnd} {got rest : Reads} {out : OutFd} {ok : Bool}
      {sock : VmessTcpSocket} (hp : s.party x = .handshaking got)
      (h : P.handshake C x got {} = (out, .done (ok, sock) rest)) :
      SessionStep C P s (.handshook x ok)
        (s.setParty x (if ok then .established sock out none else .failed out))
  | readCalled {s : Session} {x : SessionEnd} {sock : VmessTcpSocket} {out : OutFd} {size : ℕ}
      (block : Bool) (hp : s.party x = .established sock out none) (hsize : 1 ≤ size) :
      SessionStep C P s (.readCalled x size block)
        (s.setParty x (.established sock out (some ⟨size, block, []⟩)))
  | readReturned {s : Session} {x : SessionEnd} {sock : VmessTcpSocket} {out : OutFd}
      {call : ReadCall} {res : ℤ} {bs : Bytes} {bufs : VmessReadBuffers} {rest : Reads}
      (hp : s.party x = .established sock out (some call))
      (h : call.run C sock call.got = .done (res, bs, bufs) rest) :
      SessionStep C P s (.readReturned x call.block res bs)
        (s.setParty x (.established (sock.setBuffers bufs) out none))
  | wrote {s : Session} {x : SessionEnd} {sock sock' : VmessTcpSocket} {out out' : OutFd}
      {call : Option ReadCall} {bs : Bytes} {ret : ℤ}
      (hp : s.party x = .established sock out call) (hopen : out.shut = false) (hbs : bs ≠ [])
      (h : vmessTcpSocketWrite C bs sock out = some (ret, sock', out')) :
      SessionStep C P s (.wrote x bs) (s.setParty x (.established sock' out' call))
  | closed {s : Session} {x : SessionEnd} {sock : VmessTcpSocket} {out : OutFd}
      {call : Option ReadCall} (hp : s.party x = .established sock out call)
      (hopen : out.shut = false) :
      SessionStep C P s (.closed x)
        (s.setParty x (.established sock (vmessTcpSocketClose out) call))

/-! ### Observations -/

/-- The bytes that an event returns to the reader of an end. -/
def SessionEvent.returned (x : SessionEnd) : SessionEvent → Bytes
  | readReturned y _ _ bs => if y = x then bs else []
  | _ => []

/-- The bytes that an event writes. -/
def SessionEvent.written (x : SessionEnd) : SessionEvent → Bytes
  | wrote y bs => if y = x then bs else []
  | _ => []

/-- The messages that an event sends. -/
def SessionEvent.sent (x : SessionEnd) : SessionEvent → List DataTrunk
  | wrote y bs => if y = x then (vmessPieces bs).map fun piece ↦ ⟨some piece⟩ else []
  | closed y => if y = x then [endTrunk] else []
  | _ => []

/-- All bytes that the reads of an end have returned. -/
def returnedTo (es : List SessionEvent) (x : SessionEnd) : Bytes := es.flatMap (·.returned x)

/-- All bytes that an end has written. -/
def writtenBy (es : List SessionEvent) (x : SessionEnd) : Bytes := es.flatMap (·.written x)

/-- All messages that an end has sent behind its header. -/
def sentBy (es : List SessionEvent) (x : SessionEnd) : List DataTrunk := es.flatMap (·.sent x)

/-- The end has closed its direction. -/
def HasClosed (es : List SessionEvent) (x : SessionEnd) : Prop := .closed x ∈ es

theorem flatMap_bytes_vmessPieces (bs : Bytes) :
    ((vmessPieces bs).map fun piece ↦ (⟨some piece⟩ : DataTrunk)).flatMap DataTrunk.bytes = bs := by
  rw [List.flatMap_map]
  show (vmessPieces bs).flatMap id = bs
  rw [List.flatMap_id, flatten_vmessPieces]

/-- The messages sent have the bytes written as their data. -/
theorem flatMap_bytes_sentBy (es : List SessionEvent) (x : SessionEnd) :
    (sentBy es x).flatMap DataTrunk.bytes = writtenBy es x := by
  rw [sentBy, writtenBy, List.flatMap_assoc]
  refine List.flatMap_congr fun e _ ↦ ?_
  cases e with
  | wrote y bs =>
    rw [SessionEvent.sent, SessionEvent.written]
    split
    · exact flatMap_bytes_vmessPieces bs
    · rfl
  | closed y =>
    show (if y = x then [endTrunk] else []).flatMap DataTrunk.bytes = []
    split <;> rfl
  | _ => rfl

/-- The end message is sent by closing. -/
theorem endTrunk_mem_sentBy {es : List SessionEvent} {x : SessionEnd} :
    endTrunk ∈ sentBy es x ↔ HasClosed es x := by
  rw [sentBy, List.mem_flatMap, HasClosed]
  constructor
  · rintro ⟨e, he, hmem⟩
    cases e with
    | wrote y bs =>
      rw [SessionEvent.sent] at hmem
      split at hmem <;> simp [endTrunk] at hmem
    | closed y =>
      rw [SessionEvent.sent] at hmem
      split at hmem
      case isTrue heq => exact heq ▸ he
      case isFalse => exact absurd hmem List.not_mem_nil
    | _ => exact absurd hmem List.not_mem_nil
  · intro h
    exact ⟨_, h, by simp [SessionEvent.sent]⟩

theorem returnedTo_concat (es : List SessionEvent) (e : SessionEvent) (x : SessionEnd) :
    returnedTo (es ++ [e]) x = returnedTo es x ++ e.returned x := by
  simp [returnedTo]

theorem sentBy_concat (es : List SessionEvent) (e : SessionEvent) (x : SessionEnd) :
    sentBy (es ++ [e]) x = sentBy es x ++ e.sent x := by
  simp [sentBy]

theorem returnedTo_concat_of_nil {es : List SessionEvent} {e : SessionEvent} {x : SessionEnd}
    (h : e.returned x = []) : returnedTo (es ++ [e]) x = returnedTo es x := by
  rw [returnedTo_concat, h, List.append_nil]

theorem sentBy_concat_of_nil {es : List SessionEvent} {e : SessionEvent} {x : SessionEnd}
    (h : e.sent x = []) : sentBy (es ++ [e]) x = sentBy es x := by
  rw [sentBy_concat, h, List.append_nil]

/-- The end that an event is about. -/
def SessionEvent.side : SessionEvent → SessionEnd
  | answer x _ => x
  | handshook x _ => x
  | readCalled x _ _ => x
  | readReturned x _ _ _ => x
  | wrote x _ => x
  | closed x => x

/-- An event is about one end only. -/
theorem returnedTo_concat_of_ne {es : List SessionEvent} {e : SessionEvent} {x : SessionEnd}
    (h : e.side ≠ x) : returnedTo (es ++ [e]) x = returnedTo es x := by
  refine returnedTo_concat_of_nil ?_
  cases e with
  | readReturned y _ _ bs => exact if_neg h
  | _ => rfl

theorem sentBy_concat_of_ne {es : List SessionEvent} {e : SessionEvent} {x : SessionEnd}
    (h : e.side ≠ x) : sentBy (es ++ [e]) x = sentBy es x := by
  refine sentBy_concat_of_nil ?_
  cases e with
  | wrote y bs => exact if_neg h
  | closed y => exact if_neg h
  | _ => rfl

end Vmecs
