import Vmecs.Lib.Run
import Vmecs.Proto.EndOfStream
import Vmecs.Proto.Relay.Sockets

/-!
# The threaded relay (`proto/relay/tcp.c`)

A thread copies what it reads from one socket of a connection to the other one, until a read gives 0
or -1. What a read has returned is the length that is passed to `tcp_socket_write`, so a read must
return nothing else but a count. A VMess socket returns -2 when the stream ends within a message,
and that is the only case (`tcpSocketRead_cases`); as a `size_t` it is a length far beyond the
buffer (`tcpRelay_lengths_iff`).
-/

namespace Vmecs

open StreamDecoder TcpSocket

variable {C : Crypto}

/-! ### Blocking reads -/

/-- `tcp_socket_read`, by the kind of the socket. -/
def tcpSocketRead (C : Crypto) (size : ℕ) : TcpSocket → Option (ℤ × Bytes × TcpSocket)
  | native sock => (nativeTcpSocketRead size sock).map fun (res, buf, sock) ↦
      (res, buf, .native sock)
  | socks conn =>
    match socksTcpSocketRead size conn.reads with
    | .done a reads => some (a.result, a.bytes, .socks { conn with reads })
    | _ => none
  | vmess conn => (vmessTcpSocketRead C size conn).map fun (res, buf, conn) ↦
      (res, buf, .vmess conn)

/-- A count of bytes, the end of the stream, or an error. -/
def ReadInRange (size : ℕ) (res : ℤ) : Prop := (1 ≤ res ∧ res ≤ size) ∨ res = 0 ∨ res = -1

/-- The next read gets to the end of the stream, and before a read error, without a whole message:
the stream ends in the middle of a chunk, or without the end chunk. -/
def TcpSocket.EndsTruncated (C : Crypto) : TcpSocket → Prop
  | native _ => False
  | socks _ => False
  | vmess conn => conn.sock.readBuf.eof = false ∧ conn.sock.readBuf.data = [] ∧
      Truncated (vmessDecodeData C conn.sock.auth) conn.sock.rawBuf.data conn.reads

/-- A blocking read of a descriptor. -/
theorem fdRead_inRange {size : ℕ} {s s' : Reads} {a : ReadAnswer}
    (h : fdRead size s = .done a s') : ReadInRange size a.result := by
  obtain ⟨bs, rfl, ⟨hpos, hle⟩, -⟩ | ⟨rfl, -⟩ | ⟨rfl, -⟩ := fdRead_done h
  · exact .inl ⟨Int.ofNat_le.2 hpos, Int.ofNat_le.2 hle⟩
  · exact .inr (.inl rfl)
  · exact .inr (.inr rfl)

/-- The switch over the result of the re-assembly gives -2 for an incomplete message only. -/
theorem vmessReadResult_cases {size : ℕ} (hsize : 1 ≤ size) (readBuf : VBuffer)
    (r : RBufferResult DataTrunk × RBuffer) :
    (ReadInRange size (vmessReadResult size readBuf r).1 ∧ r.1 ≠ .incomplete) ∨
      ((vmessReadResult size readBuf r).1 = -2 ∧ r.1 = .incomplete) := by
  match r with
  | (.success trunk, rawBuf) =>
    refine .inl ⟨?_, by simp⟩
    rw [vmessReadResult]
    split
    · exact .inr (.inl rfl)
    · split
      · exact .inl ⟨Int.ofNat_le.2 hsize, le_rfl⟩
      · refine .inl ⟨?_, ?_⟩
        · show (1 : ℤ) ≤ trunk.bytes.length
          omega
        · show (trunk.bytes.length : ℤ) ≤ size
          omega
  | (.error, rawBuf) => exact .inl ⟨.inr (.inr rfl), by simp⟩
  | (.incomplete, rawBuf) => exact .inr ⟨rfl, rfl⟩

/-- A blocking read of a VMess socket. -/
theorem vmessTcpSocketReadC_cases {auth : VmessAuth} {size : ℕ} (hsize : 1 ≤ size)
    {bufs bufs' : VmessReadBuffers} {s s' : Reads} {res : ℤ} {buf : Bytes}
    (h : vmessTcpSocketReadC C auth size true bufs s = .done (res, buf, bufs') s') :
    let ends := bufs.readBuf.eof = false ∧ bufs.readBuf.data = [] ∧
      Truncated (vmessDecodeData C auth) bufs.rawBuf.data s
    (ReadInRange size res ∧ ¬ends) ∨ (res = -2 ∧ ends) := by
  intro ends
  rw [vmessTcpSocketReadC_eq C auth hsize] at h
  split at h
  case isTrue heof =>
    obtain ⟨hr, -⟩ := Outcome.done.inj h
    refine .inl ⟨.inr (.inl (Prod.mk.inj hr).1.symm), fun hn ↦ ?_⟩
    exact absurd (hn.1.symm.trans heof) (by simp)
  case isFalse hopen =>
    split at h
    case isTrue hdata =>
      obtain ⟨hr, -⟩ := Outcome.done.inj h
      have hpos := List.length_pos_iff.2 hdata
      have hres := (Prod.mk.inj hr).1
      rw [List.length_take] at hres
      exact .inl ⟨.inl (by omega), fun hn ↦ hdata hn.2.1⟩
    case isFalse hdata =>
      obtain ⟨⟨r, rawBuf⟩, hcall, hr⟩ := Outcome.map_eq_done.1 h
      have hcall' : rbufferRead (vmessDecodeData C auth) bufs.rawBuf s = .done (r, rawBuf) s' :=
        hcall
      have hinc := rbufferRead_incomplete_iff (prompt_vmessDecodeData C auth).toStreaming hcall'
      have hcases := vmessReadResult_cases hsize bufs.readBuf (r, rawBuf)
      rw [hr] at hcases
      refine hcases.imp (fun ⟨hrange, hr'⟩ ↦ ⟨hrange, fun hn ↦ hr' (hinc.2 hn.2.2)⟩)
        fun ⟨hres, hr'⟩ ↦ ⟨hres, by simpa using hopen, by simpa using hdata, hinc.1 hr'⟩

/-- **What a blocking read returns**: a count between 1 and the size that was asked for, 0 or -1, or
-2 when the stream of a VMess socket ends within a message. -/
theorem tcpSocketRead_cases {size : ℕ} (hsize : 1 ≤ size) {sock sock' : TcpSocket} {res : ℤ}
    {buf : Bytes} (h : tcpSocketRead C size sock = some (res, buf, sock')) :
    (ReadInRange size res ∧ ¬sock.EndsTruncated C) ∨ (res = -2 ∧ sock.EndsTruncated C) := by
  match sock with
  | .native sock =>
    obtain ⟨⟨res', buf', sock'⟩, hread, hr⟩ := Option.map_eq_some_iff.1 h
    obtain ⟨rfl, -⟩ := Prod.mk.inj hr
    rw [nativeTcpSocketRead] at hread
    split at hread
    case h_1 hdone =>
      obtain ⟨rfl, -⟩ := Prod.mk.inj (Option.some.inj hread)
      exact .inl ⟨fdRead_inRange hdone, id⟩
    case h_2 => exact absurd hread (by simp)
  | .socks conn =>
    rw [tcpSocketRead] at h
    split at h
    case h_1 hdone =>
      obtain ⟨rfl, -⟩ := Prod.mk.inj (Option.some.inj h)
      exact .inl ⟨fdRead_inRange hdone, id⟩
    case h_2 => exact absurd h (by simp)
  | .vmess conn =>
    obtain ⟨⟨res', buf', conn'⟩, hread, hr⟩ := Option.map_eq_some_iff.1 h
    obtain ⟨rfl, -⟩ := Prod.mk.inj hr
    rw [vmessTcpSocketRead] at hread
    split at hread
    case h_1 hdone =>
      obtain ⟨rfl, -⟩ := Prod.mk.inj (Option.some.inj hread)
      exact vmessTcpSocketReadC_cases hsize hdone
    case h_2 => exact absurd hread (by simp)

/-! ### The loops -/

/-- `DEFAULT_BUFFER`: the size of the block. -/
def tcpRelayDefaultBuffer : ℕ := 8 * 1024

/-- `sizeof(buf)`, which the loops ask for: `buf` is a pointer. -/
def tcpRelaySizeofBuf : ℕ := 8

/-- The loop of `_tcp_relay_reader`, which reads from `out_sock` and writes to `in_sock`, or of
`_tcp_relay_writer`, which does the reverse. -/
structure TcpRelayLoop where
  source : TcpSocket
  sink : TcpSocket
  running : Bool

/-- A call of `tcp_socket_write`: the socket that was read from, as it was before the turn, and the
length that is passed. -/
structure TcpRelayEvent where
  source : TcpSocket
  length : ℕ

/-- A turn of the loop that gets to `tcp_socket_write`. The result of the read is passed as a
`size_t`. With a length beyond the block the write reads what is not there, and nothing is said
about the loop from then on. -/
def TcpRelayTurn (C : Crypto) (l : TcpRelayLoop) (e : TcpRelayEvent) (l' : TcpRelayLoop) : Prop :=
  l.running = true ∧ e.source = l.source ∧ ∃ nRead buf,
    tcpSocketRead C tcpRelaySizeofBuf l.source = some (nRead, buf, l'.source) ∧
    nRead ≠ 0 ∧ nRead ≠ -1 ∧ e.length = (nRead % 2 ^ 64).toNat ∧
    if e.length ≤ tcpRelayDefaultBuffer then
      ∃ nWrite, (tcpSocketOps C).write buf l.sink = some (nWrite, l'.sink) ∧
        l'.running = decide (nWrite ≠ 0 ∧ nWrite ≠ -1)
    else l'.running = false

/-- A turn passes on a length within what was asked for, unless its read ends within a message: then
it passes on -2 as a `size_t`. -/
theorem TcpRelayTurn.length_iff {l l' : TcpRelayLoop} {e : TcpRelayEvent}
    (h : TcpRelayTurn C l e l') :
    1 ≤ e.length ∧ e.length ≤ tcpRelaySizeofBuf ↔ ¬e.source.EndsTruncated C := by
  obtain ⟨-, hsource, nRead, buf, hread, hzero, herr, hlen, -⟩ := h
  rw [hsource, hlen]
  obtain ⟨hrange, hnot⟩ | ⟨rfl, hends⟩ := tcpSocketRead_cases (by decide) hread
  · refine iff_of_true ?_ hnot
    obtain ⟨hlo, hhi⟩ | hres | hres := hrange
    · rw [tcpRelaySizeofBuf] at hhi ⊢
      omega
    · exact absurd hres hzero
    · exact absurd hres herr
  · exact iff_of_false (by decide) fun hnot ↦ hnot hends

/-- **Exactly when no bogus length is written.** The blocking read of a socket of any kind returns a
count between 1 and the size that was asked for, 0 or -1, if and only if the stream of a VMess
socket does not end within a message; and the lengths that a loop passes to `tcp_socket_write` in a
run are all between 1 and what it has asked for, if and only if this is so of each of its reads. -/
theorem tcpRelay_lengths_iff (C : Crypto) :
    (∀ size sock res buf sock', 1 ≤ size → tcpSocketRead C size sock = some (res, buf, sock') →
      (ReadInRange size res ↔ ¬sock.EndsTruncated C)) ∧
    ∀ l es l', Run (TcpRelayTurn C) l es l' →
      ((∀ e ∈ es, 1 ≤ e.length ∧ e.length ≤ tcpRelaySizeofBuf) ↔
        ∀ e ∈ es, ¬e.source.EndsTruncated C) := by
  refine ⟨fun size sock res buf sock' hsize h ↦ ?_, fun l es l' hrun ↦ ?_⟩
  · obtain ⟨hrange, hnot⟩ | ⟨rfl, hends⟩ := tcpSocketRead_cases hsize h
    · exact iff_of_true hrange hnot
    · exact iff_of_false (fun hrange ↦ by rw [ReadInRange] at hrange; omega) fun hnot ↦ hnot hends
  · have hall : ∀ e ∈ es, (1 ≤ e.length ∧ e.length ≤ tcpRelaySizeofBuf ↔
        ¬e.source.EndsTruncated C) := by
      refine hrun.invariant (I := fun es _ ↦ ∀ e ∈ es,
        (1 ≤ e.length ∧ e.length ≤ tcpRelaySizeofBuf ↔ ¬e.source.EndsTruncated C)) (by simp)
        fun es l e l' ih hturn ↦ ?_
      exact List.forall_mem_append.2 ⟨ih, List.forall_mem_singleton.2 hturn.length_iff⟩
    exact forall₂_congr hall

/-! ### At two runs -/

/-- What comes from a VMess socket goes to a native one. -/
def sampleRelay (reads : Reads) : TcpRelayLoop where
  source := .vmess ⟨vmessTcpSocketNewFd (vmessConfigNew sampleUserId)
    ⟨sampleUserId, sampleUserId, 0, 0⟩, reads, {}⟩
  sink := .native ⟨[], {}⟩
  running := true

/-- Three bytes go from a native socket to another one. -/
theorem tcpRelay_lengths_iff_native :
    ∃ e l', Run (TcpRelayTurn openssl)
        ⟨.native ⟨[.data [1, 2, 3], .eof], {}⟩, .native ⟨[], {}⟩, true⟩ [e] l' ∧
      1 ≤ e.length ∧ e.length ≤ tcpRelaySizeofBuf := by
  have hturn : TcpRelayTurn openssl
      ⟨.native ⟨[.data [1, 2, 3], .eof], {}⟩, .native ⟨[], {}⟩, true⟩
      ⟨.native ⟨[.data [1, 2, 3], .eof], {}⟩, 3⟩
      ⟨.native ⟨[.eof], {}⟩, .native ⟨[], ⟨[1, 2, 3], [], false⟩⟩, true⟩ :=
    ⟨rfl, rfl, 3, [1, 2, 3], rfl, by decide, by decide, rfl, 3, rfl, rfl⟩
  have hrun := Run.snoc Run.nil hturn
  refine ⟨_, _, hrun, ?_⟩
  exact ((tcpRelay_lengths_iff openssl).2 _ _ _ hrun).2 (by simp [EndsTruncated]) _ (by simp)

/-- The stream of a VMess socket ends behind the length field of a chunk: -2 is passed on as a
length. -/
theorem not_lengths_truncated :
    ∃ e l', Run (TcpRelayTurn openssl) (sampleRelay [.data [0, 10], .eof]) [e] l' ∧
      e.length = 2 ^ 64 - 2 ∧ ¬∀ e' ∈ [e], 1 ≤ e'.length ∧ e'.length ≤ tcpRelaySizeofBuf := by
  obtain ⟨sock, hread⟩ : ∃ sock, tcpSocketRead openssl tcpRelaySizeofBuf
      (sampleRelay [.data [0, 10], .eof]).source = some (-2, [], sock) := ⟨_, rfl⟩
  have hturn : TcpRelayTurn openssl (sampleRelay [.data [0, 10], .eof])
      ⟨(sampleRelay [.data [0, 10], .eof]).source, 2 ^ 64 - 2⟩ ⟨sock, .native ⟨[], {}⟩, false⟩ :=
    ⟨rfl, rfl, -2, [], hread, by decide, by decide, by decide,
      (if_neg (show ¬2 ^ 64 - 2 ≤ tcpRelayDefaultBuffer by decide)).mpr rfl⟩
  refine ⟨_, _, Run.snoc Run.nil hturn, rfl, fun h ↦ ?_⟩
  exact absurd (h _ (List.mem_singleton_self _)).2 (by decide)

end Vmecs
