import Vmecs.Proto.Native.Tcp
import Vmecs.Proto.Socks.Tcp
import Vmecs.Proto.Vmess.Results

/-!
# The sockets of the relay

A `tcp_socket_t *` is a socket of one of three kinds, and a call through its table of functions goes
to the functions of its kind (`tcpSocketOps`). What the relay relies on is said once for all kinds:

* a read changes the reading side only, gives as many bytes as its result says, and at the end of
  the stream leaves a socket that is at its end for good (`tryRead_tcpSocketOps`);
* a write that does not fail has made the writes that its data are on the wire, whatever has become
  of them, and leaves the reading side alone (`write_tcpSocketOps`).
-/

namespace Vmecs

/-- A socket of any kind. -/
inductive TcpSocket where
  | native (sock : NativeTcpSocket)
  | socks (conn : SocksConn)
  | vmess (conn : VmessConn)

/-- The functions of a socket, by its kind. -/
def tcpSocketOps (C : Crypto) : TcpSocketOps TcpSocket where
  tryRead size
    | .native sock => (nativeTcpSocketOps.tryRead size sock).map fun (res, buf, sock) ↦
        (res, buf, .native sock)
    | .socks conn => (socksTcpSocketOps.tryRead size conn).map fun (res, buf, conn) ↦
        (res, buf, .socks conn)
    | .vmess conn => ((vmessTcpSocketOps C).tryRead size conn).map fun (res, buf, conn) ↦
        (res, buf, .vmess conn)
  write buf
    | .native sock => (nativeTcpSocketOps.write buf sock).map fun (n, sock) ↦ (n, .native sock)
    | .socks conn => (socksTcpSocketOps.write buf conn).map fun (n, conn) ↦ (n, .socks conn)
    | .vmess conn => ((vmessTcpSocketOps C).write buf conn).map fun (n, conn) ↦ (n, .vmess conn)
  close
    | .native sock => .native (nativeTcpSocketOps.close sock)
    | .socks conn => .socks (socksTcpSocketOps.close conn)
    | .vmess conn => .vmess ((vmessTcpSocketOps C).close conn)

namespace TcpSocket

variable (C : Crypto)

/-- The writing side of the descriptor. -/
def out : TcpSocket → OutFd
  | native sock => sock.out
  | socks conn => conn.out
  | vmess conn => conn.out

/-- What is to be written for some data: the data as they are, or the chunks that carry them. -/
def writes (data : Bytes) : TcpSocket → List Bytes
  | native _ => [data]
  | socks _ => [data]
  | vmess conn => (vmessPieces data).map (vmessTrunk C conn.sock.auth)

/-- The socket is established, and everything written to it has been put on the wire. -/
def Ready : TcpSocket → Prop
  | native _ => True
  | socks _ => True
  | vmess conn => conn.sock.Ready conn.sock.auth

/-- Every read reports the end of the stream. -/
def Ended : TcpSocket → Prop
  | native sock => AtEof sock.reads
  | socks conn => AtEof conn.reads
  | vmess conn => conn.sock.readBuf.eof = true

/-- The writing side is as it was. -/
structure SameWriting (sock sock' : TcpSocket) : Prop where
  out_eq : sock'.out = sock.out
  writes_eq : ∀ C data, sock'.writes C data = sock.writes C data
  ready : sock.Ready → sock'.Ready

end TcpSocket

open TcpSocket

/-! ### Reading -/

/-- A read of a descriptor that is at its end. -/
theorem fdTryRead_of_atEof {want : ℕ} {s s' : Reads} {a : ReadAnswer} (hs : AtEof s)
    (h : fdTryRead want s = .done a s') : a = .eof ∧ AtEof s' := by
  match s, hs with
  | .eof :: _, _ =>
    obtain ⟨rfl, rfl⟩ := Outcome.done.inj h
    exact ⟨rfl, rfl⟩

/-- What a read of a descriptor returns. -/
theorem fdTryRead_result {want : ℕ} {s s' : Reads} {a : ReadAnswer}
    (h : fdTryRead want s = .done a s') :
    a.bytes.length = a.result.toNat ∧ a.result ≤ want ∧ (a.result = 0 → AtEof s') := by
  match s with
  | .data bs :: s =>
    rw [fdTryRead] at h
    split at h
    case isTrue hfit =>
      obtain ⟨rfl, rfl⟩ := Outcome.done.inj h
      obtain ⟨hpos, hle⟩ := hfit
      refine ⟨rfl, Int.ofNat_le.2 hle, fun h0 ↦ ?_⟩
      rw [ReadAnswer.result] at h0
      omega
    case isFalse => exact absurd h (by simp)
  | .eof :: s =>
    obtain ⟨rfl, rfl⟩ := Outcome.done.inj h
    exact ⟨rfl, Int.natCast_nonneg want, fun _ ↦ rfl⟩
  | .again :: s =>
    obtain ⟨rfl, rfl⟩ := Outcome.done.inj h
    exact ⟨rfl, by rw [ReadAnswer.result]; omega, fun h0 ↦ absurd h0 (by decide)⟩
  | .fail :: s =>
    obtain ⟨rfl, rfl⟩ := Outcome.done.inj h
    exact ⟨rfl, by rw [ReadAnswer.result]; omega, fun h0 ↦ absurd h0 (by decide)⟩

/-- **A read** of a socket of any kind. -/
structure TryRead (size : ℕ) (sock : TcpSocket) (res : ℤ) (buf : Bytes) (sock' : TcpSocket) :
    Prop where
  same : SameWriting sock sock'
  length_buf : buf.length = res.toNat
  res_le : res ≤ size
  ended : res = 0 → sock'.Ended
  again : sock.Ended → res = 0 ∧ sock'.Ended

/-- A socket whose reads are those of its descriptor. -/
theorem tryRead_of_fdTryRead {size : ℕ} {f : Reads → TcpSocket}
    (hsame : ∀ s s', SameWriting (f s) (f s')) (hended : ∀ s, (f s).Ended ↔ AtEof s) {s s' : Reads}
    {a : ReadAnswer} (h : fdTryRead size s = .done a s') :
    TryRead size (f s) a.result a.bytes (f s') := by
  obtain ⟨hlen, hle, heof⟩ := fdTryRead_result h
  refine ⟨hsame s s', hlen, hle, fun hres ↦ (hended s').2 (heof hres), fun hs ↦ ?_⟩
  obtain ⟨rfl, hs'⟩ := fdTryRead_of_atEof ((hended s).1 hs) h
  exact ⟨rfl, (hended s').2 hs'⟩

theorem tryRead_native {size : ℕ} {sock sock' : NativeTcpSocket} {res : ℤ} {buf : Bytes}
    (h : nativeTcpSocketTryRead size sock = some (res, buf, sock')) :
    TryRead size (.native sock) res buf (.native sock') := by
  rw [nativeTcpSocketTryRead] at h
  split at h
  case h_1 a reads hread =>
    obtain ⟨rfl, hr⟩ := Prod.mk.inj (Option.some.inj h)
    obtain ⟨rfl, rfl⟩ := Prod.mk.inj hr
    exact tryRead_of_fdTryRead (f := fun reads ↦ .native { sock with reads })
      (fun _ _ ↦ ⟨rfl, fun _ _ ↦ rfl, id⟩) (fun _ ↦ Iff.rfl) hread
  case h_2 => exact absurd h (by simp)

theorem tryRead_socks {size : ℕ} {conn conn' : SocksConn} {res : ℤ} {buf : Bytes}
    (h : socksTcpSocketOps.tryRead size conn = some (res, buf, conn')) :
    TryRead size (.socks conn) res buf (.socks conn') := by
  rw [socksTcpSocketOps] at h
  dsimp only [socksTcpSocketTryRead] at h
  split at h
  case h_1 a reads hread =>
    obtain ⟨rfl, hr⟩ := Prod.mk.inj (Option.some.inj h)
    obtain ⟨rfl, rfl⟩ := Prod.mk.inj hr
    exact tryRead_of_fdTryRead (f := fun reads ↦ .socks { conn with reads })
      (fun _ _ ↦ ⟨rfl, fun _ _ ↦ rfl, id⟩) (fun _ ↦ Iff.rfl) hread
  case h_2 => exact absurd h (by simp)

theorem tryRead_vmess {C : Crypto} {size : ℕ} (hsize : 1 ≤ size) {conn conn' : VmessConn} {res : ℤ}
    {buf : Bytes} (h : vmessTcpSocketTryRead C size conn = some (res, buf, conn')) :
    TryRead size (.vmess conn) res buf (.vmess conn') := by
  obtain ⟨bufs, reads, hread, rfl⟩ := vmessTcpSocketTryRead_eq_some h
  obtain ⟨hlen, hle⟩ := vmessTcpSocketReadC_counts hsize hread
  refine ⟨⟨rfl, fun _ _ ↦ rfl, id⟩, hlen, hle, ?_, fun heof ↦ ?_⟩
  · rintro rfl
    exact vmessTcpSocketReadC_eq_zero hsize hread
  · obtain ⟨rfl, rfl⟩ := vmessTcpSocketReadC_of_eof hsize heof hread
    exact ⟨rfl, heof⟩

/-- What is returned with the socket of a kind. -/
theorem exists_of_map_eq_some {α β γ : Type} {o : Option (β × γ × α)} {f : α → TcpSocket} {b : β}
    {c : γ} {sock : TcpSocket} (h : (o.map fun (b, c, s) ↦ (b, c, f s)) = some (b, c, sock)) :
    ∃ s, o = some (b, c, s) ∧ sock = f s := by
  obtain ⟨⟨b', c', s⟩, ho, hr⟩ := Option.map_eq_some_iff.1 h
  obtain ⟨rfl, hr'⟩ := Prod.mk.inj hr
  obtain ⟨rfl, rfl⟩ := Prod.mk.inj hr'
  exact ⟨s, ho, rfl⟩

/-- A read goes to the function of the socket's kind. -/
theorem tryRead_tcpSocketOps_cases {C : Crypto} {size : ℕ} {sock sock' : TcpSocket} {res : ℤ}
    {buf : Bytes} (h : (tcpSocketOps C).tryRead size sock = some (res, buf, sock')) :
    (∃ s s', sock = .native s ∧ sock' = .native s' ∧
      nativeTcpSocketTryRead size s = some (res, buf, s')) ∨
    (∃ s s', sock = .socks s ∧ sock' = .socks s' ∧
      socksTcpSocketOps.tryRead size s = some (res, buf, s')) ∨
    ∃ s s', sock = .vmess s ∧ sock' = .vmess s' ∧
      vmessTcpSocketTryRead C size s = some (res, buf, s') := by
  match sock with
  | native sock =>
    obtain ⟨s', hread, rfl⟩ := exists_of_map_eq_some (f := native) h
    exact .inl ⟨sock, s', rfl, rfl, hread⟩
  | socks conn =>
    obtain ⟨s', hread, rfl⟩ := exists_of_map_eq_some (f := socks) h
    exact .inr (.inl ⟨conn, s', rfl, rfl, hread⟩)
  | vmess conn =>
    obtain ⟨s', hread, rfl⟩ := exists_of_map_eq_some (f := vmess) h
    exact .inr (.inr ⟨conn, s', rfl, rfl, hread⟩)

theorem tryRead_tcpSocketOps {C : Crypto} {size : ℕ} (hsize : 1 ≤ size) {sock sock' : TcpSocket}
    {res : ℤ} {buf : Bytes} (h : (tcpSocketOps C).tryRead size sock = some (res, buf, sock')) :
    TryRead size sock res buf sock' := by
  obtain ⟨s, s', rfl, rfl, hread⟩ | ⟨s, s', rfl, rfl, hread⟩ | ⟨s, s', rfl, rfl, hread⟩ :=
    tryRead_tcpSocketOps_cases h
  · exact tryRead_native hread
  · exact tryRead_socks hread
  · exact tryRead_vmess hsize hread

/-! ### Writing -/

/-- A write of a socket of any kind, when it does not fail. -/
structure Write (C : Crypto) (sock : TcpSocket) (data : Bytes) (sock' : TcpSocket) : Prop where
  out_eq : sock'.out = fdWrites sock.out (sock.writes C data)
  writes_eq : ∀ C data, sock'.writes C data = sock.writes C data
  ready : sock'.Ready
  ended : sock.Ended → sock'.Ended

theorem write_tcpSocketOps {C : Crypto} (hC : CfbLaws C) {sock sock' : TcpSocket} {data : Bytes}
    {n : ℤ} (hready : sock.Ready) (hdata : data ≠ [])
    (h : (tcpSocketOps C).write data sock = some (n, sock')) (hn : n ≠ -1) :
    Write C sock data sock' := by
  match sock with
  | native sock =>
    obtain ⟨-, rfl⟩ := Prod.mk.inj (Option.some.inj h)
    exact ⟨rfl, fun _ _ ↦ rfl, trivial, id⟩
  | socks conn =>
    obtain ⟨-, rfl⟩ := Prod.mk.inj (Option.some.inj h)
    exact ⟨rfl, fun _ _ ↦ rfl, trivial, id⟩
  | vmess conn =>
    obtain ⟨⟨n', conn'⟩, hconn, hr⟩ := Option.map_eq_some_iff.1 h
    obtain ⟨rfl, rfl⟩ := Prod.mk.inj hr
    obtain ⟨⟨ret, sock', out'⟩, hwrite, hr⟩ := Option.map_eq_some_iff.1 hconn
    obtain ⟨rfl, rfl⟩ := Prod.mk.inj hr
    obtain ⟨rfl, ⟨vser, rfl⟩, hready'⟩ := vmessTcpSocketWrite_eq_some hC hready hdata hwrite hn
    exact ⟨rfl, fun _ _ ↦ rfl, hready', id⟩

/-- Some data are written in no empty piece. -/
theorem writes_ne_nil {C : Crypto} (sock : TcpSocket) {data w : Bytes} (hdata : data ≠ [])
    (hw : w ∈ sock.writes C data) : w ≠ [] := by
  match sock with
  | native sock => exact List.mem_singleton.1 hw ▸ hdata
  | socks conn => exact List.mem_singleton.1 hw ▸ hdata
  | vmess conn =>
    obtain ⟨piece, -, rfl⟩ := List.mem_map.1 hw
    exact List.append_ne_nil_of_left_ne_nil (List.ne_nil_of_length_eq_add_one (be16 _).2) _

/-- What is written to a VMess socket are whole chunks, and they carry the data. -/
theorem writes_vmess {C : Crypto} (hC : CfbLaws C) (conn : VmessConn) (data : Bytes) :
    ∃ pieces : List Bytes, pieces.flatten = data ∧
      (TcpSocket.vmess conn).writes C data = pieces.map (vmessTrunk C conn.sock.auth) ∧
      ∀ piece ∈ pieces, (vmessDecodeData C conn.sock.auth).Framed
        (vmessTrunk C conn.sock.auth piece) ⟨some piece⟩ := by
  refine ⟨vmessPieces data, flatten_vmessPieces data, rfl, fun piece hpiece ↦ ?_⟩
  have hsend : DataTrunk.Sendable ⟨some piece⟩ := by
    rintro _ ⟨⟩
    exact length_of_mem_vmessPieces hpiece
  exact framed_trunkWire hC conn.sock.auth hsend

/-! ### Closing -/

/-- Closing is for writing only. -/
theorem close_tcpSocketOps (C : Crypto) (sock : TcpSocket) :
    (∀ C' data, ((tcpSocketOps C).close sock).writes C' data = sock.writes C' data) ∧
      (sock.Ready → ((tcpSocketOps C).close sock).Ready) ∧
      (sock.Ended → ((tcpSocketOps C).close sock).Ended) := by
  match sock with
  | native sock => exact ⟨fun _ _ ↦ rfl, id, id⟩
  | socks conn => exact ⟨fun _ _ ↦ rfl, id, id⟩
  | vmess conn => exact ⟨fun _ _ ↦ rfl, id, id⟩

end Vmecs
