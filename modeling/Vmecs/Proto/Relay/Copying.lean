import Vmecs.Proto.Relay.Threads
import Vmecs.Proto.Relay.Tunnel

/-!
# What the threads of a job copy

The reader and the writer of a job use both of its sockets at the same time: each reads the one that
the other writes to and closes. Neither disturbs the other (`SocketUsed`): whatever the order of
their turns, what a thread has written is what it has read, what has left through its sink is what
`write(2)` has accepted of its writes, which is all of them exactly if each was accepted whole, and
what it has read is what its source has been sent (`tcpRelay_copies`).
-/

namespace Vmecs

open TcpSocket TcpRelayEnd TcpRelayStmt

variable {C : Crypto} {I : Inet}

/-! ### Blocking reads -/

/-- A blocking read changes the reading side of a socket, by its kind. -/
theorem tcpSocketRead_eq_some {size : ℕ} {sock sock' : TcpSocket} {res : ℤ} {buf : Bytes}
    (h : tcpSocketRead C size sock = some (res, buf, sock')) :
    (∃ s a reads, sock = .native s ∧ fdRead size s.reads = .done a reads ∧ res = a.result ∧
      buf = a.bytes ∧ sock' = .native { s with reads }) ∨
    (∃ s a reads, sock = .socks s ∧ fdRead size s.reads = .done a reads ∧ res = a.result ∧
      buf = a.bytes ∧ sock' = .socks { s with reads }) ∨
    ∃ s bufs reads, sock = .vmess s ∧
      vmessTcpSocketReadC C s.sock.auth size true s.sock.toVmessReadBuffers s.reads =
        .done (res, buf, bufs) reads ∧
      sock' = .vmess { s with sock := s.sock.setBuffers bufs, reads } := by
  match sock with
  | native s =>
    obtain ⟨s', hread, rfl⟩ := exists_of_map_eq_some (f := native) h
    rw [nativeTcpSocketRead] at hread
    split at hread
    case h_1 a reads hdone =>
      obtain ⟨rfl, hr⟩ := Prod.mk.inj (Option.some.inj hread)
      obtain ⟨rfl, rfl⟩ := Prod.mk.inj hr
      exact .inl ⟨s, a, reads, rfl, hdone, rfl, rfl, rfl⟩
    case h_2 => exact absurd hread (by simp)
  | socks s =>
    rw [tcpSocketRead] at h
    split at h
    case h_1 a reads hdone =>
      obtain ⟨rfl, hr⟩ := Prod.mk.inj (Option.some.inj h)
      obtain ⟨rfl, rfl⟩ := Prod.mk.inj hr
      exact .inr (.inl ⟨s, a, reads, rfl, hdone, rfl, rfl, rfl⟩)
    case h_2 => exact absurd h (by simp)
  | vmess s =>
    obtain ⟨s', hread, rfl⟩ := exists_of_map_eq_some (f := vmess) h
    rw [vmessTcpSocketRead] at hread
    split at hread
    case h_1 hdone =>
      obtain ⟨rfl, hr⟩ := Prod.mk.inj (Option.some.inj hread)
      obtain ⟨rfl, rfl⟩ := Prod.mk.inj hr
      exact .inr (.inr ⟨s, _, _, rfl, hdone, rfl⟩)
    case h_2 => exact absurd hread (by simp)

/-- What a blocking read of a descriptor takes off the stream. -/
theorem fdRead_takes {want : ℕ} {s s' : Reads} {a : ReadAnswer} (h : fdRead want s = .done a s') :
    streamBytes s = a.bytes ++ streamBytes s' ∧ a.bytes.length = a.result.toNat ∧
      (a.result = 0 → AtEof s') := by
  obtain ⟨bs, rfl, ⟨hpos, -⟩, hs⟩ | ⟨rfl, hend, hs⟩ | ⟨rfl, -, hs⟩ := fdRead_done h
  · refine ⟨hs, rfl, fun h0 ↦ ?_⟩
    rw [ReadAnswer.result] at h0
    omega
  · exact ⟨by rw [hs, hend.streamBytes_eq]; rfl, rfl, fun _ ↦ hend⟩
  · exact ⟨hs, rfl, fun h0 ↦ absurd h0 (by decide)⟩

/-! ### A socket in use -/

/-- What has been read from a socket, since it was `s₀`, is what its peer has sent: a descriptor
gives the bytes of its stream, and a VMess socket the data of its messages. -/
def Takes (C : Crypto) (s₀ : TcpSocket) (failed : Bool) (read : List Bytes) (sock : TcpSocket) :
    Prop :=
  match s₀ with
  | native s₀ => ∃ s, sock = .native s ∧ streamBytes s₀.reads = read.flatten ++ streamBytes s.reads
  | socks s₀ => ∃ s, sock = .socks s ∧ streamBytes s₀.reads = read.flatten ++ streamBytes s.reads
  | vmess s₀ => ReadsTrunks C s₀ failed ⟨sock, read, 0⟩

/-- An established socket that nothing has been read from. -/
def TcpSocket.Unread : TcpSocket → Prop
  | vmess s => ∃ init, s.sock.readBuf = vbufferNew init
  | _ => True

/-- **A socket in use**, since it was `s₀`: what has been read from it, what has been written to it
and whether it has been closed. What has left is what has been accepted of the writes. -/
structure SocketUsed (C : Crypto) (s₀ : TcpSocket) (failed closed : Bool)
    (read written : List Bytes) (sock : TcpSocket) : Prop where
  takes : Takes C s₀ failed read sock
  ready : sock.Ready
  reliable : sock.Reliable
  writes_eq : ∀ C data, sock.writes C data = s₀.writes C data
  endBytes_eq : sock.endBytes = s₀.endBytes
  out_eq : closed = false → sock.out = fdWrites s₀.out (forwardedWrites C s₀ written)
  ne_nil : ∀ buf ∈ written, buf ≠ []
  sent_eq : sock.out.sent = (fdWrites s₀.out (forwardedWrites C s₀ written)).sent ++
    if closed then s₀.endBytes else []
  whole_iff : sock.out.sent = s₀.out.sent ++ (forwardedWrites C s₀ written).flatten ++
      (if closed then s₀.endBytes else []) ↔
    AcceptsAll s₀.out.answers (forwardedWrites C s₀ written)

namespace SocketUsed

variable {s₀ sock sock' : TcpSocket} {failed closed : Bool} {got put : List Bytes}
  {buf : Bytes} {res : ℤ}

theorem init (hready : s₀.Ready) (hreliable : s₀.Reliable) (hunread : s₀.Unread) :
    SocketUsed C s₀ false false [] [] s₀ := by
  have hne : ∀ buf ∈ ([] : List Bytes), buf ≠ [] := List.forall_mem_nil _
  refine ⟨?_, hready, hreliable, fun _ _ ↦ rfl, rfl, fun _ ↦ rfl, hne, (List.append_nil _).symm,
    whole_iff_of_sent_eq hne (List.append_nil _).symm⟩
  match s₀ with
  | native s => exact ⟨s, rfl, rfl⟩
  | socks s => exact ⟨s, rfl, rfl⟩
  | vmess s =>
    obtain ⟨init, hbuf⟩ := hunread
    exact .init hbuf

/-- The pieces with another one, if the read has given something. -/
theorem flatten_read (hlen : buf.length = res.toNat) (got : List Bytes) :
    (if res > 0 then got ++ [buf] else got).flatten = got.flatten ++ buf := by
  split
  · simp
  · have hnil : buf = [] := List.length_eq_zero_iff.1 (by omega)
    rw [hnil, List.append_nil]

/-- It is read from. -/
theorem read (hC : CfbLaws C) (h : SocketUsed C s₀ false closed got put sock) {size : ℕ}
    (hsize : 1 ≤ size) (hread : tcpSocketRead C size sock = some (res, buf, sock')) :
    buf.length = res.toNat ∧ (res = 0 → sock'.Ended) ∧
      SocketUsed C s₀ (decide (res = -1)) closed (if res > 0 then got ++ [buf] else got) put
        sock' := by
  obtain ⟨s, a, reads, rfl, hfd, rfl, rfl, rfl⟩ | ⟨s, a, reads, rfl, hfd, rfl, rfl, rfl⟩ |
    ⟨s, bufs, reads, rfl, hdone, rfl⟩ := tcpSocketRead_eq_some hread
  · obtain ⟨hstream, hlen, hend⟩ := fdRead_takes hfd
    refine ⟨hlen, hend, { h with takes := ?_ }⟩
    match s₀, h.takes with
    | native s₀, ⟨_, rfl, htakes⟩ =>
      refine ⟨_, rfl, ?_⟩
      rw [htakes, hstream, flatten_read hlen, List.append_assoc]
    | vmess s₀, ⟨_, _, hsock, _⟩ => exact absurd hsock (by simp)
  · obtain ⟨hstream, hlen, hend⟩ := fdRead_takes hfd
    refine ⟨hlen, hend, { h with takes := ?_ }⟩
    match s₀, h.takes with
    | socks s₀, ⟨_, rfl, htakes⟩ =>
      refine ⟨_, rfl, ?_⟩
      rw [htakes, hstream, flatten_read hlen, List.append_assoc]
    | vmess s₀, ⟨_, _, hsock, _⟩ => exact absurd hsock (by simp)
  · refine ⟨(vmessTcpSocketReadC_counts hsize hdone).1, ?_, { h with takes := ?_ }⟩
    · rintro rfl
      exact vmessTcpSocketReadC_eq_zero hsize hdone
    · match s₀, h.takes with
      | native s₀, ⟨_, hsock, _⟩ => exact absurd hsock (by simp)
      | socks s₀, ⟨_, hsock, _⟩ => exact absurd hsock (by simp)
      | vmess s₀, htakes => exact ReadsTrunks.read hC hsize htakes hdone

/-- Writing to a socket and closing it do not change what is read from it. -/
theorem takes_of_out (h : Takes C s₀ failed got sock) (hnative : ∀ s, sock = .native s →
      ∃ out, sock' = .native { s with out })
    (hsocks : ∀ s, sock = .socks s → ∃ out, sock' = .socks { s with out })
    (hvmess : ∀ s₀, ReadsTrunks C s₀ failed ⟨sock, got, 0⟩ →
      ReadsTrunks C s₀ failed ⟨sock', got, 0⟩) :
    Takes C s₀ failed got sock' := by
  match s₀, h with
  | native s₀, ⟨s, hsock, htakes⟩ =>
    obtain ⟨out, rfl⟩ := hnative s hsock
    exact ⟨_, rfl, htakes⟩
  | socks s₀, ⟨s, hsock, htakes⟩ =>
    obtain ⟨out, rfl⟩ := hsocks s hsock
    exact ⟨_, rfl, htakes⟩
  | vmess s₀, htakes => exact hvmess s₀ htakes

/-- It is written to. -/
theorem write (hC : CfbLaws C) (h : SocketUsed C s₀ failed false got put sock)
    (hbuf : buf ≠ []) (hwrite : (tcpSocketOps C).write buf sock = some (res, sock')) :
    SocketUsed C s₀ failed false got (put ++ [buf]) sock' := by
  obtain ⟨hw, hreliable, hend⟩ := write_of_reliable hC h.ready h.reliable hbuf hwrite
  have hout : sock'.out = fdWrites s₀.out (forwardedWrites C s₀ (put ++ [buf])) := by
    rw [hw.out_eq, h.out_eq rfl, h.writes_eq, ← fdWrites_append, forwardedWrites_append]
    simp [forwardedWrites]
  have hne : ∀ data ∈ put ++ [buf], data ≠ [] := fun data hdata ↦
    (List.mem_append.1 hdata).elim (h.ne_nil data) fun h ↦ List.mem_singleton.1 h ▸ hbuf
  have hsent : sock'.out.sent =
      (fdWrites s₀.out (forwardedWrites C s₀ (put ++ [buf]))).sent ++ [] := by
    rw [hout, List.append_nil]
  refine ⟨takes_of_out h.takes ?_ ?_ ?_, hw.ready, hreliable,
    fun C data ↦ (hw.writes_eq C data).trans (h.writes_eq C data), hend.trans h.endBytes_eq,
    fun _ ↦ hout, hne, hsent, whole_iff_of_sent_eq hne hsent⟩
  · rintro s rfl
    exact ⟨_, (Prod.mk.inj (Option.some.inj hwrite)).2.symm⟩
  · rintro s rfl
    exact ⟨_, (Prod.mk.inj (Option.some.inj hwrite)).2.symm⟩
  · intro s₀ htakes
    have hlogged : (tcpSocketOps C).logged.write buf ⟨sock, got, 0⟩ =
        some (res, ⟨sock', got, 0⟩) := by
      change ((tcpSocketOps C).write buf sock).map _ = _
      rw [hwrite]
      rfl
    exact htakes.write hlogged

/-- It is closed. -/
theorem close (h : SocketUsed C s₀ failed false got put sock) :
    SocketUsed C s₀ failed true got put ((tcpSocketOps C).close sock) := by
  obtain ⟨hsent, hreliable, hend⟩ := close_of_reliable (C := C) h.reliable
  obtain ⟨hwrites, hready, -⟩ := close_tcpSocketOps C sock
  have hsent' : ((tcpSocketOps C).close sock).out.sent =
      (fdWrites s₀.out (forwardedWrites C s₀ put)).sent ++ s₀.endBytes := by
    rw [hsent, h.out_eq rfl, h.endBytes_eq]
  refine ⟨takes_of_out h.takes ?_ ?_ ?_, hready h.ready, hreliable,
    fun C data ↦ (hwrites C data).trans (h.writes_eq C data), hend.trans h.endBytes_eq, by simp,
    h.ne_nil, hsent', whole_iff_of_sent_eq h.ne_nil hsent'⟩
  · rintro s rfl
    exact ⟨_, rfl⟩
  · rintro s rfl
    exact ⟨_, rfl⟩
  · intro s₀ htakes
    obtain ⟨conn, -, hsock, -⟩ := id htakes
    obtain rfl : sock = .vmess conn := hsock
    change ReadsTrunks C s₀ failed ⟨.vmess ((vmessTcpSocketOps C).close conn), got, 0⟩
    refine htakes.of_same ?_ ?_ ?_ 0 <;> rfl

theorem fail (h : SocketUsed C s₀ failed closed got put sock) :
    SocketUsed C s₀ true closed got put sock := by
  refine { h with takes := ?_ }
  match s₀, h.takes with
  | native s₀, htakes => exact htakes
  | socks s₀, htakes => exact htakes
  | vmess s₀, htakes => exact ReadsTrunks.gone htakes

end SocketUsed

/-! ### The calls of a thread -/

/-- What a read has given to be passed on. -/
def TcpRelayCall.got (source : TcpRelayEnd) : TcpRelayCall → Option Bytes
  | .read e nRead buf => if e = source ∧ 0 < nRead then some buf else none
  | _ => none

/-- What has been passed on. -/
def TcpRelayCall.put (sink : TcpRelayEnd) : TcpRelayCall → Option Bytes
  | .write e buf _ => if e = sink then some buf else none
  | _ => none

/-- A thread stops behind a read or a write that returns 0 or -1. -/
def TcpRelayCall.Stops (source : TcpRelayEnd) : TcpRelayCall → Prop
  | .read e nRead _ => e = source ∧ (nRead = 0 ∨ nRead = -1)
  | .write e _ nWrite => e = source.other ∧ (nWrite = 0 ∨ nWrite = -1)
  | _ => False

namespace TcpRelayCall

variable {e e' : TcpRelayEnd} {n : ℤ} {buf : Bytes}

theorem got_read_self (h : 0 < n) : (read e n buf).got e = some buf := if_pos ⟨rfl, h⟩

theorem got_read_of_not (h : ¬0 < n) : (read e n buf).got e' = none := if_neg fun hn ↦ h hn.2

theorem got_read_of_ne (h : e ≠ e') : (read e n buf).got e' = none := if_neg fun hn ↦ h hn.1

theorem put_write_self : (write e buf n).put e = some buf := if_pos rfl

theorem put_write_of_ne (h : e ≠ e') : (write e buf n).put e' = none := if_neg h

end TcpRelayCall

/-- Everything that has been read from an end to be passed on. -/
def gotFrom (source : TcpRelayEnd) (calls : List TcpRelayCall) : List Bytes :=
  calls.filterMap (·.got source)

/-- Everything that has been passed on to an end. -/
def putTo (sink : TcpRelayEnd) (calls : List TcpRelayCall) : List Bytes :=
  calls.filterMap (·.put sink)

section

variable {e : TcpRelayEnd} {call : TcpRelayCall} {buf : Bytes}

theorem gotFrom_concat_of_none (h : call.got e = none) (calls : List TcpRelayCall) :
    gotFrom e (calls ++ [call]) = gotFrom e calls := by
  simp [gotFrom, h]

theorem gotFrom_concat_of_some (h : call.got e = some buf) (calls : List TcpRelayCall) :
    gotFrom e (calls ++ [call]) = gotFrom e calls ++ [buf] := by
  simp [gotFrom, h]

theorem putTo_concat_of_none (h : call.put e = none) (calls : List TcpRelayCall) :
    putTo e (calls ++ [call]) = putTo e calls := by
  simp [putTo, h]

theorem putTo_concat_of_some (h : call.put e = some buf) (calls : List TcpRelayCall) :
    putTo e (calls ++ [call]) = putTo e calls ++ [buf] := by
  simp [putTo, h]

theorem exists_stops_concat (calls : List TcpRelayCall) :
    (∃ c ∈ calls ++ [call], c.Stops e) ↔ (∃ c ∈ calls, c.Stops e) ∨ call.Stops e := by
  simp [or_and_right, exists_or]

end

namespace TcpRelayCopier

/-- What has been read and not yet written. -/
def pending : TcpRelayCopier → List Bytes
  | write buf nRead => if nRead ≤ tcpRelayDefaultBuffer then [buf] else []
  | _ => []

/-- The thread has left its loop. -/
def left : TcpRelayCopier → Bool
  | close => true
  | returned => true
  | _ => false

theorem left_afterRead (nRead : ℤ) (buf : Bytes) :
    (afterRead nRead buf).left = true ↔ nRead = 0 ∨ nRead = -1 := by
  rw [afterRead]
  split
  case isTrue h => exact iff_of_false (by simp [left]) fun h' ↦ h'.elim h.1 h.2
  case isFalse h => exact iff_of_true rfl (by omega)

theorem left_afterWrite (nWrite : ℤ) :
    (afterWrite nWrite).left = true ↔ nWrite = 0 ∨ nWrite = -1 := by
  rw [afterWrite]
  split
  case isTrue h => exact iff_of_false (by simp [left]) fun h' ↦ h'.elim h.1 h.2
  case isFalse h => exact iff_of_true rfl (by omega)

theorem pending_afterWrite (nWrite : ℤ) : (afterWrite nWrite).pending = [] := by
  rw [afterWrite]
  split <;> rfl

/-- What a read within its size has given is written next, and nothing else is. -/
theorem pending_afterRead {nRead : ℤ} {buf : Bytes}
    (h : ReadInRange tcpRelaySizeofBuf nRead ∨ nRead = -2) :
    (afterRead nRead buf).pending = if 0 < nRead then [buf] else [] := by
  rw [afterRead]
  obtain (⟨hlo, hhi⟩ | rfl | rfl) | rfl := h
  · have hle : (nRead % 2 ^ 64).toNat ≤ tcpRelayDefaultBuffer := by
      rw [tcpRelaySizeofBuf] at hhi
      rw [tcpRelayDefaultBuffer]
      omega
    rw [if_pos (by omega), pending, if_pos hle, if_pos (by omega)]
  · rfl
  · rfl
  · rfl

end TcpRelayCopier

/-- **A thread that copies** from `source`: what it has read has been written or is about to be, it
has left its loop if one of its calls has said so and for no other reason, and both sockets are in
use as its calls have used them. -/
structure Copies (C : Crypto) (s₀ : TcpRelayEnd → TcpSocket) (calls : List TcpRelayCall)
    (s : TcpRelayJob TcpSocket) (source : TcpRelayEnd) : Prop where
  passed : gotFrom source calls = putTo source.other calls ++ (s.copier source).pending
  left_iff : (s.copier source).left = true ↔ ∃ call ∈ calls, call.Stops source
  used : ∀ sock, s.sock source = some sock →
    SocketUsed C (s₀ source) (s.copier source).left (decide (s.copier source.other = .returned))
      (gotFrom source calls) (putTo source calls) sock
  ne_nil : ∀ buf ∈ (s.copier source).pending, buf ≠ []

namespace Copies

variable {s₀ : TcpRelayEnd → TcpSocket} {calls : List TcpRelayCall} {s s' : TcpRelayJob TcpSocket}
  {source : TcpRelayEnd}

/-- A turn that is no concern of the thread and its source. -/
theorem idle (h : Copies C s₀ calls s source) {call : TcpRelayCall} (hgot : call.got source = none)
    (hput : call.put source = none) (hput' : call.put source.other = none)
    (hstops : ¬call.Stops source) (hcopier : s'.copier source = s.copier source)
    (hclosed : s'.copier source.other = .returned ↔ s.copier source.other = .returned)
    (hsock : ∀ sock, s'.sock source = some sock → s.sock source = some sock) :
    Copies C s₀ (calls ++ [call]) s' source := by
  refine ⟨?_, ?_, fun sock hs ↦ ?_, ?_⟩
  · rw [gotFrom_concat_of_none hgot, putTo_concat_of_none hput', hcopier, h.passed]
  · rw [hcopier, h.left_iff, exists_stops_concat, or_iff_left hstops]
  · rw [gotFrom_concat_of_none hgot, putTo_concat_of_none hput, hcopier,
      decide_eq_decide.2 hclosed]
    exact h.used sock (hsock sock hs)
  · rw [hcopier]
    exact h.ne_nil

/-- It reads. -/
theorem read (hC : CfbLaws C) (h : Copies C s₀ calls s source) (hc : s.copier source = .read)
    {sock sock' : TcpSocket} {nRead : ℤ} {buf : Bytes} (hsock : s.sock source = some sock)
    (hread : tcpSocketRead C tcpRelaySizeofBuf sock = some (nRead, buf, sock')) :
    Copies C s₀ (calls ++ [.read source nRead buf])
      ((s.setSock source (some sock')).setCopier source (.afterRead nRead buf)) source := by
  have hrange : ReadInRange tcpRelaySizeofBuf nRead ∨ nRead = -2 :=
    (tcpSocketRead_cases (by decide) hread).imp (·.1) (·.1)
  have hused := h.used sock hsock
  rw [hc] at hused
  obtain ⟨hlen, -, hused⟩ := hused.read hC (by decide) hread
  have hgot : gotFrom source (calls ++ [.read source nRead buf]) =
      if nRead > 0 then gotFrom source calls ++ [buf] else gotFrom source calls := by
    split
    case isTrue hpos => exact gotFrom_concat_of_some (TcpRelayCall.got_read_self hpos) calls
    case isFalse hle => exact gotFrom_concat_of_none (TcpRelayCall.got_read_of_not hle) calls
  have hput (e : TcpRelayEnd) : putTo e (calls ++ [.read source nRead buf]) = putTo e calls :=
    putTo_concat_of_none rfl calls
  have hpassed : gotFrom source calls = putTo source.other calls := by
    rw [h.passed, hc]
    exact List.append_nil _
  refine ⟨?_, ?_, fun sock₁ hs ↦ ?_, ?_⟩
  · rw [hgot, hput, TcpRelayJob.copier_setCopier_self, TcpRelayCopier.pending_afterRead hrange,
      hpassed]
    split <;> simp
  · rw [TcpRelayJob.copier_setCopier_self, TcpRelayCopier.left_afterRead, exists_stops_concat,
      ← h.left_iff, hc]
    simp [TcpRelayCopier.left, TcpRelayCall.Stops]
  · rw [TcpRelayJob.sock_setCopier, TcpRelayJob.sock_setSock_self] at hs
    obtain rfl := Option.some.inj hs
    rw [hgot, hput, TcpRelayJob.copier_setCopier_self,
      TcpRelayJob.copier_setCopier_of_ne (other_ne source), TcpRelayJob.copier_setSock]
    rcases hleft : (TcpRelayCopier.afterRead nRead buf).left with _ | _
    · have hres : nRead ≠ -1 := fun hn ↦ by
        rw [(TcpRelayCopier.left_afterRead nRead buf).2 (.inr hn)] at hleft
        exact absurd hleft (by simp)
      rwa [decide_eq_false hres] at hused
    · exact hused.fail
  · rw [TcpRelayJob.copier_setCopier_self, TcpRelayCopier.pending_afterRead hrange]
    split
    case isTrue hpos =>
      exact List.forall_mem_singleton.2 (List.ne_nil_of_length_pos (by omega))
    case isFalse => exact List.forall_mem_nil _

/-- It writes. -/
theorem write (h : Copies C s₀ calls s source) {buf : Bytes} {nRead : ℕ} {nWrite : ℤ}
    (hc : s.copier source = .write buf nRead) (hle : nRead ≤ tcpRelayDefaultBuffer)
    (sink : Option TcpSocket) :
    Copies C s₀ (calls ++ [.write source.other buf nWrite])
      ((s.setSock source.other sink).setCopier source (.afterWrite nWrite)) source := by
  have hpassed := h.passed
  rw [hc, TcpRelayCopier.pending, if_pos hle] at hpassed
  refine ⟨?_, ?_, fun sock hs ↦ ?_, ?_⟩
  · rw [gotFrom_concat_of_none rfl, putTo_concat_of_some TcpRelayCall.put_write_self, hpassed,
      TcpRelayJob.copier_setCopier_self, TcpRelayCopier.pending_afterWrite, List.append_nil]
  · rw [TcpRelayJob.copier_setCopier_self, TcpRelayCopier.left_afterWrite, exists_stops_concat,
      ← h.left_iff, hc]
    simp [TcpRelayCopier.left, TcpRelayCall.Stops]
  · rw [TcpRelayJob.sock_setCopier, TcpRelayJob.sock_setSock_of_ne (ne_other source)] at hs
    have hused := h.used sock hs
    rw [hc] at hused
    rw [gotFrom_concat_of_none rfl,
      putTo_concat_of_none (TcpRelayCall.put_write_of_ne (other_ne source)),
      TcpRelayJob.copier_setCopier_self, TcpRelayJob.copier_setCopier_of_ne (other_ne source),
      TcpRelayJob.copier_setSock]
    rcases (TcpRelayCopier.afterWrite nWrite).left with _ | _
    · exact hused
    · exact hused.fail
  · rw [TcpRelayJob.copier_setCopier_self, TcpRelayCopier.pending_afterWrite]
    exact List.forall_mem_nil _

/-- It is written to. -/
theorem written (hC : CfbLaws C) (h : Copies C s₀ calls s source) {buf : Bytes} {nWrite : ℤ}
    (hother : s.copier source.other ≠ .returned) (hbuf : buf ≠ []) {sock sock' : TcpSocket}
    (hsock : s.sock source = some sock)
    (hwrite : (tcpSocketOps C).write buf sock = some (nWrite, sock')) {c : TcpRelayCopier}
    (hc : c ≠ .returned) :
    Copies C s₀ (calls ++ [.write source buf nWrite])
      ((s.setSock source (some sock')).setCopier source.other c) source := by
  refine ⟨?_, ?_, fun sock₁ hs ↦ ?_, ?_⟩
  · rw [gotFrom_concat_of_none rfl,
      putTo_concat_of_none (TcpRelayCall.put_write_of_ne (ne_other source)), h.passed,
      TcpRelayJob.copier_setCopier_of_ne (ne_other source), TcpRelayJob.copier_setSock]
  · rw [TcpRelayJob.copier_setCopier_of_ne (ne_other source), TcpRelayJob.copier_setSock,
      h.left_iff, exists_stops_concat, or_iff_left fun hstops ↦ ne_other source hstops.1]
  · rw [TcpRelayJob.sock_setCopier, TcpRelayJob.sock_setSock_self] at hs
    obtain rfl := Option.some.inj hs
    have hused := h.used sock hsock
    rw [decide_eq_false hother] at hused
    rw [gotFrom_concat_of_none rfl, putTo_concat_of_some TcpRelayCall.put_write_self,
      TcpRelayJob.copier_setCopier_of_ne (ne_other source), TcpRelayJob.copier_setSock,
      TcpRelayJob.copier_setCopier_self, decide_eq_false hc]
    exact hused.write hC hbuf hwrite
  · rw [TcpRelayJob.copier_setCopier_of_ne (ne_other source)]
    exact h.ne_nil

/-- It closes its sink. -/
theorem close (h : Copies C s₀ calls s source) (hc : s.copier source = .close)
    (sink : Option TcpSocket) :
    Copies C s₀ (calls ++ [.close source.other])
      ((s.setSock source.other sink).setCopier source .returned) source := by
  have hpassed := h.passed
  rw [hc] at hpassed
  have hleft := h.left_iff
  rw [hc] at hleft
  refine ⟨?_, ?_, fun sock hs ↦ ?_, ?_⟩
  · rw [gotFrom_concat_of_none rfl, putTo_concat_of_none rfl, TcpRelayJob.copier_setCopier_self]
    exact hpassed
  · rw [TcpRelayJob.copier_setCopier_self, exists_stops_concat,
      or_iff_left (show ¬(TcpRelayCall.close source.other).Stops source from id)]
    exact hleft
  · rw [TcpRelayJob.sock_setCopier, TcpRelayJob.sock_setSock_of_ne (ne_other source)] at hs
    have hused := h.used sock hs
    rw [hc] at hused
    rw [gotFrom_concat_of_none rfl, putTo_concat_of_none rfl, TcpRelayJob.copier_setCopier_self,
      TcpRelayJob.copier_setCopier_of_ne (other_ne source), TcpRelayJob.copier_setSock]
    exact hused
  · rw [TcpRelayJob.copier_setCopier_self]
    exact List.forall_mem_nil _

/-- Its source is closed. -/
theorem closed (h : Copies C s₀ calls s source) (hother : s.copier source.other = .close)
    {sock : TcpSocket} (hsock : s.sock source = some sock) :
    Copies C s₀ (calls ++ [.close source])
      ((s.setSock source (some ((tcpSocketOps C).close sock))).setCopier source.other .returned)
      source := by
  refine ⟨?_, ?_, fun sock₁ hs ↦ ?_, ?_⟩
  · rw [gotFrom_concat_of_none rfl, putTo_concat_of_none rfl, h.passed,
      TcpRelayJob.copier_setCopier_of_ne (ne_other source), TcpRelayJob.copier_setSock]
  · rw [TcpRelayJob.copier_setCopier_of_ne (ne_other source), TcpRelayJob.copier_setSock,
      h.left_iff, exists_stops_concat,
      or_iff_left (show ¬(TcpRelayCall.close source).Stops source from id)]
  · rw [TcpRelayJob.sock_setCopier, TcpRelayJob.sock_setSock_self] at hs
    obtain rfl := Option.some.inj hs
    have hused := h.used sock hsock
    rw [hother] at hused
    rw [gotFrom_concat_of_none rfl, putTo_concat_of_none rfl,
      TcpRelayJob.copier_setCopier_of_ne (ne_other source), TcpRelayJob.copier_setSock,
      TcpRelayJob.copier_setCopier_self, decide_eq_true rfl]
    exact hused.close
  · rw [TcpRelayJob.copier_setCopier_of_ne (ne_other source)]
    exact h.ne_nil

/-- It starts. -/
theorem start (h : Copies C s₀ calls s source) (hc : s.copier source = .idle) :
    Copies C s₀ (calls ++ [.other]) (s.setCopier source .read) source := by
  have hpassed := h.passed
  rw [hc] at hpassed
  have hleft := h.left_iff
  rw [hc] at hleft
  refine ⟨?_, ?_, fun sock hs ↦ ?_, ?_⟩
  · rw [gotFrom_concat_of_none rfl, putTo_concat_of_none rfl, TcpRelayJob.copier_setCopier_self]
    exact hpassed
  · rw [TcpRelayJob.copier_setCopier_self, exists_stops_concat,
      or_iff_left (show ¬TcpRelayCall.other.Stops source from id)]
    exact hleft
  · have hused := h.used sock hs
    rw [hc] at hused
    rw [gotFrom_concat_of_none rfl, putTo_concat_of_none rfl, TcpRelayJob.copier_setCopier_self,
      TcpRelayJob.copier_setCopier_of_ne (other_ne source)]
    exact hused
  · rw [TcpRelayJob.copier_setCopier_self]
    exact List.forall_mem_nil _

end Copies

/-! ### Runs -/

/-- **The invariant** of a job that has got connected. -/
structure Copying (C : Crypto) (s₀ : TcpRelayEnd → TcpSocket) (calls : List TcpRelayCall)
    (s : TcpRelayJob TcpSocket) : Prop where
  sound : ∃ h, s.Sound h
  handler : ∃ stmts, s.handler = .does stmts ∧ stmts <:+ tcpRelayConnected
  copies : ∀ source, Copies C s₀ calls s source

namespace Copying

variable {s₀ : TcpRelayEnd → TcpSocket} {calls : List TcpRelayCall} {s s' : TcpRelayJob TcpSocket}
  {call : TcpRelayCall}

theorem init {record : TcpRelayRecord} {target : Option ShortTarget} (hready : ∀ e, (s₀ e).Ready)
    (hreliable : ∀ e, (s₀ e).Reliable) (hunread : ∀ e, (s₀ e).Unread) :
    Copying C s₀ [] (tcpRelayJobConnected record target s₀) := by
  refine ⟨⟨.before true true, TcpRelayJob.holds_before_iff.2 ⟨rfl, rfl, rfl, rfl, fun _ ↦ rfl⟩,
    TcpRelayHolds.lawful_connected⟩, ⟨_, rfl, List.suffix_rfl⟩, fun source ↦ ⟨rfl, ?_, ?_, ?_⟩⟩
  · exact iff_of_false (by simp [tcpRelayJobConnected, TcpRelayCopier.left]) (by simp)
  · rintro sock hsock
    obtain rfl := Option.some.inj hsock
    exact .init (hready source) (hreliable source) (hunread source)
  · exact List.forall_mem_nil _

/-- A statement of the handler. -/
theorem exec (h : Copying C s₀ calls s) {stmt : TcpRelayStmt} {stmts : List TcpRelayStmt}
    {s₁ : TcpRelayJob TcpSocket} (hc : s.handler = .does (stmt :: stmts))
    (hexec : tcpRelayExec (tcpBlockingOps C) s stmt = .ok (call, s₁)) (source : TcpRelayEnd) :
    Copies C s₀ (calls ++ [call]) s₁ source := by
  obtain ⟨⟨holds, hsound⟩, ⟨_, hhandler, hsuffix⟩, hcopies⟩ := h
  obtain rfl := TcpRelayHandler.does.inj (hc.symm.trans hhandler)
  have hmem : stmt ∈ tcpRelayConnected := hsuffix.subset List.mem_cons_self
  obtain ⟨e, _, rfl, -, -⟩ | ⟨e, rfl, rfl, rfl⟩ | ⟨e, rfl, rfl, rfl⟩ | ⟨rfl, hsock, hcopier, -⟩ :=
    tcpRelayExec_cases hexec
  · exact absurd hmem (by simp [tcpRelayConnected])
  · refine (hcopies source).idle rfl rfl rfl id rfl Iff.rfl fun sock hs ↦ ?_
    rcases eq_or_ne source e with rfl | hne
    · exact absurd (TcpRelayJob.sock_setSock_self.symm.trans hs) (by simp)
    · rwa [TcpRelayJob.sock_setSock_of_ne hne] at hs
  · have hlawful := hsound.lawful
    rw [hc] at hlawful
    have hidle := hsound.holds.unborn e hlawful.1.2.2
    rcases e.eq_or_eq_other source with rfl | rfl
    · exact (hcopies source).start hidle
    · refine (hcopies e.other).idle rfl rfl rfl id
        (TcpRelayJob.copier_setCopier_of_ne (other_ne e)) ?_ fun _ ↦ id
      rw [other_other, TcpRelayJob.copier_setCopier_self, hidle]
      simp
  · exact (hcopies source).idle rfl rfl rfl id (congrFun hcopier _) (by rw [hcopier]) fun sock hs ↦
      by rwa [hsock] at hs

/-- A turn of a copying thread. -/
theorem copier (hC : CfbLaws C) (h : Copying C s₀ calls s) {e : TcpRelayEnd}
    (hturn : tcpRelayCopier (tcpBlockingOps C) e s = .ok (call, s')) (source : TcpRelayEnd) :
    Copies C s₀ (calls ++ [call]) s' source := by
  obtain ⟨sock, nRead, buf, sock', hc, hload, hread, rfl, rfl⟩ | ⟨buf, nRead, sink, nWrite, sink',
    hc, hle, hload, hwrite, rfl, rfl⟩ | ⟨sink, hc, hload, rfl, rfl⟩ :=
    tcpRelayCopier_cases hturn <;> replace hload := TcpRelayJob.loadSock_eq_ok hload
  · rcases e.eq_or_eq_other source with rfl | rfl
    · exact (h.copies source).read hC hc hload hread
    · refine (h.copies e.other).idle (TcpRelayCall.got_read_of_ne (ne_other e)) rfl rfl
        (fun hstops ↦ ne_other e hstops.1) (TcpRelayJob.copier_setCopier_of_ne (other_ne e)) ?_ ?_
      · rw [other_other, TcpRelayJob.copier_setCopier_self, hc]
        simp [(TcpRelayCopier.afterRead_ne nRead buf).2]
      · intro sock₁ hs
        rwa [TcpRelayJob.sock_setCopier, TcpRelayJob.sock_setSock_of_ne (other_ne e)] at hs
  · rcases e.eq_or_eq_other source with rfl | rfl
    · exact (h.copies source).write hc hle (some sink')
    · have hbuf : buf ≠ [] := (h.copies e).ne_nil buf (by simp [hc, TcpRelayCopier.pending, hle])
      have hother : s.copier e.other.other ≠ .returned := by
        rw [other_other, hc]
        simp
      have hwritten := (h.copies e.other).written hC hother hbuf hload hwrite
        (TcpRelayCopier.afterWrite_ne nWrite).2
      rwa [other_other] at hwritten
  · rcases e.eq_or_eq_other source with rfl | rfl
    · exact (h.copies source).close hc _
    · have hother : s.copier e.other.other = .close := by rw [other_other, hc]
      have hclosed := (h.copies e.other).closed hother hload
      rwa [other_other] at hclosed

/-- **A turn of any thread** of a job that has got connected. -/
theorem step (hC : CfbLaws C) (h : Copying C s₀ calls s) {e : TcpRelayJobEvent TcpSocket}
    (hstep : TcpRelayJobStep C I (tcpBlockingOps C) s e s') :
    Copying C s₀ (calls ++ [e.call]) s' := by
  obtain ⟨holds, hsound⟩ := h.sound
  obtain ⟨holds', hsound', -⟩ := hsound.step hstep
  obtain ⟨stmts, hhandler, hsuffix⟩ := h.handler
  rcases ht : e.thread with _ | source <;> rw [TcpRelayJobStep, ht] at hstep
  · obtain ⟨_, hc, -⟩ | ⟨_, _, hc, -⟩ | ⟨stmt, stmts', s₁, hc, hexec, rfl⟩ :=
      tcpRelayHandler_cases hstep
    · exact absurd (hc.symm.trans hhandler) (by simp)
    · exact absurd (hc.symm.trans hhandler) (by simp)
    · obtain rfl := TcpRelayHandler.does.inj (hc.symm.trans hhandler)
      refine ⟨⟨_, hsound'⟩, ⟨stmts', rfl, (List.suffix_cons _ _).trans hsuffix⟩, fun source ↦ ?_⟩
      obtain ⟨hpassed, hleft, hused, hne⟩ := h.exec hc hexec source
      exact ⟨hpassed, hleft, hused, hne⟩
  · obtain ⟨-, hsame, -⟩ := hsound.holds.copier hstep
    exact ⟨⟨_, hsound'⟩, ⟨stmts, hsame.trans hhandler, hsuffix⟩, h.copier hC hstep⟩

end Copying

/-! ### How a job gets connected -/

section

variable {σ : Type} {ops : TcpBlockingOps σ} {record : TcpRelayRecord} {client : σ}
  {es : List (TcpRelayJobEvent σ)} {s s' : TcpRelayJob σ}

/-- A turn of a copying thread does not shake hands, and connects nothing. -/
theorem call_of_copier {source : TcpRelayEnd} {call : TcpRelayCall}
    (hturn : tcpRelayCopier ops source s = .ok (call, s')) :
    call ≠ .handshake ∧ call.isClient = false := by
  obtain ⟨_, _, _, _, -, -, -, rfl, -⟩ | ⟨_, _, _, _, _, -, -, -, -, rfl, -⟩ | ⟨_, -, -, rfl, -⟩ :=
    tcpRelayCopier_cases hturn <;> exact ⟨by simp, rfl⟩

/-- The client of a job, before it gets connected: it is what the relay has accepted and, behind the
handshake, what that has made of it. -/
def Accepted (client : σ) (es : List (TcpRelayJobEvent σ)) (s : TcpRelayJob σ) : Prop :=
  match s.handler with
  | .handshake => s.sock inSock = some client
  | .connect _ =>
    ∃ e ∈ es, e.call = .handshake ∧ s.sock inSock = some (e.answers.handshake client).2
  | .does _ => True

/-- Only the turns of the handler matter, as the copying threads have not been started. -/
theorem accepted_of_run (hrun : Run (TcpRelayJobStep C I ops) (tcpRelayJobNew record client) es s) :
    Accepted client es s := by
  induction hrun with
  | nil => exact rfl
  | @snoc es s₁ e s₂ hrun hstep ih =>
    obtain ⟨h, hsound, -⟩ := TcpRelayJob.lives_of_run hrun
    have hlawful := hsound.lawful
    rcases ht : e.thread with _ | source <;> rw [TcpRelayJobStep, ht] at hstep
    · obtain ⟨sock, hc, hload, hcall, rfl | rfl⟩ | ⟨retry, _, hc, -, ⟨-, rfl⟩ | ⟨-, rfl⟩ |
        ⟨-, -, rfl⟩⟩ | ⟨stmt, _, s₁', hc, -, rfl⟩ := tcpRelayHandler_cases hstep <;>
        rw [Accepted, hc] at ih
      · obtain rfl := Option.some.inj (ih.symm.trans (TcpRelayJob.loadSock_eq_ok hload))
        exact ⟨e, by simp, hcall, TcpRelayJob.sock_setSock_self (s := s₁) (e := inSock)⟩
      · trivial
      · trivial
      · trivial
      · obtain ⟨e₀, he₀, hcall, hsock⟩ := ih
        exact ⟨e₀, List.mem_append_left _ he₀, hcall, hsock⟩
      · trivial
    · obtain ⟨hholds, hhandler, -⟩ := hsound.holds.copier hstep
      -- a thread that has been started is behind the attempts to connect
      have hrunning : ∀ connected target, h = .before connected target → False := by
        rintro connected target rfl
        have hidle := hsound.holds.unborn source rfl
        obtain ⟨_, _, _, _, hc, -⟩ | ⟨_, _, _, _, _, hc, -⟩ | ⟨_, hc, -⟩ :=
          tcpRelayCopier_cases hstep <;> exact absurd (hidle.symm.trans hc) (by simp)
      rw [Accepted, hhandler]
      rcases hc : s₁.handler with _ | retry | stmts <;> rw [hc] at hlawful
      · exact absurd hlawful (hrunning _ _)
      · exact absurd hlawful (hrunning _ _)
      · trivial

/-- The sockets of a job that gets connected: that of the client, as its handshake has left it, and
that of the outbound. -/
def connectedSocks (client : σ) (accepts connects : TcpRelayJobEvent σ) : TcpRelayEnd → σ
  | inSock => (accepts.answers.handshake client).2
  | outSock => connects.answers.client

/-- A job that gets connected is one that has got connected, from there on. -/
theorem connected_of_client {e : TcpRelayJobEvent σ}
    (hrun : Run (TcpRelayJobStep C I ops) (tcpRelayJobNew record client) es s)
    (hstep : TcpRelayJobStep C I ops s e s') (hcall : e.call = .client true) :
    ∃ target, ∃ e₀ ∈ es, e₀.call = .handshake ∧
      s' = tcpRelayJobConnected record target (connectedSocks client e₀ e) := by
  obtain ⟨h, hsound, -⟩ := TcpRelayJob.lives_of_run hrun
  have hrecord' := (TcpRelayJob.attempts_of_run hrun).record_eq
  have haccepted := accepted_of_run hrun
  have hlawful := hsound.lawful
  rcases ht : e.thread with _ | source <;> rw [TcpRelayJobStep, ht, hcall] at hstep
  · obtain ⟨_, -, -, hno, -⟩ | ⟨retry, _, hc, -, ⟨-, rfl⟩ | ⟨hno, -⟩ | ⟨hno, -⟩⟩ |
      ⟨stmt, _, s₁, -, hexec, -⟩ := tcpRelayHandler_cases hstep
    · exact absurd hno (by simp)
    · rw [hc] at hlawful
      obtain rfl := hlawful
      obtain ⟨hrecord, htarget, -, -, hidle⟩ := TcpRelayJob.holds_before_iff.1 hsound.holds
      obtain ⟨target, htarget⟩ := Option.isSome_iff_exists.1 htarget
      rw [Accepted, hc] at haccepted
      obtain ⟨e₀, he₀, hhandshake, hin⟩ := haccepted
      replace hrecord' : s.record = some record :=
        hrecord'.resolve_right fun hnone ↦ by simp [hnone] at hrecord
      refine ⟨target, e₀, he₀, hhandshake, ?_⟩
      obtain ⟨record₀, sock₀, target₀, handler₀, copier₀⟩ := s
      obtain rfl : record₀ = _ := hrecord'
      obtain rfl : target₀ = _ := htarget
      obtain rfl : copier₀ = fun _ ↦ .idle := funext hidle
      refine TcpRelayJob.mk.injEq .. |>.mpr ⟨rfl, funext ?_, rfl, rfl, rfl⟩
      rintro (_ | _)
      · exact hin
      · rfl
    · exact absurd hno (by simp)
    · exact absurd hno (by simp)
    · exact absurd (TcpRelayJob.exec_attempts hexec).1 (by simp [TcpRelayCall.isClient])
  · exact absurd (call_of_copier hstep).2 (by simp [TcpRelayCall.isClient])

/-- A job has not got connected, or has run since it did. -/
theorem exists_connected
    (hrun : Run (TcpRelayJobStep C I ops) (tcpRelayJobNew record client) es s) :
    (∀ e ∈ es, e.call ≠ .client true) ∨ ∃ target es₁ e₀ e₁ es₂, es = es₁ ++ e₁ :: es₂ ∧
      e₀ ∈ es₁ ∧ e₀.call = .handshake ∧ e₁.call = .client true ∧
      Run (TcpRelayJobStep C I ops)
        (tcpRelayJobConnected record target (connectedSocks client e₀ e₁)) es₂ s := by
  induction hrun with
  | nil => exact .inl (by simp)
  | @snoc es s₁ e s₂ hrun hstep ih =>
    obtain hnone | ⟨target, es₁, e₀, e₁, es₂, rfl, he₀, hcall₀, hcall₁, hrun₂⟩ := ih
    · rcases eq_or_ne e.call (.client true) with hcall | hcall
      · obtain ⟨target, e₀, he₀, hcall₀, rfl⟩ := connected_of_client hrun hstep hcall
        exact .inr ⟨target, es, e₀, e, [], rfl, he₀, hcall₀, hcall, .nil⟩
      · refine .inl fun e' he' ↦ ?_
        rcases List.mem_append.1 he' with he' | he'
        · exact hnone e' he'
        · rwa [List.mem_singleton.1 he']
    · exact .inr ⟨target, es₁, e₀, e₁, es₂ ++ [e], by simp, he₀, hcall₀, hcall₁,
        hrun₂.snoc hstep⟩

end

/-- A socket as it comes out of a handshake, over a descriptor that a VMess socket can rely on. -/
structure TcpSocket.Established (sock : TcpSocket) : Prop where
  ready : sock.Ready
  reliable : sock.Reliable
  unread : sock.Unread

/-- **What a threaded relay copies**: in every run, a job that has got connected over established
sockets has copied in both directions since then, whatever the order of the turns of all threads. -/
theorem tcpRelay_copies (hC : CfbLaws C) {record : TcpRelayRecord}
    {es : List (FamilyEvent ℕ (TcpRelayJob TcpSocket) (TcpRelayJobEvent TcpSocket))}
    {jobs : ℕ → Option (TcpRelayJob TcpSocket)}
    (hrun : Run (TcpRelayStep C I (tcpBlockingOps C) record) (fun _ ↦ none) es jobs) {i : ℕ}
    {s : TcpRelayJob TcpSocket} (hi : jobs i = some s) :
    (∀ e ∈ es.filterMap (·.moves i), e.call ≠ .client true) ∨
      ∃ client es₁ e₀ e₁ es₂, es.filterMap (·.joins i) = [tcpRelayJobNew record client] ∧
        es.filterMap (·.moves i) = es₁ ++ e₁ :: es₂ ∧
        e₀ ∈ es₁ ∧ e₀.call = .handshake ∧ e₁.call = .client true ∧
        ((∀ e, (connectedSocks client e₀ e₁ e).Established) →
          ∀ source, Copies C (connectedSocks client e₀ e₁) (es₂.map (·.call)) s source) := by
  obtain ⟨client, hjoins, hjob⟩ := tcpRelayJob_run hrun hi
  obtain hnone | ⟨target, es₁, e₀, e₁, es₂, hes, he₀, hcall₀, hcall₁, hrun₂⟩ :=
    exists_connected hjob
  · exact .inl hnone
  · refine .inr ⟨client, es₁, e₀, e₁, es₂, hjoins, hes, he₀, hcall₀, hcall₁, fun hsocks source ↦ ?_⟩
    have hcopying := hrun₂.invariant
      (I := fun es s ↦ Copying C (connectedSocks client e₀ e₁) (es.map (·.call)) s)
      (.init (fun e ↦ (hsocks e).ready) (fun e ↦ (hsocks e).reliable) fun e ↦ (hsocks e).unread)
      fun es s₁ e s₂ ih hstep ↦ by simpa using ih.step hC hstep
    exact hcopying.copies source

/-- A client sends a byte and the end of its stream; both threads have copied and returned, and the
byte has left. -/
theorem tcpRelay_copies_native :
    ∃ es jobs s, Run (TcpRelayStep openssl sampleInet (tcpBlockingOps openssl) sampleRecord)
        (fun _ ↦ none) es jobs ∧ jobs 0 = some s ∧ (∀ e, s.copier e = .returned) ∧
      (∃ sock, s.sock outSock = some sock ∧ sock.out.sent = [7]) ∧
      ∃ socks calls, ∀ source, Copies openssl socks calls s source := by
  obtain ⟨es, s, hturns, hreturned, hsent, hclient⟩ : ∃ es s,
      tcpRelayTurns openssl sampleInet (tcpBlockingOps openssl) sampleJobAnswers
        (tcpRelayJobNew sampleRecord (.native ⟨[.data [7], .eof], {}⟩))
        (sampleJobThreads.take 11) = .ok (es, s) ∧ (∀ e, s.copier e = .returned) ∧
      (∃ sock, s.sock outSock = some sock ∧ sock.out.sent = [7]) ∧
      ∃ e ∈ es, e.call = .client true :=
    ⟨_, _, rfl, by rintro (_ | _) <;> rfl, ⟨_, rfl, rfl⟩, _,
      List.mem_cons_of_mem _ List.mem_cons_self, rfl⟩
  obtain ⟨e, he, hcall⟩ := hclient
  have hanswers := answers_of_tcpRelayTurns hturns
  have hrun := tcpRelay_run_of_job (run_of_tcpRelayTurns hturns) 0
  refine ⟨_, _, s, hrun, Function.update_self .., hreturned, hsent, ?_⟩
  obtain hnone | ⟨client, es₁, e₀, e₁, es₂, hjoins, hmoves, he₀, -, -, hcopies⟩ :=
    tcpRelay_copies cfbLaws_openssl hrun (Function.update_self ..)
  · rw [filterMap_moves_of_job] at hnone
    exact absurd hcall (hnone e he)
  · rw [filterMap_moves_of_job] at hmoves
    rw [filterMap_joins_of_job] at hjoins
    obtain rfl : TcpSocket.native ⟨[.data [7], .eof], {}⟩ = client :=
      Option.some.inj (congrFun (congrArg TcpRelayJob.sock (List.singleton_inj.1 hjoins)) inSock)
    have hin := hanswers e₀ (hmoves ▸ List.mem_append_left _ he₀)
    have hout := hanswers e₁ (hmoves ▸ List.mem_append_right _ List.mem_cons_self)
    refine ⟨_, _, hcopies ?_⟩
    rintro (_ | _)
    · rw [connectedSocks, hin]
      exact ⟨trivial, trivial, trivial⟩
    · rw [connectedSocks, hout]
      exact ⟨trivial, trivial, trivial⟩

end Vmecs
