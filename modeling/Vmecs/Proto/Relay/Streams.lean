import Vmecs.Proto.Relay.Closing
import Vmecs.Proto.Relay.Forwarding

/-!
# What a direction of a pair has put on the wire

For sockets whose writes do not come to nothing halfway (`TcpSocket.Reliable`), what has left
through a socket of a pair is known in every state of every run, also behind the end of a direction
and when the pair has been removed: it is what the data read from the other socket are on the wire,
and behind it what each `tcp_socket_close` has put there (`Relays`, `relays_of_run`).
-/

namespace Vmecs

open TcpSocket

variable {C : Crypto}

namespace TcpSocket

/-- A VMess socket stops in the middle of its chunks when a write fails: its descriptor is to accept
every write whole. -/
def Reliable : TcpSocket → Prop
  | vmess conn => conn.out.answers = []
  | _ => True

/-- What closing a socket puts on the wire. -/
def endBytes : TcpSocket → Bytes
  | vmess _ => vmessSerialEnd
  | _ => []

end TcpSocket

/-- A write to a reliable socket has made its writes, whatever it returns. -/
theorem write_of_reliable (hC : CfbLaws C) {sock sock' : TcpSocket} {data : Bytes} {n : ℤ}
    (hready : sock.Ready) (hreliable : sock.Reliable) (hdata : data ≠ [])
    (h : (tcpSocketOps C).write data sock = some (n, sock')) :
    Write C sock data sock' ∧ sock'.Reliable ∧ sock'.endBytes = sock.endBytes := by
  match sock with
  | native sock =>
    obtain ⟨-, rfl⟩ := Prod.mk.inj (Option.some.inj h)
    exact ⟨⟨rfl, fun _ _ ↦ rfl, trivial, id⟩, trivial, rfl⟩
  | socks conn =>
    obtain ⟨-, rfl⟩ := Prod.mk.inj (Option.some.inj h)
    exact ⟨⟨rfl, fun _ _ ↦ rfl, trivial, id⟩, trivial, rfl⟩
  | vmess conn =>
    have hanswers : conn.out.answers = [] := hreliable
    obtain ⟨ret, vser, hrun, -, hready'⟩ := vmessTcpSocketWrite_reliable hC hready hanswers hdata
    obtain ⟨⟨n', conn'⟩, hconn, hr⟩ := Option.map_eq_some_iff.1 h
    obtain ⟨rfl, rfl⟩ := Prod.mk.inj hr
    have hconn' : (vmessTcpSocketOps C).write data conn = some (ret, _) :=
      congrArg (Option.map _) hrun
    obtain ⟨rfl, rfl⟩ := Prod.mk.inj (Option.some.inj (hconn'.symm.trans hconn))
    refine ⟨⟨?_, fun _ _ ↦ rfl, hready', id⟩, hanswers, rfl⟩
    exact (fdWrites_of_reliable hanswers _).symm

/-- Closing a reliable socket. -/
theorem close_of_reliable {sock : TcpSocket} (h : sock.Reliable) :
    ((tcpSocketOps C).close sock).out.sent = sock.out.sent ++ sock.endBytes ∧
      ((tcpSocketOps C).close sock).Reliable ∧
      ((tcpSocketOps C).close sock).endBytes = sock.endBytes := by
  match sock with
  | native sock => exact ⟨(List.append_nil _).symm, trivial, rfl⟩
  | socks conn => exact ⟨(List.append_nil _).symm, trivial, rfl⟩
  | vmess conn =>
    have hanswers : conn.out.answers = [] := h
    have hclose : vmessTcpSocketClose conn.out =
        { conn.out with sent := conn.out.sent ++ vmessSerialEnd, shut := true } := by
      rw [vmessTcpSocketClose, fdWrite_of_reliable hanswers]
      rfl
    refine ⟨?_, ?_, rfl⟩
    · exact congrArg OutFd.sent hclose
    · exact (congrArg OutFd.answers hclose).trans hanswers

/-- A read leaves the writing side alone. -/
theorem tryRead_reliable {size : ℕ} {sock sock' : TcpSocket} {res : ℤ} {buf : Bytes}
    (h : (tcpSocketOps C).tryRead size sock = some (res, buf, sock')) :
    (sock'.Reliable ↔ sock.Reliable) ∧ sock'.endBytes = sock.endBytes := by
  obtain ⟨s, s', rfl, rfl, -⟩ | ⟨s, s', rfl, rfl, -⟩ | ⟨s, s', rfl, rfl, hread⟩ :=
    tryRead_tcpSocketOps_cases h
  · exact ⟨Iff.rfl, rfl⟩
  · exact ⟨Iff.rfl, rfl⟩
  · obtain ⟨bufs, reads, -, rfl⟩ := vmessTcpSocketTryRead_eq_some hread
    exact ⟨Iff.rfl, rfl⟩

/-! ### The loop -/

theorem tryRead_logged_reliable {i i' : Logged TcpSocket} {res : ℤ} {buf : Bytes}
    (h : (tcpSocketOps C).logged.tryRead etcpDefaultBuffer i = some (res, buf, i')) :
    (i'.sock.Reliable ↔ i.sock.Reliable) ∧ i'.sock.endBytes = i.sock.endBytes := by
  obtain ⟨sock, hsock, rfl⟩ := tryRead_logged_eq_some h
  exact tryRead_reliable hsock

/-- A turn of the loop: something is read, and the writes for it are made. -/
theorem turn_of_reliable (hC : CfbLaws C) {i o i' o' : Logged TcpSocket} {res n : ℤ} {buf : Bytes}
    (hready : o.sock.Ready) (hreliable : o.sock.Reliable)
    (hread : (tcpSocketOps C).logged.tryRead etcpDefaultBuffer i = some (res, buf, i'))
    (hpos : 0 < res) (hwrite : (tcpSocketOps C).logged.write buf o = some (n, o')) :
    ∃ sock, o' = { o with sock } ∧ buf ≠ [] ∧ ¬i.sock.Ended ∧ Write C o.sock buf sock ∧
      sock.Reliable ∧ sock.endBytes = o.sock.endBytes := by
  obtain ⟨sock₁, hsock, rfl⟩ := tryRead_logged_eq_some hread
  obtain ⟨sock₂, hsock₂, rfl⟩ := write_logged_eq_some hwrite
  have htry := tryRead_tcpSocketOps (by simp [etcpDefaultBuffer]) hsock
  have hlen := htry.length_buf
  have hbuf : buf ≠ [] := List.ne_nil_of_length_pos (by omega)
  refine ⟨sock₂, rfl, hbuf, fun hs ↦ ?_, write_of_reliable hC hready hreliable hbuf hsock₂⟩
  have := (htry.again hs).1
  omega

/-- **What the loop forwards** to a reliable socket, however it ends; nothing if the other one is at
its end. -/
theorem etcpPump_forwards_of_reliable (hC : CfbLaws C) {fuel : ℕ} {i o i' o' : Logged TcpSocket}
    {res : ℤ} (hready : o.sock.Ready) (hreliable : o.sock.Reliable)
    (h : etcpPump (tcpSocketOps C).logged fuel i o = some (res, i', o')) :
    ∃ read, Forwards C i o read res i' o' ∧ o'.sock.Reliable ∧
      o'.sock.endBytes = o.sock.endBytes ∧ (i'.sock.Reliable ↔ i.sock.Reliable) ∧
      i'.sock.endBytes = i.sock.endBytes ∧ (i.sock.Ended → read = []) := by
  replace h := etcpPumps_of_eq_some h
  induction h with
  | nothing hread hle =>
    obtain ⟨hrel, hend⟩ := tryRead_logged_reliable hread
    exact ⟨[], .nothing hready hread hle, hreliable, rfl, hrel, hend, fun _ ↦ rfl⟩
  | @stuck i o i' o' res n buf hread hpos hwrite =>
    obtain ⟨hrel, hend⟩ := tryRead_logged_reliable hread
    obtain ⟨sock, rfl, hbuf, hopen, hw, hrel', hend'⟩ :=
      turn_of_reliable hC hready hreliable hread hpos hwrite
    refine ⟨[buf], ⟨?_, ?_, ?_, ?_, hw.writes_eq, hw.ready, rfl, hw.ended, ?_, ?_⟩, hrel', hend',
      hrel, hend, fun hs ↦ absurd hs hopen⟩
    · obtain ⟨sock₁, -, rfl⟩ := tryRead_logged_eq_some hread
      simp [hpos]
    · simpa using hbuf
    · obtain ⟨sock₁, hsock, rfl⟩ := tryRead_logged_eq_some hread
      exact (tryRead_tcpSocketOps (by simp [etcpDefaultBuffer]) hsock).same
    · rw [hw.out_eq, forwardedWrites, List.flatMap_singleton]
    · omega
    · exact fun hs ↦ absurd hs hopen
  | @turn i o i₁ o₁ i' o' res res₁ n buf hread hpos hwrite hn _ ih =>
    obtain ⟨hrel, hend⟩ := tryRead_logged_reliable hread
    obtain ⟨sock, rfl, -, hopen, hw, hrel', hend'⟩ :=
      turn_of_reliable hC hready hreliable hread hpos hwrite
    obtain ⟨read, hf, hro, heo, hri, hei, -⟩ := ih hw.ready hrel'
    exact ⟨buf :: read, hf.turn hread hpos fun _ ↦ hw, hro, heo.trans hend', hri.trans hrel,
      hei.trans hend, fun hs ↦ absurd hs hopen⟩

/-! ### A direction -/

/-- **What a direction has put on the wire**: what has been read from `i` is written to `o`, which
began as `o₀`, and behind it what closing `o` puts there each time. When `o` has been closed, `i` is
at its end or the pair is `gone`. -/
structure Relays (C : Crypto) (o₀ : TcpSocket) (i o : Logged TcpSocket) (gone : Bool) : Prop where
  ready : o.sock.Ready
  reliable : o.sock.Reliable
  writes_eq : ∀ C data, o.sock.writes C data = o₀.writes C data
  endBytes_eq : o.sock.endBytes = o₀.endBytes
  ne_nil : ∀ data ∈ i.read, data ≠ []
  sent_eq : o.sock.out.sent = (fdWrites o₀.out (forwardedWrites C o₀ i.read)).sent ++
    (List.replicate o.closes o₀.endBytes).flatten
  out_eq : o.closes = 0 → o.sock.out = fdWrites o₀.out (forwardedWrites C o₀ i.read)
  ended : o.closes ≠ 0 → i.sock.Ended ∨ gone = true

namespace Relays

variable {o₀ : TcpSocket} {i o i' o' : Logged TcpSocket} {gone : Bool}

/-- **Exactly when this is all of it**: if every write that was made has been accepted whole. -/
theorem whole_iff (h : Relays C o₀ i o gone) :
    o.sock.out.sent = o₀.out.sent ++ (forwardedWrites C o₀ i.read).flatten ++
        (List.replicate o.closes o₀.endBytes).flatten ↔
      AcceptsAll o₀.out.answers (forwardedWrites C o₀ i.read) :=
  whole_iff_of_sent_eq h.ne_nil h.sent_eq

/-- The loop of the record that forwards. -/
theorem pump (hC : CfbLaws C) (h : Relays C o₀ i o false) {fuel : ℕ} {res : ℤ}
    (hpump : etcpPump (tcpSocketOps C).logged fuel i o = some (res, i', o')) :
    Relays C o₀ i' o' false := by
  obtain ⟨read, hf, hrel, hend, -, -, hnone⟩ :=
    etcpPump_forwards_of_reliable hC h.ready h.reliable hpump
  obtain ⟨-, hcloses⟩ := closes_etcpPump hpump
  have hwrites : forwardedWrites C o.sock read = forwardedWrites C o₀ read := by
    simp only [forwardedWrites, h.writes_eq]
  have hout : o.closes = 0 → o'.sock.out = fdWrites o₀.out (forwardedWrites C o₀ i'.read) :=
    fun hopen ↦ by
      rw [hf.out_eq, h.out_eq hopen, hwrites, ← fdWrites_append, hf.read_eq,
        forwardedWrites_append]
  refine ⟨hf.ready, hrel, fun C data ↦ (hf.writes_eq C data).trans (h.writes_eq C data),
    hend.trans h.endBytes_eq, fun data hdata ↦ ?_, ?_, fun hopen ↦ hout (hcloses ▸ hopen),
    fun hclosed ↦ ?_⟩
  · rw [hf.read_eq] at hdata
    rcases List.mem_append.1 hdata with hold | hnew
    · exact h.ne_nil data hold
    · exact hf.ne_nil data hnew
  · rw [hcloses]
    rcases Nat.eq_zero_or_pos o.closes with hopen | hclosed
    · rw [hout hopen, hopen, List.replicate_zero, List.flatten_nil, List.append_nil]
    · -- nothing is read at the end of the stream
      have hnil := hnone ((h.ended hclosed.ne').resolve_right Bool.false_ne_true)
      rw [hf.out_eq, hf.read_eq, hnil, List.append_nil]
      exact h.sent_eq
  · have hended := (h.ended (hcloses ▸ hclosed)).resolve_right Bool.false_ne_true
    exact .inl (hf.ended (hf.at_end hended))

/-- The loop of the other record. -/
theorem pump_pair (hC : CfbLaws C) (h : Relays C o₀ i o false) {fuel : ℕ} {res : ℤ}
    (hready : i.sock.Ready) (hreliable : i.sock.Reliable)
    (hpump : etcpPump (tcpSocketOps C).logged fuel o i = some (res, o', i')) :
    Relays C o₀ i' o' false := by
  obtain ⟨read, hf, -, -, hrel, hend, -⟩ := etcpPump_forwards_of_reliable hC hready hreliable hpump
  obtain ⟨hcloses, -⟩ := closes_etcpPump hpump
  refine ⟨hf.same.ready h.ready, hrel.2 h.reliable,
    fun C data ↦ (hf.same.writes_eq C data).trans (h.writes_eq C data), hend.trans h.endBytes_eq,
    hf.other_read ▸ h.ne_nil, ?_, fun hopen ↦ ?_, fun hclosed ↦ ?_⟩
  · rw [hf.same.out_eq, hf.other_read, hcloses, h.sent_eq]
  · rw [hf.same.out_eq, hf.other_read, h.out_eq (hcloses ▸ hopen)]
  · exact (h.ended (hcloses ▸ hclosed)).imp hf.other_ended id

/-- Its output socket is closed. -/
theorem close (h : Relays C o₀ i o gone) (hend : i.sock.Ended ∨ gone = true) :
    Relays C o₀ i ((tcpSocketOps C).logged.close o) gone := by
  obtain ⟨hsent, hreliable, hbytes⟩ := close_of_reliable (C := C) h.reliable
  obtain ⟨hwrites, hready, -⟩ := close_tcpSocketOps C o.sock
  refine ⟨hready h.ready, hreliable, fun C data ↦ (hwrites C data).trans (h.writes_eq C data),
    hbytes.trans h.endBytes_eq, h.ne_nil, ?_, fun hopen ↦ absurd hopen (Nat.succ_ne_zero _),
    fun _ ↦ hend⟩
  change ((tcpSocketOps C).close o.sock).out.sent =
    _ ++ (List.replicate (o.closes + 1) o₀.endBytes).flatten
  rw [hsent, h.sent_eq, h.endBytes_eq, List.replicate_succ', List.flatten_append,
    List.flatten_singleton, List.append_assoc]

/-- Its input socket is closed, which is for writing only. -/
theorem close_pair (h : Relays C o₀ i o gone) :
    Relays C o₀ ((tcpSocketOps C).logged.close i) o gone where
  __ := h
  ended hclosed := (h.ended hclosed).imp (close_tcpSocketOps C i.sock).2.2 id

theorem leave (h : Relays C o₀ i o false) : Relays C o₀ i o true where
  __ := h
  ended _ := .inr rfl

end Relays

/-! ### A pair -/

/-- Both directions of a pair. -/
def PairRelays (C : Crypto) (p₀ p : EtcpPair (Logged TcpSocket)) (gone : Bool) : Prop :=
  ∀ conn, Relays C (p₀.outSock conn).sock (p.inSock conn) (p.outSock conn) gone

namespace PairRelays

variable {p₀ p p' : EtcpPair (Logged TcpSocket)} {gone : Bool}

/-- A socket is closed at the end of the stream that is forwarded to it, or with the pair. -/
theorem closeIn (h : PairRelays C p₀ p gone) (conn : EtcpRelayConn)
    (hend : (p.outSock conn).sock.Ended ∨ gone = true) :
    PairRelays C p₀ (p.closeIn (tcpSocketOps C).logged conn) gone := by
  rcases conn with _ | _ <;> rintro (_ | _)
  · exact (h .conn1).close_pair
  · exact (h .conn2).close hend
  · exact (h .conn1).close hend
  · exact (h .conn2).close_pair

theorem remove (h : PairRelays C p₀ p false) (conn : EtcpRelayConn) :
    PairRelays C p₀ (etcpRemoveConn (tcpSocketOps C).logged p conn) true := by
  have hgone : PairRelays C p₀ p true := fun c ↦ (h c).leave
  rw [etcpRemoveConn]
  split
  · exact (hgone.closeIn conn (.inr rfl)).closeIn conn.pair (.inr rfl)
  · exact hgone

theorem step (hC : CfbLaws C) (h : PairRelays C p₀ p p.removed) {e : EtcpEvent}
    (hstep : EtcpStep (tcpSocketOps C).logged p e p') : PairRelays C p₀ p' p'.removed := by
  obtain ⟨conn, res⟩ := e
  obtain ⟨hremoved, fuel, hhandle⟩ := hstep
  rw [hremoved] at h
  obtain ⟨i, o, hpump, hcases⟩ := etcpHandle_cases hhandle
  dsimp only at hpump hcases
  have hpumped : PairRelays C p₀ (p.setSocks conn i o) false := by
    rcases conn with _ | _ <;> rintro (_ | _)
    · exact (h .conn1).pump hC hpump
    · exact (h .conn2).pump_pair hC (h .conn1).ready (h .conn1).reliable hpump
    · exact (h .conn1).pump_pair hC (h .conn2).ready (h .conn2).reliable hpump
    · exact (h .conn2).pump hC hpump
  have hended : res = 0 → i.sock.Ended := by
    obtain ⟨read, hf, -⟩ :=
      etcpPump_forwards_of_reliable hC (h conn).ready (h conn).reliable hpump
    exact hf.ended
  obtain ⟨hres, hend⟩ | ⟨-, rfl⟩ | ⟨-, -, rfl⟩ := hcases
  · have hclosed : PairRelays C p₀
        ((p.setSocks conn i o).closeIn (tcpSocketOps C).logged conn.pair) false := by
      refine hpumped.closeIn conn.pair (.inl ?_)
      rw [EtcpPair.outSock, EtcpRelayConn.pair_pair, EtcpPair.inSock_setSocks]
      exact hended hres
    have hcounted : PairRelays C p₀
      ((p.setSocks conn i o).closeIn (tcpSocketOps C).logged conn.pair).countClosed false := hclosed
    obtain ⟨-, rfl⟩ | ⟨-, rfl⟩ := hend
    · rw [removed_etcpRemoveConn]
      exact hcounted.remove conn
    · change PairRelays C p₀ _ p.removed
      rw [hremoved]
      exact hcounted
  · change PairRelays C p₀ _ p.removed
    rw [hremoved]
    exact hpumped
  · rw [removed_etcpRemoveConn]
    exact hpumped.remove conn

end PairRelays

/-- **In every state of every run** of a pair of reliable sockets, removed or not, each direction
has put on the wire what it has read, and what closing its socket puts there. -/
theorem relays_of_run (hC : CfbLaws C) {newIn newOut : TcpSocket} (hin : newIn.Ready)
    (hout : newOut.Ready) (hrelIn : newIn.Reliable) (hrelOut : newOut.Reliable)
    {es : List EtcpEvent} {p : EtcpPair (Logged TcpSocket)}
    (h : Run (EtcpStep (tcpSocketOps C).logged) (etcpPairLogged newIn newOut) es p) :
    PairRelays C (etcpPairLogged newIn newOut) p p.removed := by
  refine h.invariant (I := fun _ p ↦ PairRelays C (etcpPairLogged newIn newOut) p p.removed) ?_
    fun _ _ _ _ ih hstep ↦ ih.step hC hstep
  have hnew : ∀ {i o : TcpSocket}, o.Ready → o.Reliable → Relays C o ⟨i, [], 0⟩ ⟨o, [], 0⟩ false :=
    fun hready hrel ↦ ⟨hready, hrel, fun _ _ ↦ rfl, rfl, fun _ h ↦ absurd h List.not_mem_nil,
      (List.append_nil _).symm, fun _ ↦ rfl, fun h ↦ absurd rfl h⟩
  rintro (_ | _)
  · exact hnew hout hrelOut
  · exact hnew hin hrelIn

end Vmecs
