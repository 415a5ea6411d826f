import Vmecs.Proto.Relay.Logged
import Vmecs.Proto.Relay.Sockets

/-!
# How often the sockets of a pair are closed

`tcp_socket_close` is called in two places: on the output socket of a record when its stream has
ended, and on both sockets when the pair is removed, unless a stream has ended before. The counter
that guards the second place does not say which of the streams it was. So each socket has been
closed once when the pair is removed, if neither stream has ended or each of them once; but a
failure behind the end of one stream, or an end that is read twice, leaves a socket that was never
closed (`closes_eq_one_iff`). A socket is not written to once it has been closed, so what a VMess
peer gets last is the end chunk, if the socket is closed at all (`etcp_closedOnce_iff`).
-/

namespace Vmecs

variable {σ : Type} {ops : TcpSocketOps σ} {newIn newOut : σ} {p : EtcpPair (Logged σ)}
  {es : List EtcpEvent}

/-- How often the end of the stream that this record reads has been read. -/
def endsRead (es : List EtcpEvent) (conn : EtcpRelayConn) : ℕ :=
  es.countP fun e ↦ decide (e.conn = conn ∧ e.IsEnd)

/-- The loop closes nothing. -/
theorem closes_etcpPump {fuel : ℕ} {i o i' o' : Logged σ} {res : ℤ}
    (h : etcpPump ops.logged fuel i o = some (res, i', o')) :
    i'.closes = i.closes ∧ o'.closes = o.closes := by
  replace h := etcpPumps_of_eq_some h
  induction h with
  | nothing hread =>
    obtain ⟨sock₁, -, rfl⟩ := tryRead_logged_eq_some hread
    exact ⟨rfl, rfl⟩
  | stuck hread _ hwrite =>
    obtain ⟨sock₁, -, rfl⟩ := tryRead_logged_eq_some hread
    obtain ⟨sock₂, -, rfl⟩ := write_logged_eq_some hwrite
    exact ⟨rfl, rfl⟩
  | turn hread _ hwrite _ _ ih =>
    obtain ⟨sock₁, -, rfl⟩ := tryRead_logged_eq_some hread
    obtain ⟨sock₂, -, rfl⟩ := write_logged_eq_some hwrite
    exact ih

theorem closes_closeIn (conn c : EtcpRelayConn) :
    ((p.closeIn ops.logged conn).inSock c).closes =
      (p.inSock c).closes + if c = conn then 1 else 0 := by
  rcases conn with _ | _ <;> rcases c with _ | _ <;> rfl

/-- A removal closes both sockets, if no end has been counted. -/
theorem closes_etcpRemoveConn (conn c : EtcpRelayConn) :
    ((etcpRemoveConn ops.logged p conn).inSock c).closes =
      (p.inSock c).closes + if p.nclosed conn = 0 then 1 else 0 := by
  rw [etcpRemoveConn]
  split
  · show (((p.closeIn ops.logged conn).closeIn ops.logged conn.pair).inSock c).closes = _
    rw [closes_closeIn, closes_closeIn]
    rcases conn with _ | _ <;> rcases c with _ | _ <;> simp [EtcpRelayConn.pair]
  · rfl

/-- **What a step closes**: at the end of a stream the output socket of the record; and with the
pair, if it is removed before any end, both sockets. -/
theorem closes_etcpStep {p' : EtcpPair (Logged σ)} {e : EtcpEvent}
    (h : EtcpStep ops.logged p e p') (c : EtcpRelayConn) :
    (p'.inSock c).closes = (p.inSock c).closes +
      (if e.IsEnd then if c = e.conn.pair then 1 else 0
        else if e.IsFailure ∧ p.nclosed e.conn = 0 then 1 else 0) := by
  obtain ⟨conn, res⟩ := e
  obtain ⟨-, fuel, hhandle⟩ := h
  obtain ⟨i, o, hpump, hcases⟩ := etcpHandle_cases hhandle
  dsimp only at hpump hcases
  have hsocks : ((p.setSocks conn i o).inSock c).closes = (p.inSock c).closes := by
    obtain ⟨hi, ho⟩ := closes_etcpPump hpump
    refine EtcpRelayConn.forall_of_pair
      (P := fun c ↦ ((p.setSocks conn i o).inSock c).closes = (p.inSock c).closes) conn ?_ ?_ c
    · rw [EtcpPair.inSock_setSocks, hi]
    · rw [EtcpPair.inSock_setSocks_pair, ho]
      rfl
  obtain ⟨rfl, hend⟩ | ⟨rfl, rfl⟩ | ⟨hres, hres', rfl⟩ := hcases
  · have hclosed : (((p.setSocks conn i o).closeIn ops.logged conn.pair).inSock c).closes =
        (p.inSock c).closes + if c = conn.pair then 1 else 0 := by rw [closes_closeIn, hsocks]
    rw [if_pos (show EtcpEvent.IsEnd ⟨conn, 0⟩ from rfl), ← hclosed]
    obtain ⟨-, rfl⟩ | ⟨-, rfl⟩ := hend
    · have hcounted : ((p.setSocks conn i o).closeIn ops.logged conn.pair).countClosed.nclosed
          conn ≠ 0 := Nat.succ_ne_zero _
      rw [closes_etcpRemoveConn, if_neg hcounted]
      rfl
    · rfl
  · have hend : ¬EtcpEvent.IsEnd ⟨conn, -2⟩ := by simp [EtcpEvent.IsEnd]
    have hfail : ¬EtcpEvent.IsFailure ⟨conn, -2⟩ := by simp [EtcpEvent.IsFailure]
    rw [if_neg hend, if_neg fun h ↦ hfail h.1, hsocks]
    rfl
  · have hfail : EtcpEvent.IsFailure ⟨conn, res⟩ := ⟨hres, hres'⟩
    rw [if_neg (show ¬EtcpEvent.IsEnd ⟨conn, res⟩ from hres), closes_etcpRemoveConn, hsocks]
    simp only [hfail, true_and]
    rfl

/-! ### Runs -/

theorem endsRead_append (e : EtcpEvent) (conn : EtcpRelayConn) :
    endsRead (es ++ [e]) conn = endsRead es conn + if e.IsEnd ∧ e.conn = conn then 1 else 0 := by
  rw [endsRead, List.countP_append, List.countP_singleton]
  simp only [decide_eq_true_eq, and_comm]
  rfl

/-- **The invariant**: while the pair is there, a socket has been closed once for each end of the
stream that is forwarded to it, and the counters say how many ends there were, at most one. When it
is removed, there were two; or there was a failure, and behind none both sockets have been closed.
-/
structure CountsCloses (es : List EtcpEvent) (p : EtcpPair (Logged σ)) : Prop where
  here : p.removed = false → (∀ conn, (p.outSock conn).closes = endsRead es conn) ∧
    (∀ conn, p.nclosed conn = endsRead es .conn1 + endsRead es .conn2) ∧
    endsRead es .conn1 + endsRead es .conn2 < 2
  removed : p.removed = true →
    (∀ conn, (p.outSock conn).closes = endsRead es conn) ∧
        0 < endsRead es .conn1 + endsRead es .conn2 ∧
        endsRead es .conn1 + endsRead es .conn2 ≤ 2 ∨
      (∀ conn, (p.outSock conn).closes = 1) ∧ ∀ conn, endsRead es conn = 0

theorem countsCloses_nil : CountsCloses [] (etcpPairLogged newIn newOut) where
  here _ := by
    refine ⟨fun conn ↦ ?_, fun _ ↦ rfl, Nat.two_pos⟩
    rcases conn with _ | _ <;> rfl
  removed h := absurd h (by simp [etcpPairLogged, etcpPairNew])

/-- Each step keeps it. -/
theorem CountsCloses.step {p' : EtcpPair (Logged σ)} {e : EtcpEvent} (h : CountsCloses es p)
    (hstep : EtcpStep ops.logged p e p') : CountsCloses (es ++ [e]) p' := by
  obtain ⟨hcloses, hnclosed, hlt⟩ := h.here hstep.1
  have hafter (conn : EtcpRelayConn) : (p'.outSock conn).closes = endsRead es conn +
      (if e.IsEnd then if e.conn = conn then 1 else 0
        else if e.IsFailure ∧ p.nclosed e.conn = 0 then 1 else 0) := by
    have hconn : conn.pair = e.conn.pair ↔ e.conn = conn :=
      ⟨fun h ↦ by rw [← e.conn.pair_pair, ← h, EtcpRelayConn.pair_pair], fun h ↦ by rw [h]⟩
    rw [EtcpPair.outSock, closes_etcpStep hstep, ← hcloses conn]
    simp only [hconn]
    rfl
  have hends (conn : EtcpRelayConn) : endsRead (es ++ [e]) conn =
      endsRead es conn + if e.IsEnd ∧ e.conn = conn then 1 else 0 := endsRead_append e conn
  have hsum : endsRead (es ++ [e]) .conn1 + endsRead (es ++ [e]) .conn2 =
      endsRead es .conn1 + endsRead es .conn2 + if e.IsEnd then 1 else 0 := by
    rw [hends, hends]
    by_cases he : e.IsEnd
    · obtain ⟨_ | _, res⟩ := e <;> simp [he] <;> omega
    · simp [he]
  obtain ⟨he, hn, hr⟩ | ⟨hres, hn, hr⟩ | ⟨he, hn, hr⟩ := etcpStep_cases hstep
  · -- an end
    simp only [he, if_true, true_and] at hafter hends hsum
    have hafter' (conn : EtcpRelayConn) :
        (p'.outSock conn).closes = endsRead (es ++ [e]) conn := by rw [hafter, hends]
    refine ⟨fun hkept ↦ ⟨hafter', fun conn ↦ ?_, ?_⟩, fun _ ↦ .inl ⟨hafter', ?_, ?_⟩⟩
    · simp only [hn, hsum, hnclosed]
    · have hne : p.nclosed e.conn + 1 ≠ 2 := fun h2 ↦ by simp [hr.2 h2] at hkept
      rw [hnclosed] at hne
      omega
    · omega
    · omega
  · -- nothing to be read
    have hend : ¬e.IsEnd := by simp [EtcpEvent.IsEnd, hres]
    have hfail : ¬e.IsFailure := by simp [EtcpEvent.IsFailure, hres]
    simp only [hend, hfail, if_false, false_and, Nat.add_zero] at hafter hends hsum
    refine ⟨fun _ ↦ ⟨fun conn ↦ by rw [hafter, hends], fun conn ↦ by rw [hn, hsum, hnclosed], ?_⟩,
      fun hr' ↦ absurd (hr.symm.trans hr') (by simp)⟩
    rwa [hsum]
  · -- a failure
    have hend : ¬e.IsEnd := he.1
    simp only [hend, he, if_false, false_and, true_and, Nat.add_zero] at hafter hends hsum
    refine ⟨fun hkept ↦ absurd (hkept.symm.trans hr) (by simp), fun _ ↦ ?_⟩
    have hnone := hnclosed e.conn
    by_cases hzero : p.nclosed e.conn = 0
    · have hboth : ∀ conn, endsRead es conn = 0 := by
        rintro (_ | _) <;> omega
      refine .inr ⟨fun conn ↦ ?_, fun conn ↦ by rw [hends, hboth]⟩
      rw [hafter, if_pos hzero, hboth]
    · refine .inl ⟨fun conn ↦ by rw [hafter, if_neg hzero, hends]; rfl, ?_, ?_⟩
      · omega
      · omega

/-- **How often the sockets have been closed.** When a pair is removed, each of its sockets has been
closed exactly once if and only if the end of either stream has been read as often as that of the
other. -/
theorem closes_eq_one_iff (h : Run (EtcpStep ops.logged) (etcpPairLogged newIn newOut) es p)
    (hremoved : p.removed = true) :
    (∀ conn, (p.inSock conn).closes = 1) ↔ endsRead es .conn1 = endsRead es .conn2 := by
  have hcounts : CountsCloses es p :=
    h.invariant countsCloses_nil fun _ _ _ _ ih hstep ↦ ih.step hstep
  obtain ⟨hcloses, hpos, hle⟩ | ⟨hcloses, hzero⟩ := hcounts.removed hremoved
  · have h₁ : (p.inSock .conn2).closes = endsRead es .conn1 := hcloses .conn1
    have h₂ : (p.inSock .conn1).closes = endsRead es .conn2 := hcloses .conn2
    constructor
    · intro honce
      rw [← h₁, ← h₂, honce, honce]
    · rintro heq (_ | _) <;> omega
  · refine iff_of_true ?_ (by rw [hzero, hzero])
    exact fun conn ↦ conn.pair_pair ▸ hcloses conn.pair

/-! ### What a closed socket has sent last -/

/-- The last thing done to the writing side was `tcp_socket_close`; for a VMess socket, what was
written last is the end chunk. -/
def TcpSocket.Closed : TcpSocket → Prop
  | native sock => ∃ out, sock.out = socketShutdownWrite out
  | socks conn => ∃ out, conn.out = socketShutdownWrite out
  | vmess conn => ∃ out, conn.out = vmessTcpSocketClose out

section Closed

variable {C : Crypto} {q q' : EtcpPair (Logged TcpSocket)}

theorem closed_close (C : Crypto) (sock : TcpSocket) : ((tcpSocketOps C).close sock).Closed := by
  match sock with
  | .native _ => exact ⟨_, rfl⟩
  | .socks _ => exact ⟨_, rfl⟩
  | .vmess _ => exact ⟨_, rfl⟩

theorem closed_tryRead {size : ℕ} (hsize : 1 ≤ size) {sock sock' : TcpSocket} {res : ℤ}
    {buf : Bytes} (h : (tcpSocketOps C).tryRead size sock = some (res, buf, sock')) :
    sock.Closed → sock'.Closed := by
  have hout := (tryRead_tcpSocketOps hsize h).same.out_eq
  obtain ⟨s, s', rfl, rfl, -⟩ | ⟨s, s', rfl, rfl, -⟩ | ⟨s, s', rfl, rfl, -⟩ :=
    tryRead_tcpSocketOps_cases h
  · exact fun ⟨out, hclosed⟩ ↦ ⟨out, hout.trans hclosed⟩
  · exact fun ⟨out, hclosed⟩ ↦ ⟨out, hout.trans hclosed⟩
  · exact fun ⟨out, hclosed⟩ ↦ ⟨out, hout.trans hclosed⟩

/-- A write leaves the reading side alone, also when it fails. -/
theorem ended_write {sock sock' : TcpSocket} {data : Bytes} {n : ℤ}
    (h : (tcpSocketOps C).write data sock = some (n, sock')) : sock.Ended → sock'.Ended := by
  match sock with
  | .native _ =>
    obtain ⟨-, rfl⟩ := Prod.mk.inj (Option.some.inj h)
    exact id
  | .socks _ =>
    obtain ⟨-, rfl⟩ := Prod.mk.inj (Option.some.inj h)
    exact id
  | .vmess conn =>
    obtain ⟨r, hconn, hr⟩ := Option.map_eq_some_iff.1 h
    obtain ⟨-, rfl⟩ := Prod.mk.inj hr
    obtain ⟨⟨ret, sock', out⟩, hwrite, rfl⟩ := Option.map_eq_some_iff.1 hconn
    obtain ⟨vser, -, hflush⟩ := Option.bind_eq_some_iff.1 hwrite
    obtain ⟨r, -, hr⟩ := Option.bind_eq_some_iff.1 hflush
    obtain ⟨-, hr⟩ := Prod.mk.inj (Option.some.inj hr)
    obtain ⟨rfl, -⟩ := Prod.mk.inj hr
    exact id

/-- A read of the loop: it closes nothing, and gives what the socket gives. -/
theorem tryRead_logged_sides {i i' : Logged TcpSocket} {res : ℤ} {buf : Bytes}
    (h : (tcpSocketOps C).logged.tryRead etcpDefaultBuffer i = some (res, buf, i')) :
    (i.sock.Closed → i'.sock.Closed) ∧ TryRead etcpDefaultBuffer i.sock res buf i'.sock := by
  obtain ⟨sock, hsock, rfl⟩ := tryRead_logged_eq_some h
  have hsize : 1 ≤ etcpDefaultBuffer := by simp [etcpDefaultBuffer]
  exact ⟨closed_tryRead hsize hsock, tryRead_tcpSocketOps hsize hsock⟩

/-- A write of the loop. -/
theorem write_logged_sides {o o' : Logged TcpSocket} {buf : Bytes} {n : ℤ}
    (h : (tcpSocketOps C).logged.write buf o = some (n, o')) : o.sock.Ended → o'.sock.Ended := by
  obtain ⟨sock, hsock, rfl⟩ := write_logged_eq_some h
  exact ended_write hsock

/-- The loop reads from the one socket only, and writes to the other one only; at the end of the
stream it does not write. -/
theorem etcpPump_sides {fuel : ℕ} {i o i' o' : Logged TcpSocket} {res : ℤ}
    (h : etcpPump (tcpSocketOps C).logged fuel i o = some (res, i', o')) :
    (i.sock.Closed → i'.sock.Closed) ∧ (o.sock.Ended → o'.sock.Ended) ∧
      (res = 0 → i'.sock.Ended) ∧ (i.sock.Ended → res = 0 ∧ i'.sock.Ended ∧ o' = o) := by
  replace h := etcpPumps_of_eq_some h
  induction h with
  | nothing hread =>
    obtain ⟨hclosed, htry⟩ := tryRead_logged_sides hread
    exact ⟨hclosed, id, htry.ended, fun hs ↦ ⟨(htry.again hs).1, (htry.again hs).2, rfl⟩⟩
  | stuck hread hpos hwrite =>
    obtain ⟨hclosed, htry⟩ := tryRead_logged_sides hread
    have hended := write_logged_sides hwrite
    exact ⟨hclosed, hended, htry.ended, fun hs ↦ absurd (htry.again hs).1 hpos.ne'⟩
  | turn hread hpos hwrite _ _ ih =>
    obtain ⟨hclosed, htry⟩ := tryRead_logged_sides hread
    have hended := write_logged_sides hwrite
    obtain ⟨hi, ho, hres, -⟩ := ih
    exact ⟨hi ∘ hclosed, ho ∘ hended, hres, fun hs ↦ absurd (htry.again hs).1 hpos.ne'⟩

/-- **The invariant**: a socket that has been closed was not written to since; for while the pair is
there, the stream that is forwarded to it has ended. -/
structure ClosedForGood (q : EtcpPair (Logged TcpSocket)) : Prop where
  closed : ∀ conn, 0 < (q.outSock conn).closes → (q.outSock conn).sock.Closed
  ended : q.removed = false → ∀ conn, 0 < (q.outSock conn).closes → (q.inSock conn).sock.Ended

namespace ClosedForGood

theorem pump (h : ClosedForGood q) (hremoved : q.removed = false) {conn : EtcpRelayConn}
    {fuel : ℕ} {res : ℤ} {i o : Logged TcpSocket}
    (hpump : etcpPump (tcpSocketOps C).logged fuel (q.inSock conn) (q.outSock conn) =
      some (res, i, o)) : ClosedForGood (q.setSocks conn i o) := by
  obtain ⟨hi, ho⟩ := closes_etcpPump hpump
  obtain ⟨hclosed, hended, -, hover⟩ := etcpPump_sides hpump
  have hout : (q.setSocks conn i o).outSock conn = o := EtcpPair.inSock_setSocks_pair ..
  have hin : (q.setSocks conn i o).inSock conn = i := EtcpPair.inSock_setSocks ..
  have hout' : (q.setSocks conn i o).outSock conn.pair = i := by
    rw [EtcpPair.outSock, EtcpRelayConn.pair_pair, hin]
  have hold := h.closed conn.pair
  have hold' := h.ended hremoved conn.pair
  rw [EtcpPair.outSock, EtcpRelayConn.pair_pair] at hold hold'
  refine ⟨EtcpRelayConn.forall_of_pair conn (fun hpos ↦ ?_) fun hpos ↦ ?_, fun _ ↦
    EtcpRelayConn.forall_of_pair conn (fun hpos ↦ ?_) fun hpos ↦ ?_⟩
  · rw [hout] at hpos ⊢
    rw [ho] at hpos
    obtain ⟨-, -, rfl⟩ := hover (h.ended hremoved conn hpos)
    exact h.closed conn hpos
  · rw [hout'] at hpos ⊢
    rw [hi] at hpos
    exact hclosed (hold hpos)
  · rw [hout, ho] at hpos
    rw [hin]
    exact (hover (h.ended hremoved conn hpos)).2.1
  · rw [hout', hi] at hpos
    rw [EtcpPair.inSock_setSocks_pair]
    exact hended (hold' hpos)

/-- At the end of the stream that a record reads, its output socket is closed. -/
theorem closeOut (h : ClosedForGood q) {conn : EtcpRelayConn}
    (hended : (q.inSock conn).sock.Ended) :
    ClosedForGood (q.closeIn (tcpSocketOps C).logged conn.pair) := by
  have hin : (q.closeIn (tcpSocketOps C).logged conn.pair).inSock conn = q.inSock conn :=
    EtcpPair.inSock_closeIn_pair ..
  have hout : (q.closeIn (tcpSocketOps C).logged conn.pair).outSock conn =
      (tcpSocketOps C).logged.close (q.outSock conn) := EtcpPair.inSock_closeIn ..
  have hout' : (q.closeIn (tcpSocketOps C).logged conn.pair).outSock conn.pair =
      q.outSock conn.pair := by
    rw [EtcpPair.outSock, EtcpPair.outSock, EtcpRelayConn.pair_pair, hin]
  refine ⟨EtcpRelayConn.forall_of_pair conn (fun _ ↦ ?_) fun hpos ↦ ?_, fun hremoved ↦
    EtcpRelayConn.forall_of_pair conn (fun _ ↦ hin ▸ hended) fun hpos ↦ ?_⟩
  · rw [hout]
    exact closed_close C _
  · rw [hout'] at hpos ⊢
    exact h.closed conn.pair hpos
  · rw [hout'] at hpos
    show ((q.closeIn (tcpSocketOps C).logged conn.pair).outSock conn).sock.Ended
    rw [hout]
    exact (close_tcpSocketOps C _).2.2 (h.ended hremoved conn.pair hpos)

theorem remove (h : ClosedForGood q) (conn : EtcpRelayConn) :
    ClosedForGood (etcpRemoveConn (tcpSocketOps C).logged q conn) := by
  refine ⟨?_, fun hkept ↦ absurd hkept (by simp)⟩
  rw [etcpRemoveConn]
  split
  · refine EtcpRelayConn.forall_of_pair conn (fun _ ↦ ?_) fun _ ↦ ?_
    · show (((q.closeIn _ conn).closeIn _ conn.pair).inSock conn.pair).sock.Closed
      rw [EtcpPair.inSock_closeIn]
      exact closed_close C _
    · show (((q.closeIn _ conn).closeIn _ conn.pair).inSock conn.pair.pair).sock.Closed
      rw [EtcpRelayConn.pair_pair, EtcpPair.inSock_closeIn_pair, EtcpPair.inSock_closeIn]
      exact closed_close C _
  · exact h.closed

theorem step (h : ClosedForGood q) {e : EtcpEvent}
    (hstep : EtcpStep (tcpSocketOps C).logged q e q') : ClosedForGood q' := by
  obtain ⟨hremoved, fuel, hhandle⟩ := hstep
  obtain ⟨i, o, hpump, hcases⟩ := etcpHandle_cases hhandle
  have hpumped := h.pump hremoved hpump
  obtain ⟨hres, hend⟩ | ⟨-, rfl⟩ | ⟨-, -, rfl⟩ := hcases
  · have hended : ((q.setSocks e.conn i o).inSock e.conn).sock.Ended := by
      rw [EtcpPair.inSock_setSocks]
      exact (etcpPump_sides hpump).2.2.1 hres
    have hclosed := hpumped.closeOut (C := C) hended
    have hcounted : ClosedForGood
        ((q.setSocks e.conn i o).closeIn (tcpSocketOps C).logged e.conn.pair).countClosed :=
      ⟨hclosed.closed, hclosed.ended⟩
    obtain ⟨-, rfl⟩ | ⟨-, rfl⟩ := hend
    · exact hcounted.remove e.conn
    · exact hcounted
  · exact hpumped
  · exact hpumped.remove e.conn

end ClosedForGood

/-- **Exactly when a pair is torn down in order.** When a pair is removed, each of its sockets has
been closed exactly once, and not been written to since, if and only if the end of either stream has
been read as often as that of the other: both never, and the pair has failed, or both once. -/
theorem etcp_closedOnce_iff {newIn newOut : TcpSocket}
    (h : Run (EtcpStep (tcpSocketOps C).logged) (etcpPairLogged newIn newOut) es q)
    (hremoved : q.removed = true) :
    (∀ conn, (q.inSock conn).closes = 1 ∧ (q.inSock conn).sock.Closed) ↔
      endsRead es .conn1 = endsRead es .conn2 := by
  have hgood : ClosedForGood q := by
    refine h.invariant (I := fun _ q ↦ ClosedForGood q) ?_ fun _ _ _ _ ih hstep ↦ ih.step hstep
    have hnone (conn : EtcpRelayConn) : ((etcpPairLogged newIn newOut).inSock conn).closes = 0 := by
      rcases conn with _ | _ <;> rfl
    exact ⟨fun conn hpos ↦ absurd (hnone conn.pair) hpos.ne', fun _ conn hpos ↦
      absurd (hnone conn.pair) hpos.ne'⟩
  rw [← closes_eq_one_iff h hremoved]
  refine ⟨fun hall conn ↦ (hall conn).1, fun hall conn ↦ ⟨hall conn, ?_⟩⟩
  have hclosed := hgood.closed conn.pair
  rw [EtcpPair.outSock, EtcpRelayConn.pair_pair, hall] at hclosed
  exact hclosed Nat.one_pos

end Closed

/-! ### At two runs -/

/-- A VMess client that sends its end chunk, and a server whose connection ends like this. -/
def sampleClosing (last : ReadAnswer) : EtcpPair (Logged TcpSocket) :=
  etcpPairLogged
    (.vmess ⟨{ vmessTcpSocketNewFd (vmessConfigNew sampleUserId) sampleAuth with
      vser := some (vmessSerialNew sampleAuth) }, [.data vmessSerialEnd, .again], {}⟩)
    (.native ⟨[last], {}⟩)

/-- The server's stream ends as well: each socket has been closed once, and the client has been sent
the end chunk. -/
theorem etcp_closedOnce_sampleClosing :
    ∃ p, Run (EtcpStep (tcpSocketOps openssl).logged) (sampleClosing .eof)
        [⟨.conn1, 0⟩, ⟨.conn2, 0⟩] p ∧ p.removed = true ∧
      (∀ conn, (p.inSock conn).closes = 1 ∧ (p.inSock conn).sock.Closed) ∧
      (p.inSock .conn1).sock.out.sent = vmessSerialEnd := by
  have h₁ : Run (EtcpStep (tcpSocketOps openssl).logged) (sampleClosing .eof)
      ([] ++ [⟨.conn1, 0⟩]) _ := .snoc .nil ⟨rfl, 1, rfl⟩
  have h₂ : Run (EtcpStep (tcpSocketOps openssl).logged) (sampleClosing .eof)
      ([⟨.conn1, 0⟩] ++ [⟨.conn2, 0⟩]) _ := .snoc h₁ ⟨rfl, 1, rfl⟩
  exact ⟨_, h₂, rfl, (etcp_closedOnce_iff h₂ rfl).2 rfl, rfl⟩

/-- The server's connection fails after the client's stream has ended: the client's socket is freed
without having been closed, and no end chunk is sent to the client. -/
theorem not_closedOnce_failed :
    ∃ p, Run (EtcpStep (tcpSocketOps openssl).logged) (sampleClosing .fail)
        [⟨.conn1, 0⟩, ⟨.conn2, -1⟩] p ∧ p.removed = true ∧ (p.inSock .conn1).closes = 0 ∧
      (p.inSock .conn1).sock.out.sent = [] ∧
      ¬∀ conn, (p.inSock conn).closes = 1 ∧ (p.inSock conn).sock.Closed := by
  have h₁ : Run (EtcpStep (tcpSocketOps openssl).logged) (sampleClosing .fail)
      ([] ++ [⟨.conn1, 0⟩]) _ := .snoc .nil ⟨rfl, 1, rfl⟩
  have h₂ : Run (EtcpStep (tcpSocketOps openssl).logged) (sampleClosing .fail)
      ([⟨.conn1, 0⟩] ++ [⟨.conn2, -1⟩]) _ := .snoc h₁ ⟨rfl, 1, rfl⟩
  exact ⟨_, h₂, rfl, rfl, rfl, fun h ↦ absurd (h .conn1).1 (by decide)⟩

end Vmecs
