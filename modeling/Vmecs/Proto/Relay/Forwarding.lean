import Vmecs.Proto.Relay.Logged
import Vmecs.Proto.Relay.Sockets

/-!
# What the relay forwards

The loop of `etcp_handle` goes on when `tcp_socket_write` has returned a positive number, and does
not ask whether it was all that had been read. So what has reached the output descriptor is what
`write(2)` has accepted of each write (`etcpPump_forwards`), and that is everything exactly if every
one of them was accepted whole (`etcp_forwarded_iff`).
-/

namespace Vmecs

open TcpSocket

variable {C : Crypto}

/-- The writes that carry what has been read from one socket to another. -/
def forwardedWrites (C : Crypto) (o : TcpSocket) (read : List Bytes) : List Bytes :=
  read.flatMap fun data ↦ o.writes C data

/-! ### A run of the loop -/

/-- The loop has read some pieces of data from one socket and has made the writes for them on the
other one. -/
structure Forwards (C : Crypto) (i o : Logged TcpSocket) (read : List Bytes) (res : ℤ)
    (i' o' : Logged TcpSocket) : Prop where
  read_eq : i'.read = i.read ++ read
  ne_nil : ∀ data ∈ read, data ≠ []
  same : SameWriting i.sock i'.sock
  out_eq : o'.sock.out = fdWrites o.sock.out (forwardedWrites C o.sock read)
  writes_eq : ∀ C data, o'.sock.writes C data = o.sock.writes C data
  ready : o'.sock.Ready
  other_read : o'.read = o.read
  other_ended : o.sock.Ended → o'.sock.Ended
  ended : res = 0 → i'.sock.Ended
  at_end : i.sock.Ended → res = 0

/-- A read that gives nothing. -/
theorem Forwards.nothing {i o i' : Logged TcpSocket} {res : ℤ} {buf : Bytes}
    (hready : o.sock.Ready)
    (hread : (tcpSocketOps C).logged.tryRead etcpDefaultBuffer i = some (res, buf, i'))
    (hres : res ≤ 0) : Forwards C i o [] res i' o := by
  obtain ⟨sock₁, hsock, rfl⟩ := tryRead_logged_eq_some hread
  have htry := tryRead_tcpSocketOps (by simp [etcpDefaultBuffer]) hsock
  refine ⟨?_, by simp, htry.same, rfl, fun _ _ ↦ rfl, hready, rfl, id, htry.ended,
    fun hs ↦ (htry.again hs).1⟩
  simp [Int.not_lt.2 hres]

/-- A turn that reads something and has made the writes for it, and what is forwarded after it. -/
theorem Forwards.turn {i i₁ i' o' : Logged TcpSocket} {o : Logged TcpSocket} {sock : TcpSocket}
    {res res₁ : ℤ} {buf : Bytes} {read : List Bytes}
    (hread : (tcpSocketOps C).logged.tryRead etcpDefaultBuffer i = some (res₁, buf, i₁))
    (hpos : 0 < res₁) (hw : buf ≠ [] → Write C o.sock buf sock)
    (hf : Forwards C i₁ { o with sock } read res i' o') :
    Forwards C i o (buf :: read) res i' o' := by
  obtain ⟨sock₁, hsock, rfl⟩ := tryRead_logged_eq_some hread
  have htry := tryRead_tcpSocketOps (by simp [etcpDefaultBuffer]) hsock
  have hbuf : buf ≠ [] := by
    have := htry.length_buf
    rw [← List.length_pos_iff]
    omega
  replace hw := hw hbuf
  refine ⟨?_, ?_, ?_, ?_, ?_, hf.ready, hf.other_read, fun hs ↦ hf.other_ended (hw.ended hs),
    hf.ended, fun hs ↦ ?_⟩
  · rw [hf.read_eq]
    simp [hpos]
  · exact List.forall_mem_cons.2 ⟨hbuf, hf.ne_nil⟩
  · exact ⟨hf.same.out_eq.trans htry.same.out_eq, fun C data ↦
      (hf.same.writes_eq C data).trans (htry.same.writes_eq C data),
      fun hs ↦ hf.same.ready (htry.same.ready hs)⟩
  · have hrest : forwardedWrites C sock read = forwardedWrites C o.sock read := by
      simp only [forwardedWrites, hw.writes_eq]
    rw [hf.out_eq, hrest, hw.out_eq, ← fdWrites_append]
    rfl
  · exact fun C data ↦ (hf.writes_eq C data).trans (hw.writes_eq C data)
  · exact absurd (htry.again hs).1 (by omega)

/-- **What the loop forwards**, when it ends because there is nothing more to read. -/
theorem etcpPump_forwards (hC : CfbLaws C) {fuel : ℕ} {i o i' o' : Logged TcpSocket} {res : ℤ}
    (hready : o.sock.Ready)
    (h : etcpPump (tcpSocketOps C).logged fuel i o = some (res, i', o')) (hres : res ≤ 0) :
    ∃ read, Forwards C i o read res i' o' := by
  replace h := etcpPumps_of_eq_some h
  induction h with
  | nothing hread hle => exact ⟨[], .nothing hready hread hle⟩
  | stuck _ hpos => exact absurd hres (Int.not_le.2 hpos)
  | @turn i o i₁ o₁ i' o' res res₁ n buf hread hpos hwrite hn _ ih =>
    obtain ⟨sock₂, hsock₂, rfl⟩ := write_logged_eq_some hwrite
    have hw (hbuf : buf ≠ []) := write_tcpSocketOps hC hready hbuf hsock₂ (by omega)
    have hready₂ : sock₂.Ready := by
      obtain ⟨sock₁, hsock, rfl⟩ := tryRead_logged_eq_some hread
      have := (tryRead_tcpSocketOps (by simp [etcpDefaultBuffer]) hsock).length_buf
      exact (hw (List.ne_nil_of_length_pos (by omega))).ready
    obtain ⟨read, hf⟩ := ih hready₂ hres
    exact ⟨buf :: read, hf.turn hread hpos hw⟩

/-! ### Runs of a pair -/

theorem forwardedWrites_append (C : Crypto) (o : TcpSocket) (read read' : List Bytes) :
    forwardedWrites C o (read ++ read') = forwardedWrites C o read ++ forwardedWrites C o read' :=
  List.flatMap_append

/-- **The invariant** of a pair that is there: of each direction, what has been read has been
written to the other socket, unless the direction has ended; then its end has been counted. -/
structure Forwarding (C : Crypto) (p₀ p : EtcpPair (Logged TcpSocket)) : Prop where
  ready : ∀ conn, (p.inSock conn).sock.Ready
  writes_eq : ∀ conn C data,
    (p.inSock conn).sock.writes C data = (p₀.inSock conn).sock.writes C data
  ne_nil : ∀ conn, ∀ data ∈ (p.inSock conn).read, data ≠ []
  nclosed_eq : ∀ conn, p.nclosed conn.pair = p.nclosed conn
  nclosed_lt : ∀ conn, p.nclosed conn < 2
  direction : ∀ conn,
    ((p.inSock conn).sock.Ended ∧ 1 ≤ p.nclosed conn) ∨
      (p.outSock conn).sock.out = fdWrites (p₀.outSock conn).sock.out
        (forwardedWrites C (p₀.outSock conn).sock (p.inSock conn).read)

namespace Forwarding

variable {p₀ p p' : EtcpPair (Logged TcpSocket)}

theorem init {newIn newOut : TcpSocket} (hin : newIn.Ready) (hout : newOut.Ready) :
    Forwarding C (etcpPairLogged newIn newOut) (etcpPairLogged newIn newOut) where
  ready conn := by rcases conn with _ | _ <;> assumption
  writes_eq _ _ _ := rfl
  ne_nil conn := by rcases conn with _ | _ <;> simp [etcpPairLogged, etcpPairNew]
  nclosed_eq _ := rfl
  nclosed_lt _ := Nat.two_pos
  direction conn := .inr (by rcases conn with _ | _ <;> rfl)

/-- A record that is handled while the pair stays has a direction that had not ended: its loop goes
on from what has been forwarded before. -/
theorem of_handled (hC : CfbLaws C) (h : Forwarding C p₀ p) {fuel : ℕ} {conn : EtcpRelayConn}
    {res : ℤ} {i o : Logged TcpSocket} (hres : res ≤ 0) (hn : res = 0 → p.nclosed conn + 1 ≠ 2)
    (hpump : etcpPump (tcpSocketOps C).logged fuel (p.inSock conn) (p.outSock conn) =
      some (res, i, o)) :
    ∃ read, Forwards C (p.inSock conn) (p.outSock conn) read res i o ∧
      o.sock.out = fdWrites (p₀.outSock conn).sock.out
        (forwardedWrites C (p₀.outSock conn).sock i.read) := by
  have hready : (p.outSock conn).sock.Ready := h.ready conn.pair
  obtain ⟨read, hf⟩ := etcpPump_forwards hC hready hpump hres
  refine ⟨read, hf, ?_⟩
  rcases h.direction conn with ⟨hended, hpos⟩ | hout
  · have := h.nclosed_lt conn
    exact absurd (by omega) (hn (hf.at_end hended))
  · have hwrites : forwardedWrites C (p.outSock conn).sock read =
        forwardedWrites C (p₀.outSock conn).sock read := by
      simp only [forwardedWrites, show ∀ data, (p.outSock conn).sock.writes C data =
        (p₀.outSock conn).sock.writes C data from h.writes_eq conn.pair C]
    rw [hf.out_eq, hout, hwrites, ← fdWrites_append, hf.read_eq, forwardedWrites_append]

/-- A step that leaves the pair in place keeps the invariant. -/
theorem step (hC : CfbLaws C) (h : Forwarding C p₀ p) {e : EtcpEvent}
    (hstep : EtcpStep (tcpSocketOps C).logged p e p') (hkept : p'.removed = false) :
    Forwarding C p₀ p' := by
  obtain ⟨hres, hnclosed, hlast⟩ := etcpStep_of_not_removed hstep hkept
  obtain ⟨hremoved, fuel, hhandle⟩ := hstep
  obtain ⟨i, o, hpump, hi, ho⟩ := etcpHandle_socks hhandle (res_of_not_removed hhandle hkept)
  obtain ⟨conn, res⟩ := e
  dsimp only at hpump hres hi ho hnclosed hlast
  obtain ⟨read, hf, hout⟩ := h.of_handled hC (by omega) hlast hpump
  -- the other socket, closed if this was the end
  have hother : (∀ C data, (p'.inSock conn.pair).sock.writes C data = o.sock.writes C data) ∧
      (p'.inSock conn.pair).sock.Ready ∧
      (o.sock.Ended → (p'.inSock conn.pair).sock.Ended) ∧
      (p'.inSock conn.pair).read = o.read ∧ (res ≠ 0 → p'.inSock conn.pair = o) := by
    rw [ho]
    split
    case isTrue hzero =>
      obtain ⟨hw, hr, he⟩ := close_tcpSocketOps C o.sock
      exact ⟨hw, hr hf.ready, he, rfl, fun hne ↦ absurd hzero hne⟩
    case isFalse => exact ⟨fun _ _ ↦ rfl, hf.ready, id, rfl, fun _ ↦ rfl⟩
  obtain ⟨hwrites, hready, hended, hread, hsame⟩ := hother
  refine ⟨?_, ?_, ?_, fun c ↦ ?_, fun c ↦ ?_, ?_⟩
  · exact EtcpRelayConn.forall_of_pair conn (hi ▸ hf.same.ready (h.ready conn)) hready
  · refine EtcpRelayConn.forall_of_pair conn (fun C data ↦ ?_) fun C data ↦ ?_
    · rw [hi, hf.same.writes_eq, h.writes_eq]
    · rw [hwrites, hf.writes_eq]
      exact h.writes_eq conn.pair C data
  · refine EtcpRelayConn.forall_of_pair conn ?_ ?_
    · rw [hi, hf.read_eq]
      intro data hdata
      rcases List.mem_append.1 hdata with hold | hnew
      · exact h.ne_nil conn data hold
      · exact hf.ne_nil data hnew
    · rw [hread, hf.other_read]
      exact h.ne_nil conn.pair
  · simp only [hnclosed, h.nclosed_eq]
  · have hlt := h.nclosed_lt c
    have heq : p.nclosed c = p.nclosed conn :=
      EtcpRelayConn.forall_of_pair (P := fun c ↦ p.nclosed c = p.nclosed conn) conn rfl
        (h.nclosed_eq conn) c
    simp only [hnclosed]
    split
    case isTrue hzero => have := hlast hzero; omega
    case isFalse => omega
  · refine EtcpRelayConn.forall_of_pair conn ?_ ?_
    · by_cases hzero : res = 0
      · refine .inl ⟨hi ▸ hf.ended hzero, ?_⟩
        simp only [hnclosed, hzero, if_true]
        omega
      · refine .inr ?_
        rw [EtcpPair.outSock, hsame hzero, hi]
        exact hout
    · -- the socket read from is the one that the other direction writes to
      have hpair : p'.outSock conn.pair = i := by
        rw [EtcpPair.outSock, EtcpRelayConn.pair_pair, hi]
      have hold := h.direction conn.pair
      rw [EtcpPair.outSock, EtcpPair.outSock, EtcpRelayConn.pair_pair] at hold
      rw [hpair, hread, hf.other_read, hf.same.out_eq, EtcpPair.outSock, EtcpRelayConn.pair_pair]
      refine hold.imp (fun ⟨he, hn⟩ ↦ ⟨hended (hf.other_ended he), ?_⟩) id
      rw [hnclosed]
      exact Nat.le_add_right_of_le hn

/-- In every run, the invariant holds as long as the pair is there. -/
theorem of_run (hC : CfbLaws C) {newIn newOut : TcpSocket} (hin : newIn.Ready)
    (hout : newOut.Ready) {es : List EtcpEvent}
    (h : Run (EtcpStep (tcpSocketOps C).logged) (etcpPairLogged newIn newOut) es p) :
    p.removed = false → Forwarding C (etcpPairLogged newIn newOut) p :=
  h.invariant (I := fun _ p ↦ p.removed = false → Forwarding C (etcpPairLogged newIn newOut) p)
    (fun _ ↦ init hin hout) fun _ _ _ _ ih hstep ↦ (ih hstep.1).step hC hstep

end Forwarding

/-! ### Nothing is lost -/

/-- **Nothing is lost** in a direction: what has reached the descriptor of `o` is, behind what had
been sent on it at first, all that has been read from `i`, as it is on the wire. -/
def Forwarded (C : Crypto) (o₀ : TcpSocket) (i o : Logged TcpSocket) : Prop :=
  o.sock.out.sent = o₀.out.sent ++ (forwardedWrites C o₀ i.read).flatten

/-- The writes for some pieces of data are none of them empty. -/
theorem forwardedWrites_ne_nil {o : TcpSocket} {read : List Bytes}
    (hne : ∀ data ∈ read, data ≠ []) : ∀ w ∈ forwardedWrites C o read, w ≠ [] := by
  intro w hw
  obtain ⟨data, hdata, hw⟩ := List.mem_flatMap.1 hw
  exact writes_ne_nil _ (hne data hdata) hw

/-- Nothing is lost of the writes that have been made exactly if each of them was accepted whole. -/
theorem forwarded_iff_of_out_eq {o₀ : TcpSocket} {i o : Logged TcpSocket}
    (hne : ∀ data ∈ i.read, data ≠ [])
    (hout : o.sock.out = fdWrites o₀.out (forwardedWrites C o₀ i.read)) :
    Forwarded C o₀ i o ↔ AcceptsAll o₀.out.answers (forwardedWrites C o₀ i.read) := by
  rw [Forwarded, hout]
  exact sent_fdWrites_eq_iff (forwardedWrites_ne_nil hne)

/-- So it is with something behind them. -/
theorem whole_iff_of_sent_eq {o₀ : TcpSocket} {read : List Bytes} (hne : ∀ data ∈ read, data ≠ [])
    {sent tail : Bytes}
    (hsent : sent = (fdWrites o₀.out (forwardedWrites C o₀ read)).sent ++ tail) :
    sent = o₀.out.sent ++ (forwardedWrites C o₀ read).flatten ++ tail ↔
      AcceptsAll o₀.out.answers (forwardedWrites C o₀ read) := by
  rw [hsent, List.append_left_inj]
  exact sent_fdWrites_eq_iff (forwardedWrites_ne_nil hne)

/-- Nothing is lost in a direction of a pair that has not ended, exactly if every write that was
made for it has been accepted whole. -/
def ForwardsExactly (C : Crypto) (p₀ p : EtcpPair (Logged TcpSocket)) : Prop :=
  ∀ conn, ¬((p.inSock conn).sock.Ended ∧ 1 ≤ p.nclosed conn) →
    (Forwarded C (p₀.outSock conn).sock (p.inSock conn) (p.outSock conn) ↔
      AcceptsAll (p₀.outSock conn).sock.out.answers
        (forwardedWrites C (p₀.outSock conn).sock (p.inSock conn).read))

theorem Forwarding.exactly {p₀ p : EtcpPair (Logged TcpSocket)} (h : Forwarding C p₀ p) :
    ForwardsExactly C p₀ p := fun conn hopen ↦
  forwarded_iff_of_out_eq (h.ne_nil conn) ((h.direction conn).resolve_left hopen)

/-- **Exactly when nothing is lost.** In every run of a relayed pair, when the loop of a record ends
and the pair stays, all that has been read has reached the output descriptor if and only if every
write that was made for it has been accepted whole. -/
theorem etcp_forwarded_iff (hC : CfbLaws C) {newIn newOut : TcpSocket} (hin : newIn.Ready)
    (hout : newOut.Ready) {es : List EtcpEvent} {p p' : EtcpPair (Logged TcpSocket)}
    (hrun : Run (EtcpStep (tcpSocketOps C).logged) (etcpPairLogged newIn newOut) es p)
    (hremoved : p.removed = false) {fuel : ℕ} {conn : EtcpRelayConn} {res : ℤ}
    (hhandle : etcpHandle (tcpSocketOps C).logged fuel conn p = some (res, p'))
    (hkept : p'.removed = false) {i o : Logged TcpSocket}
    (hpump : etcpPump (tcpSocketOps C).logged fuel (p.inSock conn) (p.outSock conn) =
      some (res, i, o)) :
    Forwarded C ((etcpPairLogged newIn newOut).outSock conn).sock i o ↔
      AcceptsAll ((etcpPairLogged newIn newOut).outSock conn).sock.out.answers
        (forwardedWrites C ((etcpPairLogged newIn newOut).outSock conn).sock i.read) := by
  have hinv := Forwarding.of_run hC hin hout hrun hremoved
  have hstep : EtcpStep (tcpSocketOps C).logged p ⟨conn, res⟩ p' := ⟨hremoved, fuel, hhandle⟩
  obtain ⟨hres, -, hlast⟩ := etcpStep_of_not_removed hstep hkept
  have hle : res ≤ 0 := by
    dsimp only at hres
    omega
  obtain ⟨read, hf, heq⟩ := hinv.of_handled hC hle hlast hpump
  refine forwarded_iff_of_out_eq (fun data hdata ↦ ?_) heq
  rw [hf.read_eq] at hdata
  rcases List.mem_append.1 hdata with hold | hnew
  · exact hinv.ne_nil conn data hold
  · exact hf.ne_nil data hnew

/-! ### At two pairs -/

/-- Three bytes have arrived at the one socket, and the other accepts `n` bytes of the next write.
-/
def sampleForward (n : ℕ) : EtcpPair (Logged TcpSocket) :=
  etcpPairLogged (.native ⟨[.data [1, 2, 3], .again], {}⟩) (.native ⟨[], ⟨[], [.accept n], false⟩⟩)

/-- With all of them accepted, all have arrived. -/
theorem etcp_forwarded_iff_whole :
    ∃ p' i o,
      etcpHandle (tcpSocketOps openssl).logged 2 .conn1 (sampleForward 3) = some (-2, p') ∧
      etcpPump (tcpSocketOps openssl).logged 2 ((sampleForward 3).inSock .conn1)
        ((sampleForward 3).outSock .conn1) = some (-2, i, o) ∧
      Forwarded openssl ((sampleForward 3).outSock .conn1).sock i o := by
  refine ⟨_, _, _, rfl, rfl, ?_⟩
  have hiff := @etcp_forwarded_iff openssl cfbLaws_openssl (.native _) (.native _) trivial trivial
    [] (sampleForward 3) _ .nil rfl 2 .conn1 _ rfl rfl _ _ rfl
  exact hiff.2 ⟨le_rfl, trivial⟩

/-- With one of them accepted, the loop goes on, and the pair stays: the other two are lost. -/
theorem not_forwarded_short :
    ∃ p' i o,
      etcpHandle (tcpSocketOps openssl).logged 2 .conn1 (sampleForward 1) = some (-2, p') ∧
      p'.removed = false ∧
      etcpPump (tcpSocketOps openssl).logged 2 ((sampleForward 1).inSock .conn1)
        ((sampleForward 1).outSock .conn1) = some (-2, i, o) ∧
      i.read.flatten = [1, 2, 3] ∧ o.sock.out.sent = [1] ∧
      ¬Forwarded openssl ((sampleForward 1).outSock .conn1).sock i o := by
  refine ⟨_, _, _, rfl, rfl, rfl, rfl, rfl, ?_⟩
  intro h
  have hlen : ([1] : Bytes) = [] ++ [1, 2, 3] := h
  simp at hlen

end Vmecs
