import Vmecs.Proto.EndOfStream
import Vmecs.Proto.Relay.Etcp
import Vmecs.Proto.Relay.Sockets

/-!
# A peer that is gone

When the descriptor of a VMess socket is at the end of its stream, no event follows, so the read
that finds it there has to say so. `rbuffer_try_read` has read a 0 and goes on to the decoder, and
when that asks for more it reports an incomplete message; the result of the read is -2, which
`etcp_handle` takes for a lack of data. So the end is noticed only if the socket had been closed for
reading before, or if the bytes that are left are no chunk at all (`etcp_lostPeer_iff`).
-/

namespace Vmecs

open StreamDecoder

variable {C : Crypto}

/-- All that is left of the stream of a VMess socket. -/
def VmessConn.remaining (vconn : VmessConn) : Bytes :=
  vconn.sock.rawBuf.data ++ streamBytes vconn.reads

/-- The descriptor is at the end of its stream for the next read, and all complete chunks have been
delivered. -/
structure VmessConn.PeerGone (C : Crypto) (vconn : VmessConn) : Prop where
  reads : ReachesEof vconn.reads
  data : vconn.sock.readBuf.data = []
  delivered : ∀ n trunk,
    vmessDecodeData C vconn.sock.auth vconn.remaining ≠ .ok n trunk

/-- The socket was closed for reading before, or what is left cannot become a chunk. -/
def VmessConn.EndKnown (C : Crypto) (vconn : VmessConn) : Prop :=
  vconn.sock.readBuf.eof = true ∨ vmessDecodeData C vconn.sock.auth vconn.remaining = .fail

/-- **What the read returns.** -/
theorem vmessTcpSocketTryRead_of_peerGone {size : ℕ} (hsize : 1 ≤ size) {vconn vconn' : VmessConn}
    {res : ℤ} {buf : Bytes} (hgone : vconn.PeerGone C)
    (h : vmessTcpSocketTryRead C size vconn = some (res, buf, vconn')) :
    (vconn.EndKnown C ∧ (res = 0 ∨ res = -1)) ∨ (¬vconn.EndKnown C ∧ res = -2) := by
  obtain ⟨bufs, reads, hread, -⟩ := vmessTcpSocketTryRead_eq_some h
  rw [vmessTcpSocketReadC_eq C _ hsize] at hread
  by_cases heof : vconn.sock.readBuf.eof = true
  · rw [if_pos heof] at hread
    obtain ⟨hr, -⟩ := Outcome.done.inj hread
    exact .inl ⟨.inl heof, .inl (Prod.mk.inj hr).1.symm⟩
  · rw [if_neg heof, if_neg (not_not.2 hgone.data)] at hread
    obtain ⟨⟨r, rawBuf⟩, hcall, hr⟩ := Outcome.map_eq_done.1 hread
    obtain ⟨hstep, -⟩ := rbufferTryRead_of_reachesEof hgone.reads hcall
    match r with
    | .success trunk =>
      obtain ⟨n, hn, -⟩ := hstep
      exact absurd hn (hgone.delivered n trunk)
    | .error => exact .inl ⟨.inr hstep.1, .inr (Prod.mk.inj hr).1.symm⟩
    | .incomplete =>
      refine .inr ⟨fun hknown ↦ ?_, (Prod.mk.inj hr).1.symm⟩
      exact absurd (hstep.1.symm.trans (hknown.resolve_left heof)) (by simp)

/-- The direction that a record reads is closed, or the pair is removed. -/
def Noticed (p : EtcpPair TcpSocket) (conn : EtcpRelayConn) (p' : EtcpPair TcpSocket) : Prop :=
  p'.removed = true ∨ p'.nclosed conn = p.nclosed conn + 1

/-- **What `etcp_handle` makes of it.** -/
theorem etcpHandle_of_peerGone {vconn : VmessConn} (hgone : vconn.PeerGone C)
    {p p' : EtcpPair TcpSocket} {conn : EtcpRelayConn} (hin : p.inSock conn = .vmess vconn)
    (hremoved : p.removed = false) {fuel : ℕ} {res : ℤ}
    (h : etcpHandle (tcpSocketOps C) fuel conn p = some (res, p')) :
    Noticed p conn p' ↔ vconn.EndKnown C := by
  obtain ⟨i, o, hpump, -⟩ := etcpHandle_cases h
  match fuel with
  | 0 => exact absurd hpump (by simp [etcpPump])
  | fuel + 1 =>
    obtain ⟨res₁, buf, i₁, hread, hturn⟩ := etcpPump_succ_cases hpump
    rw [hin] at hread
    obtain ⟨⟨res₂, buf₂, vconn'⟩, hread', hr⟩ := Option.map_eq_some_iff.1 hread
    obtain ⟨rfl, -⟩ := Prod.mk.inj hr
    have hcases := vmessTcpSocketTryRead_of_peerGone (by simp [etcpDefaultBuffer]) hgone hread'
    -- nothing is read, so the loop ends at once
    have hres : res = res₂ := by
      obtain ⟨-, hres, -⟩ | ⟨hpos, -⟩ := hturn
      · exact hres
      · omega
    have hstep : EtcpStep (tcpSocketOps C) p ⟨conn, res⟩ p' := ⟨hremoved, _, h⟩
    obtain ⟨hend, hn, -⟩ | ⟨hagain, hn, hkept⟩ | ⟨hfail, -, hr⟩ := etcpStep_cases hstep
    · have hknown : vconn.EndKnown C := by
        obtain ⟨hknown, -⟩ | ⟨-, hres₂⟩ := hcases
        · exact hknown
        · rw [EtcpEvent.IsEnd] at hend
          dsimp only at hend
          omega
      exact iff_of_true (.inr (by rw [hn])) hknown
    · have hnot : ¬vconn.EndKnown C := by
        obtain ⟨-, hres₂⟩ | ⟨hnot, -⟩ := hcases
        · dsimp only at hagain
          omega
        · exact hnot
      refine iff_of_false ?_ hnot
      rw [Noticed, hn, hkept]
      simp
    · have hknown : vconn.EndKnown C := by
        obtain ⟨hknown, -⟩ | ⟨-, hres₂⟩ := hcases
        · exact hknown
        · exact absurd (hres.trans hres₂) hfail.2
      exact iff_of_true (.inl hr) hknown

/-- **Exactly when a lost peer is noticed.** Of a VMess socket that is at the end of its stream,
with all complete chunks delivered, a non-blocking read returns 0 or -1, and `etcp_handle` closes
the direction or removes the pair, if and only if the socket was closed for reading before or what
is left cannot become a chunk. -/
theorem etcp_lostPeer_iff {vconn : VmessConn} (hgone : vconn.PeerGone C) :
    (∀ size res buf vconn', 1 ≤ size →
      vmessTcpSocketTryRead C size vconn = some (res, buf, vconn') →
      (res = 0 ∨ res = -1 ↔ vconn.EndKnown C)) ∧
    ∀ (p p' : EtcpPair TcpSocket) conn fuel res, p.inSock conn = .vmess vconn →
      p.removed = false → etcpHandle (tcpSocketOps C) fuel conn p = some (res, p') →
      (Noticed p conn p' ↔ vconn.EndKnown C) := by
  refine ⟨fun size res buf vconn' hsize h ↦ ?_, fun p p' conn fuel res hin hremoved h ↦
    etcpHandle_of_peerGone hgone hin hremoved h⟩
  obtain ⟨hknown, hres⟩ | ⟨hnot, rfl⟩ := vmessTcpSocketTryRead_of_peerGone hsize hgone h
  · exact iff_of_true hres hknown
  · exact iff_of_false (by decide) hnot

/-! ### At two sockets -/

/-- A VMess client that has sent these bytes and is gone. -/
def sampleGone (bs : Bytes) : VmessConn :=
  ⟨vmessTcpSocketNewFd (vmessConfigNew sampleUserId) sampleAuth, [.data bs, .eof], {}⟩

/-- Behind the length field of a chunk that would be too short for its checksum, the pair is
removed. -/
theorem etcp_lostPeer_iff_corrupt :
    ∃ p', etcpHandle (tcpSocketOps openssl) 1 .conn1
        (etcpPairNew (.vmess (sampleGone [0, 3])) (.native ⟨[], {}⟩)) = some (-1, p') ∧
      Noticed (etcpPairNew (.vmess (sampleGone [0, 3])) (.native ⟨[], {}⟩)) .conn1 p' := by
  have hfail : vmessDecodeData openssl (sampleGone [0, 3]).sock.auth
      (sampleGone [0, 3]).remaining = .fail := rfl
  have hgone : (sampleGone [0, 3]).PeerGone openssl :=
    ⟨trivial, rfl, fun n trunk h ↦ absurd (hfail.symm.trans h) (by simp)⟩
  refine ⟨_, rfl, ?_⟩
  exact ((etcp_lostPeer_iff hgone).2 _ _ .conn1 1 (-1) rfl rfl rfl).2 (.inr hfail)

/-- Behind the length field of a chunk that is not all there, nothing is done, and the pair stays.
-/
theorem not_noticed_truncated :
    ∃ p', (sampleGone [0, 10]).PeerGone openssl ∧
      (∃ buf vconn', vmessTcpSocketTryRead openssl etcpDefaultBuffer (sampleGone [0, 10]) =
        some (-2, buf, vconn')) ∧
      etcpHandle (tcpSocketOps openssl) 1 .conn1
        (etcpPairNew (.vmess (sampleGone [0, 10])) (.native ⟨[], {}⟩)) = some (-2, p') ∧
      ¬Noticed (etcpPairNew (.vmess (sampleGone [0, 10])) (.native ⟨[], {}⟩)) .conn1 p' := by
  have hmore : vmessDecodeData openssl (sampleGone [0, 10]).sock.auth
      (sampleGone [0, 10]).remaining = .more := rfl
  have hgone : (sampleGone [0, 10]).PeerGone openssl :=
    ⟨trivial, rfl, fun n trunk h ↦ absurd (hmore.symm.trans h) (by simp)⟩
  refine ⟨_, hgone, ⟨_, _, rfl⟩, rfl, fun h ↦ ?_⟩
  rcases h with h | h
  · exact absurd h (by decide)
  · exact absurd h (by decide)

end Vmecs
