import Vmecs.Proto.Native.Tcp
import Vmecs.Proto.Relay.Etcp

/-!
# Half-close in the epoll relay

One direction of a pair may end long before the other. The two records count together how often the
end of a stream has been read, and the pair is removed at the second time. As long as no record is
handled again once its stream has ended, the two times are the ends of the two streams
(`etcp_respectsHalfClose`). But an edge-triggered epoll reports a descriptor again when its FIN
arrives while its record is being handled, and then one stream is counted twice
(`not_respectsHalfClose_repeated`).
-/

namespace Vmecs

variable {σ : Type} {ops : TcpSocketOps σ} {newIn newOut : σ} {p : EtcpPair σ}
  {es : List EtcpEvent}

/-- The end of the stream that this record reads has been read. -/
def HasEnded (es : List EtcpEvent) (conn : EtcpRelayConn) : Prop :=
  ∃ e ∈ es, e.conn = conn ∧ e.IsEnd

/-- A read or a write on the pair has failed. -/
def HasFailed (es : List EtcpEvent) : Prop := ∃ e ∈ es, e.IsFailure

/-- **An event is forwarded**: some pieces of data have been read from the socket of its record, up
to a read that gives none, all of them have been written to the other socket, in order, and if this
was the end of the stream, the other socket has been closed. -/
def ForwardsAll (ops : TcpSocketOps σ) (p : EtcpPair σ) (e : EtcpEvent) (p' : EtcpPair σ) : Prop :=
  ∃ bufs outSock, Drains ops (p.inSock e.conn) bufs e.res (p'.inSock e.conn) ∧
    WritesAll ops (p.outSock e.conn) bufs outSock ∧
    p'.outSock e.conn = if e.IsEnd then ops.close outSock else outSock

/-- **Half-close is respected.** A pair is only removed when both streams have ended, or after a
failure. In particular, as long as a direction has not ended and nothing has failed, its data is
forwarded: whatever is there to be read, and can be written, an event of the record is handled by
reading and writing it (`handled`), and no handling that does not fail does anything else
(`forwarded`). -/
structure RespectsHalfClose (ops : TcpSocketOps σ) (es : List EtcpEvent) (p : EtcpPair σ) :
    Prop where
  removed_only : p.removed = true → (∀ conn, HasEnded es conn) ∨ HasFailed es
  handled : ∀ conn, ¬HasEnded es conn → ¬HasFailed es → ∀ bufs res inSock outSock,
    (res = 0 ∨ res = -2) → Drains ops (p.inSock conn) bufs res inSock →
      WritesAll ops (p.outSock conn) bufs outSock →
        ∃ p', EtcpStep ops p ⟨conn, res⟩ p' ∧ p'.inSock conn = inSock ∧
          p'.outSock conn = if res = 0 then ops.close outSock else outSock
  forwarded : ∀ conn, ¬HasEnded es conn → ¬HasFailed es → ∀ res p',
    EtcpStep ops p ⟨conn, res⟩ p' → (res = 0 ∨ res = -2) → ForwardsAll ops p ⟨conn, res⟩ p'

/-- The event is not that of a record whose stream has ended. -/
def FirstEnd (es : List EtcpEvent) (e : EtcpEvent) : Prop := ¬HasEnded es e.conn

instance (es : List EtcpEvent) (conn : EtcpRelayConn) : Decidable (HasEnded es conn) :=
  inferInstanceAs (Decidable (∃ e ∈ es, _))

/-- **The invariant**: while the pair is there the counters say how many of the two streams have
ended. -/
structure CountsEnds (es : List EtcpEvent) (p : EtcpPair σ) : Prop where
  nclosed_eq : p.removed = false → ∀ conn,
    p.nclosed conn = (if HasEnded es .conn1 then 1 else 0) + (if HasEnded es .conn2 then 1 else 0)
  removed_only : p.removed = true → (∀ conn, HasEnded es conn) ∨ HasFailed es

theorem hasEnded_append {e : EtcpEvent} {conn : EtcpRelayConn} :
    HasEnded (es ++ [e]) conn ↔ HasEnded es conn ∨ (e.conn = conn ∧ e.IsEnd) := by
  simp only [HasEnded, List.mem_append, List.mem_singleton, or_and_right, exists_or, exists_eq_left]

theorem countsEnds_nil : CountsEnds [] (etcpPairNew newIn newOut) where
  nclosed_eq _ conn := by simp [HasEnded, etcpPairNew]
  removed_only h := absurd h (by simp [etcpPairNew])

/-- A step that is not an end, and after which the pair is still there. -/
theorem CountsEnds.again {p' : EtcpPair σ} {e : EtcpEvent} (h : CountsEnds es p)
    (hremoved : p.removed = false) (hres : e.res = -2) (hn : p'.nclosed = p.nclosed)
    (hremoved' : p'.removed = false) : CountsEnds (es ++ [e]) p' where
  nclosed_eq _ conn := by
    have hend : ¬e.IsEnd := by simp [EtcpEvent.IsEnd, hres]
    simp only [hn, h.nclosed_eq hremoved conn, hasEnded_append, hend, and_false, or_false]
  removed_only h' := absurd (hremoved'.symm.trans h') (by simp)

/-- An end of a stream, the first one. -/
theorem CountsEnds.isEnd {p' : EtcpPair σ} {e : EtcpEvent} (h : CountsEnds es p)
    (hremoved : p.removed = false) (hfirst : FirstEnd es e) (he : e.IsEnd)
    (hn : p'.nclosed = fun conn ↦ p.nclosed conn + 1)
    (hremoved' : p'.removed = true ↔ p.nclosed e.conn + 1 = 2) : CountsEnds (es ++ [e]) p' := by
  have hcount := h.nclosed_eq hremoved
  rw [FirstEnd] at hfirst
  refine ⟨fun hr conn ↦ ?_, fun hr ↦ .inl fun conn ↦ ?_⟩
  · rw [hn]
    show p.nclosed conn + 1 = _
    rw [hcount conn]
    simp only [hasEnded_append, he, and_true]
    rcases e with ⟨_ | _, res⟩ <;> simp [hfirst, Nat.add_comm]
  · -- the stream of the other record must have ended before
    have hother := hremoved'.1 hr
    rw [hcount] at hother
    rw [hasEnded_append]
    rcases e with ⟨_ | _, res⟩ <;> rcases conn with _ | _ <;> simp_all

/-- A handling that does not fail forwards. -/
theorem forwardsAll_of_etcpStep {p' : EtcpPair σ} {e : EtcpEvent} (h : EtcpStep ops p e p')
    (hres : e.res = 0 ∨ e.res = -2) : ForwardsAll ops p e p' := by
  obtain ⟨-, fuel, hhandle⟩ := h
  obtain ⟨inSock, outSock, hpump, rfl, hout⟩ := etcpHandle_socks hhandle hres
  obtain ⟨bufs, hdrains, hwrites⟩ := (etcpPumps_of_eq_some hpump).drains (by omega)
  exact ⟨bufs, outSock, hdrains, hwrites, hout⟩

/-- While the pair is there, whatever can be read and written is. -/
theorem exists_etcpStep_of_drains (hremoved : p.removed = false) {conn : EtcpRelayConn} {res : ℤ}
    {bufs : List Bytes} {inSock outSock : σ} (hres : res = 0 ∨ res = -2)
    (hdrains : Drains ops (p.inSock conn) bufs res inSock)
    (hwrites : WritesAll ops (p.outSock conn) bufs outSock) :
    ∃ p', EtcpStep ops p ⟨conn, res⟩ p' ∧ p'.inSock conn = inSock ∧
      p'.outSock conn = if res = 0 then ops.close outSock else outSock := by
  have hpump := etcpPump_of_drains hdrains hwrites
  obtain ⟨p', hstep, hhandle⟩ := exists_etcpStep hremoved hpump
  obtain ⟨inSock', outSock', hpump', hin, hout⟩ := etcpHandle_socks hhandle hres
  obtain ⟨-, hsocks⟩ := Prod.mk.inj (Option.some.inj (hpump.symm.trans hpump'))
  obtain ⟨rfl, rfl⟩ := Prod.mk.inj hsocks
  exact ⟨p', hstep, hin, hout⟩

/-- **Half-close is respected in every run** in which no record is handled after the end of its
stream has been read. -/
theorem etcp_respectsHalfClose (h : Run (EtcpStep ops) (etcpPairNew newIn newOut) es p)
    (hfirst : Run.Forall FirstEnd es) : RespectsHalfClose ops es p := by
  have hcounts : CountsEnds es p := by
    refine h.invariant_of_forall hfirst countsEnds_nil fun es p e p' ih hfirst hstep ↦ ?_
    obtain ⟨he, hn, hr⟩ | ⟨hres, hn, hr⟩ | ⟨he, hn, hr⟩ := etcpStep_cases hstep
    · exact ih.isEnd hstep.1 hfirst he hn hr
    · exact ih.again hstep.1 hres hn hr
    · exact ⟨fun hr' ↦ absurd (hr.symm.trans hr') (by simp), fun _ ↦ .inr ⟨e, by simp, he⟩⟩
  refine ⟨hcounts.removed_only, fun conn hend hfail bufs res inSock outSock hres hdrains hwrites ↦
    exists_etcpStep_of_drains ?_ hres hdrains hwrites,
    fun conn _ _ res p' hstep hres ↦ forwardsAll_of_etcpStep hstep hres⟩
  by_contra hremoved
  rcases hcounts.removed_only (by simpa using hremoved) with hall | hf
  · exact hend (hall conn)
  · exact hfail hf

/-! ### At two runs -/

/-- A client that sends a byte and its FIN, and a server that answers later. -/
def samplePair : EtcpPair NativeTcpSocket :=
  etcpPairNew ⟨[.data [1], .eof], {}⟩ ⟨[.again, .data [2], .eof], {}⟩

/-- The client's stream ends, and then there is no answer yet: the pair stays. -/
theorem etcp_respectsHalfClose_samplePair :
    ∃ p, Run (EtcpStep nativeTcpSocketOps) samplePair [⟨.conn1, 0⟩, ⟨.conn2, -2⟩] p ∧
      RespectsHalfClose nativeTcpSocketOps [⟨.conn1, 0⟩, ⟨.conn2, -2⟩] p := by
  have h₁ : Run (EtcpStep nativeTcpSocketOps) samplePair ([] ++ [⟨.conn1, 0⟩]) _ :=
    .snoc .nil ⟨rfl, 2, rfl⟩
  have h₂ : Run (EtcpStep nativeTcpSocketOps) samplePair ([⟨.conn1, 0⟩] ++ [⟨.conn2, -2⟩]) _ :=
    .snoc h₁ ⟨rfl, 1, rfl⟩
  have hfirst : Run.Forall FirstEnd ([⟨.conn1, 0⟩] ++ [⟨.conn2, -2⟩]) := by
    have hnil : Run.Forall FirstEnd ([] ++ [⟨.conn1, 0⟩]) :=
      .snoc .nil (by simp [FirstEnd, HasEnded])
    exact .snoc hnil (by simp [FirstEnd, HasEnded])
  exact ⟨_, h₂, etcp_respectsHalfClose h₂ hfirst⟩

/-- The client's record is handled a second time, and the pair is removed before the server has
answered. -/
theorem not_respectsHalfClose_repeated :
    ∃ p, Run (EtcpStep nativeTcpSocketOps) samplePair [⟨.conn1, 0⟩, ⟨.conn1, 0⟩] p ∧
      ¬RespectsHalfClose nativeTcpSocketOps [⟨.conn1, 0⟩, ⟨.conn1, 0⟩] p := by
  have h₁ : Run (EtcpStep nativeTcpSocketOps) samplePair ([] ++ [⟨.conn1, 0⟩]) _ :=
    .snoc .nil ⟨rfl, 2, rfl⟩
  have h₂ : Run (EtcpStep nativeTcpSocketOps) samplePair ([⟨.conn1, 0⟩] ++ [⟨.conn1, 0⟩]) _ :=
    .snoc h₁ ⟨rfl, 1, rfl⟩
  refine ⟨_, h₂, fun hr ↦ ?_⟩
  rcases hr.removed_only rfl with hall | hf
  · have hend := hall .conn2
    simp [HasEnded] at hend
  · simp [HasFailed, EtcpEvent.IsFailure] at hf

end Vmecs
