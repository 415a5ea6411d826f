import Vmecs.Proto.Socks.Tcp

/-!
# What is left of a stream after a SOCKS handshake

A peer may send its payload right behind its last handshake message. The read that brings the end of
this message may bring payload as well, and then the handshake frees the payload together with its
buffer: the reads that come later start behind it.

So the reads return what follows the handshake exactly if a segment ends where the handshake does
(`keepsRest_iff`).
-/

namespace Vmecs

variable {getsockaddr : CString → UInt16 → Option SockAddr} {sock sock' : SocksTcpSocket}
  {target : Option TargetId} {s s' : Reads} {out out' : OutFd}

/-! ### Reads after the handshake -/

/-- Reads of the socket or of its descriptor, of any sizes, and the bytes they have returned. -/
inductive SocksReads : Reads → Bytes → Reads → Prop where
  | nil (s : Reads) : SocksReads s [] s
  | data {s s₁ s₂ : Reads} {size : ℕ} {bs bs' : Bytes}
      (h : socksTcpSocketRead size s = .done (.data bs) s₁ ∨
        socksTcpSocketTryRead size s = .done (.data bs) s₁)
      (ht : SocksReads s₁ bs' s₂) : SocksReads s (bs ++ bs') s₂
  | other {s s₁ s₂ : Reads} {size : ℕ} {a : ReadAnswer} {bs' : Bytes} (ha : ∀ bs, a ≠ .data bs)
      (h : socksTcpSocketRead size s = .done a s₁ ∨ socksTcpSocketTryRead size s = .done a s₁)
      (ht : SocksReads s₁ bs' s₂) : SocksReads s bs' s₂

theorem streamBytes_of_socksRead {size : ℕ} {a : ReadAnswer}
    (h : socksTcpSocketRead size s = .done a s' ∨ socksTcpSocketTryRead size s = .done a s') :
    streamBytes s = a.bytes ++ streamBytes s' := by
  rcases h with h | h
  · obtain ⟨bs, rfl, -, hs⟩ | ⟨rfl, heof, hs⟩ | ⟨rfl, -, hs⟩ := fdRead_done h
    · exact hs
    · rw [hs, heof.streamBytes_eq]
      rfl
    · exact hs
  · exact fdTryRead_done h

/-- **The reads of a socket return its stream in order.** -/
theorem SocksReads.streamBytes_eq {bs : Bytes} (h : SocksReads s bs s') :
    bs ++ streamBytes s' = streamBytes s := by
  induction h with
  | nil => rfl
  | data h _ ih =>
    rw [streamBytes_of_socksRead h, ReadAnswer.bytes, List.append_assoc, ih]
  | @other s s₁ s₂ size a bs' ha h _ ih =>
    rw [streamBytes_of_socksRead h, ih]
    cases a with
    | data bs => exact absurd rfl (ha bs)
    | eof => rfl
    | again => rfl
    | fail => rfl

/-! ### The rest of the stream -/

/-- If the handshake succeeds, then whatever reads follow return what is behind its last message,
from the first byte on: what they have returned and what they have not yet make up just this. -/
def KeepsRest (getsockaddr : CString → UInt16 → Option SockAddr) (sock : SocksTcpSocket)
    (target : Option TargetId) (s : Reads) (out : OutFd) : Prop :=
  ∀ out' sock' s',
    socksTcpSocketHandshakeC getsockaddr sock target s out = (out', .done (true, sock') s') →
      ∃ n, socksHandshakeMessages sock target (streamBytes s) = .ok n () ∧
        ∀ bs s'', SocksReads s' bs s'' → bs ++ streamBytes s'' = (streamBytes s).drop n

/-- One of the segments ends at byte `n` of the stream. -/
def SegmentEndsAt (s : Reads) (n : ℕ) : Prop :=
  ∃ pre post, s = pre ++ post ∧ .eof ∉ pre ∧ (streamBytes pre).length = n

/-- A handshake that succeeds has taken the shortest sequence of segments that holds its messages.
-/
theorem socksTcpSocketHandshakeC_takes
    (h : socksTcpSocketHandshakeC getsockaddr sock target s out = (out', .done (true, sock') s')) :
    ∃ used n, s = used ++ s' ∧ .eof ∉ used ∧
      socksHandshakeMessages sock target (streamBytes s) = .ok n () ∧
      n ≤ (streamBytes used).length ∧
      ∀ pre, pre <+: used → pre ≠ used → (streamBytes pre).length < n := by
  obtain ⟨used, n, rfl, hrec⟩ :=
    socksTcpSocketHandshakeC_receives getsockaddr sock target s out out' sock' s' h
  have hinc := incremental_socksHandshakeMessages sock target
  refine ⟨used, n, rfl, hrec.not_eof, ?_, hinc.le hrec.decode, hrec.needed⟩
  rw [streamBytes_append hrec.not_eof]
  exact hinc.ok_append _ hrec.decode

/-- **Bytes are lost exactly when a segment goes on beyond the handshake.** -/
theorem keepsRest_iff
    (h : socksTcpSocketHandshakeC getsockaddr sock target s out = (out', .done (true, sock') s')) :
    KeepsRest getsockaddr sock target s out ↔
      ∃ n, socksHandshakeMessages sock target (streamBytes s) = .ok n () ∧ SegmentEndsAt s n := by
  obtain ⟨used, n, rfl, heof, hn, hle, hneeded⟩ := socksTcpSocketHandshakeC_takes h
  have hbytes : streamBytes (used ++ s') = streamBytes used ++ streamBytes s' :=
    streamBytes_append heof
  constructor
  · intro hkeeps
    obtain ⟨m, hm, hreads⟩ := hkeeps out' sock' s' h
    rw [hn] at hm
    obtain ⟨rfl, -⟩ := Decode.ok.inj hm
    refine ⟨n, hn, used, s', rfl, heof, ?_⟩
    -- no read yet: the rest of the stream has the right length
    have hrest := congrArg List.length (hreads [] s' (.nil s'))
    rw [List.nil_append, List.length_drop, hbytes, List.length_append] at hrest
    omega
  · rintro ⟨m, hm, pre, post, hs, heof', hlen⟩ out₂ sock₂ s₂ h₂
    rw [hn] at hm
    obtain ⟨rfl, -⟩ := Decode.ok.inj hm
    obtain rfl : s' = s₂ := by
      rw [h] at h₂
      exact (Outcome.done.inj (Prod.ext_iff.1 h₂).2).2
    have hused : (streamBytes used).length = n := by
      have hpre : pre <+: used ++ s' := ⟨post, hs.symm⟩
      rcases List.prefix_or_prefix_of_prefix hpre (List.prefix_append used s') with hp | ⟨t, rfl⟩
      · by_contra hne
        have hlt := hneeded pre hp fun heq ↦ hne (heq ▸ hlen)
        omega
      · rw [streamBytes_append heof, List.length_append] at hlen
        omega
    refine ⟨n, hn, fun bs s'' hreads ↦ ?_⟩
    rw [hreads.streamBytes_eq, hbytes, ← hused, List.drop_left]

/-- A version 4 request and, in a segment of its own, two bytes of payload. -/
theorem keepsRest_separate : KeepsRest (fun _ _ ↦ none) ⟨none, .any⟩ none
    [.data [4], .data [1, 0, 80, 127, 0, 0, 1, 0], .data [104, 105], .eof] {} :=
  (keepsRest_iff rfl).2 ⟨9, rfl, [.data [4], .data [1, 0, 80, 127, 0, 0, 1, 0]], _, rfl, by decide,
    rfl⟩

/-- With the payload in the segment of the request, it is lost. -/
theorem not_keepsRest_coalesced : ¬KeepsRest (fun _ _ ↦ none) ⟨none, .any⟩ none
    [.data [4], .data [1, 0, 80, 127, 0, 0, 1, 0, 104, 105], .eof] {} := by
  intro h
  obtain ⟨n, hn, hreads⟩ := h _ _ _ rfl
  obtain ⟨rfl, -⟩ := Decode.ok.inj hn
  exact absurd (hreads [] _ (.nil _)) (by decide)

end Vmecs
