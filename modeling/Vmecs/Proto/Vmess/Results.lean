import Vmecs.Proto.Vmess.Chunks

/-!
# What a read of a VMess socket returns

A read returns a count of the bytes it has stored, or one of three codes: 0 at the end of the
stream, -1 for an error, -2 when a message is not all there. The count is at most the size that was
asked for, and 0 is returned from when the socket is closed for reading on.
-/

namespace Vmecs

variable {C : Crypto} {auth : VmessAuth} {size : ℕ} {block : Bool} {bufs bufs' : VmessReadBuffers}
  {s s' : Reads} {res : ℤ} {buf : Bytes}

/-- What the switch over the result of the re-assembly makes of it. -/
theorem vmessReadResult_le (size : ℕ) (readBuf : VBuffer) (r : RBufferResult DataTrunk × RBuffer) :
    (vmessReadResult size readBuf r).1 ≤ size := by
  match r with
  | (.success trunk, rawBuf) =>
    rw [vmessReadResult]
    split
    · exact Int.natCast_nonneg size
    · split
      · exact le_rfl
      · show (trunk.bytes.length : ℤ) ≤ size
        omega
  | (.error, rawBuf) => exact (Int.natCast_nonneg size).trans' (by simp [vmessReadResult])
  | (.incomplete, rawBuf) => exact (Int.natCast_nonneg size).trans' (by simp [vmessReadResult])

/-- The result 0 comes with closing the buffer. -/
theorem eof_of_vmessReadResult (hsize : 1 ≤ size) (readBuf : VBuffer)
    {r : RBufferResult DataTrunk × RBuffer} (h : (vmessReadResult size readBuf r).1 = 0) :
    (vmessReadResult size readBuf r).2.2.readBuf.eof = true := by
  match r with
  | (.success trunk, rawBuf) =>
    rw [vmessReadResult] at h ⊢
    split
    · rfl
    · rw [if_neg ‹_›] at h
      split at h
      · exact absurd h (by simp; omega)
      · exact absurd h (by simp; omega)
  | (.error, rawBuf) => exact absurd h (by simp [vmessReadResult])
  | (.incomplete, rawBuf) => exact absurd h (by simp [vmessReadResult])

/-- **The result of a read** counts the bytes it has stored, at most as many as were asked for. -/
theorem vmessTcpSocketReadC_counts (hsize : 1 ≤ size)
    (h : vmessTcpSocketReadC C auth size block bufs s = .done (res, buf, bufs') s') :
    buf.length = res.toNat ∧ res ≤ size := by
  rw [vmessTcpSocketReadC_eq C auth hsize] at h
  split at h
  · obtain ⟨hr, -⟩ := Outcome.done.inj h
    obtain ⟨rfl, rfl, -⟩ : 0 = res ∧ [] = buf ∧ bufs = bufs' := by simpa using hr
    exact ⟨rfl, Int.natCast_nonneg size⟩
  · split at h
    · obtain ⟨hr, -⟩ := Outcome.done.inj h
      obtain ⟨rfl, hbuf⟩ := Prod.mk.inj hr
      obtain ⟨rfl, -⟩ := Prod.mk.inj hbuf
      refine ⟨(Int.toNat_natCast _).symm, ?_⟩
      rw [List.length_take]
      omega
    · obtain ⟨r, -, hr⟩ := Outcome.map_eq_done.1 h
      have hlen := length_of_vmessReadResult size bufs.readBuf r
      have hle := vmessReadResult_le size bufs.readBuf r
      rw [hr] at hlen hle
      exact ⟨hlen, hle⟩

/-- A socket that is closed for reading is at its end, and stays as it is. -/
theorem vmessTcpSocketReadC_of_eof (hsize : 1 ≤ size) (heof : bufs.readBuf.eof = true)
    (h : vmessTcpSocketReadC C auth size block bufs s = .done (res, buf, bufs') s') :
    res = 0 ∧ bufs' = bufs := by
  rw [vmessTcpSocketReadC_eq C auth hsize, if_pos heof] at h
  obtain ⟨hr, -⟩ := Outcome.done.inj h
  obtain ⟨rfl, -, rfl⟩ : 0 = res ∧ [] = buf ∧ bufs = bufs' := by simpa using hr
  exact ⟨rfl, rfl⟩

/-- **At its end** a socket is closed for reading. -/
theorem vmessTcpSocketReadC_eq_zero (hsize : 1 ≤ size)
    (h : vmessTcpSocketReadC C auth size block bufs s = .done (0, buf, bufs') s') :
    bufs'.readBuf.eof = true := by
  by_cases heof : bufs.readBuf.eof = true
  · obtain ⟨-, rfl⟩ := vmessTcpSocketReadC_of_eof hsize heof h
    exact heof
  rw [vmessTcpSocketReadC_eq C auth hsize, if_neg heof] at h
  split at h
  case isTrue hdata =>
    obtain ⟨hr, -⟩ := Outcome.done.inj h
    have hlen := (Prod.mk.inj hr).1
    have hpos := List.length_pos_iff.2 hdata
    rw [List.length_take] at hlen
    omega
  case isFalse =>
    obtain ⟨r, -, hr⟩ := Outcome.map_eq_done.1 h
    have hclosed := eof_of_vmessReadResult hsize bufs.readBuf (congrArg Prod.fst hr)
    rwa [hr] at hclosed

end Vmecs
