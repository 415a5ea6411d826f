import Vmecs.Lib.Run
import Vmecs.Proto.Buf

/-!
# The order of the bytes in a `vbuffer_t` (`proto/buf.c`)

What goes in and out of a `vbuffer_t` over a run of its operations, one at a time. The bytes come
out in the order in which they were written (`Fifo.of_run`), whatever the operations are.

There are two functions to take them out, which differ in what they do when there is nothing:
`vbuffer_read` waits, `vbuffer_try_read` returns 0. They differ in one more way: once the buffer is
closed, `vbuffer_read` goes on to hand out what is left in it, and `vbuffer_try_read` does not. So
the two agree in the runs in which it is not called then (`vbuffer_fifo_iff`).
-/

namespace Vmecs

/-! ### Runs -/

/-- The operations. -/
inductive VBufferOp where
  | write (bs : Bytes)
  | read (bufSize : ℕ)
  | tryRead (bufSize : ℕ)
  | close

/-- An operation: its result (0 for those without one), the bytes that it copies out, and the buffer
afterwards. There is nothing where it would wait. -/
def VBufferOp.exec (vbuf : VBuffer) : VBufferOp → Option (ℤ × Bytes × VBuffer)
  | write bs => some (0, [], vbufferWrite vbuf bs)
  | read bufSize => (vbufferRead vbuf bufSize).map fun r ↦ ((r.1 : ℤ), r.2.1, r.2.2)
  | tryRead bufSize => some (vbufferTryRead vbuf bufSize)
  | close => some (0, [], vbufferClose vbuf)

/-- A call that has returned, with the buffer that it found. -/
structure VBufferCall where
  before : VBuffer
  op : VBufferOp
  result : ℤ
  bytes : Bytes

/-- A call is made. -/
def VBufferStep (vbuf : VBuffer) (call : VBufferCall) (vbuf' : VBuffer) : Prop :=
  call.before = vbuf ∧ call.op.exec vbuf = some (call.result, call.bytes, vbuf')

/-- The bytes that a call writes. -/
def VBufferOp.written : VBufferOp → Bytes
  | write bs => bs
  | _ => []

/-- The call is `vbuffer_close`. -/
def VBufferOp.isClose : VBufferOp → Bool
  | close => true
  | _ => false

/-- The bytes written before the first `vbuffer_close`. -/
def writtenBeforeClose (calls : List VBufferCall) : Bytes :=
  (calls.takeWhile fun call ↦ !call.op.isClose).flatMap fun call ↦ call.op.written

/-- The bytes returned. -/
def vbufferReturned (calls : List VBufferCall) : Bytes := calls.flatMap fun call ↦ call.bytes

/-! ### What is asked of a run -/

/-- The call tells that the buffer is closed: -1 for `vbuffer_try_read`, and for `vbuffer_read`
nothing although something was asked for. -/
def VBufferCall.ReportsClosed (call : VBufferCall) : Prop :=
  match call.op with
  | .tryRead _ => call.result = -1
  | .read bufSize => bufSize ≠ 0 ∧ call.result = 0
  | _ => False

/-- A `vbuffer_try_read` while bytes are buffered does what `vbuffer_read` would do. -/
def VBufferCall.AgreesWithRead (call : VBufferCall) : Prop :=
  ∀ bufSize, call.op = .tryRead bufSize → call.before.data ≠ [] →
    (vbufferRead call.before bufSize).map (fun r ↦ ((r.1 : ℤ), r.2.1)) =
      some (call.result, call.bytes)

/-- **A queue with two readers that agree.** -/
structure VBufferFifo (calls : List VBufferCall) (vbuf : VBuffer) : Prop where
  fifo : vbufferReturned calls ++ vbuf.data = writtenBeforeClose calls
  le_size : vbuf.data.length ≤ vbuf.size
  agree : ∀ call ∈ calls, call.AgreesWithRead
  closed : ∀ call ∈ calls, call.ReportsClosed → call.before.data = []

/-- The call is a `vbuffer_try_read` of a buffer that is closed, with bytes still in it. -/
def VBufferCall.TriesClosed (call : VBufferCall) : Prop :=
  (∃ bufSize, call.op = .tryRead bufSize) ∧ call.before.eof = true ∧ call.before.data ≠ []

/-! ### The order of the bytes -/

/-- **What an operation does to the bytes**: those that it takes out are the first of those that
were there, and those that it writes come behind them, unless the buffer is closed. -/
theorem VBufferOp.exec_spec {vbuf vbuf' : VBuffer} {op : VBufferOp} {result : ℤ} {bytes : Bytes}
    (h : op.exec vbuf = some (result, bytes, vbuf')) :
    bytes ++ vbuf'.data = vbuf.data ++ (if vbuf.eof then [] else op.written) ∧
      vbuf'.eof = (vbuf.eof || op.isClose) := by
  match op with
  | .write bs =>
    obtain ⟨-, rfl, rfl⟩ : 0 = result ∧ [] = bytes ∧ vbufferWrite vbuf bs = vbuf' := by
      simpa [exec] using h
    refine ⟨?_, by simp [isClose]⟩
    match heof : vbuf.eof with
    | true => simp [vbufferWrite, heof]
    | false => simp [data_vbufferWrite heof, written]
  | .read bufSize =>
    obtain ⟨⟨n, bytes', vbuf''⟩, hread, heq⟩ := Option.map_eq_some_iff.1 h
    obtain ⟨-, rfl, rfl⟩ : (n : ℤ) = result ∧ bytes' = bytes ∧ vbuf'' = vbuf' := by simpa using heq
    unfold vbufferRead at hread
    split at hread
    · exact absurd hread (by simp)
    · split at hread
      · obtain ⟨-, rfl, rfl⟩ : 0 = n ∧ [] = bytes' ∧ vbuf = vbuf'' := by simpa using hread
        simp [written, isClose]
      · obtain ⟨-, rfl, rfl⟩ : _ = n ∧ vbuf.data.take bufSize = bytes' ∧
          vbuf.consume bufSize = vbuf'' := by simpa using hread
        simp [written, isClose]
  | .tryRead bufSize =>
    replace h : vbufferTryRead vbuf bufSize = (result, bytes, vbuf') := Option.some.inj h
    unfold vbufferTryRead at h
    split at h
    · obtain ⟨-, rfl, rfl⟩ : -1 = result ∧ [] = bytes ∧ vbuf = vbuf' := by simpa using h
      simp [written, isClose]
    · split at h
      · obtain ⟨-, rfl, rfl⟩ : _ = result ∧ vbuf.data.take bufSize = bytes ∧
          vbuf.consume bufSize = vbuf' := by simpa using h
        simp [written, isClose]
      · obtain ⟨-, rfl, rfl⟩ : 0 = result ∧ [] = bytes ∧ vbuf = vbuf' := by simpa using h
        simp [written, isClose]
  | .close =>
    obtain ⟨-, rfl, rfl⟩ : 0 = result ∧ [] = bytes ∧ vbufferClose vbuf = vbuf' := by
      simpa [exec] using h
    simp [written, isClose]

/-- The buffer behind these calls: it is closed if one of them was `vbuffer_close`, and the bytes
are in order. -/
structure VBufferLog (calls : List VBufferCall) (vbuf : VBuffer) : Prop where
  fifo : vbufferReturned calls ++ vbuf.data = writtenBeforeClose calls
  eof_eq : vbuf.eof = calls.any fun call ↦ call.op.isClose

theorem writtenBeforeClose_concat (calls : List VBufferCall) (call : VBufferCall) :
    writtenBeforeClose (calls ++ [call]) = writtenBeforeClose calls ++
      if calls.any fun call ↦ call.op.isClose then [] else call.op.written := by
  by_cases hclosed : calls.any fun call ↦ call.op.isClose
  · -- the calls that count end before this one
    have hlen : (calls.takeWhile fun call ↦ !call.op.isClose).length ≠ calls.length := fun hlen ↦ by
      obtain ⟨c, hc, hclose⟩ := List.any_eq_true.1 hclosed
      have hself := (List.takeWhile_sublist _).eq_of_length hlen
      have hopen := List.takeWhile_eq_self_iff.1 hself c hc
      rw [hclose] at hopen
      exact absurd hopen (by simp)
    rw [writtenBeforeClose, List.takeWhile_append, if_neg hlen, if_pos hclosed, List.append_nil]
    rfl
  · have hall : ∀ c ∈ calls, (!c.op.isClose) = true := by simpa using hclosed
    rw [writtenBeforeClose, List.takeWhile_append_of_pos hall, if_neg hclosed,
      List.flatMap_append, writtenBeforeClose, List.takeWhile_eq_self_iff.2 hall]
    congr 1
    match hop : call.op with
    | .close => simp [hop, VBufferOp.isClose, VBufferOp.written]
    | .write bs => simp [hop, VBufferOp.isClose]
    | .read _ => simp [hop, VBufferOp.isClose]
    | .tryRead _ => simp [hop, VBufferOp.isClose]

theorem VBufferLog.step {calls : List VBufferCall} {vbuf vbuf' : VBuffer} {call : VBufferCall}
    (h : VBufferLog calls vbuf) (hstep : VBufferStep vbuf call vbuf') :
    VBufferLog (calls ++ [call]) vbuf' := by
  obtain ⟨hdata, heof⟩ := VBufferOp.exec_spec hstep.2
  refine ⟨?_, by rw [heof, h.eof_eq, List.any_append, List.any_cons, List.any_nil, Bool.or_false]⟩
  rw [writtenBeforeClose_concat, ← h.fifo, ← h.eof_eq, List.append_assoc, ← hdata]
  simp [vbufferReturned]

/-- **The bytes come out in order**, in every run. -/
theorem vbufferLog_of_run {init : ℕ} {calls : List VBufferCall} {vbuf : VBuffer}
    (h : Run VBufferStep (vbufferNew init) calls vbuf) : VBufferLog calls vbuf :=
  h.invariant ⟨rfl, rfl⟩ fun _ _ _ _ hlog hstep ↦ hlog.step hstep

/-! ### The two readers -/

/-- **What a call tells**: it does as `vbuffer_read` would do, and tells that the buffer is closed
only when it is empty, unless it is a `vbuffer_try_read` of what is left in a closed buffer. -/
theorem VBufferStep.faithful_iff {vbuf vbuf' : VBuffer} {call : VBufferCall}
    (h : VBufferStep vbuf call vbuf') :
    (call.AgreesWithRead ∧ (call.ReportsClosed → call.before.data = [])) ↔ ¬call.TriesClosed := by
  obtain ⟨before, op, result, bytes⟩ := call
  obtain ⟨rfl, hexec⟩ := h
  match op with
  | .write bs =>
    exact iff_of_true ⟨fun _ hop ↦ absurd hop (by simp), False.elim⟩ fun ⟨⟨_, hop⟩, _⟩ ↦
      absurd hop (by simp)
  | .close =>
    exact iff_of_true ⟨fun _ hop ↦ absurd hop (by simp), False.elim⟩ fun ⟨⟨_, hop⟩, _⟩ ↦
      absurd hop (by simp)
  | .read bufSize =>
    refine iff_of_true ⟨fun _ hop ↦ absurd hop (by simp), fun ⟨hpos, hzero⟩ ↦ ?_⟩
      fun ⟨⟨_, hop⟩, _⟩ ↦ absurd hop (by simp)
    -- 0 bytes of a buffer that is not empty are never the answer to a request
    by_contra hne
    have hlen : before.data.length ≠ 0 := fun hlen ↦ hne (List.length_eq_zero_iff.1 hlen)
    obtain ⟨r, hr, heq⟩ := Option.map_eq_some_iff.1 hexec
    rw [vbufferRead, if_neg fun hc ↦ hlen hc.1, if_neg fun hc ↦ hlen hc.1] at hr
    obtain rfl := Option.some.inj hr
    have hresult : (min before.data.length bufSize : ℕ) = result := (Prod.mk.inj heq).1
    simp only at hpos hzero
    omega
  | .tryRead bufSize =>
    replace hexec : vbufferTryRead before bufSize = (result, bytes, vbuf') := Option.some.inj hexec
    by_cases hempty : before.data = []
    · -- an empty buffer: whatever it answers, nothing is withheld
      exact iff_of_true ⟨fun _ _ hne ↦ absurd hempty hne, fun _ ↦ hempty⟩
        fun ⟨_, _, hne⟩ ↦ hne hempty
    have hlen : before.data.length ≠ 0 := fun hlen ↦ hempty (List.length_eq_zero_iff.1 hlen)
    match heof : before.eof with
    | true =>
      rw [vbufferTryRead, if_pos heof] at hexec
      refine iff_of_false (fun hcall ↦ hempty (hcall.2 ?_)) fun hno ↦
        hno ⟨⟨bufSize, rfl⟩, heof, hempty⟩
      exact (Prod.mk.inj hexec).1.symm
    | false =>
      rw [vbufferTryRead, if_neg (by simp [heof]), if_pos hlen] at hexec
      obtain ⟨hresult, hrest⟩ := Prod.mk.inj hexec
      refine iff_of_true ⟨fun n hop _ ↦ ?_, fun hclosed ↦ ?_⟩ fun ⟨_, hclosed, _⟩ ↦ ?_
      · obtain rfl := VBufferOp.tryRead.inj hop
        rw [vbufferRead, if_neg fun hc ↦ hlen hc.1, if_neg fun hc ↦ hlen hc.1, Option.map_some,
          ← hresult, ← (Prod.mk.inj hrest).1]
      · have hminus : result = -1 := hclosed
        omega
      · exact absurd (heof.symm.trans hclosed) (by simp)

/-- **The queue and its two readers**: a run does what is asked of it exactly when no
`vbuffer_try_read` is made of a buffer that is closed, with bytes still in it. -/
theorem vbuffer_fifo_iff {init : ℕ} {calls : List VBufferCall} {vbuf : VBuffer}
    (h : Run VBufferStep (vbufferNew init) calls vbuf) :
    VBufferFifo calls vbuf ↔ ∀ call ∈ calls, ¬call.TriesClosed := by
  have hcalls : ∀ call ∈ calls,
      (call.AgreesWithRead ∧ (call.ReportsClosed → call.before.data = [])) ↔ ¬call.TriesClosed :=
    fun call hcall ↦ by
      obtain ⟨vbuf₁, vbuf₂, hstep⟩ := h.exists_step_of_mem hcall
      exact hstep.faithful_iff
  constructor
  · exact fun hfifo call hcall ↦
      (hcalls call hcall).1 ⟨hfifo.agree call hcall, hfifo.closed call hcall⟩
  · exact fun hno ↦
      { fifo := (vbufferLog_of_run h).fifo
        le_size := vbuf.data_le
        agree := fun call hcall ↦ ((hcalls call hcall).2 (hno call hcall)).1
        closed := fun call hcall ↦ ((hcalls call hcall).2 (hno call hcall)).2 }

/-- The bytes `hi` are written. -/
def sampleVBuffer : VBuffer := vbufferWrite (vbufferNew 0) [104, 105]

/-- Then one is taken out in each way, with the buffer closed in between; and then it is empty. -/
def sampleCalls : List VBufferCall :=
  [⟨vbufferNew 0, .write [104, 105], 0, []⟩, ⟨sampleVBuffer, .tryRead 1, 1, [104]⟩,
    ⟨sampleVBuffer.consume 1, .close, 0, []⟩,
    ⟨vbufferClose (sampleVBuffer.consume 1), .read 8, 1, [105]⟩,
    ⟨(vbufferClose (sampleVBuffer.consume 1)).consume 8, .tryRead 8, -1, []⟩]

theorem vbuffer_fifo_sampleCalls :
    VBufferFifo sampleCalls ((vbufferClose (sampleVBuffer.consume 1)).consume 8) := by
  have hrun : Run VBufferStep (vbufferNew 0) sampleCalls
      ((vbufferClose (sampleVBuffer.consume 1)).consume 8) :=
    .cons ⟨rfl, rfl⟩ <| .cons ⟨rfl, rfl⟩ <| .cons ⟨rfl, rfl⟩ <| .cons ⟨rfl, rfl⟩ <|
      .cons ⟨rfl, rfl⟩ .nil
  refine (vbuffer_fifo_iff hrun).2 fun call hcall ⟨⟨bufSize, hop⟩, heof, hne⟩ ↦ ?_
  simp only [sampleCalls, List.mem_cons, List.not_mem_nil, or_false] at hcall
  rcases hcall with rfl | rfl | rfl | rfl | rfl
  · exact absurd hop (by simp)
  · exact absurd heof (by decide)
  · exact absurd hop (by simp)
  · exact absurd hop (by simp)
  · exact hne (by decide)

/-- The buffer is closed with both bytes in it, and then `vbuffer_try_read` is called. -/
def withheldCalls : List VBufferCall :=
  [⟨vbufferNew 0, .write [104, 105], 0, []⟩, ⟨sampleVBuffer, .close, 0, []⟩,
    ⟨vbufferClose sampleVBuffer, .tryRead 8, -1, []⟩]

theorem not_vbuffer_fifo_withheldCalls :
    Run VBufferStep (vbufferNew 0) withheldCalls (vbufferClose sampleVBuffer) ∧
      ¬VBufferFifo withheldCalls (vbufferClose sampleVBuffer) := by
  refine ⟨.cons ⟨rfl, rfl⟩ <| .cons ⟨rfl, rfl⟩ <| .cons ⟨rfl, rfl⟩ .nil, fun h ↦ ?_⟩
  have hmem : ⟨vbufferClose sampleVBuffer, .tryRead 8, -1, []⟩ ∈ withheldCalls := by
    simp [withheldCalls]
  exact absurd (h.closed _ hmem rfl) (by decide)

end Vmecs
