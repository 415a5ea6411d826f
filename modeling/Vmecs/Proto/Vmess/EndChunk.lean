import Vmecs.Lib.Run
import Vmecs.Proto.Vmess.Chunks

/-!
# The end of the stream and the end chunk

A reader of a VMess socket takes a chunk of size 0 for the end of the stream: it looks at the size
of what was decoded and not at whether there are data. So a chunk that carries no bytes closes the
socket for reading, though the end chunk is yet to come. In the runs of a reader over a stream of
chunks, the end is reported only behind the end chunk, and with everything delivered, if and only if
none of the chunks is empty (`vmess_endMeansEndChunk_iff`).
-/

namespace Vmecs

open StreamDecoder

/-! ### A socket that is read from -/

/-- A call of `_vmess_tcp_socket_read`: the size that was asked for, the result, and the bytes. -/
structure VmessReadEvent where
  size : ℕ
  res : ℤ
  bs : Bytes

/-- The part of a socket that its reads change, with the answers of its descriptor. -/
structure VmessReading where
  bufs : VmessReadBuffers
  reads : Reads

/-- What is yet to be decoded. -/
def VmessReading.left (st : VmessReading) : Bytes := st.bufs.rawBuf.data ++ streamBytes st.reads

/-- A call that returns. -/
def VmessReadStep (C : Crypto) (auth : VmessAuth) (st : VmessReading) (e : VmessReadEvent)
    (st' : VmessReading) : Prop :=
  1 ≤ e.size ∧ vmessTcpSocketReadC C auth e.size true st.bufs st.reads =
    .done (e.res, e.bs, st'.bufs) st'.reads

/-- The bytes that the calls have given. -/
def returnedBytes (es : List VmessReadEvent) : Bytes := es.flatMap VmessReadEvent.bs

/-- Data chunks, and the end chunk with what is behind it, if there is one. -/
def chunkStream (C : Crypto) (auth : VmessAuth) (pieces : List Bytes) (behind : Option Bytes) :
    Bytes :=
  pieces.flatMap (vmessTrunk C auth) ++ (behind.elim [] fun bs ↦ vmessSerialEnd ++ bs)

/-- **The end of the stream means the end chunk.** When a call has reported the end, the end chunk
has been decoded, as what is yet to be decoded is what is behind it, and the payloads of all chunks
have been returned; a call that gives up does so behind the last chunk of a stream without an end
chunk; and a call reports an error only if the descriptor has. -/
structure EndMeansEndChunk (pieces : List Bytes) (behind : Option Bytes) (s₀ : Reads)
    (es : List VmessReadEvent) (st : VmessReading) : Prop where
  at_end : ∀ e ∈ es, e.res = 0 → behind = some st.left ∧ returnedBytes es = pieces.flatten
  gives_up : ∀ e ∈ es, e.res = -2 → behind = none ∧ returnedBytes es = pieces.flatten
  errors : ∀ e ∈ es, e.res = -1 → .fail ∈ s₀

variable {C : Crypto} {auth : VmessAuth} {pieces todo : List Bytes} {behind : Option Bytes}

/-! ### What a read finds -/

theorem chunkStream_cons (C : Crypto) (auth : VmessAuth) (piece : Bytes) (todo : List Bytes)
    (behind : Option Bytes) : chunkStream C auth (piece :: todo) behind =
      vmessTrunk C auth piece ++ chunkStream C auth todo behind := by
  rw [chunkStream, List.flatMap_cons, List.append_assoc, chunkStream]

/-- **What a blocking read finds in a stream of chunks**: the next chunk, the end chunk, the end of
a stream without one, or a read error. -/
theorem rbufferRead_chunkStream (hC : CfbLaws C) (htodo : ∀ p ∈ todo, p.length ≤ vmessMaxPayload)
    {rawBuf rawBuf' : RBuffer} {s s' : Reads} {r : RBufferResult DataTrunk}
    (hleft : rawBuf.data ++ streamBytes s = chunkStream C auth todo behind)
    (h : rbufferRead (vmessDecodeData C auth) rawBuf s = .done (r, rawBuf') s') :
    (∃ piece todo', todo = piece :: todo' ∧ r = .success ⟨some piece⟩ ∧
      rawBuf'.data ++ streamBytes s' = chunkStream C auth todo' behind) ∨
    (todo = [] ∧ behind = some (rawBuf'.data ++ streamBytes s') ∧ r = .success endTrunk) ∨
    (todo = [] ∧ behind = none ∧ r = .incomplete ∧
      rawBuf'.data ++ streamBytes s' = chunkStream C auth [] none) ∨
    (r = .error ∧ .fail ∈ s ∧
      rawBuf'.data ++ streamBytes s' = chunkStream C auth todo behind) := by
  have hnil := (prompt_vmessDecodeData C auth).nil
  obtain ⟨got, hgot, ⟨hstep, hinc⟩ | ⟨hres, hfail, hdata⟩⟩ := rbufferRead_step hnil h
  · rw [hgot, ← List.append_assoc] at hleft
    -- a message of which something is yet to come is not reported as incomplete
    have hwhole {left : Bytes} :
        ¬(r = .incomplete ∧ rawBuf'.data = left ∧ streamBytes s' ≠ []) :=
      fun ⟨hr, _, hne⟩ ↦ hne (hinc hr).streamBytes_eq
    match todo, behind with
    | piece :: todo', behind =>
      rw [chunkStream_cons] at hleft
      have hframed := framed_vmessTrunk hC auth (htodo piece List.mem_cons_self)
      obtain ⟨hr, hrest⟩ := (hstep.of_framed hframed hleft).resolve_left hwhole
      exact .inl ⟨piece, todo', rfl, hr, hrest⟩
    | [], some bs =>
      obtain ⟨hr, hrest⟩ :=
        (hstep.of_framed (framed_vmessSerialEnd C auth) hleft).resolve_left hwhole
      exact .inr (.inl ⟨rfl, by rw [hrest], hr⟩)
    | [], none =>
      obtain ⟨hx, hy⟩ := List.append_eq_nil_iff.1 hleft
      rw [hx] at hstep
      obtain ⟨hr, hraw⟩ := hstep.of_more hnil
      refine .inr (.inr (.inl ⟨rfl, rfl, hr, ?_⟩))
      rw [hy, hraw]
      rfl
  · refine .inr (.inr (.inr ⟨hres, hfail, ?_⟩))
    rw [← hleft, hgot, ← List.append_assoc, ← hdata]

/-! ### Streams without empty chunks -/

/-- **Before the end** is reported: what has been returned, what is left of a chunk, and the chunks
that are yet to come are all there is. -/
structure Delivering (C : Crypto) (auth : VmessAuth) (pieces : List Bytes) (behind : Option Bytes)
    (s₀ : Reads) (es : List VmessReadEvent) (st : VmessReading) (todo : List Bytes) : Prop where
  reads : st.reads <:+ s₀
  eof : st.bufs.readBuf.eof = false
  returned : returnedBytes es ++ st.bufs.readBuf.data ++ todo.flatten = pieces.flatten
  left : st.left = chunkStream C auth todo behind
  suffix : todo <:+ pieces
  no_end : ∀ e ∈ es, e.res ≠ 0
  gave_up : ∀ e ∈ es, e.res = -2 → behind = none ∧ todo = [] ∧ st.bufs.readBuf.data = []
  errors : ∀ e ∈ es, e.res = -1 → .fail ∈ s₀

/-- **Behind the end** nothing changes any more. -/
structure Delivered (pieces : List Bytes) (behind : Option Bytes) (s₀ : Reads)
    (es : List VmessReadEvent) (st : VmessReading) : Prop where
  eof : st.bufs.readBuf.eof = true
  returned : returnedBytes es = pieces.flatten
  left : behind = some st.left
  no_giving_up : ∀ e ∈ es, e.res ≠ -2
  errors : ∀ e ∈ es, e.res = -1 → .fail ∈ s₀

theorem returnedBytes_append (es : List VmessReadEvent) (e : VmessReadEvent) :
    returnedBytes (es ++ [e]) = returnedBytes es ++ e.bs := by
  rw [returnedBytes, List.flatMap_append, List.flatMap_singleton]
  rfl

/-- A property of the events so far and of one more. -/
theorem forall_mem_snoc {P : VmessReadEvent → Prop} {es : List VmessReadEvent} {e : VmessReadEvent}
    (hes : ∀ e' ∈ es, P e') (he : P e) : ∀ e' ∈ es ++ [e], P e' :=
  List.forall_mem_append.2 ⟨hes, List.forall_mem_singleton.2 he⟩

theorem Delivered.step {s₀ : Reads} {es : List VmessReadEvent} {e : VmessReadEvent}
    {st st' : VmessReading} (h : Delivered pieces behind s₀ es st)
    (hstep : VmessReadStep C auth st e st') : Delivered pieces behind s₀ (es ++ [e]) st' := by
  obtain ⟨hsize, hread⟩ := hstep
  rw [vmessTcpSocketReadC_eq C auth hsize, if_pos h.eof] at hread
  obtain ⟨hr, hreads⟩ := Outcome.done.inj hread
  obtain ⟨hres, hr⟩ := Prod.mk.inj hr
  obtain ⟨hbs, hbufs⟩ := Prod.mk.inj hr
  refine ⟨hbufs ▸ h.eof, ?_, ?_, forall_mem_snoc h.no_giving_up (by omega),
    forall_mem_snoc h.errors (by omega)⟩
  · rw [returnedBytes_append, h.returned, ← hbs, List.append_nil]
  · rw [h.left, VmessReading.left, VmessReading.left, hbufs, hreads]

/-- A read that gives the rest of a chunk. -/
theorem Delivering.step_rest {s₀ : Reads} {es : List VmessReadEvent} {e : VmessReadEvent}
    {st st' : VmessReading} (h : Delivering C auth pieces behind s₀ es st todo)
    (hdata : st.bufs.readBuf.data ≠ []) (hstep : VmessReadStep C auth st e st') :
    Delivering C auth pieces behind s₀ (es ++ [e]) st' todo := by
  obtain ⟨hsize, hread⟩ := hstep
  rw [vmessTcpSocketReadC_eq C auth hsize, if_neg (by simp [h.eof]), if_pos hdata] at hread
  obtain ⟨hr, hreads⟩ := Outcome.done.inj hread
  obtain ⟨hres, hr⟩ := Prod.mk.inj hr
  obtain ⟨hbs, hbufs⟩ := Prod.mk.inj hr
  have hpos := List.length_pos_iff.2 hdata
  rw [List.length_take] at hres
  refine ⟨hreads ▸ h.reads, hbufs ▸ h.eof, ?_, ?_, h.suffix, forall_mem_snoc h.no_end (by omega),
    forall_mem_snoc (fun e' he' hres' ↦ absurd (h.gave_up e' he' hres').2.2 hdata) (by omega),
    forall_mem_snoc h.errors (by omega)⟩
  · rw [returnedBytes_append, ← hbs, ← hbufs, ← h.returned]
    show _ ++ st.bufs.readBuf.data.take e.size ++ st.bufs.readBuf.data.drop e.size ++ _ = _
    rw [List.append_assoc (returnedBytes es), List.take_append_drop]
  · rw [← h.left, VmessReading.left, VmessReading.left, ← hbufs, hreads]

section Message

variable {s₀ : Reads} {es : List VmessReadEvent} {e : VmessReadEvent} {st st' : VmessReading}
  {rawBuf : RBuffer}

/-- The next chunk is decoded, and its beginning is returned. -/
theorem Delivering.step_chunk {piece : Bytes}
    (h : Delivering C auth pieces behind s₀ es st (piece :: todo))
    (hdata : st.bufs.readBuf.data = []) (hne : piece ≠ []) (hsize : 1 ≤ e.size)
    (hreads : st'.reads <:+ s₀)
    (hr : vmessReadResult e.size st.bufs.readBuf (.success ⟨some piece⟩, rawBuf) =
      (e.res, e.bs, st'.bufs))
    (hleft : rawBuf.data ++ streamBytes st'.reads = chunkStream C auth todo behind) :
    Delivering C auth pieces behind s₀ (es ++ [e]) st' todo := by
  have hret := h.returned
  rw [hdata, List.append_nil] at hret
  obtain ⟨readBuf', hdata', heof', hresult⟩ :=
    vmessReadResult_of_ne_nil e.size h.eof hdata
      (show (⟨some piece⟩ : DataTrunk).bytes ≠ [] from hne) rawBuf
  obtain ⟨hres, hr⟩ := Prod.mk.inj (hresult.symm.trans hr)
  obtain ⟨hbs, hbufs⟩ := Prod.mk.inj hr
  have hpos := List.length_pos_iff.2 hne
  have hlen : (0 : ℤ) < e.res := by
    rw [← hres, List.length_take]
    show (0 : ℤ) < ((min e.size piece.length : ℕ) : ℤ)
    omega
  refine ⟨hreads, hbufs ▸ heof', ?_, ?_, (List.suffix_cons _ _).trans h.suffix,
    forall_mem_snoc h.no_end hlen.ne', forall_mem_snoc (fun e' he' hres' ↦ ?_) (by omega),
    forall_mem_snoc h.errors (by omega)⟩
  · rw [← hret, returnedBytes_append, ← hbs, ← hbufs]
    show _ ++ piece.take e.size ++ readBuf'.data ++ _ = _
    rw [hdata', List.append_assoc (returnedBytes es)]
    show _ ++ (piece.take e.size ++ piece.drop e.size) ++ _ = _
    rw [List.take_append_drop, List.flatten_cons, List.append_assoc]
  · rw [VmessReading.left, ← hbufs]
    exact hleft
  · exact absurd (h.gave_up e' he' hres').2.1 (by simp)

/-- The end chunk is decoded, and the end is reported. -/
theorem Delivering.step_end (h : Delivering C auth pieces behind s₀ es st [])
    (hdata : st.bufs.readBuf.data = [])
    (hr : vmessReadResult e.size st.bufs.readBuf (.success endTrunk, rawBuf) =
      (e.res, e.bs, st'.bufs))
    (hbehind : behind = some (rawBuf.data ++ streamBytes st'.reads)) :
    Delivered pieces behind s₀ (es ++ [e]) st' := by
  have hret := h.returned
  rw [hdata, List.append_nil] at hret
  obtain ⟨hres, hr⟩ := Prod.mk.inj hr
  obtain ⟨hbs, hbufs⟩ := Prod.mk.inj hr
  refine ⟨by rw [← hbufs]; rfl, ?_, ?_,
    forall_mem_snoc (fun e' he' hres' ↦ ?_) (by rw [← hres]; decide),
    forall_mem_snoc h.errors fun hres' ↦ absurd (hres.trans hres') (by decide)⟩
  · rw [returnedBytes_append, ← hbs, ← hret]
    rfl
  · rw [hbehind, VmessReading.left, ← hbufs]
  · exact absurd ((h.gave_up e' he' hres').1.symm.trans hbehind) (by simp)

/-- A stream without an end chunk is at its end. -/
theorem Delivering.step_incomplete (h : Delivering C auth pieces none s₀ es st [])
    (hdata : st.bufs.readBuf.data = []) (hreads : st'.reads <:+ s₀)
    (hr : vmessReadResult e.size st.bufs.readBuf (.incomplete, rawBuf) = (e.res, e.bs, st'.bufs))
    (hleft : rawBuf.data ++ streamBytes st'.reads = chunkStream C auth [] none) :
    Delivering C auth pieces none s₀ (es ++ [e]) st' [] := by
  obtain ⟨hres, hr⟩ := Prod.mk.inj hr
  obtain ⟨hbs, hbufs⟩ := Prod.mk.inj hr
  have hres' : e.res = -2 := hres.symm
  have hdata' : st'.bufs.readBuf.data = [] := by rw [← hbufs]; exact hdata
  refine ⟨hreads, by rw [← hbufs]; exact h.eof, ?_, ?_, h.suffix,
    forall_mem_snoc h.no_end (by omega),
    forall_mem_snoc (fun e' _ _ ↦ ⟨rfl, rfl, hdata'⟩) fun _ ↦ ⟨rfl, rfl, hdata'⟩,
    forall_mem_snoc h.errors (by omega)⟩
  · rw [returnedBytes_append, ← hbs, hdata', ← h.returned, hdata]
    simp
  · rw [VmessReading.left, ← hbufs]
    exact hleft

/-- The descriptor has failed. -/
theorem Delivering.step_error (h : Delivering C auth pieces behind s₀ es st todo)
    (hreads : st'.reads <:+ s₀) (hfail : .fail ∈ s₀)
    (hr : vmessReadResult e.size st.bufs.readBuf (.error, rawBuf) = (e.res, e.bs, st'.bufs))
    (hleft : rawBuf.data ++ streamBytes st'.reads = chunkStream C auth todo behind) :
    Delivering C auth pieces behind s₀ (es ++ [e]) st' todo := by
  obtain ⟨hres, hr⟩ := Prod.mk.inj hr
  obtain ⟨hbs, hbufs⟩ := Prod.mk.inj hr
  have hres' : e.res = -1 := hres.symm
  refine ⟨hreads, by rw [← hbufs]; exact h.eof, ?_, ?_, h.suffix,
    forall_mem_snoc h.no_end (by omega), forall_mem_snoc (fun e' he' hgave ↦ ?_) (by omega),
    forall_mem_snoc h.errors fun _ ↦ hfail⟩
  · rw [returnedBytes_append, ← hbs, ← hbufs, ← h.returned]
    simp
  · rw [VmessReading.left, ← hbufs]
    exact hleft
  · rw [← hbufs]
    exact h.gave_up e' he' hgave

/-- A read of a message: it gives the beginning of the next chunk, reports the end, gives up or
fails. -/
theorem Delivering.step_message (hC : CfbLaws C)
    (hpieces : ∀ p ∈ pieces, p.length ≤ vmessMaxPayload) (hempty : [] ∉ pieces)
    (h : Delivering C auth pieces behind s₀ es st todo) (hdata : st.bufs.readBuf.data = [])
    (hstep : VmessReadStep C auth st e st') :
    (∃ todo', Delivering C auth pieces behind s₀ (es ++ [e]) st' todo') ∨
      Delivered pieces behind s₀ (es ++ [e]) st' := by
  obtain ⟨hsize, hread⟩ := hstep
  rw [vmessTcpSocketReadC_eq C auth hsize, if_neg (by simp [h.eof]), if_neg (by simp [hdata])]
    at hread
  obtain ⟨⟨r, rawBuf⟩, hcall, hr⟩ := Outcome.map_eq_done.1 hread
  have hcall' : rbufferRead (vmessDecodeData C auth) st.bufs.rawBuf st.reads =
      .done (r, rawBuf) st'.reads := hcall
  have hreads : st'.reads <:+ s₀ := (rbufferRead_suffix hcall').trans h.reads
  obtain ⟨piece, todo', rfl, rfl, hleft⟩ | ⟨rfl, hbehind, rfl⟩ | ⟨rfl, rfl, rfl, hleft⟩ |
      ⟨rfl, hfail, hleft⟩ :=
    rbufferRead_chunkStream hC (fun p hp ↦ hpieces p (h.suffix.mem hp)) h.left hcall'
  · have hmem : piece ∈ pieces := h.suffix.mem List.mem_cons_self
    have hne : piece ≠ [] := fun hnil ↦ hempty (hnil ▸ hmem)
    exact .inl ⟨todo', h.step_chunk hdata hne hsize hreads hr hleft⟩
  · exact .inr (h.step_end hdata hr hbehind)
  · exact .inl ⟨[], h.step_incomplete hdata hreads hr hleft⟩
  · exact .inl ⟨todo, h.step_error hreads (h.reads.mem hfail) hr hleft⟩

end Message

/-- **Without empty chunks** the end of the stream means the end chunk, in every run. -/
theorem endMeansEndChunk_of_run (hC : CfbLaws C)
    (hpieces : ∀ p ∈ pieces, p.length ≤ vmessMaxPayload) (hempty : [] ∉ pieces)
    {st₀ st : VmessReading} {es : List VmessReadEvent} {init : ℕ}
    (hinit : st₀.bufs.readBuf = vbufferNew init)
    (hleft : st₀.left = chunkStream C auth pieces behind)
    (h : Run (VmessReadStep C auth) st₀ es st) :
    EndMeansEndChunk pieces behind st₀.reads es st := by
  have hinv : (∃ todo, Delivering C auth pieces behind st₀.reads es st todo) ∨
      Delivered pieces behind st₀.reads es st := by
    refine h.invariant (I := fun es st ↦
        (∃ todo, Delivering C auth pieces behind st₀.reads es st todo) ∨
          Delivered pieces behind st₀.reads es st)
      (.inl ⟨pieces, ?_⟩) fun es st e st' ih he ↦ ?_
    · refine ⟨List.suffix_rfl, by rw [hinit, eof_vbufferNew], ?_, hleft, List.suffix_rfl, ?_, ?_,
        ?_⟩
      · rw [hinit, data_vbufferNew]
        rfl
      · exact fun _ h ↦ absurd h List.not_mem_nil
      · exact fun _ h ↦ absurd h List.not_mem_nil
      · exact fun _ h ↦ absurd h List.not_mem_nil
    · rcases ih with ⟨todo, ih⟩ | ih
      · by_cases hdata : st.bufs.readBuf.data = []
        · exact ih.step_message hC hpieces hempty hdata he
        · exact .inl ⟨todo, ih.step_rest hdata he⟩
      · exact .inr (ih.step he)
  rcases hinv with ⟨todo, h⟩ | h
  · refine ⟨fun e he hres ↦ absurd hres (h.no_end e he), fun e he hres ↦ ?_, h.errors⟩
    obtain ⟨hnone, htodo, hdata⟩ := h.gave_up e he hres
    have hret := h.returned
    rw [htodo, hdata, List.append_nil, List.flatten_nil, List.append_nil] at hret
    exact ⟨hnone, hret⟩
  · exact ⟨fun e he hres ↦ ⟨h.left, h.returned⟩, fun e he hres ↦
      absurd hres (h.no_giving_up e he), h.errors⟩

/-! ### A stream with an empty chunk -/

/-- The bytes come one at a time. -/
def trickle (bs : Bytes) : Reads := bs.map fun b ↦ .data [b]

theorem streamBytes_trickle (bs : Bytes) : streamBytes (trickle bs) = bs := by
  induction bs with
  | nil => rfl
  | cons b bs ih => exact congrArg (b :: ·) ih

theorem rbufferReadMore_trickle {V : Type} {D : StreamDecoder UInt8 V} {m : Bytes} {v : V}
    (hm : D.Framed m v) (s : Reads) {todo : Bytes} (htodo : todo ≠ []) {buf : RBuffer}
    (hbuf : buf.data ++ todo = m) :
    ∃ buf', rbufferReadMore D buf (trickle todo ++ s) = .done (.success v, buf') s ∧
      buf'.data = [] := by
  induction todo generalizing buf with
  | nil => exact absurd rfl htodo
  | cons b todo ih =>
    have hfit : (ReadAnswer.data [b]).Fits buf.room.rest := ⟨Nat.one_pos, buf.rest_room_pos⟩
    set buf₁ := buf.room.store [b] (RBuffer.le_size_of_fits hfit) with hbuf₁
    have hdata : buf₁.data = buf.data ++ [b] := by
      rw [hbuf₁, RBuffer.data_store, RBuffer.data_room]
    have hall : buf₁.data ++ todo = m := by rw [hdata, List.append_assoc, ← hbuf]; rfl
    have hD := hm.of_isPrefix (s := []) (x := buf₁.data)
      (by rw [List.append_nil, ← hall]; exact List.prefix_append _ _)
    rw [show trickle (b :: todo) ++ s = .data [b] :: (trickle todo ++ s) from rfl, rbufferReadMore,
      dif_pos hfit, ← hbuf₁]
    by_cases hlast : todo = []
    · have hlen : ¬buf₁.data.length < m.length := by
        rw [← hall, hlast, List.append_nil]
        exact lt_irrefl _
      rw [if_neg hlen] at hD
      have hsucc : rbufferDecode D buf₁ = some (.success v, buf₁.consume m.length) := by
        rw [rbufferDecode, hD]
      rw [hsucc, hlast]
      refine ⟨_, rfl, ?_⟩
      rw [RBuffer.data_consume, ← hall, hlast, List.append_nil, List.drop_length]
    · have hlen : buf₁.data.length < m.length := by
        rw [← hall, List.length_append]
        exact Nat.lt_add_of_pos_right (List.length_pos_iff.2 hlast)
      rw [if_pos hlen] at hD
      rw [rbufferDecode_eq_none.2 hD]
      exact ih hlast hall

/-- A message that comes one byte at a time is read, and nothing else. -/
theorem rbufferRead_trickle {V : Type} {D : StreamDecoder UInt8 V} {m : Bytes} {v : V}
    (hm : D.Framed m v) {buf : RBuffer} (hbuf : buf.data = []) (s : Reads) :
    ∃ buf', rbufferRead D buf (trickle m ++ s) = .done (.success v, buf') s ∧ buf'.data = [] := by
  rw [rbufferRead, if_pos (by rw [hbuf]; rfl)]
  exact rbufferReadMore_trickle hm s (List.ne_nil_of_length_pos hm.pos)
    (by rw [hbuf, List.nil_append])

/-- A socket that has decoded all that has come, and given it to its reader. -/
structure VmessReading.Idle (st : VmessReading) : Prop where
  eof : st.bufs.readBuf.eof = false
  data : st.bufs.readBuf.data = []
  raw : st.bufs.rawBuf.data = []

theorem exists_read_trickle (hC : CfbLaws C) {piece : Bytes} (hle : piece.length ≤ vmessMaxPayload)
    {st : VmessReading} (hst : st.Idle) {s : Reads}
    (hreads : st.reads = trickle (vmessTrunk C auth piece) ++ s) :
    ∃ rawBuf, VmessReadStep C auth st
        ⟨vmessMaxPayload, piece.length, piece⟩ ⟨⟨if piece = [] then vbufferClose st.bufs.readBuf
          else st.bufs.readBuf, rawBuf⟩, s⟩ ∧ rawBuf.data = [] := by
  obtain ⟨rawBuf, hcall, hraw⟩ := rbufferRead_trickle (framed_vmessTrunk hC auth hle) hst.raw s
  have hsize : 1 ≤ vmessMaxPayload := by decide
  refine ⟨rawBuf, ⟨hsize, ?_⟩, hraw⟩
  have hcall' : rbufferCall (vmessDecodeData C auth) .read st.bufs.rawBuf st.reads =
      .done (.success ⟨some piece⟩, rawBuf) s := by
    rw [hreads]
    exact hcall
  rw [vmessTcpSocketReadC_eq C auth hsize, if_neg (by simp [hst.eof]),
    if_neg (by simp [hst.data]), if_pos rfl, hcall']
  refine Outcome.map_eq_done.2 ⟨_, rfl, ?_⟩
  by_cases hnil : piece = []
  · rw [if_pos hnil, hnil]
    rfl
  · have hpos : piece.length ≠ 0 := fun h ↦ hnil (List.length_eq_zero_iff.1 h)
    rw [vmessReadResult, if_neg hnil]
    exact (if_neg hpos).trans (if_neg (Nat.not_lt.2 hle))

/-- Chunks that are not empty are read one after the other. -/
theorem exists_run_trickle (hC : CfbLaws C) {pre : List Bytes}
    (hpre : ∀ p ∈ pre, p.length ≤ vmessMaxPayload) (hempty : [] ∉ pre) {st : VmessReading}
    (hst : st.Idle) {s : Reads}
    (hreads : st.reads = trickle (pre.flatMap (vmessTrunk C auth)) ++ s) :
    ∃ es st', Run (VmessReadStep C auth) st es st' ∧ st'.Idle ∧ st'.reads = s := by
  induction pre using List.reverseRecOn generalizing s with
  | nil => exact ⟨[], st, .nil, hst, hreads⟩
  | append_singleton pre piece ih =>
    rw [List.flatMap_append, List.flatMap_singleton, trickle, List.map_append, List.append_assoc]
      at hreads
    obtain ⟨es, st₁, hrun, hst₁, hreads₁⟩ := ih
      (fun p hp ↦ hpre p (List.mem_append_left _ hp))
      (fun h ↦ hempty (List.mem_append_left _ h)) hreads
    have hne : piece ≠ [] := fun h ↦ hempty (by simp [h])
    obtain ⟨rawBuf, hstep, hraw⟩ := exists_read_trickle hC (hpre piece (by simp)) hst₁ hreads₁
    rw [if_neg hne] at hstep
    exact ⟨_, _, .snoc hrun hstep, ⟨hst₁.eof, hst₁.data, hraw⟩, rfl⟩

/-- What begins with chunks is a prefix of the stream; the first empty chunk splits it. -/
theorem chunkStream_append (pre post : List Bytes) :
    chunkStream C auth (pre ++ post) behind =
      pre.flatMap (vmessTrunk C auth) ++ chunkStream C auth post behind := by
  rw [chunkStream, chunkStream, List.flatMap_append, List.append_assoc]

/-- A run up to the first empty chunk: the end is reported, and what is behind that chunk is yet to
be decoded. -/
theorem exists_run_empty (hC : CfbLaws C) (auth : VmessAuth) (behind : Option Bytes)
    {pre : List Bytes} (post : List Bytes) (hpre : ∀ p ∈ pre, p.length ≤ vmessMaxPayload)
    (hempty : [] ∉ pre) :
    ∃ st₀ es st, st₀.bufs.readBuf = vbufferNew vmessTcpDefaultBuf ∧
      st₀.left = chunkStream C auth (pre ++ [] :: post) behind ∧
      Run (VmessReadStep C auth) st₀ es st ∧ (∃ e ∈ es, e.res = 0) ∧
      st.left = chunkStream C auth post behind := by
  set rest := chunkStream C auth post behind with hrest
  set st₀ : VmessReading := ⟨⟨vbufferNew vmessTcpDefaultBuf, rbufferNew vmessTcpDefaultBuf⟩,
    trickle (pre.flatMap (vmessTrunk C auth)) ++ (trickle (vmessTrunk C auth []) ++ trickle rest)⟩
    with hst₀
  have hreads : st₀.reads = trickle (chunkStream C auth (pre ++ [] :: post) behind) := by
    rw [chunkStream_append, chunkStream_cons, trickle, List.map_append, List.map_append]
    rfl
  have hidle : st₀.Idle := ⟨rfl, rfl, rfl⟩
  obtain ⟨es, st₁, hrun, hst₁, hreads₁⟩ := exists_run_trickle hC hpre hempty hidle rfl
  obtain ⟨rawBuf, hstep, hraw⟩ := exists_read_trickle hC (Nat.zero_le _) hst₁ hreads₁
  refine ⟨st₀, _, _, rfl, ?_, .snoc hrun hstep,
    ⟨_, List.mem_append_right es (List.mem_singleton_self _), rfl⟩, ?_⟩
  · rw [VmessReading.left, hreads, streamBytes_trickle]
    rfl
  · rw [VmessReading.left, hraw, streamBytes_trickle, List.nil_append]

/-- Where chunks are yet to be decoded, or the end chunk is, the end must not have been reported. -/
theorem not_endMeansEndChunk {pieces post : List Bytes} {s₀ : Reads} {es : List VmessReadEvent}
    {st : VmessReading} (hend : ∃ e ∈ es, e.res = 0)
    (hleft : st.left = chunkStream C auth post behind) :
    ¬EndMeansEndChunk pieces behind s₀ es st := by
  intro h
  obtain ⟨e, he, hres⟩ := hend
  obtain ⟨hbehind, -⟩ := h.at_end e he hres
  -- what is left ends with the end chunk and what is behind it, and is what is behind it
  have hlen := congrArg List.length hleft
  rw [chunkStream, hbehind, List.length_append] at hlen
  simp only [Option.elim_some, List.length_append] at hlen
  have hpos : 0 < vmessSerialEnd.length := by decide
  omega

/-- **Exactly when the end of the stream means the end chunk**, in every run of a reader: none of
the chunks is empty. -/
theorem vmess_endMeansEndChunk_iff (hC : CfbLaws C)
    (hpieces : ∀ p ∈ pieces, p.length ≤ vmessMaxPayload) :
    (∀ st₀ es st, st₀.bufs.readBuf = vbufferNew vmessTcpDefaultBuf →
      st₀.left = chunkStream C auth pieces behind → Run (VmessReadStep C auth) st₀ es st →
      EndMeansEndChunk pieces behind st₀.reads es st) ↔ [] ∉ pieces := by
  refine ⟨fun hall hmem ↦ ?_, fun hempty st₀ es st hinit hleft hrun ↦
    endMeansEndChunk_of_run hC hpieces hempty hinit hleft hrun⟩
  obtain ⟨pre, post, rfl, hpre⟩ := List.eq_append_cons_of_mem hmem
  obtain ⟨st₀, es, st, hinit, hleft, hrun, hend, hleft'⟩ := exists_run_empty hC auth behind post
    (fun p hp ↦ hpieces p (List.mem_append_left _ hp)) hpre
  exact not_endMeansEndChunk hend hleft' (hall st₀ es st hinit hleft hrun)

/-! ### At two streams -/

/-- A chunk of two bytes comes, and is returned. -/
theorem vmess_endMeansEndChunk_pair :
    ∃ st₀ es st, Run (VmessReadStep openssl ⟨sampleUserId, sampleUserId, 0, 0⟩) st₀ es st ∧
      returnedBytes es = [104, 105] ∧
      EndMeansEndChunk [[104, 105]] none st₀.reads es st := by
  set st₀ : VmessReading := ⟨⟨vbufferNew vmessTcpDefaultBuf, rbufferNew vmessTcpDefaultBuf⟩,
    trickle (vmessTrunk openssl ⟨sampleUserId, sampleUserId, 0, 0⟩ [104, 105]) ++ []⟩ with hst₀
  obtain ⟨rawBuf, hstep, -⟩ := exists_read_trickle cfbLaws_openssl
    (show ([104, 105] : Bytes).length ≤ vmessMaxPayload by decide)
    (show st₀.Idle from ⟨rfl, rfl, rfl⟩) rfl
  have hrun : Run (VmessReadStep openssl ⟨sampleUserId, sampleUserId, 0, 0⟩) st₀ ([] ++ [_]) _ :=
    .snoc .nil hstep
  refine ⟨st₀, _, _, hrun, rfl, (vmess_endMeansEndChunk_iff cfbLaws_openssl ?_).2 ?_ _ _ _ rfl ?_
    hrun⟩
  · decide
  · decide
  · rw [hst₀, VmessReading.left, List.append_nil, streamBytes_trickle, chunkStream,
      List.flatMap_singleton, Option.elim_none, List.append_nil]
    exact List.nil_append _

/-- An empty chunk comes before a chunk of two bytes and the end chunk: the end is reported at once,
and the two bytes are not returned. -/
theorem not_endMeansEndChunk_empty :
    ∃ st₀ es st, st₀.bufs.readBuf = vbufferNew vmessTcpDefaultBuf ∧
      st₀.left =
        chunkStream openssl ⟨sampleUserId, sampleUserId, 0, 0⟩ [[], [104, 105]] (some []) ∧
      Run (VmessReadStep openssl ⟨sampleUserId, sampleUserId, 0, 0⟩) st₀ es st ∧
      (∃ e ∈ es, e.res = 0) ∧
      st.left = chunkStream openssl ⟨sampleUserId, sampleUserId, 0, 0⟩ [[104, 105]] (some []) ∧
      ¬EndMeansEndChunk [[], [104, 105]] (some []) st₀.reads es st := by
  obtain ⟨st₀, es, st, hinit, hleft, hrun, hend, hleft'⟩ :=
    @exists_run_empty openssl cfbLaws_openssl ⟨sampleUserId, sampleUserId, 0, 0⟩ (some []) []
      [[104, 105]] (by simp) (by simp)
  exact ⟨st₀, es, st, hinit, hleft, hrun, hend, hleft', not_endMeansEndChunk hend hleft'⟩

end Vmecs
