import Vmecs.Proto.Vmess.Handshake

/-!
# A stream in chunks

Behind its header a connection sends a sequence of messages: chunks of at most `aes128CfbTrunk`
bytes, and at the end the end message. Each of them is framed (`framed_trunkWire`), so the reader
finds them one after the other. `Carries` is the invariant of one direction of a connection: what
the reader has returned and what it has in `read_buf` are the data of the messages it has decoded,
and what it has in `raw_buf` and what is still to come are the bytes of the others. A read keeps it,
and returns no error (`Carries.read`); a write and a close put further messages at the end
(`Carries.send`).
-/

namespace Vmecs

open StreamDecoder

/-! ### Messages -/

/-- The end message. -/
def endTrunk : DataTrunk := ⟨none⟩

/-- A chunk, or the end message, as bytes. -/
def trunkWire (C : Crypto) (auth : VmessAuth) (trunk : DataTrunk) : Bytes :=
  match trunk.data with
  | some data => vmessTrunk C auth data
  | none => vmessSerialEnd

/-- The messages of a connection: no chunk is empty, or longer than its length field can say. -/
def DataTrunk.Sendable (trunk : DataTrunk) : Prop :=
  ∀ data, trunk.data = some data → 0 < data.length ∧ data.length ≤ aes128CfbTrunk

/-- The end message is the only one without data. -/
theorem DataTrunk.Sendable.bytes_eq_nil {trunk : DataTrunk} (h : trunk.Sendable) :
    trunk.bytes = [] ↔ trunk = endTrunk := by
  obtain ⟨data⟩ := trunk
  cases data with
  | none => exact iff_of_true rfl rfl
  | some data =>
    have hpos := (h data rfl).1
    refine iff_of_false (fun hd ↦ ?_) (by simp [endTrunk])
    rw [show data = [] from hd] at hpos
    exact absurd hpos (by simp)

/-- The longest payload that the length field of a chunk can count. -/
def vmessMaxPayload : ℕ := 65535 - 4

/-- **A chunk comes back**, and not before its last byte is there. -/
theorem framed_vmessTrunk {C : Crypto} (hC : CfbLaws C) (auth : VmessAuth) {data : Bytes}
    (h : data.length ≤ vmessMaxPayload) :
    (vmessDecodeData C auth).Framed (vmessTrunk C auth data) ⟨some data⟩ := by
  have hle : data.length ≤ 65535 - 4 := h
  have hlen : (UInt16.ofNat (data.length + 4)).toNat = data.length + 4 := by
    rw [UInt16.toNat_ofNat']
    omega
  have henc : (C.aes128CfbEnc auth.key auth.iv (vmessTrunkPlain data)).length =
      (UInt16.ofNat (data.length + 4)).toNat := by
    rw [hC.length_enc, length_vmessTrunkPlain, hlen]
  have hparse : (vmessDecodeData C auth).Parses (vmessTrunk C auth data) ⟨some data⟩ := by
    refine Parses.take_bind (be16 (UInt16.ofNat (data.length + 4))) ?_
    have hdec := hC.dec_enc auth.key auth.iv (vmessTrunkPlain data)
    have hsum : (vmessTrunkPlain data).take 4 = (be32 (cryptoFnv1a data)).1 :=
      List.take_left' (be32 _).2
    have hdata : (vmessTrunkPlain data).drop 4 = data := List.drop_left' (be32 _).2
    rw [fromBe16_be16, if_neg, if_neg]
    · intro y
      refine bind_eq_ok.2 ⟨_, ⟨_, henc⟩, 0, Parses.take (⟨_, henc⟩ : Block _) y, ?_, rfl⟩
      dsimp only
      rw [hdec, hdata, hsum, if_pos rfl, pure_apply]
    · rw [UInt16.lt_iff_toNat_lt, hlen]
      exact Nat.not_lt.2 (Nat.le_add_left 4 _)
    · rw [← UInt16.toNat_inj, hlen]
      exact Nat.succ_ne_zero _
  exact hparse.framed (prompt_vmessDecodeData C auth).toStreaming

/-- So does the end message. -/
theorem framed_vmessSerialEnd (C : Crypto) (auth : VmessAuth) :
    (vmessDecodeData C auth).Framed vmessSerialEnd endTrunk := by
  have hparse : (vmessDecodeData C auth).Parses vmessSerialEnd endTrunk := by
    refine Parses.take_bind (⟨[0, 0], rfl⟩ : Block 2) (m := []) ?_
    exact Parses.pure _
  exact hparse.framed (prompt_vmessDecodeData C auth).toStreaming

/-- The messages that are sent. -/
theorem framed_trunkWire {C : Crypto} (hC : CfbLaws C) (auth : VmessAuth) {trunk : DataTrunk}
    (h : trunk.Sendable) : (vmessDecodeData C auth).Framed (trunkWire C auth trunk) trunk := by
  match trunk with
  | ⟨none⟩ => exact framed_vmessSerialEnd C auth
  | ⟨some data⟩ =>
    refine framed_vmessTrunk hC auth ((h data rfl).2.trans ?_)
    rw [aes128CfbTrunk, vmessMaxPayload]
    omega

/-! ### Writing -/

/-- The chunks that a write is cut into. -/
def vmessPieces (data : Bytes) : List Bytes :=
  if data = [] then []
  else data.take aes128CfbTrunk :: vmessPieces (data.drop aes128CfbTrunk)
termination_by data.length
decreasing_by
  have hpos := List.length_pos_iff.2 ‹data ≠ []›
  rw [List.length_drop, aes128CfbTrunk]
  omega

theorem flatten_vmessPieces (data : Bytes) : (vmessPieces data).flatten = data := by
  induction data using vmessPieces.induct with
  | case1 => rw [vmessPieces, if_pos rfl, List.flatten_nil]
  | case2 data h ih => rw [vmessPieces, if_neg h, List.flatten_cons, ih, List.take_append_drop]

/-- A short write is one chunk. -/
theorem vmessPieces_of_le {data : Bytes} (hdata : data ≠ []) (h : data.length ≤ aes128CfbTrunk) :
    vmessPieces data = [data] := by
  rw [vmessPieces, if_neg hdata, List.take_of_length_le h, List.drop_eq_nil_of_le h, vmessPieces,
    if_pos rfl]

theorem length_of_mem_vmessPieces {data piece : Bytes} (h : piece ∈ vmessPieces data) :
    0 < piece.length ∧ piece.length ≤ aes128CfbTrunk := by
  induction data using vmessPieces.induct with
  | case1 =>
    rw [vmessPieces, if_pos rfl] at h
    exact absurd h List.not_mem_nil
  | case2 data hne ih =>
    rw [vmessPieces, if_neg hne] at h
    rcases List.mem_cons.1 h with rfl | h
    · have hpos := List.length_pos_iff.2 hne
      rw [List.length_take, aes128CfbTrunk]
      omega
    · exact ih h

/-- A serializer with bytes in its buffer has not digested all of them. -/
def VmessSerial.Live (vser : VmessSerial) : Prop := vser.buf ≠ none → vser.remain ≠ []

theorem live_vmessSerialAdvance (vser : VmessSerial) (n : ℕ) :
    (vmessSerialAdvance vser n).Live := by
  intro hbuf hremain
  rw [remain_vmessSerialAdvance, List.drop_eq_nil_iff] at hremain
  exact hbuf (buf_vmessSerialAdvance hremain)

/-- Digesting a piece leaves what is behind it. -/
theorem remain_advance_take (vser : VmessSerial) (n : ℕ) :
    (vmessSerialAdvance vser (vser.remain.take n).length).remain = vser.remain.drop n := by
  rw [remain_vmessSerialAdvance, List.length_take]
  rcases Nat.le_total n vser.remain.length with hle | hle
  · rw [Nat.min_eq_left hle]
  · rw [Nat.min_eq_right hle, List.drop_length, List.drop_eq_nil_of_le hle]

/-- **The loop over the pieces**, when no write has failed, has written a chunk for each, whatever
has become of it. -/
theorem vmessFlush_eq_some {C : Crypto} (hC : CfbLaws C) {auth : VmessAuth} {fuel : ℕ}
    {vser vser' : VmessSerial} {size ret : ℤ} {out out' : OutFd} (h : vser.Established auth)
    (hlive : vser.Live) (hrun : vmessFlush C true fuel vser size out = some (ret, vser', out'))
    (hret : ret ≠ -1) :
    out' = fdWrites out ((vmessPieces vser.remain).map (vmessTrunk C auth)) ∧
      vser'.Established auth ∧ vser'.buf = none := by
  induction fuel generalizing vser size out with
  | zero => exact absurd hrun (by simp [vmessFlush])
  | succ fuel ih =>
    rw [vmessFlush] at hrun
    rcases hbuf : vser.buf with _ | buf
    · have hremain := remain_of_buf_eq_none hbuf
      rw [vmessSerialDigest_none C h hbuf] at hrun
      obtain ⟨-, hrun⟩ := Prod.mk.inj (Option.some.inj hrun)
      obtain ⟨rfl, rfl⟩ := Prod.mk.inj hrun
      rw [hremain, vmessPieces, if_pos rfl]
      exact ⟨rfl, h, hbuf⟩
    · have hne : vser.remain ≠ [] := hlive (by simp [hbuf])
      rw [vmessSerialDigest_aes hC h hbuf] at hrun
      dsimp only at hrun
      split at hrun
      case isTrue =>
        obtain ⟨rfl, -⟩ := Prod.mk.inj (Option.some.inj hrun)
        exact absurd rfl hret
      case isFalse =>
        obtain ⟨hout, hest, hnone⟩ := ih (established_vmessSerialAdvance h _)
          (live_vmessSerialAdvance _ _) hrun
        rw [remain_advance_take] at hout
        rw [vmessPieces, if_neg hne, List.map_cons, fdWrites_cons]
        exact ⟨hout, hest, hnone⟩

theorem length_vmessTrunk_pos (C : Crypto) (auth : VmessAuth) (data : Bytes) :
    0 < (vmessTrunk C auth data).length := by
  rw [vmessTrunk, List.length_append, (be16 _).2]
  omega

/-- **The loop over the pieces** sends, on a reliable descriptor, all that remains in chunks. -/
theorem vmessFlush_reliable {C : Crypto} (hC : CfbLaws C) {auth : VmessAuth} (checked : Bool)
    {fuel : ℕ} {vser : VmessSerial} {size : ℤ} (hsize : 0 < size) (out : OutFd)
    (h : vser.Established auth) (hlive : vser.Live) (hout : out.answers = [])
    (hfuel : vser.remain.length < fuel) :
    ∃ ret vser', vmessFlush C checked fuel vser size out =
        some (ret, vser', { out with
          sent := out.sent ++ (vmessPieces vser.remain).flatMap (vmessTrunk C auth) }) ∧
      0 < ret ∧ vser'.Established auth ∧ vser'.buf = none := by
  induction fuel generalizing vser size out with
  | zero => exact absurd hfuel (by omega)
  | succ fuel ih =>
    cases hbuf : vser.buf with
    | none =>
      have hremain := remain_of_buf_eq_none hbuf
      refine ⟨size, vser, ?_, hsize, h, hbuf⟩
      rw [vmessFlush, vmessSerialDigest_none C h hbuf, hremain, vmessPieces, if_pos rfl,
        List.flatMap_nil, List.append_nil]
    | some buf =>
      have hne : vser.remain ≠ [] := hlive (by simp [hbuf])
      have hpos := List.length_pos_iff.2 hne
      set next := vmessSerialAdvance vser (vser.remain.take aes128CfbTrunk).length with hnext
      have hremain : next.remain = vser.remain.drop aes128CfbTrunk := remain_advance_take vser _
      have hfuel' : next.remain.length < fuel := by
        rw [hremain, List.length_drop, aes128CfbTrunk]
        omega
      obtain ⟨ret, vser', hrun, hret, hest, hnone⟩ := ih
        (Int.natCast_pos.2 (length_vmessTrunk_pos C auth (vser.remain.take aes128CfbTrunk)))
        { out with sent := out.sent ++ vmessTrunk C auth (vser.remain.take aes128CfbTrunk) }
        (established_vmessSerialAdvance h _) (live_vmessSerialAdvance _ _) hout hfuel'
      refine ⟨ret, vser', ?_, hret, hest, hnone⟩
      rw [vmessFlush, vmessSerialDigest_aes hC h hbuf]
      dsimp only
      rw [fdWrite_of_reliable hout, vmessPieces, if_neg hne, List.flatMap_cons, ← hremain]
      dsimp only
      rw [if_neg (by simp), hrun, List.append_assoc]

/-- A socket between two writes: everything written is out. -/
def VmessTcpSocket.Ready (sock : VmessTcpSocket) (auth : VmessAuth) : Prop :=
  ∃ vser, sock.vser = some vser ∧ vser.Established auth ∧ vser.buf = none

/-- **A write** that does not fail has written its data in chunks. -/
theorem vmessTcpSocketWrite_eq_some {C : Crypto} (hC : CfbLaws C) {auth : VmessAuth}
    {sock sock' : VmessTcpSocket} {out out' : OutFd} {data : Bytes} {n : ℤ} (h : sock.Ready auth)
    (hdata : data ≠ []) (hwrite : vmessTcpSocketWrite C data sock out = some (n, sock', out'))
    (hn : n ≠ -1) :
    out' = fdWrites out ((vmessPieces data).map (vmessTrunk C auth)) ∧
      (∃ vser, sock' = { sock with vser }) ∧ sock'.Ready auth := by
  obtain ⟨vser, hvser, hest, hbuf⟩ := h
  have hremain : (vmessSerialWrite vser data).remain = data := by
    rw [remain_vmessSerialWrite, remain_of_buf_eq_none hbuf, List.nil_append]
  simp only [vmessTcpSocketWrite, hvser, Option.bind_eq_bind, Option.bind_some,
    Option.bind_eq_some_iff] at hwrite
  obtain ⟨⟨ret, vser', out₁⟩, hrun, hwrite⟩ := hwrite
  obtain ⟨rfl, hsock⟩ := Prod.mk.inj (Option.some.inj hwrite)
  obtain ⟨rfl, rfl⟩ := Prod.mk.inj hsock
  have hest' := established_vmessSerialWrite hest data
  have hlive : (vmessSerialWrite vser data).Live := fun _ ↦ by rwa [hremain]
  obtain ⟨hout, hest', hnone⟩ := vmessFlush_eq_some hC hest' hlive hrun hn
  rw [hremain] at hout
  exact ⟨hout, ⟨_, rfl⟩, vser', rfl, hest', hnone⟩

/-- **A write** of a non-empty buffer to a reliable descriptor sends it in chunks. -/
theorem vmessTcpSocketWrite_reliable {C : Crypto} (hC : CfbLaws C) {auth : VmessAuth}
    {sock : VmessTcpSocket} {out : OutFd} (h : sock.Ready auth) (hout : out.answers = [])
    {data : Bytes} (hdata : data ≠ []) :
    ∃ ret vser', vmessTcpSocketWrite C data sock out =
        some (ret, { sock with vser := some vser' }, { out with
          sent := out.sent ++ (vmessPieces data).flatMap (vmessTrunk C auth) }) ∧
      0 < ret ∧ ({ sock with vser := some vser' } : VmessTcpSocket).Ready auth := by
  obtain ⟨vser, hvser, hest, hbuf⟩ := h
  have hremain : (vmessSerialWrite vser data).remain = data := by
    rw [remain_vmessSerialWrite, remain_of_buf_eq_none hbuf, List.nil_append]
  have hest' := established_vmessSerialWrite hest data
  have hfuel : (vmessSerialWrite vser data).remain.length <
      vmessFlushFuel (vmessSerialWrite vser data) := by
    rw [vmessFlushFuel, VmessSerial.remain, List.length_drop]
    omega
  obtain ⟨ret, vser', hrun, hret, hest'', hnone⟩ := vmessFlush_reliable hC true
    (Int.natCast_pos.2 (List.length_pos_iff.2 hdata)) out hest' (fun _ ↦ by rwa [hremain]) hout
    hfuel
  rw [hremain] at hrun
  refine ⟨ret, vser', ?_, hret, vser', rfl, hest'', hnone⟩
  rw [vmessTcpSocketWrite, hvser]
  simp only [Option.bind_eq_bind, Option.bind_some, hrun]

/-- **A socket behind its handshake** is ready to be written to. -/
theorem vmessTcpSocketHandshakeC_ready {C : Crypto} {rand : ℕ → Rand} (sock : VmessTcpSocket)
    (clock : ℕ → Clock sock.config) {target : Option TargetId} {reads rest : Reads}
    {out out' : OutFd} {sock' : VmessTcpSocket}
    (h : vmessTcpSocketHandshakeC C rand sock clock target reads out =
      (out', .done (true, sock') rest)) : sock'.Ready sock'.auth := by
  have hnew (auth : VmessAuth) : (vmessSerialNew auth).Established auth := ⟨rfl, rfl, rfl⟩
  match target with
  | none =>
    rw [vmessTcpSocketHandshakeC, vmessServerHandshake_eq] at h
    split at h
    case h_3 =>
      obtain ⟨hr, -⟩ := Outcome.done.inj (Prod.mk.inj h).2
      obtain ⟨-, rfl⟩ := Prod.mk.inj hr
      exact ⟨_, rfl, hnew _, rfl⟩
    all_goals simp at h
  | some target =>
    obtain ⟨header, hheader⟩ := exists_requestHeader C rand sock.config sock.auth target
    rw [vmessTcpSocketHandshakeC, vmessClientHandshake_eq C rand sock target hheader] at h
    split at h
    case h_3 =>
      obtain ⟨hr, -⟩ := Outcome.done.inj (Prod.mk.inj h).2
      obtain ⟨-, rfl⟩ := Prod.mk.inj hr
      exact ⟨_, rfl, hnew _, rfl⟩
    all_goals simp at h

/-! ### Reading -/

/-- **A read** is one of three things: it reports the end of the stream, gives what is left of a
chunk, or reads the next message. -/
theorem vmessTcpSocketReadC_eq (C : Crypto) (auth : VmessAuth) {size : ℕ} (hsize : 1 ≤ size)
    (block : Bool) (bufs : VmessReadBuffers) (s : Reads) :
    vmessTcpSocketReadC C auth size block bufs s =
      if bufs.readBuf.eof then .done (0, [], bufs) s
      else if bufs.readBuf.data ≠ [] then
        .done ((bufs.readBuf.data.take size).length, bufs.readBuf.data.take size,
          { bufs with readBuf := bufs.readBuf.consume size }) s
      else
        (rbufferCall (vmessDecodeData C auth) (if block then .read else .tryRead) bufs.rawBuf s).map
          (vmessReadResult size bufs.readBuf) := by
  rw [vmessTcpSocketReadC, vbufferTryRead]
  by_cases heof : bufs.readBuf.eof
  · simp [heof]
  · rw [if_neg heof, if_neg heof]
    by_cases hdata : bufs.readBuf.data = []
    · cases block <;> simp [hdata, rbufferCall]
    · have hpos := List.length_pos_iff.2 hdata
      have hlen : (bufs.readBuf.data.take size).length = min bufs.readBuf.data.length size := by
        rw [List.length_take, Nat.min_comm]
      rw [if_pos hpos.ne', if_pos hdata, hlen]
      dsimp only
      rw [if_neg (by omega), if_pos (by omega)]

/-- The result of a read counts the bytes it has stored. -/
theorem length_of_vmessReadResult (size : ℕ) (readBuf : VBuffer)
    (r : RBufferResult DataTrunk × RBuffer) :
    (vmessReadResult size readBuf r).2.1.length = (vmessReadResult size readBuf r).1.toNat := by
  obtain ⟨r, rawBuf⟩ := r
  cases r with
  | error => rfl
  | incomplete => rfl
  | success trunk =>
    rw [vmessReadResult]
    split
    · rfl
    · split
      · show (trunk.bytes.take size).length = ((size : ℕ) : ℤ).toNat
        rw [List.length_take, Int.toNat_natCast]
        omega
      · rfl

/-- The data of a chunk goes to the reader as far as it has room, and the rest to `read_buf`. -/
theorem vmessReadResult_of_ne_nil (size : ℕ) {readBuf : VBuffer} (heof : readBuf.eof = false)
    (hdata : readBuf.data = []) {trunk : DataTrunk} (h : trunk.bytes ≠ []) (rawBuf : RBuffer) :
    ∃ readBuf' : VBuffer, readBuf'.data = trunk.bytes.drop size ∧ readBuf'.eof = false ∧
      vmessReadResult size readBuf (.success trunk, rawBuf) =
        (((trunk.bytes.take size).length : ℤ), trunk.bytes.take size, ⟨readBuf', rawBuf⟩) := by
  have hpos := List.length_pos_iff.2 h
  rw [vmessReadResult, if_neg (by omega)]
  by_cases hlt : trunk.bytes.length > size
  · refine ⟨vbufferWrite readBuf (trunk.bytes.drop size), ?_, ?_, ?_⟩
    · rw [data_vbufferWrite heof, hdata, List.nil_append]
    · rw [eof_vbufferWrite, heof]
    · rw [if_pos hlt, List.length_take, Nat.min_eq_left hlt.le]
  · have hle : trunk.bytes.length ≤ size := Nat.le_of_not_lt hlt
    refine ⟨readBuf, ?_, heof, ?_⟩
    · rw [hdata, List.drop_eq_nil_of_le hle]
    · rw [if_neg hlt, List.take_of_length_le hle]

/-- The messages of a connection, in order: the end message is the last one. -/
structure IsStream (trunks : List DataTrunk) : Prop where
  sendable : ∀ trunk ∈ trunks, trunk.Sendable
  end_last : ∀ pre post, trunks = pre ++ endTrunk :: post → post = []

/-- **One direction of a connection**: of the messages sent, `decoded` are those the reader has
decoded, whose data it has returned or has in `read_buf`, and `left` are the others, whose bytes it
has in `raw_buf` or are still to come. -/
structure Carries (C : Crypto) (auth : VmessAuth) (trunks : List DataTrunk) (returned : Bytes)
    (bufs : VmessReadBuffers) (coming : Bytes) (decoded left : List DataTrunk) : Prop where
  split : trunks = decoded ++ left
  returned_eq : returned ++ bufs.readBuf.data = decoded.flatMap DataTrunk.bytes
  coming_eq : bufs.rawBuf.data ++ coming = left.flatMap (trunkWire C auth)
  eof_iff : bufs.readBuf.eof = true ↔ endTrunk ∈ decoded
  eof_data : bufs.readBuf.eof = true → bufs.readBuf.data = []

namespace Carries

variable {C : Crypto} {auth : VmessAuth} {trunks decoded left : List DataTrunk}
  {returned coming : Bytes} {bufs bufs' : VmessReadBuffers}

/-- At the beginning nothing has been decoded. -/
theorem nil {init : ℕ} (hread : bufs.readBuf = vbufferNew init)
    (hcoming : bufs.rawBuf.data ++ coming = trunks.flatMap (trunkWire C auth)) :
    Carries C auth trunks [] bufs coming [] trunks where
  split := rfl
  returned_eq := by rw [hread, data_vbufferNew, List.flatMap_nil, List.append_nil]
  coming_eq := hcoming
  eof_iff := by simp [hread]
  eof_data _ := by rw [hread, data_vbufferNew]

/-- **What has been returned is a prefix of what was written.** -/
theorem isPrefix (h : Carries C auth trunks returned bufs coming decoded left) :
    returned <+: trunks.flatMap DataTrunk.bytes := by
  rw [h.split, List.flatMap_append, ← h.returned_eq, List.append_assoc]
  exact List.prefix_append _ _

/-- At the end of the stream all of it has been returned. -/
theorem of_eof (h : Carries C auth trunks returned bufs coming decoded left)
    (hms : IsStream trunks) (heof : bufs.readBuf.eof = true) :
    endTrunk ∈ trunks ∧ left = [] ∧ returned = trunks.flatMap DataTrunk.bytes := by
  have hmem := h.eof_iff.1 heof
  obtain ⟨pre, post, rfl⟩ := List.mem_iff_append.1 hmem
  have hleft : left = [] := by
    have hsplit := h.split
    rw [List.append_assoc, List.cons_append] at hsplit
    exact (List.append_eq_nil_iff.1 (hms.end_last _ _ hsplit)).2
  have hret := h.returned_eq
  rw [h.eof_data heof, List.append_nil] at hret
  rw [h.split, hleft, List.append_nil]
  exact ⟨hmem, rfl, hret⟩

/-- Further messages are sent. -/
theorem send (h : Carries C auth trunks returned bufs coming decoded left)
    (more : List DataTrunk) :
    Carries C auth (trunks ++ more) returned bufs (coming ++ more.flatMap (trunkWire C auth))
      decoded (left ++ more) where
  split := by rw [h.split, List.append_assoc]
  returned_eq := h.returned_eq
  coming_eq := by rw [← List.append_assoc, h.coming_eq, List.flatMap_append]
  eof_iff := h.eof_iff
  eof_data := h.eof_data

/-- **What the decoder finds**: the next message, or not all of it; the end message is found when
nothing is in flight any more. -/
theorem decode (hC : CfbLaws C) (hms : IsStream trunks) {got inflight : Bytes}
    (h : Carries C auth trunks returned bufs (got ++ inflight) decoded left)
    {r : RBufferResult DataTrunk} {rest : Bytes}
    (hstep : RBufferStep (vmessDecodeData C auth) (bufs.rawBuf.data ++ got) r rest) :
    (r = .incomplete ∧ rest = bufs.rawBuf.data ++ got ∧ (inflight = [] → left = [])) ∨
      ∃ trunk left', r = .success trunk ∧ left = trunk :: left' ∧
        rest ++ inflight = left'.flatMap (trunkWire C auth) := by
  have hcoming := h.coming_eq
  rw [← List.append_assoc] at hcoming
  match left with
  | [] =>
    rw [List.flatMap_nil, List.append_eq_nil_iff] at hcoming
    have hmore : vmessDecodeData C auth (bufs.rawBuf.data ++ got) = .more := by
      rw [hcoming.1]
      exact (prompt_vmessDecodeData C auth).nil
    obtain ⟨hr, hrest⟩ := hstep.of_more hmore
    exact .inl ⟨hr, hrest, fun _ ↦ rfl⟩
  | trunk :: left' =>
    have hsend : trunk.Sendable := hms.sendable trunk (by rw [h.split]; simp)
    rw [List.flatMap_cons] at hcoming
    obtain ⟨hr, hrest, hne⟩ | ⟨hr, hrest⟩ :=
      hstep.of_framed (framed_trunkWire hC auth hsend) hcoming
    · exact .inl ⟨hr, hrest, fun hnil ↦ absurd hnil hne⟩
    · exact .inr ⟨trunk, left', hr, rfl, hrest⟩

/-- What a read of a connection keeps: it returns bytes of the stream, it does not fail, it reports
the end only when all of the stream has been returned, and a blocking one never gives up. -/
structure ReadKeeps (C : Crypto) (auth : VmessAuth) (trunks : List DataTrunk) (returned : Bytes)
    (inflight : Bytes) (block : Bool) (res : ℤ) (bs : Bytes) (bufs' : VmessReadBuffers) : Prop where
  carries : ∃ decoded left, Carries C auth trunks (returned ++ bs) bufs' inflight decoded left
  count : bs.length = res.toNat
  no_error : res ≠ -1
  no_giving_up : block = true → res ≠ -2
  at_end : res = 0 → endTrunk ∈ trunks ∧ returned ++ bs = trunks.flatMap DataTrunk.bytes

/-- The end has been reported before. -/
theorem read_eof (hms : IsStream trunks) (block : Bool)
    (h : Carries C auth trunks returned bufs coming decoded left) (heof : bufs.readBuf.eof = true) :
    ReadKeeps C auth trunks returned coming block 0 [] bufs where
  carries := ⟨decoded, left, by rwa [List.append_nil]⟩
  count := rfl
  no_error := by decide
  no_giving_up _ := by decide
  at_end _ := by
    obtain ⟨hmem, -, hret⟩ := h.of_eof hms heof
    exact ⟨hmem, by rwa [List.append_nil]⟩

/-- The rest of a chunk is there. -/
theorem read_rest {size : ℕ} (hsize : 1 ≤ size) (block : Bool)
    (h : Carries C auth trunks returned bufs coming decoded left)
    (heof : bufs.readBuf.eof = false) (hdata : bufs.readBuf.data ≠ []) :
    ReadKeeps C auth trunks returned coming block (bufs.readBuf.data.take size).length
      (bufs.readBuf.data.take size) { bufs with readBuf := bufs.readBuf.consume size } := by
  have hpos : 0 < (bufs.readBuf.data.take size).length := by
    have := List.length_pos_iff.2 hdata
    rw [List.length_take]
    omega
  refine ⟨⟨decoded, left, h.split, ?_, h.coming_eq, h.eof_iff, fun he ↦ ?_⟩, ?_, ?_, ?_, ?_⟩
  · show returned ++ bufs.readBuf.data.take size ++ bufs.readBuf.data.drop size = _
    rw [List.append_assoc, List.take_append_drop, h.returned_eq]
  · exact absurd (heof.symm.trans he) (by simp)
  · exact (Int.toNat_natCast _).symm
  · omega
  · omega
  · omega

/-- A message is read, or not all of it is there. -/
theorem read_message (hC : CfbLaws C) (hms : IsStream trunks) {size : ℕ} (hsize : 1 ≤ size)
    {block : Bool} {got inflight : Bytes}
    (h : Carries C auth trunks returned bufs (got ++ inflight) decoded left)
    (heof : bufs.readBuf.eof = false) (hdata : bufs.readBuf.data = [])
    {r : RBufferResult DataTrunk} {rawBuf : RBuffer}
    (hstep : RBufferStep (vmessDecodeData C auth) (bufs.rawBuf.data ++ got) r rawBuf.data)
    (hinc : block = true → r = .incomplete → inflight = [] ∧ endTrunk ∈ trunks) :
    ReadKeeps C auth trunks returned inflight block
      (vmessReadResult size bufs.readBuf (r, rawBuf)).1
      (vmessReadResult size bufs.readBuf (r, rawBuf)).2.1
      (vmessReadResult size bufs.readBuf (r, rawBuf)).2.2 := by
  have hcount := length_of_vmessReadResult size bufs.readBuf (r, rawBuf)
  have hret : returned = decoded.flatMap DataTrunk.bytes := by
    rw [← h.returned_eq, hdata, List.append_nil]
  have hnotend : endTrunk ∉ decoded := fun hmem ↦ by
    rw [h.eof_iff.2 hmem] at heof
    exact absurd heof (by simp)
  obtain ⟨rfl, hrest, hleft⟩ | ⟨trunk, left', rfl, rfl, hrest⟩ := h.decode hC hms hstep
  · refine ⟨⟨decoded, left, h.split, ?_, ?_, h.eof_iff, h.eof_data⟩, hcount, ?_, ?_, ?_⟩
    · show returned ++ [] ++ bufs.readBuf.data = _
      rw [List.append_nil, h.returned_eq]
    · show rawBuf.data ++ inflight = _
      rw [hrest, List.append_assoc, h.coming_eq]
    · show (-2 : ℤ) ≠ -1
      decide
    · intro hb
      obtain ⟨hnil, hmem⟩ := hinc hb rfl
      rw [h.split, hleft hnil, List.append_nil] at hmem
      exact absurd hmem hnotend
    · show (-2 : ℤ) = 0 → _
      exact fun h ↦ absurd h (by decide)
  · have hsend : trunk.Sendable := hms.sendable trunk (by rw [h.split]; simp)
    have hsplit : trunks = (decoded ++ [trunk]) ++ left' := by
      rw [h.split, List.append_assoc, List.singleton_append]
    by_cases hnil : trunk.bytes = []
    · -- the end message
      obtain rfl := hsend.bytes_eq_nil.1 hnil
      have hcarries : Carries C auth trunks returned ⟨vbufferClose bufs.readBuf, rawBuf⟩ inflight
          (decoded ++ [endTrunk]) left' := by
        refine ⟨hsplit, ?_, hrest, iff_of_true rfl (by simp), fun _ ↦ hdata⟩
        rw [List.flatMap_append, ← hret, data_vbufferClose, hdata]
        rfl
      exact hcarries.read_eof hms block rfl
    · obtain ⟨readBuf', hdata', heof', hresult⟩ :=
        vmessReadResult_of_ne_nil size heof hdata hnil rawBuf
      have hpos : 0 < (trunk.bytes.take size).length := by
        have := List.length_pos_iff.2 hnil
        rw [List.length_take]
        omega
      have hne : trunk ≠ endTrunk := fun heq ↦ hnil (hsend.bytes_eq_nil.2 heq)
      rw [hresult] at hcount ⊢
      refine ⟨⟨decoded ++ [trunk], left', hsplit, ?_, hrest, ?_, ?_⟩, hcount, ?_, ?_, ?_⟩
      · show returned ++ trunk.bytes.take size ++ readBuf'.data = _
        rw [hdata', List.append_assoc, List.take_append_drop, List.flatMap_append, ← hret,
          List.flatMap_cons, List.flatMap_nil, List.append_nil]
      · show readBuf'.eof = true ↔ _
        simp [heof', hnotend, hne.symm]
      · show readBuf'.eof = true → _
        simp [heof']
      · dsimp only
        omega
      · dsimp only
        omega
      · dsimp only
        omega

/-- **A read keeps the invariant of its direction.** -/
theorem read (hC : CfbLaws C) (hms : IsStream trunks) {size : ℕ} (hsize : 1 ≤ size) {block : Bool}
    {got rest : Reads} {inflight : Bytes}
    (h : Carries C auth trunks returned bufs (streamBytes got ++ inflight) decoded left)
    (hs : .fail ∉ got) (heof : .eof ∈ got → inflight = [] ∧ endTrunk ∈ trunks)
    (ha : Asked (vmessTcpSocketReadC C auth size block bufs) got) {res : ℤ} {bs : Bytes}
    (hd : vmessTcpSocketReadC C auth size block bufs got = .done (res, bs, bufs') rest) :
    ReadKeeps C auth trunks returned inflight block res bs bufs' := by
  have heq := vmessTcpSocketReadC_eq C auth hsize block bufs
  by_cases hclosed : bufs.readBuf.eof = true
  · simp only [hclosed, if_true] at heq
    obtain rfl := ha.eq_nil heq
    obtain ⟨hr, -⟩ := Outcome.done.inj ((heq []).symm.trans hd)
    obtain ⟨rfl, rfl, rfl⟩ : 0 = res ∧ [] = bs ∧ bufs = bufs' := by simpa using hr
    exact read_eof hms block h hclosed
  · have hopen : bufs.readBuf.eof = false := by simpa using hclosed
    by_cases hdata : bufs.readBuf.data = []
    · simp only [hopen, hdata, Bool.false_eq_true, if_false, ne_eq, not_true_eq_false] at heq
      have ha' := ha.mono fun s want hw ↦ Outcome.map_eq_wait.1 ((heq s).symm.trans hw)
      obtain ⟨⟨r, rawBuf⟩, hcall, hr⟩ := Outcome.map_eq_done.1 ((heq got).symm.trans hd)
      obtain ⟨hstep, hinc⟩ :=
        rbufferCall_of_asked (prompt_vmessDecodeData C auth).nil hs ha' hcall
      have hkeeps := h.read_message hC hms hsize hopen hdata hstep fun hb hr ↦
        heof (hinc (if_pos hb) hr)
      rw [hr] at hkeeps
      exact hkeeps
    · simp only [hopen, hdata, Bool.false_eq_true, if_false, ne_eq, not_false_eq_true,
        if_true] at heq
      obtain rfl := ha.eq_nil heq
      obtain ⟨hr, -⟩ := Outcome.done.inj ((heq []).symm.trans hd)
      obtain ⟨rfl, rfl, rfl⟩ := Prod.mk.inj hr |>.imp_right Prod.mk.inj
      exact read_rest hsize block h hopen hdata

end Carries

end Vmecs
