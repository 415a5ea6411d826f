import Mathlib.Data.List.Forall2
import Vmecs.Lib.Run
import Vmecs.Proto.Vmess.Chunks

/-!
# The chunk serializer and the chunk decoder

What is written to a serializer and what is digested from it, in any order: a run of the serializer
is a sequence of writes and digests (`SerialStep`), and `Chunked` is what it has done with the bytes
written: the digests have cut the front of them into chunks, each of which the decoder reads back
whatever follows it, and the rest is in the buffer. The decoder in turn accepts nothing but such
chunks (`eq_vmessTrunk_of_decode`), so the two are inverse (`vmessSerial_inverse`).

The serializer also has a mode without encryption. There the length in front of a chunk is not that
of the chunk, whatever is in the buffer (`vmessSerialDigest_delimits_iff`).
-/

namespace Vmecs

open StreamDecoder

/-! ### What the decoder accepts -/

/-- **An accepted chunk is the one of its payload**: decryption can be undone, and the checksum and
the length are determined by the payload. -/
theorem eq_vmessTrunk_of_decode {C : Crypto} (hC : CfbInverseLaws C) {auth : VmessAuth} {x : Bytes}
    {n : ℕ} {payload : Bytes} (h : vmessDecodeData C auth x = .ok n ⟨some payload⟩) :
    x.take n = vmessTrunk C auth payload := by
  obtain ⟨len, rest, k, rfl, hlen, rfl⟩ := take_bind_eq_ok.1 h
  by_cases hzero : fromBe16 len = 0
  · rw [if_pos hzero, pure_apply] at hlen
    exact absurd hlen (by simp)
  · by_cases hshort : fromBe16 len < 4
    · rw [if_neg hzero, if_pos hshort, reject_apply] at hlen
      exact absurd hlen (by simp)
    · rw [if_neg hzero, if_neg hshort] at hlen
      obtain ⟨dataBuf, rest', k', rfl, hbuf, rfl⟩ := take_bind_eq_ok.1 hlen
      by_cases hsum : (be32 (cryptoFnv1a ((C.aes128CfbDec auth.key auth.iv dataBuf.1).drop 4))).1 =
          (C.aes128CfbDec auth.key auth.iv dataBuf.1).take 4
      · rw [if_pos hsum, pure_apply] at hbuf
        obtain ⟨rfl, htrunk⟩ := Decode.ok.inj hbuf
        have hpayload : (C.aes128CfbDec auth.key auth.iv dataBuf.1).drop 4 = payload :=
          Option.some.inj (congrArg DataTrunk.data htrunk)
        have hplain : vmessTrunkPlain payload = C.aes128CfbDec auth.key auth.iv dataBuf.1 := by
          rw [vmessTrunkPlain, ← hpayload, hsum, List.take_append_drop]
        have hcount : payload.length + 4 = (fromBe16 len).toNat := by
          rw [← length_vmessTrunkPlain, hplain, hC.length_dec, dataBuf.2]
        rw [vmessTrunk, hplain, hC.enc_dec, hcount, UInt16.ofNat_toNat, be16_fromBe16,
          ← List.append_assoc, Nat.add_zero]
        exact List.take_left' (by rw [List.length_append, len.2, dataBuf.2])
      · rw [if_neg hsum, reject_apply] at hbuf
        exact absurd hbuf (by simp)

/-! ### Runs of a serializer -/

/-- A write to a serializer, or a digest with what it has returned. -/
inductive SerialEvent where
  | write (data : Bytes)
  | digest (chunk : Option Bytes)

/-- A step of a serializer. -/
def SerialStep (C : Crypto) (vser : VmessSerial) : SerialEvent → VmessSerial → Prop
  | .write data, vser' => vser' = vmessSerialWrite vser data
  | .digest chunk, vser' => vmessSerialDigest C vser = some (chunk, vser')

/-- What has been written, in order. -/
def writtenData : List SerialEvent → Bytes
  | [] => []
  | .write data :: es => data ++ writtenData es
  | .digest _ :: es => writtenData es

/-- The chunks that have been digested, in order. -/
def digestedChunks : List SerialEvent → List Bytes
  | [] => []
  | .write _ :: es => digestedChunks es
  | .digest chunk :: es => chunk.toList ++ digestedChunks es

theorem writtenData_append (es es' : List SerialEvent) :
    writtenData (es ++ es') = writtenData es ++ writtenData es' := by
  induction es with
  | nil => rfl
  | cons e es ih =>
    match e with
    | .write data => rw [List.cons_append, writtenData, writtenData, ih, List.append_assoc]
    | .digest _ => rw [List.cons_append, writtenData, writtenData, ih]

theorem digestedChunks_append (es es' : List SerialEvent) :
    digestedChunks (es ++ es') = digestedChunks es ++ digestedChunks es' := by
  induction es with
  | nil => rfl
  | cons e es ih =>
    match e with
    | .write _ => rw [List.cons_append, digestedChunks, digestedChunks, ih]
    | .digest _ => rw [List.cons_append, digestedChunks, digestedChunks, ih, List.append_assoc]

/-- The chunk is read back, whatever follows it, and with a payload of admissible length. -/
structure ReadsBack (C : Crypto) (auth : VmessAuth) (chunk payload : Bytes) : Prop where
  pos : 1 ≤ payload.length
  le : payload.length ≤ 65530
  decode : ∀ y, vmessDecodeData C auth (chunk ++ y) = .ok chunk.length ⟨some payload⟩

/-- A flush takes `n` chunks, and then there is nothing left. -/
def FlushTakes (C : Crypto) (vser : VmessSerial) (n : ℕ) : Prop :=
  ∃ (chunks : List Bytes) (vser' : VmessSerial), chunks.length = n ∧
    Run (SerialStep C) vser (chunks.map (fun chunk ↦ .digest (some chunk)) ++ [.digest none]) vser'

/-- **What a serializer has made of `data`**: the chunks, and what is in its buffer. -/
structure Chunked (C : Crypto) (auth : VmessAuth) (data : Bytes) (chunks : List Bytes)
    (vser : VmessSerial) : Prop where
  readsBack : ∃ payloads, List.Forall₂ (ReadsBack C auth) chunks payloads ∧
    payloads.flatten ++ vser.remain = data
  digest : ∃ chunk vser', vmessSerialDigest C vser = some (chunk, vser') ∧
    (chunk = none ↔ vser.remain = [])
  flush : FlushTakes C vser ((vser.remain.length + 65529) / 65530)
  ofs_le : vser.bufOfs ≤ (vser.buf.getD []).length

/-! ### Single steps -/

/-- The first chunk of what remains is read back. -/
theorem readsBack_vmessTrunk {C : Crypto} (hC : CfbLaws C) (auth : VmessAuth) {data : Bytes}
    (h : data ≠ []) :
    ReadsBack C auth (vmessTrunk C auth (data.take aes128CfbTrunk)) (data.take aes128CfbTrunk) where
  pos := by
    have := List.length_pos_iff.2 h
    rw [List.length_take, aes128CfbTrunk]
    omega
  le := List.length_take_le _ _
  decode := by
    refine (framed_vmessTrunk hC auth ((List.length_take_le _ _).trans ?_)).ok
    rw [aes128CfbTrunk, vmessMaxPayload]
    omega

/-- What a digest returns, and what it leaves: a chunk of the front of what remains, if anything
does. -/
theorem vmessSerialDigest_live {C : Crypto} (hC : CfbLaws C) {vser : VmessSerial}
    {auth : VmessAuth} (h : vser.Established auth) (hlive : vser.Live) :
    (vser.remain = [] ∧ vmessSerialDigest C vser = some (none, vser)) ∨
    (vser.remain ≠ [] ∧ ∃ vser', vmessSerialDigest C vser =
        some (some (vmessTrunk C auth (vser.remain.take aes128CfbTrunk)), vser') ∧
      vser'.Established auth ∧ vser'.Live ∧ vser'.remain = vser.remain.drop aes128CfbTrunk) := by
  match hbuf : vser.buf with
  | none => exact .inl ⟨remain_of_buf_eq_none hbuf, vmessSerialDigest_none C h hbuf⟩
  | some buf =>
    refine .inr ⟨hlive (by simp [hbuf]), _, vmessSerialDigest_aes hC h hbuf, ?_, ?_, ?_⟩
    · exact established_vmessSerialAdvance h _
    · exact live_vmessSerialAdvance _ _
    · exact remain_advance_take vser _

/-- **A flush**: one chunk for each 65530 bytes, and one for the rest. -/
theorem flushTakes {C : Crypto} (hC : CfbLaws C) {vser : VmessSerial} {auth : VmessAuth}
    (h : vser.Established auth) (hlive : vser.Live) :
    FlushTakes C vser ((vser.remain.length + 65529) / 65530) := by
  -- by induction on the bytes left
  induction hn : vser.remain.length using Nat.strong_induction_on generalizing vser with
  | _ n ih =>
    rcases vmessSerialDigest_live hC h hlive with
      ⟨hnil, hdigest⟩ | ⟨hne, vser', hdigest, h', hlive', hrest⟩
    · refine ⟨[], vser, ?_, .snoc .nil hdigest⟩
      rw [← hn, hnil]
      rfl
    · have hpos := List.length_pos_iff.2 hne
      have hlen : vser'.remain.length = n - 65530 := by
        rw [hrest, List.length_drop, hn]
        rfl
      obtain ⟨chunks, vser'', hcount, hrun⟩ := ih (n - 65530) (by omega) h' hlive' hlen
      refine ⟨_ :: chunks, vser'', ?_, Run.cons hdigest hrun⟩
      rw [List.length_cons, hcount]
      omega

/-! ### The invariant -/

/-- The invariant of the runs: that of the serializer, and that the chunks are read back. -/
structure SerialInv (C : Crypto) (auth : VmessAuth) (data : Bytes) (chunks : List Bytes)
    (vser : VmessSerial) : Prop where
  established : vser.Established auth
  live : vser.Live
  readsBack : ∃ payloads, List.Forall₂ (ReadsBack C auth) chunks payloads ∧
    payloads.flatten ++ vser.remain = data

namespace SerialInv

variable {C : Crypto} {auth : VmessAuth} {data : Bytes} {chunks : List Bytes}
  {vser vser' : VmessSerial}

/-- A write that is not empty. -/
theorem write (h : SerialInv C auth data chunks vser) {more : Bytes} (hne : more ≠ []) :
    SerialInv C auth (data ++ more) chunks (vmessSerialWrite vser more) where
  established := established_vmessSerialWrite h.established more
  live _ := by
    rw [remain_vmessSerialWrite]
    exact List.append_ne_nil_of_right_ne_nil _ hne
  readsBack := by
    obtain ⟨payloads, hall, hdata⟩ := h.readsBack
    refine ⟨payloads, hall, ?_⟩
    rw [remain_vmessSerialWrite, ← List.append_assoc, hdata]

/-- A digest. -/
theorem digest (hC : CfbLaws C) (h : SerialInv C auth data chunks vser) {chunk : Option Bytes}
    (hdigest : vmessSerialDigest C vser = some (chunk, vser')) :
    SerialInv C auth data (chunks ++ chunk.toList) vser' := by
  rcases vmessSerialDigest_live hC h.established h.live with
    ⟨-, heq⟩ | ⟨hne, next, heq, hest, hlive, hrest⟩
  · obtain ⟨rfl, rfl⟩ := Prod.mk.inj (Option.some.inj (hdigest.symm.trans heq))
    rwa [Option.toList_none, List.append_nil]
  · obtain ⟨rfl, rfl⟩ := Prod.mk.inj (Option.some.inj (hdigest.symm.trans heq))
    obtain ⟨payloads, hall, hdata⟩ := h.readsBack
    refine ⟨hest, hlive, payloads ++ [vser.remain.take aes128CfbTrunk],
      List.rel_append hall (.cons (readsBack_vmessTrunk hC auth hne) .nil), ?_⟩
    rw [hrest, List.flatten_append, List.flatten_singleton, List.append_assoc,
      List.take_append_drop, hdata]

theorem chunked (hC : CfbLaws C) (h : SerialInv C auth data chunks vser) :
    Chunked C auth data chunks vser where
  readsBack := h.readsBack
  digest := by
    rcases vmessSerialDigest_live hC h.established h.live with ⟨hnil, heq⟩ | ⟨hne, vser', heq, -⟩
    · exact ⟨none, vser, heq, iff_of_true rfl hnil⟩
    · exact ⟨_, vser', heq, iff_of_false (by simp) hne⟩
  flush := flushTakes hC h.established h.live
  ofs_le := vser.bufOfs_le

end SerialInv

/-- The invariant over a run. -/
theorem serialInv_of_run {C : Crypto} (hC : CfbLaws C) {auth : VmessAuth}
    {vser₀ vser : VmessSerial} (h₀ : vser₀.Established auth) (hlive : vser₀.Live)
    {es : List SerialEvent} (hrun : Run (SerialStep C) vser₀ es vser)
    (hne : ∀ data, .write data ∈ es → data ≠ []) :
    SerialInv C auth (vser₀.remain ++ writtenData es) (digestedChunks es) vser := by
  have hinit : SerialInv C auth vser₀.remain [] vser₀ := ⟨h₀, hlive, [], .nil, rfl⟩
  induction hrun with
  | nil => rwa [writtenData, List.append_nil]
  | @snoc es s' e s'' _ he ih =>
    have hs' := ih fun data hmem ↦ hne data (List.mem_append_left _ hmem)
    rw [writtenData_append, digestedChunks_append, ← List.append_assoc]
    match e, he with
    | .write data, rfl =>
      rw [writtenData, digestedChunks, writtenData, digestedChunks, List.append_nil,
        List.append_nil]
      exact hs'.write (hne data (List.mem_append_right _ (List.mem_singleton.2 rfl)))
    | .digest chunk, he =>
      rw [writtenData, digestedChunks, writtenData, digestedChunks, List.append_nil,
        List.append_nil]
      exact hs'.digest hC he

/-- **Serializer and decoder are inverse.** Whatever is written to the serializer of a connection
behind its header, and whenever it is digested, its chunks and its buffer hold what has been
written; and what the decoder accepts is the chunk that a serializer makes of the payload. -/
theorem vmessSerial_inverse {C : Crypto} (hC : CfbInverseLaws C) (auth : VmessAuth) :
    (∀ (vser₀ : VmessSerial), vser₀.Established auth → vser₀.Live →
      ∀ es vser, Run (SerialStep C) vser₀ es vser → (∀ data, .write data ∈ es → data ≠ []) →
        Chunked C auth (vser₀.remain ++ writtenData es) (digestedChunks es) vser) ∧
    ∀ x n payload, vmessDecodeData C auth x = .ok n ⟨some payload⟩ →
      1 ≤ payload.length → payload.length ≤ 65530 →
      ∀ (vser : VmessSerial), vser.Established auth → vser.remain = payload →
        ∃ vser', vmessSerialDigest C vser = some (some (x.take n), vser') := by
  constructor
  · intro vser₀ h₀ hlive es vser hrun hne
    exact (serialInv_of_run hC.toCfbLaws h₀ hlive hrun hne).chunked hC.toCfbLaws
  · intro x n payload hdecode hpos hle vser h hremain
    match hbuf : vser.buf with
    | none =>
      have hnil := hremain.symm.trans (remain_of_buf_eq_none hbuf)
      rw [hnil] at hpos
      exact absurd hpos (by simp)
    | some buf =>
      have hdigest := vmessSerialDigest_aes hC.toCfbLaws h hbuf
      have htake : payload.take aes128CfbTrunk = payload := List.take_of_length_le hle
      rw [hremain, htake, ← eq_vmessTrunk_of_decode hC hdecode] at hdigest
      exact ⟨_, hdigest⟩

/-- A connection to try the serializer on. -/
def sampleSerialAuth : VmessAuth where
  key := vmessMagicNo
  iv := vmessMagicNo
  genTime := 1600000000
  nonce := 7

/-- Its serializer, behind the header, with one byte written. -/
def sampleSerial : VmessSerial := vmessSerialWrite (vmessSerialNew sampleSerialAuth) [7]

theorem established_sampleSerial : sampleSerial.Established sampleSerialAuth := ⟨rfl, rfl, rfl⟩

theorem vmessSerial_inverse_sampleSerial :
    Chunked openssl sampleSerialAuth [7] [vmessTrunk openssl sampleSerialAuth [7]]
      (vmessSerialAdvance sampleSerial 1) ∧
    ∃ vser', vmessSerialDigest openssl sampleSerial =
      some (some ((vmessTrunk openssl sampleSerialAuth [7]).take
        (vmessTrunk openssl sampleSerialAuth [7]).length), vser') := by
  have hdigest : vmessSerialDigest openssl sampleSerial =
      some (some (vmessTrunk openssl sampleSerialAuth [7]), vmessSerialAdvance sampleSerial 1) :=
    vmessSerialDigest_aes cfbLaws_openssl established_sampleSerial rfl
  have hrun : Run (SerialStep openssl) (vmessSerialNew sampleSerialAuth)
      [.write [7], .digest (some (vmessTrunk openssl sampleSerialAuth [7]))]
      (vmessSerialAdvance sampleSerial 1) := .snoc (.snoc .nil rfl) hdigest
  have hle : ([7] : Bytes).length ≤ vmessMaxPayload := by decide
  have hdecode := (framed_vmessTrunk cfbLaws_openssl sampleSerialAuth hle).ok []
  rw [List.append_nil] at hdecode
  have hinverse := vmessSerial_inverse cfbInverseLaws_openssl sampleSerialAuth
  refine ⟨hinverse.1 _ ⟨rfl, rfl, rfl⟩ (fun h ↦ absurd rfl h) _ _ hrun ?_,
    hinverse.2 _ _ _ hdecode (by decide) (by decide) _ established_sampleSerial rfl⟩
  intro data hmem
  rcases List.mem_cons.1 hmem with heq | hmem
  · obtain rfl := SerialEvent.write.inj heq
    exact List.cons_ne_nil _ _
  · exact absurd (List.mem_singleton.1 hmem) (by simp)

/-! ### The length in front of a chunk -/

/-- The first two bytes, in network order, are the number of the bytes behind them. -/
def Delimits (chunk : Bytes) : Prop :=
  ∃ (len : Block 2) (body : Bytes), chunk = len.1 ++ body ∧ (fromBe16 len).toNat = body.length

theorem delimits_append {len : Block 2} {body : Bytes} :
    Delimits (len.1 ++ body) ↔ (fromBe16 len).toNat = body.length := by
  refine ⟨?_, fun h ↦ ⟨len, body, rfl, h⟩⟩
  rintro ⟨len', body', heq, h⟩
  obtain ⟨hlen, rfl⟩ := List.append_inj heq (len.2.trans len'.2.symm)
  rwa [Subtype.ext hlen]

/-- The encrypting branch. -/
theorem delimits_vmessTrunk {C : Crypto} {auth : VmessAuth} {data : Bytes}
    (hlen : data.length ≤ aes128CfbTrunk)
    (henc : (C.aes128CfbEnc auth.key auth.iv (vmessTrunkPlain data)).length = data.length + 4) :
    Delimits (vmessTrunk C auth data) := by
  have hle : data.length ≤ 65535 - 1 - 4 := hlen
  rw [vmessTrunk, delimits_append, fromBe16_be16, henc, UInt16.toNat_ofNat']
  omega

/-- No number comes back when four is added to it, modulo 2 ^ 16, and its bytes are exchanged. -/
theorem exchanged_ne {hi lo n : ℕ} (hlo : lo < 256) (h : 256 * hi + lo = (n + 4) % 2 ^ 16) :
    lo * 256 + hi ≠ n := by
  intro heq
  rcases Nat.lt_or_ge n 65532 with hlt | hge
  · -- the sum is `n + 4`, and what the exchange changes is a multiple of 255
    have hdiff : 255 * lo + 4 = 255 * hi := by omega
    omega
  · have hsmall : 256 * hi + lo ≤ 2 := by omega
    omega

/-- The branch without encryption: the length is four too much and its bytes are exchanged, and
there is no length that makes up for both. -/
theorem not_delimits_noEncTrunkBytes (data : Bytes) : ¬Delimits (noEncTrunkBytes data) := by
  have h₀ (n : UInt16) : (byteAt (hostU16 n) 0).toNat = n.toNat % 2 ^ 8 := UInt8.toNat_ofNat' ..
  have h₁ (n : UInt16) : (byteAt (hostU16 n) 1).toNat = n.toNat / 2 ^ 8 % 2 ^ 8 := by
    rw [← Nat.shiftRight_eq_div_pow]
    exact UInt8.toNat_ofNat' ..
  rw [noEncTrunkBytes, delimits_append, fromBe16_toNat, h₀, h₁, UInt16.toNat_ofNat']
  refine exchanged_ne (Nat.mod_lt _ (by omega)) ?_
  omega

/-- **When a chunk is delimited**: exactly when it is encrypted. -/
theorem vmessSerialDigest_delimits_iff {C : Crypto} {vser vser' : VmessSerial} {chunk : Bytes}
    (hheader : vser.header = none) (h : vmessSerialDigest C vser = some (some chunk, vser')) :
    Delimits chunk ↔ vser.crypt = vmessCryptAes128Cfb := by
  match hbuf : vser.buf with
  | none =>
    simp only [vmessSerialDigest, hheader, hbuf] at h
    exact absurd (Prod.mk.inj (Option.some.inj h)).1 (by simp)
  | some buf =>
    simp only [vmessSerialDigest, hheader, hbuf] at h
    by_cases haes : vser.crypt = vmessCryptAes128Cfb
    · refine iff_of_true ?_ haes
      rw [if_pos haes] at h
      split at h
      case isTrue henc =>
        obtain rfl := Option.some.inj (Prod.mk.inj (Option.some.inj h)).1
        exact delimits_vmessTrunk (List.length_take_le _ _) henc
      case isFalse => exact absurd h (by simp)
    · refine iff_of_false ?_ haes
      rw [if_neg haes] at h
      split at h
      case isTrue =>
        obtain rfl := Option.some.inj (Prod.mk.inj (Option.some.inj h)).1
        exact not_delimits_noEncTrunkBytes _
      case isFalse => exact absurd h (by simp)

/-- The serializer without encryption. -/
def sampleNoEncSerial : VmessSerial := { sampleSerial with crypt := vmessCryptNone }

theorem vmessSerialDigest_delimits_iff_sampleSerial :
    Delimits (vmessTrunk openssl sampleSerialAuth [7]) ↔ sampleSerial.crypt = vmessCryptAes128Cfb :=
  vmessSerialDigest_delimits_iff rfl
    (vmessSerialDigest_aes cfbLaws_openssl established_sampleSerial rfl)

theorem not_delimits_sampleNoEncSerial :
    ∃ vser', vmessSerialDigest openssl sampleNoEncSerial = some (some [5, 0, 7], vser') ∧
      ¬Delimits [5, 0, 7] :=
  ⟨vmessSerialAdvance sampleNoEncSerial 1, rfl, not_delimits_noEncTrunkBytes [7]⟩

end Vmecs
