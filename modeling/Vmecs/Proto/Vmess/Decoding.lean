import Mathlib.Tactic.Ring
import Vmecs.Lib.Incremental
import Vmecs.Proto.Vmess.Vmess

/-!
# VMess headers and chunks, reading (`proto/vmess/decoding.c`)

The three decoders, as reading programs: each `serial_read` that returns from the decoder with 0
when the field is not all there is a `take`, a `DECODE_FAIL(-1)` is a `reject`, and the request
decoder goes on `through` the decryption of what follows the validation code.

The server finds the time at which a request was made by trying every time of a window around its
clock (`vmessLookupTimestamp`). The loop over the window ends unless the window reaches up to the
largest 64-bit time; a `Clock` is one for which it does not, and `lookupFrom_of_le` says that the
loop has then looked at every time it ever looks at.

The out-parameter `auth` of the request decoder is a result here. `vmess_auth_init` sets all of it
once the time is found, and the nonce is set at the end, so a call that succeeds leaves nothing of
what an earlier one wrote there.
-/

namespace Vmecs

open StreamDecoder

/-! ### The clock -/

/-- `time(NULL)` on a server whose lookup loop ends. -/
structure Clock (config : VmessConfig) where
  now : UInt64
  ends : now + config.timeDelta ≠ 0xffffffffffffffff

/-- `(uint64_t)-1`, for a time that was not found. -/
def timeNotFound : UInt64 := 0xffffffffffffffff

/-- The loop of `_vmess_lookup_timestamp` from time `t` on, at most `fuel` times round. -/
def lookupFrom (C : Crypto) (config : VmessConfig) (validCode : Data128) (stop : UInt64) :
    ℕ → UInt64 → UInt64
  | 0, _ => timeNotFound
  | fuel + 1, t =>
    if t ≤ stop then
      if vmessGenValidationCode C config.userId t = validCode then t
      else lookupFrom C config validCode stop fuel (t + 1)
    else timeNotFound

/-- `_vmess_lookup_timestamp`. -/
def vmessLookupTimestamp (C : Crypto) (config : VmessConfig) (clock : Clock config)
    (validCode : Data128) : UInt64 :=
  let start := clock.now - config.timeDelta
  let stop := clock.now + config.timeDelta
  lookupFrom C config validCode stop ((stop - start).toNat + 1) start

/-- `vmess_lookup_auth`. -/
def vmessLookupAuth (C : Crypto) (config : VmessConfig) (clock : Clock config)
    (validCode : Data128) : Option VmessAuth :=
  let genTime := vmessLookupTimestamp C config clock validCode
  if genTime = timeNotFound then none else some (vmessAuthInit C config genTime)

theorem toNat_succ_of_le {t stop : UInt64} (hstop : stop ≠ timeNotFound) (h : t ≤ stop) :
    (t + 1).toNat = t.toNat + 1 := by
  have hle : t.toNat ≤ stop.toNat := UInt64.le_iff_toNat_le.1 h
  have hlt : stop.toNat < 2 ^ 64 := stop.toNat_lt
  have hne : stop.toNat ≠ 2 ^ 64 - 1 := fun hs ↦ hstop (UInt64.toNat_inj.1 hs)
  rw [UInt64.toNat_add, show (1 : UInt64).toNat = 1 from rfl]
  omega

/-- The loop is not cut short: more rounds change nothing. -/
theorem lookupFrom_of_le (C : Crypto) (config : VmessConfig) (validCode : Data128) {stop : UInt64}
    (hstop : stop ≠ timeNotFound) {fuel : ℕ} (more : ℕ) {t : UInt64}
    (h : stop.toNat < t.toNat + fuel) :
    lookupFrom C config validCode stop (fuel + more) t =
      lookupFrom C config validCode stop fuel t := by
  induction fuel generalizing t with
  | zero =>
    have hgt : ¬t ≤ stop := fun hle ↦ by
      have := UInt64.le_iff_toNat_le.1 hle
      omega
    cases more with
    | zero => rfl
    | succ k => rw [Nat.zero_add, lookupFrom, lookupFrom, if_neg hgt]
  | succ fuel ih =>
    rw [Nat.add_right_comm, lookupFrom, lookupFrom]
    by_cases hle : t ≤ stop
    · have := toNat_succ_of_le hstop hle
      rw [ih (by omega)]
    · rw [if_neg hle, if_neg hle]

/-- **What the loop finds**: the first time from `t` on with this code, or that there is none. -/
theorem lookupFrom_cases {C : Crypto} {config : VmessConfig} {validCode : Data128} {stop : UInt64}
    (hstop : stop ≠ timeNotFound) {fuel : ℕ} {t : UInt64} (hfuel : stop.toNat < t.toNat + fuel) :
    (lookupFrom C config validCode stop fuel t = timeNotFound ∧
      ∀ t', t ≤ t' → t' ≤ stop → vmessGenValidationCode C config.userId t' ≠ validCode) ∨
    ∃ t₁, lookupFrom C config validCode stop fuel t = t₁ ∧ t ≤ t₁ ∧ t₁ ≤ stop ∧
      vmessGenValidationCode C config.userId t₁ = validCode ∧
      ∀ t', t ≤ t' → t' < t₁ → vmessGenValidationCode C config.userId t' ≠ validCode := by
  induction fuel generalizing t with
  | zero =>
    refine .inl ⟨rfl, fun t' ht hle ↦ ?_⟩
    have h₁ := UInt64.le_iff_toNat_le.1 ht
    have h₂ := UInt64.le_iff_toNat_le.1 hle
    omega
  | succ fuel ih =>
    rw [lookupFrom]
    by_cases hle : t ≤ stop
    · rw [if_pos hle]
      by_cases hcode : vmessGenValidationCode C config.userId t = validCode
      · rw [if_pos hcode]
        exact .inr ⟨t, rfl, UInt64.le_rfl, hle, hcode, fun t' h₁ h₂ ↦
          absurd h₁ (UInt64.not_le.2 h₂)⟩
      · rw [if_neg hcode]
        have hsucc := toNat_succ_of_le hstop hle
        -- from `t` on is `t`, which has another code, or from `t + 1` on
        have hnext {t' : UInt64} (ht : t ≤ t') (hne : t ≠ t') : t + 1 ≤ t' := by
          have hlt := UInt64.lt_iff_toNat_lt.1 (UInt64.lt_of_le_of_ne ht hne)
          rw [UInt64.le_iff_toNat_le]
          omega
        have hskip {t' : UInt64} (ht : t ≤ t')
            (h : t + 1 ≤ t' → vmessGenValidationCode C config.userId t' ≠ validCode) :
            vmessGenValidationCode C config.userId t' ≠ validCode := by
          by_cases heq : t = t'
          · rwa [← heq]
          · exact h (hnext ht heq)
        rcases ih (t := t + 1) (by omega) with ⟨hnone, hall⟩ | ⟨t₁, hfound, hlo, hhi, hcode₁, hall⟩
        · exact .inl ⟨hnone, fun t' ht hle' ↦ hskip ht fun ht' ↦ hall t' ht' hle'⟩
        · refine .inr ⟨t₁, hfound, ?_, hhi, hcode₁, fun t' ht hlt ↦ hskip ht fun ht' ↦
            hall t' ht' hlt⟩
          have hlo' := UInt64.le_iff_toNat_le.1 hlo
          rw [UInt64.le_iff_toNat_le]
          omega
    · rw [if_neg hle]
      refine .inl ⟨rfl, fun t' ht hle' ↦ absurd (UInt64.le_trans ht hle') hle⟩

/-- With the window wrapped around, no time is looked at. -/
theorem lookupFrom_of_gt (C : Crypto) (config : VmessConfig) (validCode : Data128)
    {stop t : UInt64} (h : stop < t) (fuel : ℕ) :
    lookupFrom C config validCode stop fuel t = timeNotFound := by
  cases fuel with
  | zero => rfl
  | succ fuel => rw [lookupFrom, if_neg (UInt64.not_le.2 h)]

/-! ### Chunks -/

/-- `data_trunk_t`: the end message has no data. -/
structure DataTrunk where
  data : Option Bytes
  deriving DecidableEq

/-- The data of a chunk, `size` bytes. -/
def DataTrunk.bytes (trunk : DataTrunk) : Bytes := trunk.data.getD []

/-- `vmess_decode_data`. -/
def vmessDecodeData (C : Crypto) (auth : VmessAuth) : StreamDecoder UInt8 DataTrunk := do
  let len ← take 2
  let dataLen := fromBe16 len
  if dataLen = 0 then pure ⟨none⟩
  else if dataLen < 4 then reject
  else do
    let dataBuf ← take dataLen.toNat
    let dataDec := C.aes128CfbDec auth.key auth.iv dataBuf.1
    if (be32 (cryptoFnv1a (dataDec.drop 4))).1 = dataDec.take 4 then pure ⟨some (dataDec.drop 4)⟩
    else reject

/-! ### Requests -/

/-- The address part of the header; the source switches over the address type here. -/
def vmessDecodeTarget (addrType : UInt8) (port : UInt16) : StreamDecoder UInt8 TargetId :=
  if addrType = addrTypeIpv4 then do
    let ipv4 ← take 4
    pure (targetIdNewIpv4 ipv4 port)
  else if addrType = addrTypeDomain then do
    let len ← take 1
    let domain ← take (byteAt len 0).toNat
    pure (targetIdNewDomain domain.1 port.toUInt64)
  else if addrType = addrTypeIpv6 then do
    let ipv6 ← take 16
    pure (targetIdNewIpv6 ipv6 port)
  else reject

/-- The fields of the command before its checksum. -/
def vmessDecodeFields (auth : VmessAuth) : StreamDecoder UInt8 (VmessRequest × VmessAuth) := do
  let vers ← take 1
  let _ivCheck ← take 16
  let _keyCheck ← take 16
  let nonce ← take 1
  let opt ← take 1
  let pSec ← take 1
  let _resv ← take 1
  let cmd ← take 1
  let port ← take 2
  let addrType ← take 1
  let target ← vmessDecodeTarget (byteAt addrType 0) (fromBe16 port)
  let _padding ← take (byteAt pSec 0 >>> 4).toNat
  pure (⟨target, BitVec.ofNat 2 (byteAt vers 0).toNat, BitVec.ofNat 4 (byteAt pSec 0 &&& 0xf).toNat,
    BitVec.ofNat 2 (byteAt cmd 0).toNat, byteAt opt 0⟩, vmessAuthSetNonce auth (byteAt nonce 0))

/-- The command: its fields, and a checksum over all of them. -/
def vmessDecodeCmd (auth : VmessAuth) : StreamDecoder UInt8 (VmessRequest × VmessAuth) := do
  let fields ← recording (vmessDecodeFields auth)
  let checksum ← take 4
  if checksum = be32 (cryptoFnv1a fields.2) then pure fields.1 else reject

/-- `vmess_decode_request`. -/
def vmessDecodeRequest (C : Crypto) (config : VmessConfig) (clock : Clock config) :
    StreamDecoder UInt8 (VmessRequest × VmessAuth) := do
  let validCode ← take 16
  match vmessLookupAuth C config clock validCode with
  | none => reject
  | some auth => through (C.aes128CfbDec auth.key auth.iv) (vmessDecodeCmd auth)

/-! ### Responses -/

/-- `vmess_decode_response`. -/
def vmessDecodeResponse (C : Crypto) (auth : VmessAuth) : StreamDecoder UInt8 VmessResponse := do
  let header ← take 4
  match C.aes128CfbDec auth.key auth.iv header.1 with
  | [nonce, opt, cmd, cmdLength] =>
    if nonce ≠ auth.nonce then reject
    else if cmd ≠ 0 ∨ cmdLength ≠ 0 then reject
    else pure ⟨opt⟩
  | _ => reject

/-! ### The streaming contract -/

theorem incremental_vmessDecodeTarget (addrType : UInt8) (port : UInt16) :
    (vmessDecodeTarget addrType port).Incremental := by
  refine .ite ?ipv4 (.ite ?domain (.ite ?ipv6 .reject))
  case ipv4 => exact (Incremental.take 4).bind fun _ ↦ .pure _
  case domain =>
    exact (Incremental.take 1).bind fun _ ↦ (Incremental.take _).bind fun _ ↦ .pure _
  case ipv6 => exact (Incremental.take 16).bind fun _ ↦ .pure _

theorem incremental_vmessDecodeFields (auth : VmessAuth) :
    (vmessDecodeFields auth).Incremental := by
  refine (Incremental.take 1).bind fun vers ↦ ?_
  refine (Incremental.take 16).bind fun _ ↦ (Incremental.take 16).bind fun _ ↦ ?_
  refine (Incremental.take 1).bind fun nonce ↦ (Incremental.take 1).bind fun opt ↦ ?_
  refine (Incremental.take 1).bind fun pSec ↦ (Incremental.take 1).bind fun _ ↦ ?_
  refine (Incremental.take 1).bind fun cmd ↦ (Incremental.take 2).bind fun port ↦ ?_
  refine (Incremental.take 1).bind fun addrType ↦ ?_
  refine (incremental_vmessDecodeTarget _ _).bind fun target ↦ ?_
  exact (Incremental.take _).bind fun _ ↦ .pure _

theorem incremental_vmessDecodeCmd (auth : VmessAuth) : (vmessDecodeCmd auth).Incremental := by
  refine (incremental_vmessDecodeFields auth).recording.bind fun fields ↦ ?_
  exact (Incremental.take 4).bind fun checksum ↦ .ite (.pure _) .reject

theorem prompt_vmessDecodeData (C : Crypto) (auth : VmessAuth) :
    (vmessDecodeData C auth).Prompt := by
  refine Incremental.prompt_bind_take (by omega) fun len ↦ ?_
  refine .ite (.pure _) (.ite .reject ?_)
  exact (Incremental.take _).bind fun dataBuf ↦ .ite (.pure _) .reject

/-- The request decoder is streaming, since decryption maps prefixes to prefixes. -/
theorem prompt_vmessDecodeRequest {C : Crypto} (hC : CfbDecLaws C) (config : VmessConfig)
    (clock : Clock config) : (vmessDecodeRequest C config clock).Prompt := by
  refine Incremental.prompt_bind_take (by omega) fun validCode ↦ ?_
  cases vmessLookupAuth C config clock validCode with
  | none => exact .reject
  | some auth =>
    exact (incremental_vmessDecodeCmd auth).through (hC.length_dec auth.key auth.iv)
      (hC.isPrefix_dec auth.key auth.iv)

theorem prompt_vmessDecodeResponse (C : Crypto) (auth : VmessAuth) :
    (vmessDecodeResponse C auth).Prompt := by
  refine Incremental.prompt_bind_take (by omega) fun header ↦ ?_
  split
  · exact .ite .reject (.ite .reject (.pure _))
  · exact .reject

end Vmecs
