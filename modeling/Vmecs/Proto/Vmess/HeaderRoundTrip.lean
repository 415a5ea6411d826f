import Vmecs.Proto.Vmess.Decoding
import Vmecs.Proto.Vmess.Request

/-!
# The request header comes back

What `vmess_decode_request` makes of a header written by `vmess_serial_request`, whatever bytes
follow it. The proof goes along the layout: the decoder is a program of reads, the header a list of
fields, and `StreamDecoder.Parses` puts the two side by side, one field after the other.

* `parses_vmessDecodeFields` — all fields, for a padding of as many bytes as the four bits of the
  padding count can say;
* `vmessLookupAuth_of_fits` — the server finds the time the header was made;
* `headerRoundTrips_iff` — the header comes back exactly when the padding count drawn is at most 15,
  and the server's clock is not so near 0 or the largest time that its window wraps around.

`random_in` draws from a closed range, and `VMESS_P_MAX` is 16, so a padding count of 16 is drawn
about once in 17 times; its four low bits are 0 (`not_headerRoundTrips_of_eq`).
-/

namespace Vmecs

open StreamDecoder

/-- The header that `vmess_serial_request` leaves in a fresh serializer. -/
def requestHeader (C : Crypto) (rand : ℕ → Rand) (config : VmessConfig) (auth : VmessAuth)
    (req : VmessRequest) : Option Bytes :=
  (vmessSerialRequest C rand (vmessSerialNew auth) config req).bind (·.header)

/-- A time within `time_delta` of the clock. -/
def Clock.Near {config : VmessConfig} (clock : Clock config) (t : UInt64) : Prop :=
  clock.now.toNat ≤ t.toNat + config.timeDelta.toNat ∧
    t.toNat ≤ clock.now.toNat + config.timeDelta.toNat

/-- No earlier time of the window around the clock has the validation code of `genTime`; none has,
if distinct times of the window have distinct codes. -/
def Clock.FirstWithCode {config : VmessConfig} (clock : Clock config) (C : Crypto)
    (genTime : UInt64) : Prop :=
  ∀ t, clock.Near t → t < genTime →
    vmessGenValidationCode C config.userId t ≠ vmessGenValidationCode C config.userId genTime

/-- **The header comes back**: whatever is sent behind it, the decoder reads exactly the header, and
finds the request and all of the connection's secrets. -/
def HeaderRoundTrips (C : Crypto) (rand : ℕ → Rand) (config : VmessConfig) (clock : Clock config)
    (auth : VmessAuth) (req : VmessRequest) : Prop :=
  ∃ header, requestHeader C rand config auth req = some header ∧
    (vmessDecodeRequest C config clock).Parses header (req, auth)

/-! ### The padding count -/

theorem pSec_shiftRight (c : BitVec 4) : ∀ p : Fin 17,
    (UInt8.ofNat (p.1 <<< 4 ||| c.toNat) >>> 4).toNat = p.1 % 16 := by
  revert c
  decide +kernel

theorem pSec_and (c : BitVec 4) : ∀ p : Fin 17,
    BitVec.ofNat 4 (UInt8.ofNat (p.1 <<< 4 ||| c.toNat) &&& 0xf).toNat = c := by
  revert c
  decide +kernel

theorem ofNat_toNat_ofNat (v : BitVec 2) : BitVec.ofNat 2 (UInt8.ofNat v.toNat).toNat = v := by
  revert v
  decide

/-! ### Reading back what was written -/

/-- The address is read back, with a domain name that fits its length byte. -/
theorem parses_vmessDecodeTarget {target : TargetId} (h : target.Short) :
    (vmessDecodeTarget target.addr.addrType target.port).Parses target.addr.wire target := by
  obtain ⟨addr, port⟩ := target
  cases addr with
  | ipv4 addr => exact .take_pure addr fun ipv4 ↦ targetIdNewIpv4 ipv4 port
  | domain name =>
    have hlen : (UInt8.ofNat name.1.length).toNat = name.1.length := by
      have : name.1.length ≤ 255 := h
      rw [UInt8.toNat_ofNat']
      omega
    have hwire : (TargetAddr.domain name).wire = [UInt8.ofNat name.1.length] ++ name.1 := by
      rw [TargetAddr.wire, hlen, List.take_length]
      rfl
    have htarget : targetIdNewDomain name.1 port.toUInt64 = ⟨.domain name, port⟩ := by
      rw [targetIdNewDomain, cstr_val, UInt16.toUInt16_toUInt64]
    rw [hwire]
    refine .take_bind ⟨[UInt8.ofNat name.1.length], rfl⟩ ?_
    have := Parses.take_pure (⟨name.1, hlen.symm⟩ : Block _) fun domain ↦
      targetIdNewDomain domain.1 port.toUInt64
    rwa [htarget] at this
  | ipv6 addr => exact .take_pure addr fun ipv6 ↦ targetIdNewIpv6 ipv6 port

/-- The fields are read back, with as many padding bytes as four bits say. -/
theorem parses_vmessDecodeFields (a auth : VmessAuth) {req : VmessRequest}
    (h : req.target.Short) (p : Fin 17) {pad : Bytes} (hpad : pad.length = p.1 % 16) :
    (vmessDecodeFields a).Parses (vmessCmdHead p.1 auth req ++ pad)
      (req, vmessAuthSetNonce a auth.nonce) := by
  have hpad' : pad.length = (UInt8.ofNat (p.1 <<< 4 ||| req.crypt.toNat) >>> 4).toNat := by
    rw [hpad, pSec_shiftRight]
  have hreq : (⟨req.target, BitVec.ofNat 2 (UInt8.ofNat req.vers.toNat).toNat,
      BitVec.ofNat 4 (UInt8.ofNat (p.1 <<< 4 ||| req.crypt.toNat) &&& 0xf).toNat,
      BitVec.ofNat 2 (UInt8.ofNat req.cmd.toNat).toNat, req.opt⟩ : VmessRequest) = req := by
    rw [ofNat_toNat_ofNat, ofNat_toNat_ofNat, pSec_and]
  have htarget : (vmessDecodeTarget req.target.addr.addrType
      (fromBe16 (be16 req.target.port))).Parses req.target.addr.wire req.target := by
    rw [fromBe16_be16]
    exact parses_vmessDecodeTarget h
  simp only [vmessCmdHead, List.append_assoc, List.cons_append, List.nil_append]
  refine .take_bind ⟨[UInt8.ofNat req.vers.toNat], rfl⟩ ?_
  refine .take_bind auth.iv (.take_bind auth.key ?_)
  refine .take_bind ⟨[auth.nonce], rfl⟩ (.take_bind ⟨[req.opt], rfl⟩ ?_)
  refine .take_bind ⟨[UInt8.ofNat (p.1 <<< 4 ||| req.crypt.toNat)], rfl⟩ ?_
  refine .take_bind ⟨[0], rfl⟩ (.take_bind ⟨[UInt8.ofNat req.cmd.toNat], rfl⟩ ?_)
  refine .take_bind (be16 req.target.port) (.take_bind ⟨[req.target.addr.addrType], rfl⟩ ?_)
  refine htarget.bind ?_
  show (take (UInt8.ofNat (p.1 <<< 4 ||| req.crypt.toNat) >>> 4).toNat >>= fun _ ↦
    pure ((⟨req.target, BitVec.ofNat 2 (UInt8.ofNat req.vers.toNat).toNat,
      BitVec.ofNat 4 (UInt8.ofNat (p.1 <<< 4 ||| req.crypt.toNat) &&& 0xf).toNat,
      BitVec.ofNat 2 (UInt8.ofNat req.cmd.toNat).toNat, req.opt⟩ : VmessRequest),
      vmessAuthSetNonce a auth.nonce)).Parses pad _
  rw [hreq]
  exact .take_pure ⟨pad, hpad'⟩ fun _ ↦ (req, vmessAuthSetNonce a auth.nonce)

/-- The command is read back with its checksum. -/
theorem parses_vmessDecodeCmd {a : VmessAuth} {cmd : Bytes} {r : VmessRequest × VmessAuth}
    (h : (vmessDecodeFields a).Parses cmd r) : (vmessDecodeCmd a).Parses (withChecksum cmd) r := by
  refine h.recording.bind ?_
  intro y
  refine bind_eq_ok.2 ⟨_, be32 (cryptoFnv1a cmd), 0, Parses.take _ y, ?_, rfl⟩
  rw [if_pos rfl, pure_apply]

/-- Whatever the checksum is compared with, it is the four bytes behind the fields; and the result
are the fields. -/
theorem vmessDecodeCmd_ok {a : VmessAuth} {cmd y : Bytes} {r r' : VmessRequest × VmessAuth} {n : ℕ}
    (h : (vmessDecodeFields a).Parses cmd r) (hok : vmessDecodeCmd a (cmd ++ y) = .ok n r') :
    n = cmd.length + 4 ∧ r' = r := by
  obtain ⟨k, fields, l, hk, hl, rfl⟩ := bind_eq_ok.1 hok
  obtain ⟨rfl, rfl⟩ := Decode.ok.inj ((h.recording y).symm.trans hk)
  obtain ⟨k', checksum, l', hk', hl', rfl⟩ := bind_eq_ok.1 hl
  obtain ⟨-, rfl, -⟩ := take_eq_ok.1 hk'
  split at hl'
  · obtain ⟨rfl, rfl⟩ := Decode.ok.inj hl'
    exact ⟨rfl, rfl⟩
  · exact absurd hl' (by simp)

/-! ### Finding the time -/

/-- The window around the clock does not wrap around. -/
def Clock.Fits {config : VmessConfig} (clock : Clock config) : Prop :=
  config.timeDelta.toNat ≤ clock.now.toNat ∧
    clock.now.toNat + config.timeDelta.toNat < 2 ^ 64

instance Clock.decidableFits {config : VmessConfig} (clock : Clock config) : Decidable clock.Fits :=
  inferInstanceAs (Decidable (_ ∧ _))

variable {C : Crypto} {config : VmessConfig} {clock : Clock config}

/-- What the lookup finds in a window that does not wrap around. -/
theorem vmessLookupAuth_cases (hfits : clock.Fits) (validCode : Data128) :
    (vmessLookupAuth C config clock validCode = none ∧
      ∀ t, clock.Near t → vmessGenValidationCode C config.userId t ≠ validCode) ∨
    ∃ t, vmessLookupAuth C config clock validCode = some (vmessAuthInit C config t) ∧
      clock.Near t ∧ vmessGenValidationCode C config.userId t = validCode ∧
      clock.FirstWithCode C t := by
  obtain ⟨hlo, hhi⟩ := hfits
  set start := clock.now - config.timeDelta with hstart
  set stop := clock.now + config.timeDelta with hstop
  have hstart' : start.toNat = clock.now.toNat - config.timeDelta.toNat :=
    UInt64.toNat_sub_of_le _ _ (UInt64.le_iff_toNat_le.2 hlo)
  have hstop' : stop.toNat = clock.now.toNat + config.timeDelta.toNat := by
    rw [hstop, UInt64.toNat_add, Nat.mod_eq_of_lt hhi]
  have hle : start ≤ stop := by
    rw [UInt64.le_iff_toNat_le]
    omega
  have hnear {t : UInt64} : clock.Near t ↔ start ≤ t ∧ t ≤ stop := by
    rw [Clock.Near, UInt64.le_iff_toNat_le, UInt64.le_iff_toNat_le]
    omega
  have hfuel : stop.toNat < start.toNat + ((stop - start).toNat + 1) := by
    rw [UInt64.toNat_sub_of_le _ _ hle]
    omega
  rcases lookupFrom_cases (C := C) clock.ends hfuel with
    ⟨hnone, hall⟩ | ⟨t, hfound, ht, ht', hcode, hall⟩
  · refine .inl ⟨?_, fun t ht ↦ hall t (hnear.1 ht).1 (hnear.1 ht).2⟩
    rw [vmessLookupAuth, vmessLookupTimestamp, hnone, if_pos rfl]
  · have hne : t ≠ timeNotFound := fun h ↦ clock.ends <| UInt64.le_antisymm
      (UInt64.le_iff_toNat_le.2 (Nat.le_of_lt_succ stop.toNat_lt)) (show timeNotFound ≤ stop by
        rwa [h] at ht')
    refine .inr ⟨t, ?_, hnear.2 ⟨ht, ht'⟩, hcode, fun t' hnear' hlt ↦ ?_⟩
    · rw [vmessLookupAuth, vmessLookupTimestamp, hfound, if_neg hne]
    · rw [hcode]
      exact hall t' (hnear.1 hnear').1 hlt

/-- Under its assumptions the lookup finds the time of the request. -/
theorem vmessLookupAuth_of_fits {genTime : UInt64} (hfits : clock.Fits) (hnear : clock.Near genTime)
    (hfirst : clock.FirstWithCode C genTime) :
    vmessLookupAuth C config clock (vmessGenValidationCode C config.userId genTime) =
      some (vmessAuthInit C config genTime) := by
  rcases vmessLookupAuth_cases hfits (vmessGenValidationCode C config.userId genTime) with
    ⟨-, hall⟩ | ⟨t, hfound, ht, hcode, hfirst'⟩
  · exact absurd rfl (hall genTime hnear)
  · -- both are the first time with this code
    have hle : t ≤ genTime := UInt64.not_lt.1 fun hlt ↦ hfirst' genTime hnear hlt hcode.symm
    have hge : genTime ≤ t := UInt64.not_lt.1 fun hlt ↦ hfirst t ht hlt hcode
    rw [hfound, UInt64.le_antisymm hle hge]

/-- With a window that wraps around nothing is found. -/
theorem vmessLookupAuth_of_not_fits (hdelta : config.timeDelta.toNat < 2 ^ 63)
    (hfits : ¬clock.Fits) (validCode : Data128) :
    vmessLookupAuth C config clock validCode = none := by
  have hgt : clock.now + config.timeDelta < clock.now - config.timeDelta := by
    have h₁ := clock.now.toNat_lt
    rw [UInt64.lt_iff_toNat_lt, UInt64.toNat_add, UInt64.toNat_sub]
    rw [Clock.Fits] at hfits
    omega
  rw [vmessLookupAuth, vmessLookupTimestamp, lookupFrom_of_gt C config validCode hgt, if_pos rfl]

/-- What is decoded behind a validation code is the decryption of the rest. -/
theorem vmessDecodeRequest_append_eq_ok {validCode : Data128} {auth : VmessAuth}
    (hlookup : vmessLookupAuth C config clock validCode = some auth) {x : Bytes} {k : ℕ}
    {r : VmessRequest × VmessAuth}
    (h : vmessDecodeRequest C config clock (validCode.1 ++ x) = .ok k r) :
    ∃ n, vmessDecodeCmd auth (C.aes128CfbDec auth.key auth.iv x) = .ok n r ∧ 16 + n = k := by
  obtain ⟨m, code, n, hm, hn, rfl⟩ := bind_eq_ok.1 h
  obtain ⟨hm', hcode⟩ := Decode.ok.inj ((Parses.take validCode x).symm.trans hm)
  rw [validCode.2] at hm'
  subst hm' hcode
  rw [hlookup, List.drop_left' validCode.2] at hn
  exact ⟨n, hn, rfl⟩

/-- A command encrypted behind its validation code is read back. -/
theorem parses_vmessDecodeRequest (hC : CfbLaws C) {validCode : Data128} {auth : VmessAuth}
    (hlookup : vmessLookupAuth C config clock validCode = some auth) {cmd : Bytes}
    {r : VmessRequest × VmessAuth} (h : (vmessDecodeCmd auth).Parses cmd r) :
    (vmessDecodeRequest C config clock).Parses
      (validCode.1 ++ C.aes128CfbEnc auth.key auth.iv cmd) r := by
  refine .take_bind validCode ?_
  rw [hlookup]
  intro y
  obtain ⟨t, ht⟩ := hC.dec_enc_append auth.key auth.iv cmd y
  show vmessDecodeCmd auth (C.aes128CfbDec auth.key auth.iv _) = _
  rw [ht, h t, hC.length_enc]

/-! ### What is accepted -/

theorem requestHeader_eq (hC : CfbLaws C) (rand : ℕ → Rand) (auth : VmessAuth) {req : VmessRequest}
    (hopt : req.opt = 1) :
    requestHeader C rand config auth req = some
      ((vmessGenValidationCode C config.userId auth.genTime).1 ++ C.aes128CfbEnc auth.key auth.iv
        (withChecksum (vmessCmdPlain rand (randomIn 0 config.pMax (rand 0)) auth req))) := by
  rw [requestHeader, vmessSerialRequest_header hC rand _ config hopt]
  rfl

/-- The command of a header is read as its request, or not at all: with a padding count of 16 the
padding is taken for the checksum and what follows, but the fields in front of it are read. -/
theorem vmessDecodeCmd_cmdPlain_eq_ok {a auth : VmessAuth} {req : VmessRequest}
    (hshort : req.target.Short) (rand : ℕ → Rand) (p : Fin 17) {y : Bytes} {n : ℕ}
    {r : VmessRequest × VmessAuth}
    (h : vmessDecodeCmd a (withChecksum (vmessCmdPlain rand p.1 auth req) ++ y) = .ok n r) :
    r = (req, vmessAuthSetNonce a auth.nonce) := by
  have hpad : ((paddingBytes rand p.1).take (p.1 % 16)).length = p.1 % 16 := by
    rw [List.length_take, length_paddingBytes]
    omega
  have hfields := parses_vmessDecodeFields a auth hshort p hpad
  rw [withChecksum, vmessCmdPlain, ← List.take_append_drop (p.1 % 16) (paddingBytes rand p.1),
    ← List.append_assoc, List.append_assoc, List.append_assoc] at h
  exact (vmessDecodeCmd_ok hfields h).2

/-- **A header that is accepted is accepted for its request**, whatever the padding. -/
theorem vmessDecodeRequest_header_eq_ok {C : Crypto} (hC : CfbLaws C) {userId : Data128}
    {rand : ℕ → Rand} {clock : Clock (vmessConfigNew userId)} {genTime : UInt64} {nonce : UInt8}
    {req : VmessRequest} (hshort : req.target.Short) (hnear : clock.Near genTime)
    (hfirst : clock.FirstWithCode C genTime) {header : Bytes}
    (hheader : requestHeader C rand (vmessConfigNew userId)
      (vmessAuthSetNonce (vmessAuthInit C (vmessConfigNew userId) genTime) nonce) req = some header)
    {y : Bytes} {k : ℕ} {r : VmessRequest × VmessAuth}
    (h : vmessDecodeRequest C (vmessConfigNew userId) clock (header ++ y) = .ok k r) :
    r = (req, vmessAuthSetNonce (vmessAuthInit C (vmessConfigNew userId) genTime) nonce) := by
  have hopt : req.opt = 1 := by
    by_contra hopt
    rw [requestHeader, vmessSerialRequest, if_neg hopt] at hheader
    exact absurd hheader (by simp)
  rw [requestHeader_eq hC rand _ hopt, Option.some_inj] at hheader
  subst hheader
  rw [List.append_assoc] at h
  -- the server's window does not wrap around, or nothing would be found
  have hfits : clock.Fits := by
    by_contra hfits
    obtain ⟨k, code, n, -, hn, -⟩ := bind_eq_ok.1 h
    rw [vmessLookupAuth_of_not_fits (show vmessTimeDelta.toNat < 2 ^ 63 by decide) hfits] at hn
    exact absurd hn (by simp)
  obtain ⟨n, hn, -⟩ := vmessDecodeRequest_append_eq_ok
    (vmessLookupAuth_of_fits hfits hnear hfirst) h
  set init := vmessAuthInit C (vmessConfigNew userId) genTime
  obtain ⟨t, ht⟩ := hC.dec_enc_append init.key init.iv (withChecksum (vmessCmdPlain rand
    (randomIn 0 vmessPMax (rand 0)) (vmessAuthSetNonce init nonce) req)) y
  have hle : randomIn 0 vmessPMax (rand 0) ≤ vmessPMax := randomIn_le (Nat.zero_le _) (rand 0)
  have hlt : randomIn 0 vmessPMax (rand 0) < 17 := by
    rw [vmessPMax] at hle ⊢
    omega
  rw [show (vmessAuthSetNonce init nonce).key = init.key from rfl,
    show (vmessAuthSetNonce init nonce).iv = init.iv from rfl] at hn
  exact vmessDecodeCmd_cmdPlain_eq_ok hshort rand ⟨_, hlt⟩ (ht ▸ hn)

/-! ### The round trip -/

/-- A padding count that fits in four bits makes a header that comes back. -/
theorem headerRoundTrips_of_le (hC : CfbLaws C) (rand : ℕ → Rand) {genTime : UInt64} (nonce : UInt8)
    {req : VmessRequest} (hopt : req.opt = 1) (hshort : req.target.Short) (hfits : clock.Fits)
    (hnear : clock.Near genTime) (hfirst : clock.FirstWithCode C genTime)
    (hp : randomIn 0 config.pMax (rand 0) ≤ 15) :
    HeaderRoundTrips C rand config clock
      (vmessAuthSetNonce (vmessAuthInit C config genTime) nonce) req := by
  refine ⟨_, requestHeader_eq hC rand _ hopt, ?_⟩
  refine parses_vmessDecodeRequest hC (vmessLookupAuth_of_fits hfits hnear hfirst) ?_
  refine parses_vmessDecodeCmd (parses_vmessDecodeFields (vmessAuthInit C config genTime) _ hshort
    ⟨randomIn 0 config.pMax (rand 0), by omega⟩ ?_)
  rw [length_paddingBytes]
  exact (Nat.mod_eq_of_lt (by omega)).symm

/-- With a padding count of 16 the decoder does not read to the end of the header: the count in the
header is 0, and what it takes for the checksum are the first padding bytes. -/
theorem not_headerRoundTrips_of_eq (hC : CfbLaws C) (rand : ℕ → Rand) {genTime : UInt64}
    (nonce : UInt8) {req : VmessRequest} (hopt : req.opt = 1) (hshort : req.target.Short)
    (hfits : clock.Fits) (hnear : clock.Near genTime) (hfirst : clock.FirstWithCode C genTime)
    (hp : randomIn 0 config.pMax (rand 0) = 16) :
    ¬HeaderRoundTrips C rand config clock
      (vmessAuthSetNonce (vmessAuthInit C config genTime) nonce) req := by
  rintro ⟨header, hheader, hparse⟩
  rw [requestHeader_eq hC rand _ hopt, hp, Option.some_inj] at hheader
  subst hheader
  set init := vmessAuthInit C config genTime
  set cmd := vmessCmdPlain rand 16 (vmessAuthSetNonce init nonce) req with hcmd
  have hok := hparse []
  rw [List.append_nil] at hok
  change vmessDecodeRequest C config clock
    ((vmessGenValidationCode C config.userId genTime).1 ++
      C.aes128CfbEnc init.key init.iv (withChecksum cmd)) =
    .ok ((vmessGenValidationCode C config.userId genTime).1 ++
      C.aes128CfbEnc init.key init.iv (withChecksum cmd)).length _ at hok
  obtain ⟨n, hn, hlen⟩ := vmessDecodeRequest_append_eq_ok
    (vmessLookupAuth_of_fits hfits hnear hfirst) hok
  -- the fields that the decoder finds are all but the padding
  have hfields := parses_vmessDecodeFields init (vmessAuthSetNonce init nonce) hshort (Fin.last 16)
    (show ([] : Bytes).length = (Fin.last 16).1 % 16 from rfl)
  rw [List.append_nil] at hfields
  rw [hC.dec_enc, withChecksum, hcmd, vmessCmdPlain, List.append_assoc] at hn
  have hfour := (vmessDecodeCmd_ok hfields hn).1
  rw [List.length_append, (vmessGenValidationCode C config.userId genTime).2, hC.length_enc,
    withChecksum, hcmd, vmessCmdPlain, List.length_append, List.length_append,
    length_paddingBytes, (be32 _).2] at hlen
  rw [Fin.val_last] at hfour
  omega

/-- With a window that wraps around the decoder does not find the time. -/
theorem not_headerRoundTrips_of_not_fits (hC : CfbLaws C) (rand : ℕ → Rand) (auth : VmessAuth)
    {req : VmessRequest} (hopt : req.opt = 1) (hdelta : config.timeDelta.toNat < 2 ^ 63)
    (hfits : ¬clock.Fits) : ¬HeaderRoundTrips C rand config clock auth req := by
  rintro ⟨header, hheader, hparse⟩
  rw [requestHeader_eq hC rand _ hopt, Option.some_inj] at hheader
  subst hheader
  obtain ⟨k, code, n, -, hn, -⟩ := bind_eq_ok.1 (hparse [])
  rw [vmessLookupAuth_of_not_fits hdelta hfits] at hn
  exact absurd hn (by simp)

/-- **Exactly when a request header comes back**: the padding count drawn fits in four bits, and the
server's window does not wrap around. -/
theorem headerRoundTrips_iff {C : Crypto} (hC : CfbLaws C) (userId : Data128) (rand : ℕ → Rand)
    (clock : Clock (vmessConfigNew userId)) {genTime : UInt64} (nonce : UInt8) {req : VmessRequest}
    (hopt : req.opt = 1) (hshort : req.target.Short) (hnear : clock.Near genTime)
    (hfirst : clock.FirstWithCode C genTime) :
    HeaderRoundTrips C rand (vmessConfigNew userId) clock
        (vmessAuthSetNonce (vmessAuthInit C (vmessConfigNew userId) genTime) nonce) req ↔
      randomIn 0 vmessPMax (rand 0) ≤ 15 ∧ clock.Fits := by
  constructor
  · intro h
    have hfits : clock.Fits := by_contra fun hfits ↦
      not_headerRoundTrips_of_not_fits hC rand _ hopt
        (show vmessTimeDelta.toNat < 2 ^ 63 by decide) hfits h
    refine ⟨by_contra fun hp ↦ ?_, hfits⟩
    have hle : randomIn 0 vmessPMax (rand 0) ≤ vmessPMax := randomIn_le (Nat.zero_le _) (rand 0)
    have heq : randomIn 0 vmessPMax (rand 0) = 16 := by
      rw [vmessPMax] at hp hle ⊢
      omega
    exact not_headerRoundTrips_of_eq hC rand nonce hopt hshort hfits hnear hfirst heq h
  · rintro ⟨hp, hfits⟩
    exact headerRoundTrips_of_le hC rand nonce hopt hshort hfits hnear hfirst hp

/-! ### At one input -/

/-- A user id, a clock, and a target, for the examples of this development. -/
def sampleUserId : Data128 := ⟨List.replicate 16 7, rfl⟩

/-- What a handshake has left. -/
def sampleAuth : VmessAuth :=
  ⟨⟨List.replicate 16 1, rfl⟩, ⟨List.replicate 16 2, rfl⟩, 1600000000, 3⟩

def sampleClock : Clock (vmessConfigNew sampleUserId) where
  now := 1600000030
  ends := by decide

def sampleRequest : VmessRequest :=
  ⟨⟨.ipv4 ⟨[127, 0, 0, 1], rfl⟩, 80⟩, 1, 0, vmessReqCmdTcp, 1⟩

theorem near_sampleClock : sampleClock.Near 1600000000 := ⟨by decide, by decide⟩

/-- At the lower end of the window there is no earlier time. -/
theorem firstWithCode_sampleClock (C : Crypto) : sampleClock.FirstWithCode C 1600000000 := by
  intro t ht hlt
  have h₁ : 1600000030 ≤ t.toNat + 30 := ht.1
  have h₂ : t.toNat < 1600000000 := UInt64.lt_iff_toNat_lt.1 hlt
  omega

theorem headerRoundTrips_sampleRequest :
    HeaderRoundTrips openssl (fun _ ↦ 0) (vmessConfigNew sampleUserId) sampleClock
      (vmessAuthSetNonce (vmessAuthInit openssl (vmessConfigNew sampleUserId) 1600000000) 5)
      sampleRequest :=
  (headerRoundTrips_iff cfbLaws_openssl sampleUserId (fun _ ↦ 0) sampleClock 5 rfl
    (show sampleRequest.target.Short from trivial) near_sampleClock
    (firstWithCode_sampleClock openssl)).2 (by decide)

/-- With `rand()` at its largest the padding count is 16, and the header does not come back. -/
theorem not_headerRoundTrips_sampleRequest :
    sampleRequest.opt = 1 ∧ sampleRequest.target.Short ∧ sampleClock.Near 1600000000 ∧
      sampleClock.FirstWithCode openssl 1600000000 ∧ sampleClock.Fits ∧
      ¬HeaderRoundTrips openssl (fun _ ↦ Fin.last randMax) (vmessConfigNew sampleUserId) sampleClock
        (vmessAuthSetNonce (vmessAuthInit openssl (vmessConfigNew sampleUserId) 1600000000) 5)
        sampleRequest :=
  ⟨rfl, trivial, near_sampleClock, firstWithCode_sampleClock openssl, by decide,
    not_headerRoundTrips_of_eq cfbLaws_openssl _ 5 rfl trivial (by decide) near_sampleClock
      (firstWithCode_sampleClock openssl) (by decide)⟩

end Vmecs
