import Vmecs.Proto.Vmess.HeaderRoundTrip

/-!
# What the request decoder accepts

`vmess_decode_request` writes into the `auth` and the request it is given, so what it has left there
matters also when it fails (`vmessDecodeRequestInto`). A request is accepted only behind the
validation code of a time within `time_delta` of the clock, and the secrets are those of the first
such time; without one nothing is written (`vmessDecodeRequest_authenticates`).
-/

namespace Vmecs

open StreamDecoder

variable {C : Crypto} {config : VmessConfig} {clock : Clock config}

/-! ### The command -/

/-- The fields say nothing about the secrets, but for the nonce. -/
theorem vmessDecodeFields_auth {a : VmessAuth} {x : Bytes} {n : ℕ} {r : VmessRequest × VmessAuth}
    (h : vmessDecodeFields a x = .ok n r) : ∃ nonce, r.2 = vmessAuthSetNonce a nonce := by
  -- the fields before and behind the nonce do not matter
  obtain ⟨_, _, _, -, h, -⟩ := bind_eq_ok.1 h
  obtain ⟨_, _, _, -, h, -⟩ := bind_eq_ok.1 h
  obtain ⟨_, _, _, -, h, -⟩ := bind_eq_ok.1 h
  obtain ⟨_, nonce, _, -, h, -⟩ := bind_eq_ok.1 h
  obtain ⟨_, _, _, -, h, -⟩ := bind_eq_ok.1 h
  obtain ⟨_, _, _, -, h, -⟩ := bind_eq_ok.1 h
  obtain ⟨_, _, _, -, h, -⟩ := bind_eq_ok.1 h
  obtain ⟨_, _, _, -, h, -⟩ := bind_eq_ok.1 h
  obtain ⟨_, _, _, -, h, -⟩ := bind_eq_ok.1 h
  obtain ⟨_, _, _, -, h, -⟩ := bind_eq_ok.1 h
  obtain ⟨_, _, _, -, h, -⟩ := bind_eq_ok.1 h
  obtain ⟨_, _, _, -, h, -⟩ := bind_eq_ok.1 h
  obtain ⟨-, rfl⟩ := Decode.ok.inj h
  exact ⟨_, rfl⟩

/-- **A command that is accepted** ends with the checksum of what is before it. -/
theorem vmessDecodeCmd_sound {a : VmessAuth} {x : Bytes} {n : ℕ} {r : VmessRequest × VmessAuth}
    (h : vmessDecodeCmd a x = .ok n r) :
    (∃ nonce, r.2 = vmessAuthSetNonce a nonce) ∧
      ∃ cmd : Bytes, x.take n = cmd ++ (be32 (cryptoFnv1a cmd)).1 ∧ n = cmd.length + 4 := by
  obtain ⟨k, fields, m, hk, hm, rfl⟩ := bind_eq_ok.1 h
  obtain ⟨hfields, hcmd⟩ := recording_eq_ok.1 hk
  have hlen : k ≤ x.length := (incremental_vmessDecodeFields a).le hfields
  obtain ⟨l, checksum, l', hl, hl', rfl⟩ := bind_eq_ok.1 hm
  obtain ⟨hle, rfl, hchecksum⟩ := take_eq_ok.1 hl
  split at hl'
  case isFalse => exact absurd hl' (by simp)
  case isTrue heq =>
    obtain ⟨rfl, rfl⟩ := Decode.ok.inj hl'
    refine ⟨vmessDecodeFields_auth hfields, x.take k, ?_, ?_⟩
    · rw [← hcmd, ← heq, hchecksum, hcmd, Nat.add_zero, List.take_add]
    · rw [List.length_take, Nat.min_eq_left hlen]

/-! ### Requests -/

/-- `vmess_decode_request`: its result, and what it leaves in `auth` and in the request. -/
def vmessDecodeRequestInto (C : Crypto) (config : VmessConfig) (clock : Clock config)
    (auth : VmessAuth) (req : VmessRequest) (data : Bytes) : ℤ × VmessAuth × VmessRequest :=
  if h : 16 ≤ data.length then
    match vmessLookupAuth C config clock ⟨data.take 16, List.length_take_of_le h⟩ with
    | none => (-1, auth, req)
    | some auth =>
      match vmessDecodeCmd auth (C.aes128CfbDec auth.key auth.iv (data.drop 16)) with
      | .fail => (-1, auth, req)
      | .more => (0, auth, req)
      | .ok n (req, auth) => (n + 16, auth, req)
  else (0, auth, req)

/-- It is the decoder: its result is the code of the decoder's answer, and what it leaves on success
is the decoder's value. -/
theorem vmessDecodeRequestInto_eq (auth : VmessAuth) (req : VmessRequest) (data : Bytes) :
    (vmessDecodeRequestInto C config clock auth req data).1 =
        (vmessDecodeRequest C config clock data).code ∧
      ∀ n r, vmessDecodeRequest C config clock data = .ok n r →
        (vmessDecodeRequestInto C config clock auth req data).2 = (r.2, r.1) := by
  rw [vmessDecodeRequestInto, vmessDecodeRequest, bind_apply, take]
  by_cases h : 16 ≤ data.length
  · rw [dif_pos h, dif_neg (Nat.not_lt.2 h)]
    dsimp only
    rcases vmessLookupAuth C config clock ⟨data.take 16, List.length_take_of_le h⟩ with _ | auth'
    · exact ⟨rfl, fun n r h ↦ absurd h (by simp)⟩
    · dsimp only [through]
      rcases vmessDecodeCmd auth' (C.aes128CfbDec auth'.key auth'.iv (data.drop 16)) with
        _ | _ | ⟨n, r⟩
      · exact ⟨rfl, fun n r h ↦ absurd h (by simp)⟩
      · exact ⟨rfl, fun n r h ↦ absurd h (by simp)⟩
      · refine ⟨by simp [add_comm], fun n' r' h ↦ ?_⟩
        obtain ⟨-, rfl⟩ := Decode.ok.inj h
        rfl
  · rw [dif_neg h, dif_pos (Nat.not_le.1 h)]
    exact ⟨rfl, fun n r h ↦ absurd h (by simp)⟩

/-- **An authentic request**: the data begin with the validation code of a time within `time_delta`
of the clock, the secrets are those of the first such time, and with them the rest of the header
decrypts to a command and its checksum. -/
def AuthenticRequest (C : Crypto) (clock : Clock config) (data : Bytes) (n : ℤ) (auth : VmessAuth) :
    Prop :=
  ∃ t, clock.Near t ∧ data.take 16 = (C.hmacMd5 config.userId.1 (be64 t).1).1 ∧
    (∀ t', clock.Near t' → data.take 16 = (C.hmacMd5 config.userId.1 (be64 t').1).1 → t ≤ t') ∧
    auth.genTime = t ∧ auth.key = vmessGenKey C config ∧ auth.iv = vmessGenIv C t ∧
    ∃ cmd : Bytes, n = 16 + (cmd.length + 4) ∧
      (C.aes128CfbDec auth.key auth.iv (data.drop 16)).take (cmd.length + 4) =
        cmd ++ (be32 (cryptoFnv1a cmd)).1

/-- The validation code of a time is what the data begin with. -/
theorem vmessGenValidationCode_eq_iff {data : Bytes} (hlen : 16 ≤ data.length) (t : UInt64) :
    vmessGenValidationCode C config.userId t = ⟨data.take 16, List.length_take_of_le hlen⟩ ↔
      data.take 16 = (C.hmacMd5 config.userId.1 (be64 t).1).1 := by
  rw [Subtype.ext_iff, eq_comm]
  rfl

/-- A command that is accepted with the secrets of the time that was found. -/
theorem authenticRequest_of_found {data : Bytes} (hlen : 16 ≤ data.length) {t : UInt64}
    (hnear : clock.Near t)
    (hmatch : vmessGenValidationCode C config.userId t =
      ⟨data.take 16, List.length_take_of_le hlen⟩)
    (hfirst : clock.FirstWithCode C t) {m : ℕ} {r : VmessRequest × VmessAuth}
    (hcmd : vmessDecodeCmd (vmessAuthInit C config t) (C.aes128CfbDec (vmessAuthInit C config t).key
      (vmessAuthInit C config t).iv (data.drop 16)) = .ok m r) :
    AuthenticRequest C clock data (m + 16) r.2 := by
  obtain ⟨⟨nonce, hauth⟩, cmd, hheader, rfl⟩ := vmessDecodeCmd_sound hcmd
  rw [hauth]
  refine ⟨t, hnear, (vmessGenValidationCode_eq_iff hlen t).1 hmatch, fun t' hnear' hmatch' ↦ ?_,
    rfl, rfl, rfl, cmd, ?_, hheader⟩
  · refine UInt64.not_lt.1 fun hlt ↦ hfirst t' hnear' hlt ?_
    rw [(vmessGenValidationCode_eq_iff hlen t').2 hmatch', hmatch]
  · push_cast
    ring

/-- **Authentication is sound.** Only an authentic request is accepted. Behind the first 16 bytes of
any other time nothing is accepted, and nothing is written to `auth` or the request. -/
theorem vmessDecodeRequest_authenticates (hlo : config.timeDelta.toNat ≤ clock.now.toNat)
    (hhi : clock.now.toNat + config.timeDelta.toNat < 2 ^ 64 - 1) (auth : VmessAuth)
    (req : VmessRequest) (data : Bytes) :
    (∀ n auth' req', vmessDecodeRequestInto C config clock auth req data = (n, auth', req') →
      0 < n → AuthenticRequest C clock data n auth') ∧
    ((∀ t, clock.Near t → data.take 16 ≠ (C.hmacMd5 config.userId.1 (be64 t).1).1) →
      16 ≤ data.length →
      vmessDecodeRequestInto C config clock auth req data = (-1, auth, req)) := by
  have hfits : clock.Fits := ⟨hlo, hhi.trans_le (by decide)⟩
  by_cases hlen : 16 ≤ data.length
  · rw [vmessDecodeRequestInto, dif_pos hlen]
    rcases vmessLookupAuth_cases (C := C) hfits ⟨data.take 16, List.length_take_of_le hlen⟩ with
      ⟨hnone, hall⟩ | ⟨t, hfound, hnear, hmatch, hfirst⟩
    · rw [hnone]
      refine ⟨fun n auth' req' h hpos ↦ ?_, fun _ _ ↦ rfl⟩
      obtain ⟨rfl, -⟩ := Prod.mk.inj h
      exact absurd hpos (by decide)
    · rw [hfound]
      refine ⟨fun n auth' req' h hpos ↦ ?_, fun hall ↦ absurd
        ((vmessGenValidationCode_eq_iff hlen t).1 hmatch) (hall t hnear)⟩
      dsimp only at h
      split at h
      case h_1 =>
        obtain ⟨rfl, -⟩ := Prod.mk.inj h
        exact absurd hpos (by decide)
      case h_2 =>
        obtain ⟨rfl, -⟩ := Prod.mk.inj h
        exact absurd hpos (by decide)
      case h_3 hcmd =>
        obtain ⟨rfl, hrest⟩ := Prod.mk.inj h
        obtain ⟨rfl, -⟩ := Prod.mk.inj hrest
        exact authenticRequest_of_found hlen hnear hmatch hfirst hcmd
  · refine ⟨fun n auth' req' h hpos ↦ ?_, fun _ h ↦ absurd h hlen⟩
    rw [vmessDecodeRequestInto, dif_neg hlen] at h
    obtain ⟨rfl, -⟩ := Prod.mk.inj h
    exact absurd hpos (by decide)

/-! ### At one request -/

/-- The header of a request made half a minute ago is accepted, and it is authentic. -/
theorem vmessDecodeRequest_authenticates_sampleRequest :
    ∃ header n auth' req',
      vmessDecodeRequestInto openssl (vmessConfigNew sampleUserId) sampleClock
        ⟨sampleUserId, sampleUserId, 0, 0⟩ sampleRequest header = (n, auth', req') ∧ 0 < n ∧
      AuthenticRequest openssl sampleClock header n auth' := by
  have hround : HeaderRoundTrips openssl (fun _ ↦ 0) (vmessConfigNew sampleUserId) sampleClock
      (vmessAuthSetNonce (vmessAuthInit openssl (vmessConfigNew sampleUserId) 1600000000) 5)
      sampleRequest :=
    headerRoundTrips_of_le cfbLaws_openssl _ 5 rfl (show sampleRequest.target.Short from trivial)
      (by decide) near_sampleClock (firstWithCode_sampleClock openssl) (by decide)
  obtain ⟨header, -, hparse⟩ := hround
  have hok := hparse []
  rw [List.append_nil] at hok
  have hpos : 0 < header.length :=
    (prompt_vmessDecodeRequest cfbLaws_openssl.toCfbDecLaws _ sampleClock).pos hok
  obtain ⟨hcode, -⟩ :=
    vmessDecodeRequestInto_eq ⟨sampleUserId, sampleUserId, 0, 0⟩ sampleRequest header
  rw [hok, Decode.code_ok] at hcode
  rcases hresult : vmessDecodeRequestInto openssl (vmessConfigNew sampleUserId) sampleClock
    ⟨sampleUserId, sampleUserId, 0, 0⟩ sampleRequest header with ⟨n, auth', req'⟩
  rw [hresult] at hcode
  have hn : 0 < n := (Int.natCast_pos.2 hpos).trans_eq hcode.symm
  exact ⟨header, n, auth', req', hresult, hn,
    (vmessDecodeRequest_authenticates (by decide) (by decide) _ _ _).1 _ _ _ hresult hn⟩

end Vmecs
