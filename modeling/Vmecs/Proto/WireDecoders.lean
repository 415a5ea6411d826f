import Vmecs.Proto.Socks.Socks4
import Vmecs.Proto.Socks.Socks5
import Vmecs.Proto.Vmess.Decoding

/-!
# The decoders of the wire formats are streaming

An `rbuffer_t` subtracts a decoder's result from its write index and gives a connection up at the
first -1. `WireContract` is what it relies on, in terms of the result codes, and every decoder of
the repository satisfies it (`wireContract_of_decoders`): each is streaming by its form, and for a
streaming decoder the contract follows (`wireContract_of_streaming`).
-/

namespace Vmecs

open StreamDecoder

/-- What a re-assembly buffer relies on. -/
structure WireContract {V : Type} (D : StreamDecoder UInt8 V) : Prop where
  /-- The result is -1, 0 or between 1 and the length of the input. -/
  code_mem : ∀ x, (D x).code = -1 ∨ (D x).code = 0 ∨ 1 ≤ (D x).code ∧ (D x).code ≤ x.length
  /-- Of no input it is 0. -/
  code_nil : (D []).code = 0
  /-- A positive result and its value do not change when bytes are appended. -/
  ok_append : ∀ x y n v, D x = .ok n v → 0 < n → D (x ++ y) = .ok n v
  /-- Nor does -1. -/
  fail_append : ∀ x y, (D x).code = -1 → (D (x ++ y)).code = -1
  /-- On a strict prefix of a message the result is 0. -/
  code_take : ∀ (x : Bytes) (n k : ℕ), 0 < n → (D x).code = n → k < n → (D (x.take k)).code = 0

theorem wireContract_of_streaming {V : Type} {D : StreamDecoder UInt8 V}
    (hD : D.Streaming) : WireContract D where
  code_mem x := by
    match h : D x with
    | .fail => exact .inl rfl
    | .more => exact .inr (.inl rfl)
    | .ok n v =>
      have h₁ := hD.pos h
      have h₂ := hD.le h
      simp only [Decode.code_ok]
      omega
  code_nil := by rw [hD.nil, Decode.code_more]
  ok_append _ y _ _ h _ := hD.ok_append y h
  fail_append x y h := by
    match hx : D x with
    | .fail => rw [hD.fail_append y hx, Decode.code_fail]
    | .more => simp [hx] at h
    | .ok n v =>
      rw [hx, Decode.code_ok] at h
      omega
  code_take x n k hn h hk := by
    match hx : D x with
    | .fail => simp only [hx, Decode.code_fail] at h; omega
    | .more => simp only [hx, Decode.code_more] at h; omega
    | .ok m v =>
      simp only [hx, Decode.code_ok, Nat.cast_inj] at h
      rw [hD.more_take_of_lt hx (h ▸ hk), Decode.code_more]

/-- **Every wire decoder is a streaming decoder**, whatever the configuration, the secrets and the
clock, if decryption keeps lengths and maps prefixes to prefixes. -/
theorem wireContract_of_decoders {C : Crypto} (hC : CfbDecLaws C) (auth : VmessAuth)
    (config : VmessConfig) (clock : Clock config) :
    WireContract (vmessDecodeData C auth) ∧ WireContract (vmessDecodeRequest C config clock) ∧
      WireContract (vmessDecodeResponse C auth) ∧ WireContract socks5DecodeAuthSel ∧
      WireContract socks5DecodeAuthAck ∧ WireContract socks5DecodeRequest ∧
      WireContract socks5DecodeResponse ∧ WireContract socks4DecodeRequest ∧
      WireContract socks4DecodeResponse :=
  ⟨wireContract_of_streaming (prompt_vmessDecodeData C auth).toStreaming,
    wireContract_of_streaming (prompt_vmessDecodeRequest hC config clock).toStreaming,
    wireContract_of_streaming (prompt_vmessDecodeResponse C auth).toStreaming,
    wireContract_of_streaming prompt_socks5DecodeAuthSel.toStreaming,
    wireContract_of_streaming prompt_socks5DecodeAuthAck.toStreaming,
    wireContract_of_streaming prompt_socks5DecodeRequest.toStreaming,
    wireContract_of_streaming prompt_socks5DecodeResponse.toStreaming,
    wireContract_of_streaming prompt_socks4DecodeRequest.toStreaming,
    wireContract_of_streaming prompt_socks4DecodeResponse.toStreaming⟩

/-- AES in CFB mode is such a cipher. -/
theorem wireContract_openssl :
    WireContract (vmessDecodeData openssl
        ⟨⟨List.replicate 16 1, rfl⟩, ⟨List.replicate 16 2, rfl⟩, 1600000000, 3⟩) ∧
      WireContract (vmessDecodeRequest openssl (vmessConfigNew ⟨List.replicate 16 7, rfl⟩)
        ⟨1600000030, by decide⟩) ∧
      WireContract (vmessDecodeResponse openssl
        ⟨⟨List.replicate 16 1, rfl⟩, ⟨List.replicate 16 2, rfl⟩, 1600000000, 3⟩) ∧
      WireContract socks5DecodeAuthSel ∧ WireContract socks5DecodeAuthAck ∧
      WireContract socks5DecodeRequest ∧ WireContract socks5DecodeResponse ∧
      WireContract socks4DecodeRequest ∧ WireContract socks4DecodeResponse :=
  wireContract_of_decoders cfbLaws_openssl.toCfbDecLaws
    ⟨⟨List.replicate 16 1, rfl⟩, ⟨List.replicate 16 2, rfl⟩, 1600000000, 3⟩
    (vmessConfigNew ⟨List.replicate 16 7, rfl⟩) ⟨1600000030, by decide⟩

end Vmecs
