import Vmecs.Lib.Aes
import Vmecs.Lib.Cfb
import Vmecs.Lib.Md5
import Vmecs.Pub.Type

/-!
# Cryptography (`crypto/aes.c`, `crypto/hash.c`)

The ciphers and hashes are those of OpenSSL, outside the repository: they are the fields of
`Crypto`, and what a result relies on about them is a hypothesis of that result, collected in
`CfbDecLaws` (the decryption keeps lengths and maps prefixes to prefixes), `CfbLaws` (and it undoes
the encryption) and `CfbInverseLaws` (which undoes it in turn). `openssl` has the standard
algorithms in these fields, and satisfies the hypotheses (`cfbInverseLaws_openssl`). The checksum
`crypto_fnv1a` is the repository's own.
-/

namespace Vmecs

/-- The primitives taken from OpenSSL. -/
structure Crypto where
  /-- `crypto_md5` -/
  md5 : Bytes → Data128
  /-- `crypto_hmac_md5`: key, then data -/
  hmacMd5 : Bytes → Bytes → Data128
  /-- `crypto_aes_128_cfb_enc`: key, iv, data -/
  aes128CfbEnc : Data128 → Data128 → Bytes → Bytes
  /-- `crypto_aes_128_cfb_dec`: key, iv, data -/
  aes128CfbDec : Data128 → Data128 → Bytes → Bytes

/-- CFB decryption is a stream transformation. -/
structure CfbDecLaws (C : Crypto) : Prop where
  length_dec : ∀ key iv x, (C.aes128CfbDec key iv x).length = x.length
  isPrefix_dec : ∀ key iv x y, C.aes128CfbDec key iv x <+: C.aes128CfbDec key iv (x ++ y)

/-- And it undoes encryption, which keeps lengths. -/
structure CfbLaws (C : Crypto) : Prop extends CfbDecLaws C where
  length_enc : ∀ key iv x, (C.aes128CfbEnc key iv x).length = x.length
  dec_enc : ∀ key iv x, C.aes128CfbDec key iv (C.aes128CfbEnc key iv x) = x

/-- And encryption undoes it in turn. -/
structure CfbInverseLaws (C : Crypto) : Prop extends CfbLaws C where
  enc_dec : ∀ key iv x, C.aes128CfbEnc key iv (C.aes128CfbDec key iv x) = x

/-- Decrypting a ciphertext and what follows it gives the plaintext, and something behind it. -/
theorem CfbLaws.dec_enc_append {C : Crypto} (hC : CfbLaws C) (key iv : Data128) (x y : Bytes) :
    ∃ t, C.aes128CfbDec key iv (C.aes128CfbEnc key iv x ++ y) = x ++ t := by
  obtain ⟨t, ht⟩ := hC.isPrefix_dec key iv (C.aes128CfbEnc key iv x) y
  exact ⟨t, by rw [← ht, hC.dec_enc]⟩

/-- The standard algorithms. -/
def openssl : Crypto where
  md5 := Md5.digest
  hmacMd5 := Md5.hmac
  aes128CfbEnc key iv := Cfb.enc (Aes.encryptBlock key.1) iv.1 0
  aes128CfbDec key iv := Cfb.dec (Aes.encryptBlock key.1) iv.1 0

/-- The hypotheses about the cipher hold of AES in CFB mode, as they do of any cipher in it. -/
theorem cfbLaws_openssl : CfbLaws openssl where
  length_dec _ iv x := Cfb.length_dec iv.1 0 x
  isPrefix_dec _ iv x y := Cfb.isPrefix_dec iv.1 0 x y
  length_enc _ iv x := Cfb.length_enc iv.1 0 x
  dec_enc _ iv x := Cfb.dec_enc iv.1 0 x

theorem cfbInverseLaws_openssl : CfbInverseLaws openssl where
  toCfbLaws := cfbLaws_openssl
  enc_dec _ iv x := Cfb.enc_dec iv.1 0 x

/-- `crypto_fnv1a`. -/
def cryptoFnv1a (data : Bytes) : UInt32 :=
  data.foldl (fun hash b ↦ (hash ^^^ b.toUInt32) + 0x01000193) 0x811c9dc5

end Vmecs
