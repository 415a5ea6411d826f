import Mathlib.Data.BitVec
import Vmecs.Lib.Fnv
import Vmecs.Proto.Vmess.Chunks

/-!
# The checksum of a chunk

`crypto_fnv1a` folds over the data, as FNV-1a does, but where that multiplies by the prime it adds
it. So for a string that is not empty it is another hash: the two keep apart in their last two bits
unless the number of the bytes is a multiple of four (`cryptoFnv1a_eq_hash1a`), and beyond that
they meet only by coincidence.

It detects as much as FNV-1a does: each step is still injective in the running hash and in the byte,
and a chunk of which one byte has been changed under the encryption is rejected
(`vmessDecodeData_oneOff`).
-/

namespace Vmecs

open StreamDecoder

/-! ### Addition for multiplication -/

/-- The last two bits of a word. -/
def lastTwo (n : UInt32) : BitVec 2 := n.toBitVec.setWidth 2

/-- In their last two bits the two hashes differ by one less after each byte. -/
theorem lastTwo_step (h h' : UInt32) (b : UInt8) :
    lastTwo ((h ^^^ b.toUInt32) + 0x01000193) ^^^ lastTwo ((h' ^^^ b.toUInt32) * Fnv.prime) =
      (lastTwo h ^^^ lastTwo h') - 1 := by
  have hbits : ∀ x y z : BitVec 2, ((x ^^^ z) + 3) ^^^ ((y ^^^ z) * 3) = (x ^^^ y) - 1 := by decide
  simpa [lastTwo, Fnv.prime, BitVec.setWidth_add, BitVec.setWidth_mul, BitVec.setWidth_xor] using
    hbits (lastTwo h) (lastTwo h') (lastTwo b.toUInt32)

theorem lastTwo_cryptoFnv1a (data : Bytes) :
    lastTwo (cryptoFnv1a data) ^^^ lastTwo (Fnv.hash1a data) = -BitVec.ofNat 2 data.length := by
  have hfold (h h' : UInt32) :
      lastTwo (data.foldl (fun h b ↦ (h ^^^ b.toUInt32) + 0x01000193) h) ^^^
        lastTwo (data.foldl (fun h b ↦ (h ^^^ b.toUInt32) * Fnv.prime) h') =
      (lastTwo h ^^^ lastTwo h') - BitVec.ofNat 2 data.length := by
    induction data generalizing h h' with
    | nil => exact (BitVec.sub_zero _).symm
    | cons b data ih =>
      rw [List.foldl_cons, List.foldl_cons, ih, lastTwo_step, List.length_cons, BitVec.ofNat_add,
        BitVec.sub_sub, BitVec.add_comm]
      rfl
  rw [cryptoFnv1a, Fnv.hash1a, Fnv.offsetBasis, hfold, BitVec.xor_self, BitVec.zero_sub]

/-- **Where the checksum is FNV-1a**: for the empty string, and otherwise at most for strings of
four, eight, ... bytes. -/
theorem cryptoFnv1a_eq_hash1a (data : Bytes) :
    (data = [] → cryptoFnv1a data = Fnv.hash1a data) ∧
      (cryptoFnv1a data = Fnv.hash1a data → data = [] ∨ (4 ≤ data.length ∧ 4 ∣ data.length)) := by
  refine ⟨fun h ↦ ?_, fun h ↦ ?_⟩
  · rw [h, cryptoFnv1a, Fnv.hash1a, Fnv.offsetBasis, List.foldl_nil, List.foldl_nil]
  have hlast := lastTwo_cryptoFnv1a data
  rw [h, BitVec.xor_self, eq_comm, BitVec.neg_eq_zero_iff, ← BitVec.toNat_inj,
    BitVec.toNat_ofNat] at hlast
  have hdvd : 4 ∣ data.length := Nat.dvd_of_mod_eq_zero hlast
  rcases List.eq_nil_or_concat data with hnil | ⟨init, b, rfl⟩
  · exact .inl hnil
  · exact .inr ⟨Nat.le_of_dvd (by simp) hdvd, hdvd⟩

theorem cryptoFnv1a_letter :
    cryptoFnv1a [0x61] = 0x821c9f37 ∧ Fnv.hash1a [0x61] = 0xe40c292c ∧
      cryptoFnv1a [0x61] ≠ Fnv.hash1a [0x61] := by decide

/-- And there they can meet. -/
example : cryptoFnv1a [0x80, 0x7a, 0xc5, 0xe6] = Fnv.hash1a [0x80, 0x7a, 0xc5, 0xe6] := by decide

/-! ### Corrupted chunks -/

theorem cryptoFnv1a_ne_of_oneOff {m m' : Bytes} (h : OneOff m m') :
    cryptoFnv1a m ≠ cryptoFnv1a m' := by
  refine foldl_ne_of_oneOff (fun b x y heq ↦ ?_) (fun x b c heq ↦ ?_) h _
  · exact (UInt32.xor_left_inj b.toUInt32).1 ((UInt32.add_left_inj _).1 heq)
  · exact UInt8.toUInt32_inj.1 ((UInt32.xor_right_inj x).1 ((UInt32.add_left_inj _).1 heq))

/-- A field that is long enough and does not have its checksum in front is rejected. -/
theorem vmessDecodeData_eq_fail {C : Crypto} {auth : VmessAuth} {field : Bytes}
    (hmin : 4 ≤ field.length) (hmax : field.length < 2 ^ 16)
    (hsum : (be32 (cryptoFnv1a ((C.aes128CfbDec auth.key auth.iv field).drop 4))).1 ≠
      (C.aes128CfbDec auth.key auth.iv field).take 4) (rest : Bytes) :
    vmessDecodeData C auth ((be16 (UInt16.ofNat field.length)).1 ++ (field ++ rest)) = .fail := by
  have hlen : (UInt16.ofNat field.length).toNat = field.length := by
    rw [UInt16.toNat_ofNat', Nat.mod_eq_of_lt hmax]
  refine bind_eq_fail.2 (.inr ⟨_, _, Parses.take (be16 (UInt16.ofNat field.length)) _, ?_⟩)
  rw [List.drop_left, fromBe16_be16, if_neg, if_neg]
  · exact bind_eq_fail.2 (.inr ⟨_, _, Parses.take (⟨field, hlen.symm⟩ : Block _) rest, by
      rw [if_neg hsum, reject_apply]⟩)
  · rw [UInt16.lt_iff_toNat_lt, hlen]
    exact Nat.not_lt.2 hmin
  · rw [← UInt16.toNat_inj, hlen]
    exact fun h ↦ absurd (h ▸ hmin) (by decide)

/-- **A byte changed under the encryption is noticed**, in the checksum or in the payload. -/
theorem vmessDecodeData_oneOff {C : Crypto} (hC : CfbLaws C) (auth : VmessAuth) {m p' : Bytes}
    (hm : m.length ≤ 65531) (h : OneOff (vmessTrunkPlain m) p') (rest : Bytes) :
    vmessDecodeData C auth ((be16 (UInt16.ofNat (m.length + 4))).1 ++
      (C.aes128CfbEnc auth.key auth.iv p' ++ rest)) = .fail := by
  have hlen : (C.aes128CfbEnc auth.key auth.iv p').length = m.length + 4 := by
    rw [hC.length_enc, ← h.length_eq, length_vmessTrunkPlain]
  have hfour : (be32 (cryptoFnv1a m)).1.length = 4 := (be32 _).2
  rw [← hlen]
  refine vmessDecodeData_eq_fail (by omega) (by omega) ?_ rest
  rw [hC.dec_enc]
  rcases h.of_append with ⟨sum, hsum, rfl⟩ | ⟨m', hm', rfl⟩
  · -- the checksum of the payload, which is as it was, is not the one in front of it
    have hfour' : sum.length = 4 := hsum.length_eq ▸ hfour
    rw [List.drop_left' hfour', List.take_left' hfour']
    exact hsum.ne
  · -- the payload has another checksum
    rw [List.drop_left' hfour, List.take_left' hfour]
    exact fun heq ↦ cryptoFnv1a_ne_of_oneOff hm' (be32_injective (Subtype.ext heq)).symm

theorem vmessDecodeData_oneOff_sample :
    vmessDecodeData openssl ⟨vmessMagicNo, vmessMagicNo, 1600000000, 7⟩
      ((be16 (UInt16.ofNat 5)).1 ++ (openssl.aes128CfbEnc vmessMagicNo vmessMagicNo
        ((be32 (cryptoFnv1a [1])).1 ++ [2]) ++ [])) = .fail :=
  vmessDecodeData_oneOff cfbLaws_openssl ⟨vmessMagicNo, vmessMagicNo, 1600000000, 7⟩
    (m := [1]) (by decide) ⟨(be32 (cryptoFnv1a [1])).1, 1, 2, [], by decide, rfl, rfl⟩ []

end Vmecs
