import Mathlib.Data.List.Basic
import Mathlib.Tactic.Common

/-!
# Cipher feedback

The CFB mode of a block cipher `E` on 16-byte blocks, byte by byte: a register holds the key stream
of the current block, in which each byte already used has been replaced by its ciphertext, and a
full register is encrypted before the next block begins. Both directions are left-to-right
transformations that differ in which byte goes back into the register, so

* they keep lengths (`length_enc`, `length_dec`),
* what has been decrypted does not depend on what follows (`isPrefix_dec`),
* decryption undoes encryption (`dec_enc`), and encryption decryption (`enc_dec`),

for every `E`, invertible or not.
-/

namespace Cfb

variable (E : List UInt8 → List UInt8)

/-- The register before byte `n` of a block. -/
def refill (reg : List UInt8) (n : ℕ) : List UInt8 := if n = 0 then E reg else reg

/-- Encryption, from byte `n` of a block on. -/
def enc : List UInt8 → ℕ → List UInt8 → List UInt8
  | _, _, [] => []
  | reg, n, p :: ps =>
    let c := p ^^^ (refill E reg n).getD n 0
    c :: enc ((refill E reg n).set n c) ((n + 1) % 16) ps

/-- Decryption, from byte `n` of a block on. -/
def dec : List UInt8 → ℕ → List UInt8 → List UInt8
  | _, _, [] => []
  | reg, n, c :: cs =>
    (c ^^^ (refill E reg n).getD n 0) :: dec ((refill E reg n).set n c) ((n + 1) % 16) cs

variable {E}

theorem length_enc (reg : List UInt8) (n : ℕ) (x : List UInt8) :
    (enc E reg n x).length = x.length := by
  induction x generalizing reg n with
  | nil => rfl
  | cons p ps ih => exact congrArg Nat.succ (ih _ _)

theorem length_dec (reg : List UInt8) (n : ℕ) (x : List UInt8) :
    (dec E reg n x).length = x.length := by
  induction x generalizing reg n with
  | nil => rfl
  | cons c cs ih => exact congrArg Nat.succ (ih _ _)

/-- Decryption maps prefixes to prefixes. -/
theorem isPrefix_dec (reg : List UInt8) (n : ℕ) (x y : List UInt8) :
    dec E reg n x <+: dec E reg n (x ++ y) := by
  induction x generalizing reg n with
  | nil => exact List.nil_prefix
  | cons c cs ih => exact List.cons_prefix_cons.2 ⟨rfl, ih _ _⟩

/-- **Decryption undoes encryption**: the two registers stay equal. -/
theorem dec_enc (reg : List UInt8) (n : ℕ) (x : List UInt8) : dec E reg n (enc E reg n x) = x := by
  induction x generalizing reg n with
  | nil => rfl
  | cons p ps ih =>
    refine List.cons_eq_cons.2 ⟨?_, ih _ _⟩
    rw [UInt8.xor_assoc, UInt8.xor_self, UInt8.xor_zero]

/-- **Encryption undoes decryption**, for the same reason. -/
theorem enc_dec (reg : List UInt8) (n : ℕ) (x : List UInt8) : enc E reg n (dec E reg n x) = x := by
  induction x generalizing reg n with
  | nil => rfl
  | cons c cs ih =>
    have hc : c ^^^ (refill E reg n).getD n 0 ^^^ (refill E reg n).getD n 0 = c := by
      rw [UInt8.xor_assoc, UInt8.xor_self, UInt8.xor_zero]
    rw [dec, enc, hc, ih]

end Cfb
