import Mathlib.Data.List.Basic

/-!
# AES-128

The block cipher of FIPS 197, on lists of 16 bytes in column order. The substitution box is computed
from its definition, an inverse in the field of 256 elements followed by an affine map.
-/

namespace Aes

/-- Multiplication by `x`, modulo `x ^ 8 + x ^ 4 + x ^ 3 + x + 1`. -/
def xtime (a : UInt8) : UInt8 := (a <<< 1) ^^^ (if a &&& 0x80 = 0 then 0 else 0x1b)

/-- Multiplication in the field: the eight bits of `b`, lowest first. -/
def mul (a b : UInt8) : UInt8 :=
  ((List.range 8).foldl
    (fun (acc, a) i ↦
      (if b >>> UInt8.ofNat i &&& 1 = 0 then acc else acc ^^^ a, xtime a)) (0, a)).1

/-- The inverse, `a ^ 254`. -/
def inv (a : UInt8) : UInt8 :=
  -- a ^ 2, a ^ 6, a ^ 14, and so on up to a ^ 254
  (List.range 6).foldl (fun b _ ↦ let c := mul b a; mul c c) (mul a a)

def rotl (a : UInt8) (k : UInt8) : UInt8 := (a <<< k) ||| (a >>> (8 - k))

/-- The substitution box. -/
def sbox (a : UInt8) : UInt8 :=
  let b := inv a
  b ^^^ rotl b 1 ^^^ rotl b 2 ^^^ rotl b 3 ^^^ rotl b 4 ^^^ 0x63

def addRoundKey (s k : List UInt8) : List UInt8 := List.zipWith (· ^^^ ·) s k

/-- Row `r` of the state is rotated by `r` columns. -/
def shiftRows (s : List UInt8) : List UInt8 :=
  [0, 5, 10, 15, 4, 9, 14, 3, 8, 13, 2, 7, 12, 1, 6, 11].map (s.getD · 0)

def mixColumn : List UInt8 → List UInt8
  | [a, b, c, d] =>
    [mul a 2 ^^^ mul b 3 ^^^ c ^^^ d, a ^^^ mul b 2 ^^^ mul c 3 ^^^ d,
      a ^^^ b ^^^ mul c 2 ^^^ mul d 3, mul a 3 ^^^ b ^^^ c ^^^ mul d 2]
  | s => s

def mixColumns (s : List UInt8) : List UInt8 :=
  (List.range 4).flatMap fun j ↦ mixColumn ((s.drop (4 * j)).take 4)

/-- The next round key; the words of a key are its columns. -/
def nextKey (rcon : UInt8) (k : List UInt8) : List UInt8 :=
  let word := fun j ↦ (k.drop (4 * j)).take 4
  let rotated := ((word 3).drop 1 ++ (word 3).take 1).map sbox
  let w₀ := addRoundKey (addRoundKey (word 0) rotated) [rcon, 0, 0, 0]
  let w₁ := addRoundKey (word 1) w₀
  let w₂ := addRoundKey (word 2) w₁
  w₀ ++ w₁ ++ w₂ ++ addRoundKey (word 3) w₂

/-- Encryption of one block. -/
def encryptBlock (key block : List UInt8) : List UInt8 :=
  let start := (addRoundKey block key, key, (1 : UInt8))
  let (s, k, rcon) := (List.range 9).foldl
    (fun (s, k, rcon) _ ↦
      let k' := nextKey rcon k
      (addRoundKey (mixColumns (shiftRows (s.map sbox))) k', k', xtime rcon)) start
  addRoundKey (shiftRows (s.map sbox)) (nextKey rcon k)

end Aes
