import Mathlib.Data.List.Basic
import Mathlib.Tactic.Common

/-!
# MD5 and HMAC-MD5

The digest of RFC 1321 and the keyed hash of RFC 2104 over it.
-/

namespace Md5

/-- The words added in the 64 steps: the integer part of `2 ^ 32 * |sin (i + 1)|`. -/
def sines : List UInt32 :=
  [0xd76aa478, 0xe8c7b756, 0x242070db, 0xc1bdceee, 0xf57c0faf, 0x4787c62a, 0xa8304613, 0xfd469501,
    0x698098d8, 0x8b44f7af, 0xffff5bb1, 0x895cd7be, 0x6b901122, 0xfd987193, 0xa679438e, 0x49b40821,
    0xf61e2562, 0xc040b340, 0x265e5a51, 0xe9b6c7aa, 0xd62f105d, 0x02441453, 0xd8a1e681, 0xe7d3fbc8,
    0x21e1cde6, 0xc33707d6, 0xf4d50d87, 0x455a14ed, 0xa9e3e905, 0xfcefa3f8, 0x676f02d9, 0x8d2a4c8a,
    0xfffa3942, 0x8771f681, 0x6d9d6122, 0xfde5380c, 0xa4beea44, 0x4bdecfa9, 0xf6bb4b60, 0xbebfbc70,
    0x289b7ec6, 0xeaa127fa, 0xd4ef3085, 0x04881d05, 0xd9d4d039, 0xe6db99e5, 0x1fa27cf8, 0xc4ac5665,
    0xf4292244, 0x432aff97, 0xab9423a7, 0xfc93a039, 0x655b59c3, 0x8f0ccc92, 0xffeff47d, 0x85845dd1,
    0x6fa87e4f, 0xfe2ce6e0, 0xa3014314, 0x4e0811a1, 0xf7537e82, 0xbd3af235, 0x2ad7d2bb, 0xeb86d391]

/-- The rotations: four for each of the four rounds. -/
def shifts : List UInt32 := [7, 12, 17, 22, 5, 9, 14, 20, 4, 11, 16, 23, 6, 10, 15, 21]

def rotl (x k : UInt32) : UInt32 := (x <<< k) ||| (x >>> (32 - k))

/-- Four bytes as a word, the lowest first. -/
def word (bs : List UInt8) : UInt32 :=
  bs.foldr (fun b acc ↦ acc <<< 8 ||| b.toUInt32) 0

/-- A word as four bytes, the lowest first. -/
def bytes (x : UInt32) : List UInt8 :=
  [x.toUInt8, (x >>> 8).toUInt8, (x >>> 16).toUInt8, (x >>> 24).toUInt8]

/-- The state: the four words `A`, `B`, `C` and `D`. -/
structure State where
  a : UInt32 := 0x67452301
  b : UInt32 := 0xefcdab89
  c : UInt32 := 0x98badcfe
  d : UInt32 := 0x10325476

/-- Step `i` on a block of 64 bytes. -/
def step (block : List UInt8) (s : State) (i : ℕ) : State :=
  let (f, g) :=
    if i < 16 then (s.b &&& s.c ||| ~~~s.b &&& s.d, i)
    else if i < 32 then (s.d &&& s.b ||| ~~~s.d &&& s.c, (5 * i + 1) % 16)
    else if i < 48 then (s.b ^^^ s.c ^^^ s.d, (3 * i + 5) % 16)
    else (s.c ^^^ (s.b ||| ~~~s.d), 7 * i % 16)
  let sum := f + s.a + sines.getD i 0 + word ((block.drop (4 * g)).take 4)
  ⟨s.d, s.b + rotl sum (shifts.getD (i / 16 * 4 + i % 4) 0), s.b, s.c⟩

/-- One block. -/
def compress (s : State) (block : List UInt8) : State :=
  let t := (List.range 64).foldl (step block) s
  ⟨s.a + t.a, s.b + t.b, s.c + t.c, s.d + t.d⟩

/-- The message with its padding: a one bit, zeros, and the length in bits. -/
def pad (data : List UInt8) : List UInt8 :=
  let zeros : List UInt8 := List.replicate ((119 - data.length % 64) % 64) 0
  let bits : List UInt8 := (List.range 8).map fun i ↦ UInt8.ofNat ((8 * data.length) >>> (8 * i))
  data ++ 0x80 :: zeros ++ bits

/-- MD5. -/
def digest (data : List UInt8) : {l : List UInt8 // l.length = 16} :=
  let s := (List.range ((pad data).length / 64)).foldl
    (fun s i ↦ compress s (((pad data).drop (64 * i)).take 64)) {}
  ⟨bytes s.a ++ bytes s.b ++ bytes s.c ++ bytes s.d, rfl⟩

/-- HMAC-MD5. -/
def hmac (key data : List UInt8) : {l : List UInt8 // l.length = 16} :=
  let short := if key.length ≤ 64 then key else (digest key).1
  let block := short ++ List.replicate (64 - short.length) 0
  digest (block.map (· ^^^ 0x5c) ++ (digest (block.map (· ^^^ 0x36) ++ data)).1)

end Md5
