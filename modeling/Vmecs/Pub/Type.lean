import Mathlib.Algebra.GroupWithZero.Nat
import Mathlib.Data.List.TakeWhile
import Mathlib.Tactic.Common

/-!
# Bytes, fixed-width fields and C strings (`pub/type.h`)

A region of memory is the list of its bytes. An integer that the program only ever moves through
memory (`be16(x)` written to a wire buffer, a `uint16_t` read from one) is represented by the bytes
it has there, so that nothing depends on the byte order of the host: `be16`, `be32` and `be64` give
the bytes their results have in memory, and `fromBe16` reads such bytes.
-/

namespace Vmecs

/-- A region of memory. -/
abbrev Bytes := List UInt8

/-- A field of `n` bytes, such as `byte_t addr[4]`. -/
abbrev Block (n : ℕ) := {bs : Bytes // bs.length = n}

/-- `data128_t`. -/
abbrev Data128 := Block 16

-- named, so that the numerals of `Fin 1` and `Fin 2` carry no proof of their own
instance neZero_one : NeZero 1 := ⟨Nat.one_ne_zero⟩
instance neZero_two : NeZero 2 := ⟨Nat.succ_ne_zero 1⟩

/-- Byte `i` of a field. -/
def byteAt {n : ℕ} (b : Block n) (i : Fin n) : UInt8 := b.1.get (i.cast b.2.symm)

/-- A field of one byte. -/
theorem eq_of_byteAt (b : Block 1) {c : UInt8} (h : byteAt b 0 = c) : b.1 = [c] := by
  obtain ⟨bs, hbs⟩ := b
  match bs, hbs with
  | [c'], _ => exact congrArg (fun c ↦ [c]) h

/-- A field of two bytes. -/
theorem eq_of_byteAt_two (b : Block 2) {c d : UInt8} (hc : byteAt b 0 = c) (hd : byteAt b 1 = d) :
    b.1 = [c, d] := by
  obtain ⟨bs, hbs⟩ := b
  match bs, hbs with
  | [c', d'], _ => exact congrArg₂ (fun c d ↦ [c, d]) hc hd

/-- The `len` bytes of a field from offset `ofs` on. -/
def Block.sub {n : ℕ} (b : Block n) (ofs len : ℕ) (h : ofs + len ≤ n) : Block len :=
  ⟨(b.1.drop ofs).take len, by simp [b.2]; omega⟩

/-! ### Big-endian integers -/

/-- The bytes that `BE_GEN` stores: byte `i` of the `w` is `B_AT(n, w - i - 1)`. -/
def beBytes (w n : ℕ) : Block w :=
  ⟨(List.range w).map fun i ↦ UInt8.ofNat (n >>> ((w - i - 1) * 8)), by simp⟩

/-- `be16`. -/
def be16 (n : UInt16) : Block 2 := beBytes 2 n.toNat

/-- `be32`. -/
def be32 (n : UInt32) : Block 4 := beBytes 4 n.toNat

/-- `be64`. -/
def be64 (n : UInt64) : Block 8 := beBytes 8 n.toNat

/-- `from_be16`: `((uint16_t)p[0] << 8) | (uint16_t)p[1]`. -/
def fromBe16 (b : Block 2) : UInt16 :=
  (byteAt b 0).toUInt16 <<< 8 ||| (byteAt b 1).toUInt16

theorem fromBe16_toNat (b : Block 2) :
    (fromBe16 b).toNat = (byteAt b 0).toNat * 256 + (byteAt b 1).toNat := by
  have h₀ : (byteAt b 0).toNat < 2 ^ 8 := (byteAt b 0).toNat_lt
  have h₁ : (byteAt b 1).toNat < 2 ^ 8 := (byteAt b 1).toNat_lt
  have hshift : (byteAt b 0).toNat <<< 8 % 2 ^ 16 = (byteAt b 0).toNat <<< 8 := by
    rw [Nat.shiftLeft_eq]
    exact Nat.mod_eq_of_lt (by omega)
  rw [fromBe16, UInt16.toNat_or, UInt16.toNat_shiftLeft, UInt8.toNat_toUInt16,
    UInt8.toNat_toUInt16, show (8 : UInt16).toNat % 16 = 8 from rfl, hshift,
    ← Nat.shiftLeft_add_eq_or_of_lt h₁, Nat.shiftLeft_eq]

/-- **A port survives the wire.** -/
@[simp] theorem fromBe16_be16 (n : UInt16) : fromBe16 (be16 n) = n := by
  apply UInt16.toNat_inj.1
  have hn := n.toNat_lt
  have h₀ : byteAt (be16 n) 0 = UInt8.ofNat (n.toNat >>> 8) := rfl
  have h₁ : byteAt (be16 n) 1 = UInt8.ofNat (n.toNat >>> 0) := rfl
  rw [fromBe16_toNat, h₀, h₁, UInt8.toNat_ofNat', UInt8.toNat_ofNat', Nat.shiftRight_eq_div_pow,
    Nat.shiftRight_zero]
  omega

/-- And so does the field of a port. -/
@[simp] theorem be16_fromBe16 (b : Block 2) : be16 (fromBe16 b) = b := by
  have h₀ : (byteAt b 0).toNat < 2 ^ 8 := (byteAt b 0).toNat_lt
  have h₁ : (byteAt b 1).toNat < 2 ^ 8 := (byteAt b 1).toNat_lt
  have hn := fromBe16_toNat b
  refine Subtype.ext ((eq_of_byteAt_two _ ?_ ?_).trans (eq_of_byteAt_two b rfl rfl).symm)
  · show UInt8.ofNat ((fromBe16 b).toNat >>> 8) = _
    rw [hn, ← UInt8.toNat_inj, UInt8.toNat_ofNat', Nat.shiftRight_eq_div_pow]
    omega
  · show UInt8.ofNat ((fromBe16 b).toNat >>> 0) = _
    rw [hn, ← UInt8.toNat_inj, UInt8.toNat_ofNat', Nat.shiftRight_zero]
    omega

theorem toNat_byteAt_beBytes (w n : ℕ) (i : Fin w) :
    (byteAt (beBytes w n) i).toNat = n / 2 ^ ((w - i - 1) * 8) % 2 ^ 8 := by
  simp only [byteAt, beBytes, List.get_eq_getElem, List.getElem_map, List.getElem_range,
    UInt8.toNat_ofNat', Nat.shiftRight_eq_div_pow]
  rfl

/-- A checksum is determined by its bytes. -/
theorem be32_injective : Function.Injective be32 := by
  intro m n h
  have hm := m.toNat_lt
  have hn := n.toNat_lt
  have hbyte (i : Fin 4) :
      m.toNat / 2 ^ ((4 - i.1 - 1) * 8) % 2 ^ 8 = n.toNat / 2 ^ ((4 - i.1 - 1) * 8) % 2 ^ 8 := by
    rw [← toNat_byteAt_beBytes, ← toNat_byteAt_beBytes]
    exact congrArg (fun b ↦ (byteAt b i).toNat) h
  have h₀ : m.toNat / 2 ^ 24 % 2 ^ 8 = n.toNat / 2 ^ 24 % 2 ^ 8 := hbyte 0
  have h₁ : m.toNat / 2 ^ 16 % 2 ^ 8 = n.toNat / 2 ^ 16 % 2 ^ 8 := hbyte 1
  have h₂ : m.toNat / 2 ^ 8 % 2 ^ 8 = n.toNat / 2 ^ 8 % 2 ^ 8 := hbyte 2
  have h₃ : m.toNat / 2 ^ 0 % 2 ^ 8 = n.toNat / 2 ^ 0 % 2 ^ 8 := hbyte 3
  apply UInt32.toNat_inj.1
  omega

/-! ### C strings -/

/-- The contents of a NUL-terminated string: its bytes before the terminator. -/
abbrev CString := {bs : Bytes // 0 ∉ bs}

/-- What a C string function sees of a buffer that holds `bs` and a terminating zero: the bytes up
to the first zero. -/
def cstr (bs : Bytes) : CString :=
  ⟨bs.takeWhile (· ≠ 0), fun h ↦ by simpa using List.mem_takeWhile_imp h⟩

/-- A string without zeros is seen whole. -/
@[simp] theorem cstr_val (s : CString) : cstr s.1 = s :=
  Subtype.ext (List.takeWhile_eq_self_iff.2 fun b hb ↦ by
    simpa using fun h : b = 0 ↦ s.2 (h ▸ hb))

/-- What is behind the terminator is not seen. -/
theorem cstr_append_zero (s : CString) (rest : Bytes) : cstr (s.1 ++ 0 :: rest) = s := by
  refine Subtype.ext ?_
  have hall : ∀ b ∈ s.1, decide (b ≠ 0) = true := fun b hb ↦ by
    simpa using fun h : b = 0 ↦ s.2 (h ▸ hb)
  show (s.1 ++ 0 :: rest).takeWhile (· ≠ 0) = s.1
  rw [List.takeWhile_append_of_pos hall, List.takeWhile_cons_of_neg (by simp), List.append_nil]

end Vmecs
