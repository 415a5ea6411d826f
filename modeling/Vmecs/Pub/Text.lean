import Mathlib.Algebra.Group.Int.Defs
import Mathlib.Data.List.Infix
import Mathlib.Data.List.TakeWhile
import Vmecs.Pub.Type

/-!
# Numbers and addresses as text

The functions of the C library that turn numbers and addresses into text and back. A text is written
into a buffer of a fixed size, and read from it up to the first zero (`Block.string`); a write that
does not fit in the buffer has no result.

Decimal printing and scanning (`sprintfD`, `sscanfD`) follow the C standard, and are inverse on what
an `int` can hold (`sscanfD_sprintfD`). The texts of internet addresses are those of `inet_ntop` and
`inet_pton`, which are parameters (`Inet`), with what is relied on about them in `InetLaws`.
-/

namespace Vmecs

/-! ### Text buffers -/

section Buffers

variable {n : ℕ}

/-- Store `bs` at the front of a buffer. -/
def Block.write (buf : Block n) (bs : Bytes) : Option (Block n) :=
  if h : bs.length ≤ n then some ⟨bs ++ buf.1.drop bs.length, by simp [buf.2]; omega⟩ else none

/-- The string in a buffer; without a zero in it, a reader runs over its end. -/
def Block.string (buf : Block n) : Option CString :=
  if 0 ∈ buf.1 then some (cstr buf.1) else none

/-- `strncpy(buf, src, size)`: what is left of the `size` bytes is filled with zeros, of which there
may be none. -/
def strncpy (buf : Block n) (src : CString) (size : ℕ) : Option (Block n) :=
  buf.write ((src.1 ++ List.replicate size 0).take size)

/-- A string with zeros behind it is read back. -/
theorem string_write {buf : Block n} {s : CString} {bs rest : Bytes} (hbs : bs = s.1 ++ 0 :: rest)
    (h : bs.length ≤ n) : ∃ buf', buf.write bs = some buf' ∧ buf'.string = some s := by
  subst hbs
  refine ⟨_, dif_pos h, ?_⟩
  rw [Block.string, if_pos (by simp), Option.some_inj]
  dsimp only
  rw [List.append_assoc, List.cons_append, cstr_append_zero]

/-- A string that is shorter than what `strncpy` may write is copied with a zero behind it. -/
theorem string_strncpy (buf : Block n) {s : CString} {size : ℕ} (hs : s.1.length < size)
    (hsize : size ≤ n) : ∃ buf', strncpy buf s size = some buf' ∧ buf'.string = some s := by
  have htake : (s.1 ++ List.replicate size 0).take size =
      s.1 ++ 0 :: List.replicate (size - s.1.length - 1) 0 := by
    obtain ⟨k, hk⟩ : ∃ k, size - s.1.length = k + 1 := ⟨size - s.1.length - 1, by omega⟩
    rw [List.take_append, List.take_of_length_le hs.le, List.take_replicate,
      Nat.min_eq_left (Nat.sub_le _ _), hk, List.replicate_succ, Nat.add_sub_cancel]
  refine string_write htake ?_
  rw [List.length_take]
  omega

end Buffers

/-! ### Decimal numbers -/

/-- `isspace` in the C locale. -/
def isSpace (c : UInt8) : Bool := c = 32 || 9 ≤ c && c ≤ 13

/-- `isdigit`. -/
def isDigit (c : UInt8) : Bool := 48 ≤ c && c ≤ 57

/-- The number that decimal digits are. -/
def decimal (digits : Bytes) : ℕ := digits.foldl (fun n c ↦ 10 * n + (c.toNat - 48)) 0

/-- The text that `%d` prints for an `int` that is not negative. -/
def sprintfD (n : ℕ) : Bytes := (Nat.toDigits 10 n).map fun c ↦ UInt8.ofNat c.toNat

/-- What `sscanf(s, "%d", &n)` does. -/
inductive ScanInt where
  /-- `EOF`: there is only white space, and `n` is not set -/
  | eof
  /-- 0: there is no number at the front, and `n` is not set -/
  | mismatch
  /-- 1, and this number is stored in `n` -/
  | stored (n : ℤ)
  /-- 1, but the number does not fit in an `int`, and the behaviour is undefined -/
  | overflow
  deriving DecidableEq

/-- `sscanf(s, "%d", &n)`: white space, a sign, and digits. -/
def sscanfD (s : CString) : ScanInt :=
  match s.1.dropWhile isSpace with
  | [] => .eof
  | c :: rest =>
    let ds := (if c = 43 ∨ c = 45 then rest else c :: rest).takeWhile isDigit
    if ds = [] then .mismatch
    else
      let n : ℤ := if c = 45 then -decimal ds else decimal ds
      if -2 ^ 31 ≤ n ∧ n < 2 ^ 31 then .stored n else .overflow

theorem toNat_ofNat_toNat_of_isDigit {c : Char} (h : c.isDigit) :
    (UInt8.ofNat c.toNat).toNat = c.toNat ∧ 48 ≤ c.toNat ∧ c.toNat ≤ 57 := by
  have hc : 48 ≤ c.toNat ∧ c.toNat ≤ 57 := by
    simpa [Char.isDigit, UInt32.le_iff_toNat_le] using h
  refine ⟨?_, hc⟩
  rw [UInt8.toNat_ofNat']
  omega

/-- Digits are printed. -/
theorem isDigit_of_mem_sprintfD {n : ℕ} {b : UInt8} (h : b ∈ sprintfD n) : isDigit b := by
  obtain ⟨c, hc, rfl⟩ := List.mem_map.1 h
  obtain ⟨hb, hlo, hhi⟩ := toNat_ofNat_toNat_of_isDigit
    (Nat.isDigit_of_mem_toDigits (by decide) (by decide) hc)
  simp only [isDigit, UInt8.le_iff_toNat_le, hb]
  simpa using ⟨hlo, hhi⟩

theorem sprintfD_ne_nil (n : ℕ) : sprintfD n ≠ [] := by
  simp [sprintfD, Nat.toDigits_ne_nil]

/-- No zero byte is printed. -/
theorem zero_notMem_sprintfD (n : ℕ) : (0 : UInt8) ∉ sprintfD n :=
  fun h ↦ absurd (isDigit_of_mem_sprintfD h) (by decide)

/-- A number that fits in 16 bits has at most five digits. -/
theorem length_sprintfD_le (n : UInt16) : (sprintfD n.toNat).length ≤ 5 := by
  have hn := n.toNat_lt
  rw [sprintfD, List.length_map, Nat.length_toDigits_le_iff (by decide) (by decide)]
  omega

theorem decimal_sprintfD (n : ℕ) : decimal (sprintfD n) = n := by
  have hfold : ∀ (cs : List Char) (m : ℕ), (∀ c ∈ cs, c.isDigit) →
      (cs.map fun c ↦ UInt8.ofNat c.toNat).foldl (fun n c ↦ 10 * n + (c.toNat - 48)) m =
        Nat.ofDigitChars 10 cs m := by
    intro cs
    induction cs with
    | nil => exact fun m _ ↦ Nat.ofDigitChars_nil.symm
    | cons c cs ih =>
      intro m hcs
      have hc := (toNat_ofNat_toNat_of_isDigit (hcs c List.mem_cons_self)).1
      rw [List.map_cons, List.foldl_cons, ih _ fun c' hc' ↦ hcs c' (List.mem_cons_of_mem _ hc'),
        Nat.ofDigitChars_cons, hc]
      rfl
  rw [decimal, sprintfD, hfold _ _ fun c hc ↦
    Nat.isDigit_of_mem_toDigits (by decide) (by decide) hc, Nat.ofDigitChars_ten_toDigits]

theorem not_isSpace_of_isDigit {c : UInt8} (h : isDigit c) : ¬isSpace c := by
  revert h
  simp only [isDigit, isSpace, UInt8.le_iff_toNat_le, ← UInt8.toNat_inj]
  simp
  omega

theorem not_sign_of_isDigit {c : UInt8} (h : isDigit c) : ¬(c = 43 ∨ c = 45) := by
  rintro (rfl | rfl) <;> exact absurd h (by decide)

/-- **Digits are scanned** as the number that they are, if it fits in an `int`. -/
theorem sscanfD_digits {s : CString} (hne : s.1 ≠ []) (hall : ∀ b ∈ s.1, isDigit b)
    (hn : decimal s.1 < 2 ^ 31) : sscanfD s = .stored (decimal s.1) := by
  obtain ⟨c, rest, hcons⟩ := List.exists_cons_of_ne_nil hne
  have hc : isDigit c := hall c (hcons ▸ List.mem_cons_self)
  have hsign : ¬(c = 43 ∨ c = 45) := not_sign_of_isDigit hc
  have hminus : c ≠ 45 := fun h ↦ hsign (.inr h)
  have hdigits : (c :: rest).takeWhile isDigit = s.1 := by
    rw [← hcons]
    exact List.takeWhile_eq_self_iff.2 hall
  rw [sscanfD]
  dsimp only
  rw [hcons, List.dropWhile_cons_of_neg (not_isSpace_of_isDigit hc)]
  dsimp only
  rw [if_neg hsign, hdigits, if_neg hne, if_neg hminus, if_pos (by omega), hcons]

/-- **What is printed is scanned**, if it fits in an `int`. -/
theorem sscanfD_sprintfD {n : ℕ} (hn : n < 2 ^ 31) :
    sscanfD ⟨sprintfD n, zero_notMem_sprintfD n⟩ = .stored n := by
  have hscan := sscanfD_digits (s := ⟨sprintfD n, zero_notMem_sprintfD n⟩) (sprintfD_ne_nil n)
    (fun _ ↦ isDigit_of_mem_sprintfD) (by rwa [decimal_sprintfD])
  rwa [decimal_sprintfD] at hscan

/-- A text with nothing but white space in it. -/
def IsBlankText (s : CString) : Prop := ∀ c ∈ s.1, isSpace c

/-- A text that begins with a number: behind white space and a sign, if there are any, a digit. -/
def StartsWithNumber (s : CString) : Prop :=
  ∃ space sign d rest, s.1 = space ++ (sign ++ d :: rest) ∧ (∀ c ∈ space, isSpace c) ∧
    (sign = [] ∨ sign = [43] ∨ sign = [45]) ∧ isDigit d

theorem exists_cons_of_takeWhile_ne_nil {p : UInt8 → Bool} {l : Bytes} (h : l.takeWhile p ≠ []) :
    ∃ d rest, l = d :: rest ∧ p d := by
  match l with
  | [] => exact absurd rfl h
  | d :: rest =>
    refine ⟨d, rest, rfl, by_contra fun hd ↦ h ?_⟩
    exact List.takeWhile_cons_of_neg hd

/-- White space is skipped up to the sign, or up to the first digit. -/
theorem dropWhile_isSpace {space sign rest : Bytes} {d : UInt8} (hspace : ∀ c ∈ space, isSpace c)
    (hsign : sign = [] ∨ sign = [43] ∨ sign = [45]) (hd : isDigit d) :
    (space ++ (sign ++ d :: rest)).dropWhile isSpace = sign ++ d :: rest := by
  rw [List.dropWhile_append_of_pos hspace]
  rcases hsign with rfl | rfl | rfl
  · exact List.dropWhile_cons_of_neg (not_isSpace_of_isDigit hd)
  · rfl
  · rfl

/-- **When no number is found**: there is something in the text, and it does not begin with one. -/
theorem sscanfD_eq_mismatch_iff (s : CString) :
    sscanfD s = .mismatch ↔ ¬IsBlankText s ∧ ¬StartsWithNumber s := by
  have hskip : s.1.takeWhile isSpace ++ s.1.dropWhile isSpace = s.1 :=
    List.takeWhile_append_dropWhile
  rw [sscanfD]
  match hdrop : s.1.dropWhile isSpace with
  | [] =>
    refine iff_of_false (by simp) fun h ↦ h.1 ?_
    exact List.dropWhile_eq_nil_iff.1 hdrop
  | c :: rest =>
    have hblank : ¬IsBlankText s := fun h ↦ by
      rw [List.dropWhile_eq_nil_iff.2 h] at hdrop
      exact absurd hdrop (by simp)
    have hstart : StartsWithNumber s ↔
        (if c = 43 ∨ c = 45 then rest else c :: rest).takeWhile isDigit ≠ [] := by
      constructor
      · rintro ⟨space, sign, d, rest', hs, hspace, hsign, hd⟩
        rw [hs, dropWhile_isSpace hspace hsign hd] at hdrop
        rcases hsign with rfl | rfl | rfl
        · obtain ⟨rfl, rfl⟩ := List.cons.inj hdrop
          rw [if_neg (not_sign_of_isDigit hd), List.takeWhile_cons_of_pos hd]
          exact List.cons_ne_nil _ _
        all_goals
          obtain ⟨rfl, hrest⟩ := List.cons.inj hdrop
          rw [if_pos (by decide), ← show d :: rest' = rest from hrest,
            List.takeWhile_cons_of_pos hd]
          exact List.cons_ne_nil _ _
      · intro hne
        rw [hdrop] at hskip
        have hspace : ∀ b ∈ s.1.takeWhile isSpace, isSpace b := fun _ ↦ List.mem_takeWhile_imp
        split at hne
        case isTrue hsign =>
          obtain ⟨d, rest', rfl, hd⟩ := exists_cons_of_takeWhile_ne_nil hne
          exact ⟨_, [c], d, rest', hskip.symm, hspace, .inr (by simpa using hsign), hd⟩
        case isFalse =>
          obtain ⟨d, rest', hcons, hd⟩ := exists_cons_of_takeWhile_ne_nil hne
          exact ⟨_, [], d, rest', by rw [List.nil_append, ← hcons, hskip], hspace, .inl rfl, hd⟩
    dsimp only
    rw [hstart, not_ne_iff]
    by_cases hnil : (if c = 43 ∨ c = 45 then rest else c :: rest).takeWhile isDigit = []
    · rw [if_pos hnil]
      exact iff_of_true rfl ⟨hblank, hnil⟩
    · rw [if_neg hnil]
      refine iff_of_false (fun h ↦ ?_) fun h ↦ hnil h.2
      rcases ite_eq_iff.1 h with ⟨-, h⟩ | ⟨-, h⟩ <;> exact absurd h (by simp)

/-! ### Internet addresses -/

/-- `inet_ntop` and `inet_pton`, for either family. -/
structure Inet where
  ntop4 : Block 4 → CString
  ntop6 : Block 16 → CString
  pton4 : CString → Option (Block 4)
  pton6 : CString → Option (Block 16)

/-- `INET_ADDRSTRLEN`. -/
def inetAddrstrlen : ℕ := 16

/-- `INET6_ADDRSTRLEN`. -/
def inet6Addrstrlen : ℕ := 46

/-- The text of an address is read back, as an address of its family, and fits in the buffer that is
meant for it. -/
structure InetLaws (I : Inet) : Prop where
  pton4_ntop4 : ∀ addr, I.pton4 (I.ntop4 addr) = some addr
  pton6_ntop6 : ∀ addr, I.pton6 (I.ntop6 addr) = some addr
  pton4_ntop6 : ∀ addr, I.pton4 (I.ntop6 addr) = none
  length_ntop4 : ∀ addr, (I.ntop4 addr).1.length < inetAddrstrlen
  length_ntop6 : ∀ addr, (I.ntop6 addr).1.length < inet6Addrstrlen

/-- `inet_ntop` into a buffer, told that there is room for `size` bytes: it fails when there is
not. -/
def inetNtop {n : ℕ} (buf : Block n) (text : CString) (size : ℕ) : Option (Block n) :=
  if text.1.length < size then buf.write (text.1 ++ [0]) else none

theorem string_inetNtop {n : ℕ} (buf : Block n) {text : CString} {size : ℕ}
    (htext : text.1.length < size) (hsize : size ≤ n) :
    ∃ buf', inetNtop buf text size = some buf' ∧ buf'.string = some text := by
  rw [inetNtop, if_pos htext]
  refine string_write rfl ?_
  rw [List.length_append, List.length_singleton]
  omega

end Vmecs
