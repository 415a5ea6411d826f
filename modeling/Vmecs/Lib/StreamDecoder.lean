import Mathlib.Data.Int.Basic
import Mathlib.Data.List.Basic
import Mathlib.Order.Basic
import Mathlib.Tactic.Common

/-!
# Streaming decoders

A decoder reads the front of a byte string and says one of three things: the bytes are wrong,
the bytes are not enough, or a message of `n` symbols with a value has been read. It is
**streaming** when what it says about a string, other than "not enough", is final: appending
symbols changes nothing. This is the contract a re-assembly buffer needs, and all of it:

* `Streaming.more_take_of_lt` — a message is never announced before its last symbol, so a buffer
  that decodes too early only ever hears "not enough";
* `Prompt` — nor is it announced later, so a buffer reads on only as long as a message is not all
  there;
* `Decodes` — cutting a stream into its successive messages. What has been cut off stays cut off
  when more of the stream arrives (`Decodes.append_right`);
* `Framed` — the contract about one message and no other input. A decoder whose answer depends on
  more than the symbols (a clock, say) can satisfy it where it is not streaming.

Nothing here depends on what the symbols are, nor on how a buffer is filled.
-/

universe u v

/-- The answer of a decoder: the input is wrong, the input is too short, or its first `n` symbols
are a message with value `v`. -/
inductive Decode (V : Type v) where
  | fail
  | more
  | ok (n : ℕ) (v : V)
  deriving DecidableEq, Repr

namespace Decode

variable {V : Type v}

/-- The answer as a result code: `-1`, `0`, or the number of symbols read. -/
def code : Decode V → ℤ
  | fail => -1
  | more => 0
  | ok n _ => n

@[simp] theorem code_fail : (fail : Decode V).code = -1 := rfl

@[simp] theorem code_more : (more : Decode V).code = 0 := rfl

@[simp] theorem code_ok (n : ℕ) (v : V) : (ok n v).code = n := rfl

end Decode

/-- A decoder over symbols `α` with values in `V`. -/
def StreamDecoder (α : Type u) (V : Type v) := List α → Decode V

namespace StreamDecoder

variable {α : Type u} {V : Type v} {D : StreamDecoder α V}

/-- **The streaming contract.** Final answers are final, a message is non-empty and lies inside the
input, and nothing can be said about no input. -/
structure Streaming (D : StreamDecoder α V) : Prop where
  nil : D [] = .more
  pos : ∀ {x n v}, D x = .ok n v → 0 < n
  le : ∀ {x n v}, D x = .ok n v → n ≤ x.length
  ok_append : ∀ {x n v} (y : List α), D x = .ok n v → D (x ++ y) = .ok n v
  fail_append : ∀ {x} (y : List α), D x = .fail → D (x ++ y) = .fail

/-- **No early announcement**: on every strict prefix of a message the decoder asks for more. -/
theorem Streaming.more_take_of_lt (hD : D.Streaming) {x : List α} {n k : ℕ} {v : V}
    (h : D x = .ok n v) (hk : k < n) : D (x.take k) = .more := by
  have hx : x.take k ++ x.drop k = x := List.take_append_drop k x
  match hd : D (x.take k) with
  | .more => rfl
  | .fail =>
    have := hD.fail_append (x.drop k) hd
    rw [hx, h] at this
    exact absurd this (by simp)
  | .ok m w =>
    have hle : m ≤ k := (hD.le hd).trans (List.length_take_le k x)
    have := hD.ok_append (x.drop k) hd
    rw [hx, h] at this
    obtain ⟨rfl, -⟩ := Decode.ok.inj this
    omega

/-- A streaming decoder that needs no symbol behind a message to announce it. -/
structure Prompt (D : StreamDecoder α V) : Prop extends Streaming D where
  ok_take : ∀ {x n v}, D x = .ok n v → D (x.take n) = .ok n v

/-- **No late announcement**: as soon as all of a message is there, the decoder gives it. -/
theorem Prompt.ok_of_le (hD : D.Prompt) {x y : List α} {n : ℕ} {v : V} (h : D (x ++ y) = .ok n v)
    (hn : n ≤ x.length) : D x = .ok n v := by
  have htake := hD.ok_take h
  rw [List.take_append_of_le_length hn] at htake
  have hx := hD.ok_append (x.drop n) htake
  rwa [List.take_append_drop] at hx

/-- A message that is not announced yet is not all there. -/
theorem Prompt.length_lt_of_more (hD : D.Prompt) {x y : List α} {n : ℕ} {v : V}
    (hmore : D x = .more) (h : D (x ++ y) = .ok n v) : x.length < n := by
  by_contra hle
  rw [hD.ok_of_le h (Nat.le_of_not_lt hle)] at hmore
  exact absurd hmore (by simp)

/-! ### One message -/

/-- The string `m` is one message with value `v`: recognized whatever follows it, and not before
its last symbol is there. -/
structure Framed (D : StreamDecoder α V) (m : List α) (v : V) : Prop where
  pos : 0 < m.length
  more : ∀ x, x <+: m → x.length < m.length → D x = .more
  ok : ∀ y, D (m ++ y) = .ok m.length v

/-- A streaming decoder frames every message it reads in full. -/
theorem Streaming.framed (hD : D.Streaming) {m : List α} {v : V} (h : D m = .ok m.length v) :
    D.Framed m v where
  pos := hD.pos h
  more x hx hlt := by
    rw [List.prefix_iff_eq_take.1 hx]
    exact hD.more_take_of_lt h hlt
  ok y := hD.ok_append y h

/-- What a decoder says about the beginning of a stream whose first message is `m`: nothing until
all of `m` is there, and then `m`. -/
theorem Framed.of_isPrefix {m x s : List α} {v : V} (hm : D.Framed m v) (hx : x <+: m ++ s) :
    D x = if x.length < m.length then .more else .ok m.length v := by
  split
  case isTrue hlt =>
    exact hm.more x (List.prefix_of_prefix_length_le hx (List.prefix_append m s) hlt.le) hlt
  case isFalse hge =>
    obtain ⟨t, rfl⟩ : m <+: x :=
      List.prefix_of_prefix_length_le (List.prefix_append m s) hx (by omega)
    exact hm.ok t

/-! ### Successive messages -/

/-- The stream `s` begins with messages of values `vs`, one behind the other, and `rest` is what
follows them. -/
inductive Decodes (D : StreamDecoder α V) : List α → List V → List α → Prop where
  | nil (s : List α) : Decodes D s [] s
  | cons {s : List α} {n : ℕ} {v : V} {vs : List V} {rest : List α} (h : D s = .ok n v)
      (ht : Decodes D (s.drop n) vs rest) : Decodes D s (v :: vs) rest

namespace Decodes

/-- Messages cut off stay cut off when the stream goes on. -/
theorem append_right (hD : D.Streaming) {s rest : List α} {vs : List V} (h : Decodes D s vs rest)
    (t : List α) : Decodes D (s ++ t) vs (rest ++ t) := by
  induction h with
  | nil s => exact .nil _
  | @cons s n v vs rest hd _ ih =>
    refine .cons (hD.ok_append t hd) ?_
    rwa [List.drop_append_of_le_length (hD.le hd)]

end Decodes

end StreamDecoder
