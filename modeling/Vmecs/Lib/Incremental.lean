import Vmecs.Lib.StreamDecoder

/-!
# Decoders written as reading programs

A decoder that reads its input field by field, gives up with "not enough" where a field is not all
there, and may reject what it has read, is a program over three steps: read `n` symbols (`take`),
reject, return. Such programs form a monad, and every one of them is **incremental**: its final
answers survive the arrival of more input. So the streaming contract of a long decoder needs no
look at its exits; it follows from the shape of the program, and the only thing left to show is that
the program reads something first (`Incremental.prompt_bind_take`).

Further steps occur in wire formats and are incremental as well: reading up to a terminator
(`takeThrough`), looking at the next symbol (`peek`), keeping the symbols a part of the program has
consumed, for a checksum (`recording`), and reading through a transformation of the remaining input,
such as a stream cipher (`through`).
-/

universe u v w

namespace StreamDecoder

variable {α : Type u} {V W : Type v}

/-! ### The steps -/

/-- Return a value, reading nothing. -/
protected def pure (v : V) : StreamDecoder α V := fun _ ↦ .ok 0 v

/-- Run `p`, then `f` on what `p` left. -/
protected def bind (p : StreamDecoder α V) (f : V → StreamDecoder α W) : StreamDecoder α W :=
  fun x ↦
    match p x with
    | .fail => .fail
    | .more => .more
    | .ok n v =>
      match f v (x.drop n) with
      | .fail => .fail
      | .more => .more
      | .ok m w => .ok (n + m) w

instance : Monad (StreamDecoder.{u, v} α) where
  pure := StreamDecoder.pure
  bind := StreamDecoder.bind

/-- Reject the input. -/
def reject : StreamDecoder α V := fun _ ↦ .fail

/-- Read the next `n` symbols. -/
def take {α : Type v} (n : ℕ) : StreamDecoder α {l : List α // l.length = n} := fun x ↦
  if h : x.length < n then .more else .ok n ⟨x.take n, by simp; omega⟩

/-- Read up to and with the first symbol that satisfies `p`. -/
def takeThrough {α : Type v} (p : α → Bool) : StreamDecoder α (List α) := fun x ↦
  if x.findIdx p < x.length then .ok (x.findIdx p + 1) (x.take (x.findIdx p + 1)) else .more

/-- Run `p` and keep the symbols it has read beside its value. -/
def recording {α V : Type v} (p : StreamDecoder α V) : StreamDecoder α (V × List α) := fun x ↦
  match p x with
  | .fail => .fail
  | .more => .more
  | .ok n v => .ok n (v, x.take n)

/-- Choose a program by the next symbol, which is not read. -/
def peek (f : α → StreamDecoder α V) : StreamDecoder α V := fun x ↦
  match x with
  | [] => .more
  | a :: _ => f a x

/-- Run `p` on a transformation of the input. -/
def through (f : List α → List α) (p : StreamDecoder α V) : StreamDecoder α V := fun x ↦ p (f x)

theorem bind_apply (p : StreamDecoder α V) (f : V → StreamDecoder α W) (x : List α) :
    (p >>= f) x =
      match p x with
      | .fail => .fail
      | .more => .more
      | .ok n v =>
        match f v (x.drop n) with
        | .fail => .fail
        | .more => .more
        | .ok m w => .ok (n + m) w :=
  rfl

@[simp] theorem pure_apply (v : V) (x : List α) : (pure v : StreamDecoder α V) x = .ok 0 v := rfl

@[simp] theorem reject_apply (x : List α) : (reject : StreamDecoder α V) x = .fail := rfl

/-- A program goes on behind what its first part has read. -/
theorem bind_eq_ok {p : StreamDecoder α V} {f : V → StreamDecoder α W} {x : List α} {n : ℕ}
    {w : W} : (p >>= f) x = .ok n w ↔
      ∃ k v m, p x = .ok k v ∧ f v (x.drop k) = .ok m w ∧ k + m = n := by
  rw [bind_apply]
  constructor
  · intro h
    match hp : p x with
    | .fail => simp [hp] at h
    | .more => simp [hp] at h
    | .ok k v =>
      match hf : f v (x.drop k) with
      | .fail => simp [hp, hf] at h
      | .more => simp [hp, hf] at h
      | .ok m u =>
        simp only [hp, hf, Decode.ok.injEq] at h
        exact ⟨k, v, m, rfl, h.2 ▸ hf, h.1⟩
  · rintro ⟨k, v, m, hp, hf, rfl⟩
    simp only [hp, hf]

theorem bind_eq_fail {p : StreamDecoder α V} {f : V → StreamDecoder α W} {x : List α} :
    (p >>= f) x = .fail ↔
      p x = .fail ∨ ∃ k v, p x = .ok k v ∧ f v (x.drop k) = .fail := by
  rw [bind_apply]
  constructor
  · intro h
    match hp : p x with
    | .fail => exact .inl rfl
    | .more => simp [hp] at h
    | .ok k v =>
      match hf : f v (x.drop k) with
      | .fail => exact .inr ⟨k, v, rfl, hf⟩
      | .more => simp [hp, hf] at h
      | .ok m u => simp [hp, hf] at h
  · rintro (hp | ⟨k, v, hp, hf⟩)
    · simp only [hp]
    · simp only [hp, hf]

theorem recording_eq_ok {α V : Type v} {p : StreamDecoder α V} {x : List α} {n : ℕ}
    {r : V × List α} : p.recording x = .ok n r ↔ p x = .ok n r.1 ∧ r.2 = x.take n := by
  unfold recording
  match hp : p x with
  | .fail => simp
  | .more => simp
  | .ok k v =>
    simp only [Decode.ok.injEq, Prod.ext_iff]
    constructor
    · rintro ⟨rfl, rfl, h⟩
      exact ⟨⟨rfl, rfl⟩, h.symm⟩
    · rintro ⟨⟨rfl, rfl⟩, h⟩
      exact ⟨rfl, rfl, h.symm⟩

theorem recording_eq_fail {α V : Type v} {p : StreamDecoder α V} {x : List α} :
    p.recording x = .fail ↔ p x = .fail := by
  unfold recording
  match p x with
  | .fail => simp
  | .more => simp
  | .ok k v => simp

theorem take_eq_ok {α : Type v} {n m : ℕ} {x : List α} {b : {l : List α // l.length = n}} :
    take n x = .ok m b ↔ n ≤ x.length ∧ m = n ∧ b.1 = x.take n := by
  unfold take
  split
  case isTrue h => simp; omega
  case isFalse h =>
    simp only [Decode.ok.injEq, Subtype.ext_iff]
    constructor
    · rintro ⟨rfl, hb⟩
      exact ⟨by omega, rfl, hb.symm⟩
    · rintro ⟨-, rfl, hb⟩
      exact ⟨rfl, hb.symm⟩

/-- A field at the front of the input, and what the rest of the program makes of what is behind
it. -/
theorem take_bind_eq_ok {α W : Type v} {n m : ℕ} {f : {l : List α // l.length = n} →
    StreamDecoder α W} {x : List α} {w : W} :
    (take n >>= f) x = .ok m w ↔ ∃ b rest k, x = b.1 ++ rest ∧ f b rest = .ok k w ∧ m = n + k := by
  rw [bind_eq_ok]
  constructor
  · rintro ⟨k, b, l, hk, hf, rfl⟩
    obtain ⟨-, rfl, hb⟩ := take_eq_ok.1 hk
    exact ⟨b, x.drop k, l, by rw [hb, List.take_append_drop], hf, rfl⟩
  · rintro ⟨b, rest, k, rfl, hf, rfl⟩
    refine ⟨n, b, k, take_eq_ok.2 ⟨?_, rfl, (List.take_left' b.2).symm⟩, ?_, rfl⟩
    · rw [List.length_append, b.2]
      omega
    · rwa [List.drop_left' b.2]

theorem take_ne_fail {α : Type v} (n : ℕ) (x : List α) : take n x ≠ .fail := by
  unfold take
  split <;> simp

/-! ### What a program reads -/

/-- Whatever follows, the program reads exactly `m`, with value `v`. The rules below build such a
fact along the program, so that an encoder's output is read back field by field. -/
def Parses (D : StreamDecoder α V) (m : List α) (v : V) : Prop :=
  ∀ y, D (m ++ y) = .ok m.length v

namespace Parses

theorem pure (v : V) : Parses (Pure.pure v : StreamDecoder α V) [] v := fun _ ↦ rfl

theorem take {α : Type v} {n : ℕ} (b : {l : List α // l.length = n}) :
    Parses (take n) b.1 b := fun y ↦
  take_eq_ok.2 ⟨by simp [b.2], b.2, (List.take_left' b.2).symm⟩

theorem bind {p : StreamDecoder α V} {f : V → StreamDecoder α W} {m m' : List α} {v : V} {w : W}
    (hp : p.Parses m v) (hf : (f v).Parses m' w) : (p >>= f).Parses (m ++ m') w := fun y ↦ by
  rw [List.append_assoc]
  refine bind_eq_ok.2 ⟨m.length, v, m'.length, hp _, ?_, by rw [List.length_append]⟩
  rw [List.drop_left]
  exact hf y

/-- The value can be computed further. -/
theorem bind_pure {p : StreamDecoder α V} {m : List α} {v : V} (hp : p.Parses m v) (f : V → W) :
    (p >>= fun v ↦ Pure.pure (f v)).Parses m (f v) := fun y ↦
  bind_eq_ok.2 ⟨m.length, v, 0, hp y, rfl, rfl⟩

/-- A field, and the rest of the program. -/
theorem take_bind {α W : Type v} {n : ℕ} (b : {l : List α // l.length = n})
    {f : {l : List α // l.length = n} → StreamDecoder α W} {m : List α} {w : W}
    (hf : (f b).Parses m w) : (StreamDecoder.take n >>= f).Parses (b.1 ++ m) w :=
  (Parses.take b).bind hf

/-- A field as the last step of a program. -/
theorem take_pure {α W : Type v} {n : ℕ} (b : {l : List α // l.length = n})
    (g : {l : List α // l.length = n} → W) :
    (StreamDecoder.take n >>= fun l ↦ Pure.pure (g l)).Parses b.1 (g b) :=
  (Parses.take b).bind_pure g

theorem recording {α V : Type v} {p : StreamDecoder α V} {m : List α} {v : V}
    (hp : p.Parses m v) : p.recording.Parses m (v, m) := fun y ↦
  recording_eq_ok.2 ⟨hp y, List.take_left.symm⟩

theorem framed {D : StreamDecoder α V} (hD : D.Streaming) {m : List α} {v : V}
    (h : D.Parses m v) : D.Framed m v :=
  hD.framed (by simpa using h [])

end Parses

/-- The value of a message can be computed further. -/
theorem Framed.bind_pure {D : StreamDecoder α V} {m : List α} {v : V} (h : D.Framed m v)
    (f : V → W) : (D >>= fun v ↦ Pure.pure (f v)).Framed m (f v) where
  pos := h.pos
  more x hx hlt := by rw [bind_apply, h.more x hx hlt]
  ok y := bind_eq_ok.2 ⟨m.length, v, 0, h.ok y, rfl, rfl⟩

/-! ### Incremental decoders -/

/-- Final answers survive the arrival of more input, and nothing past the input is read, nor
anything past what is announced. -/
structure Incremental (D : StreamDecoder α V) : Prop where
  le : ∀ {x n v}, D x = .ok n v → n ≤ x.length
  ok_take : ∀ {x n v}, D x = .ok n v → D (x.take n) = .ok n v
  ok_append : ∀ {x n v} (y : List α), D x = .ok n v → D (x ++ y) = .ok n v
  fail_append : ∀ {x} (y : List α), D x = .fail → D (x ++ y) = .fail

namespace Incremental

theorem pure (v : V) : Incremental (Pure.pure v : StreamDecoder α V) where
  le h := by
    obtain ⟨rfl, -⟩ := Decode.ok.inj h
    omega
  ok_take h := h
  ok_append _ h := h
  fail_append _ h := absurd h (by simp)

theorem reject : Incremental (reject : StreamDecoder α V) where
  le h := absurd h (by simp)
  ok_take h := absurd h (by simp)
  ok_append _ h := absurd h (by simp)
  fail_append _ _ := rfl

theorem take {α : Type v} (n : ℕ) : Incremental (take n : StreamDecoder α _) where
  le h := by
    obtain ⟨hle, rfl, -⟩ := take_eq_ok.1 h
    exact hle
  ok_take h := by
    obtain ⟨hle, rfl, hb⟩ := take_eq_ok.1 h
    exact take_eq_ok.2 ⟨by simp; omega, rfl, by rw [hb, List.take_take, Nat.min_self]⟩
  ok_append y h := by
    obtain ⟨hle, rfl, hb⟩ := take_eq_ok.1 h
    exact take_eq_ok.2 ⟨by simp; omega, rfl, by rw [hb, List.take_append_of_le_length hle]⟩
  fail_append {x} _ h := absurd h (take_ne_fail n x)

theorem bind {p : StreamDecoder α V} {f : V → StreamDecoder α W} (hp : p.Incremental)
    (hf : ∀ v, (f v).Incremental) : (p >>= f).Incremental where
  le h := by
    obtain ⟨k, v, m, hk, hm, rfl⟩ := bind_eq_ok.1 h
    have h₁ := hp.le hk
    have h₂ := (hf v).le hm
    rw [List.length_drop] at h₂
    omega
  ok_take {x n w} h := by
    obtain ⟨k, v, m, hk, hm, rfl⟩ := bind_eq_ok.1 h
    refine bind_eq_ok.2 ⟨k, v, m, ?_, ?_, rfl⟩
    · have hsplit : x.take (k + m) = x.take k ++ (x.drop k).take m := List.take_add
      rw [hsplit]
      exact hp.ok_append _ (hp.ok_take hk)
    · rw [List.drop_take, Nat.add_sub_cancel_left]
      exact (hf v).ok_take hm
  ok_append y h := by
    obtain ⟨k, v, m, hk, hm, rfl⟩ := bind_eq_ok.1 h
    refine bind_eq_ok.2 ⟨k, v, m, hp.ok_append y hk, ?_, rfl⟩
    rw [List.drop_append_of_le_length (hp.le hk)]
    exact (hf v).ok_append y hm
  fail_append y h := by
    obtain hk | ⟨k, v, hk, hm⟩ := bind_eq_fail.1 h
    · exact bind_eq_fail.2 (.inl (hp.fail_append y hk))
    · refine bind_eq_fail.2 (.inr ⟨k, v, hp.ok_append y hk, ?_⟩)
      rw [List.drop_append_of_le_length (hp.le hk)]
      exact (hf v).fail_append y hm

theorem recording {α V : Type v} {p : StreamDecoder α V} (hp : p.Incremental) :
    p.recording.Incremental where
  le h := hp.le (recording_eq_ok.1 h).1
  ok_take h := by
    obtain ⟨hk, hr⟩ := recording_eq_ok.1 h
    exact recording_eq_ok.2 ⟨hp.ok_take hk, by rw [hr, List.take_take, Nat.min_self]⟩
  ok_append y h := by
    obtain ⟨hk, hr⟩ := recording_eq_ok.1 h
    refine recording_eq_ok.2 ⟨hp.ok_append y hk, ?_⟩
    rw [hr, List.take_append_of_le_length (hp.le hk)]
  fail_append y h := recording_eq_fail.2 (hp.fail_append y (recording_eq_fail.1 h))

theorem ite {P : Prop} [Decidable P] {p q : StreamDecoder α V} (hp : p.Incremental)
    (hq : q.Incremental) : (if P then p else q).Incremental := by
  split <;> assumption

theorem takeThrough {α : Type v} (p : α → Bool) : (takeThrough p).Incremental where
  le {x n v} h := by
    unfold StreamDecoder.takeThrough at h
    split at h
    · obtain ⟨rfl, -⟩ := Decode.ok.inj h
      omega
    · exact absurd h (by simp)
  ok_take {x n v} h := by
    unfold StreamDecoder.takeThrough at h ⊢
    split at h
    case isTrue hlt =>
      obtain ⟨rfl, rfl⟩ := Decode.ok.inj h
      have hidx : (x.take (x.findIdx p + 1)).findIdx p = x.findIdx p := by
        have happ : (x.take (x.findIdx p + 1) ++ x.drop (x.findIdx p + 1)).findIdx p =
            x.findIdx p := by rw [List.take_append_drop]
        rw [List.findIdx_append] at happ
        split at happ
        · exact happ
        · rw [List.length_take] at happ
          omega
      have hlen : (x.take (x.findIdx p + 1)).length = x.findIdx p + 1 := by
        rw [List.length_take]
        omega
      rw [hidx, hlen, if_pos (Nat.lt_succ_self _), List.take_take, Nat.min_self]
    case isFalse => exact absurd h (by simp)
  ok_append {x n v} y h := by
    unfold StreamDecoder.takeThrough at h ⊢
    split at h
    case isTrue hlt =>
      rw [List.findIdx_append, if_pos hlt, if_pos (by rw [List.length_append]; omega),
        List.take_append_of_le_length hlt, h]
    case isFalse => exact absurd h (by simp)
  fail_append {x} y h := by
    unfold StreamDecoder.takeThrough at h
    split at h <;> exact absurd h (by simp)

/-- Reading through a transformation that keeps lengths and maps prefixes to prefixes. -/
theorem through {p : StreamDecoder α V} {f : List α → List α} (hp : p.Incremental)
    (hlen : ∀ x, (f x).length = x.length) (hpre : ∀ x y, f x <+: f (x ++ y)) :
    (p.through f).Incremental where
  le {x n v} h := (hp.le h).trans (hlen x).le
  ok_take {x n v} h := by
    have hle : n ≤ x.length := (hp.le h).trans (hlen x).le
    have hpre' : f (x.take n) <+: f x := by
      simpa [List.take_append_drop] using hpre (x.take n) (x.drop n)
    have htake : f (x.take n) = (f x).take n := by
      rw [List.prefix_iff_eq_take.1 hpre', hlen, List.length_take, Nat.min_eq_left hle]
    rw [StreamDecoder.through, htake]
    exact hp.ok_take h
  ok_append {x n v} y h := by
    obtain ⟨t, ht⟩ := hpre x y
    rw [StreamDecoder.through, ← ht]
    exact hp.ok_append t h
  fail_append {x} y h := by
    obtain ⟨t, ht⟩ := hpre x y
    rw [StreamDecoder.through, ← ht]
    exact hp.fail_append t h

/-- **A program that reads a field first is streaming, and prompt.** -/
theorem prompt_bind_take {α W : Type v} {n : ℕ} (hn : 0 < n)
    {f : {l : List α // l.length = n} → StreamDecoder α W} (hf : ∀ b, (f b).Incremental) :
    (StreamDecoder.take n >>= f).Prompt := by
  have hinc : (StreamDecoder.take n >>= f).Incremental := (Incremental.take n).bind hf
  refine ⟨⟨?_, ?_, hinc.le, hinc.ok_append, hinc.fail_append⟩, hinc.ok_take⟩
  · rw [bind_apply, StreamDecoder.take, dif_pos (by simpa using hn)]
  · intro x m w h
    obtain ⟨k, b, l, hk, -, rfl⟩ := bind_eq_ok.1 h
    obtain ⟨-, rfl, -⟩ := take_eq_ok.1 hk
    omega

end Incremental

namespace Prompt

/-- A prompt decoder can be part of a program. -/
theorem incremental {D : StreamDecoder α V} (hD : D.Prompt) : D.Incremental where
  le := hD.le
  ok_take := hD.ok_take
  ok_append := hD.ok_append
  fail_append := hD.fail_append

/-- And it can be the first part. -/
theorem bind {p : StreamDecoder α V} {f : V → StreamDecoder α W} (hp : p.Prompt)
    (hf : ∀ v, (f v).Incremental) : (p >>= f).Prompt := by
  have hinc : (p >>= f).Incremental := hp.incremental.bind hf
  refine ⟨⟨?_, ?_, hinc.le, hinc.ok_append, hinc.fail_append⟩, hinc.ok_take⟩
  · rw [bind_apply, hp.nil]
  · intro x n w h
    obtain ⟨k, v, m, hk, -, rfl⟩ := bind_eq_ok.1 h
    exact (hp.pos hk).trans_le (Nat.le_add_right k m)

theorem peek {f : α → StreamDecoder α V} (hf : ∀ a, (f a).Incremental)
    (hpos : ∀ a {x n v}, f a x = .ok n v → 0 < n) : (peek f).Prompt where
  nil := rfl
  pos {x n v} h := by
    cases x with
    | nil => exact absurd h (by simp [StreamDecoder.peek])
    | cons a x => exact hpos a h
  le {x n v} h := by
    cases x with
    | nil => exact absurd h (by simp [StreamDecoder.peek])
    | cons a x => exact (hf a).le h
  ok_append {x n v} y h := by
    cases x with
    | nil => exact absurd h (by simp [StreamDecoder.peek])
    | cons a x => exact (hf a).ok_append y h
  fail_append {x} y h := by
    cases x with
    | nil => exact absurd h (by simp [StreamDecoder.peek])
    | cons a x => exact (hf a).fail_append y h
  ok_take {x n v} h := by
    cases x with
    | nil => exact absurd h (by simp [StreamDecoder.peek])
    | cons a x =>
      obtain ⟨n, rfl⟩ : ∃ k, n = k + 1 := ⟨n - 1, by have := hpos a h; omega⟩
      exact (hf a).ok_take h

end Prompt

/-! ### What all messages have in common -/

section

variable {α : Type u} {V W : Type v}

/-- Every message has the property `P`. -/
def Yields (D : StreamDecoder α V) (P : V → Prop) : Prop := ∀ x n v, D x = .ok n v → P v

namespace Yields

theorem pure {v : V} {P : V → Prop} (h : P v) : Yields (Pure.pure v : StreamDecoder α V) P := by
  intro x n w hok
  obtain ⟨-, rfl⟩ := Decode.ok.inj hok
  exact h

theorem reject {P : V → Prop} : Yields (StreamDecoder.reject : StreamDecoder α V) P :=
  fun _ _ _ h ↦ absurd h (by simp)

/-- What the rest of a program makes of all that its first part may yield. -/
theorem bind {p : StreamDecoder α V} {f : V → StreamDecoder α W} {Q : V → Prop} {P : W → Prop}
    (hp : p.Yields Q) (hf : ∀ v, Q v → (f v).Yields P) : (p >>= f).Yields P := by
  intro x n w h
  obtain ⟨k, v, m, hv, hw, -⟩ := bind_eq_ok.1 h
  exact hf v (hp _ _ _ hv) _ _ _ hw

/-- And of anything. -/
theorem of_forall {p : StreamDecoder α V} {f : V → StreamDecoder α W} {P : W → Prop}
    (hf : ∀ v, (f v).Yields P) : (p >>= f).Yields P :=
  bind (Q := fun _ ↦ True) (fun _ _ _ _ ↦ trivial) fun v _ ↦ hf v

theorem ite {c : Prop} [Decidable c] {p q : StreamDecoder α V} {P : V → Prop} (hp : p.Yields P)
    (hq : q.Yields P) : (if c then p else q).Yields P := by
  split <;> assumption

theorem recording {α V : Type v} {p : StreamDecoder α V} {P : V → Prop} (hp : p.Yields P) :
    p.recording.Yields fun r ↦ P r.1 :=
  fun _ _ _ h ↦ hp _ _ _ (recording_eq_ok.1 h).1

theorem through {p : StreamDecoder α V} {P : V → Prop} (hp : p.Yields P) (f : List α → List α) :
    (StreamDecoder.through f p).Yields P :=
  fun x _ _ h ↦ hp (f x) _ _ h

end Yields

end

end StreamDecoder
