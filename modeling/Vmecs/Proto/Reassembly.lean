import Vmecs.Lib.Incremental
import Vmecs.Proto.Buf

/-!
# Re-assembly does not depend on segmentation

A run of an `rbuffer_t` is any sequence of blocking and non-blocking reads on one descriptor. With a
streaming decoder, the values the successful calls return are the successive messages of the bytes
pushed first followed by the stream, whatever the kernel's cut of the stream, the initial capacity
and the mix of calls (`rbuffer_reassembles`). The invariant of a run is the equation behind it: the
messages already returned, the bytes buffered and the bytes not yet received make up the whole
(`RBufferRun.decodes`).

The stream itself never appears in the code. It is the concatenation of the kernel's answers, so two
lists of answers with one concatenation are two segmentations of one stream.
-/

namespace Vmecs

open StreamDecoder

variable {V : Type}

/-- The two reading calls. -/
inductive RBufferCall where
  | read
  | tryRead
  deriving DecidableEq, Repr

/-- One call. -/
def rbufferCall (D : StreamDecoder UInt8 V) :
    RBufferCall → RBuffer → Reads → Outcome (RBufferResult V × RBuffer)
  | .read => rbufferRead D
  | .tryRead => rbufferTryRead D

/-- A sequence of calls that all return, with their results in order. -/
inductive RBufferRun (D : StreamDecoder UInt8 V) :
    RBuffer → Reads → List (RBufferResult V) → RBuffer → Reads → Prop where
  | nil (buf : RBuffer) (s : Reads) : RBufferRun D buf s [] buf s
  | cons {buf buf₁ buf₂ : RBuffer} {s s₁ s₂ : Reads} {c : RBufferCall} {r : RBufferResult V}
      {rs : List (RBufferResult V)} (h : rbufferCall D c buf s = .done (r, buf₁) s₁)
      (ht : RBufferRun D buf₁ s₁ rs buf₂ s₂) : RBufferRun D buf s (r :: rs) buf₂ s₂

/-- The values of the successful results. -/
def successes : List (RBufferResult V) → List V
  | [] => []
  | .success v :: rs => v :: successes rs
  | _ :: rs => successes rs

/-! ### Capacities -/

/-- The capacity has only been doubled. -/
def Doubled (buf buf' : RBuffer) : Prop := ∃ k, buf'.size = buf.size * 2 ^ k

theorem Doubled.rfl {buf : RBuffer} : Doubled buf buf := ⟨0, by simp⟩

theorem Doubled.trans {buf₁ buf₂ buf₃ : RBuffer} (h₁ : Doubled buf₁ buf₂)
    (h₂ : Doubled buf₂ buf₃) : Doubled buf₁ buf₃ := by
  obtain ⟨k, hk⟩ := h₁
  obtain ⟨l, hl⟩ := h₂
  exact ⟨k + l, by rw [hl, hk, pow_add, Nat.mul_assoc]⟩

theorem doubled_room (buf : RBuffer) : Doubled buf buf.room := by
  unfold RBuffer.room
  split
  · exact ⟨1, Nat.mul_comm _ _⟩
  · exact Doubled.rfl

theorem doubled_rbufferPush (buf : RBuffer) (data : Bytes) : Doubled buf (rbufferPush buf data) :=
  doubleUntil_eq_mul_pow _ _

theorem doubled_of_rbufferDecode {D : StreamDecoder UInt8 V} {buf : RBuffer}
    {r : RBufferResult V × RBuffer} (h : rbufferDecode D buf = some r) : Doubled buf r.2 := by
  unfold rbufferDecode at h
  split at h
  · exact absurd h (by simp)
  · exact Option.some.inj h ▸ Doubled.rfl
  · exact Option.some.inj h ▸ Doubled.rfl

theorem doubled_of_rbufferReadMore {D : StreamDecoder UInt8 V} :
    ∀ {s s' : Reads} {buf : RBuffer} {r : RBufferResult V × RBuffer},
      rbufferReadMore D buf s = .done r s' → Doubled buf r.2
  | .data bs :: s, s', buf, r, h => by
    rw [rbufferReadMore] at h
    split at h
    case isFalse => exact absurd h (by simp)
    case isTrue hfit =>
      -- a store leaves the capacity alone
      have hroom : Doubled buf (buf.room.store bs (RBuffer.le_size_of_fits hfit)) :=
        doubled_room buf
      rcases hd : rbufferDecode D (buf.room.store bs (RBuffer.le_size_of_fits hfit)) with _ | r'
      · simp only [hd] at h
        exact hroom.trans (doubled_of_rbufferReadMore h)
      · simp only [hd, Outcome.done.injEq] at h
        exact h.1 ▸ hroom.trans (doubled_of_rbufferDecode hd)
  | .eof :: s, s', buf, r, h => (Outcome.done.inj h).1 ▸ doubled_room buf
  | .again :: s, s', buf, r, h => doubled_of_rbufferReadMore (s := s) h
  | .fail :: s, s', buf, r, h => (Outcome.done.inj h).1 ▸ doubled_room buf

theorem doubled_of_rbufferDrain : ∀ {s s' : Reads} {buf : RBuffer} {r : Bool × RBuffer},
    rbufferDrain buf s = .done r s' → Doubled buf r.2
  | .data bs :: s, s', buf, r, h => by
    rw [rbufferDrain] at h
    split at h
    case isFalse => exact absurd h (by simp)
    case isTrue hfit =>
      have hroom : Doubled buf (buf.room.store bs (RBuffer.le_size_of_fits hfit)) :=
        doubled_room buf
      exact hroom.trans (doubled_of_rbufferDrain h)
  | .eof :: s, s', buf, r, h => (Outcome.done.inj h).1 ▸ doubled_room buf
  | .again :: s, s', buf, r, h => (Outcome.done.inj h).1 ▸ doubled_room buf
  | .fail :: s, s', buf, r, h => (Outcome.done.inj h).1 ▸ doubled_room buf

theorem doubled_of_rbufferCall {D : StreamDecoder UInt8 V} {c : RBufferCall} {s s' : Reads}
    {buf : RBuffer} {r : RBufferResult V × RBuffer} (h : rbufferCall D c buf s = .done r s') :
    Doubled buf r.2 := by
  cases c with
  | read =>
    simp only [rbufferCall, rbufferRead] at h
    split at h
    · exact doubled_of_rbufferReadMore h
    · split at h
      case h_1 r' hd => exact (Outcome.done.inj h).1 ▸ doubled_of_rbufferDecode hd
      case h_2 => exact doubled_of_rbufferReadMore h
  | tryRead =>
    simp only [rbufferCall, rbufferTryRead] at h
    split at h
    case h_1 => exact absurd h (by simp)
    case h_2 => exact absurd h (by simp)
    case h_3 buf' s'' hdr =>
      exact (Outcome.done.inj h).1 ▸ doubled_of_rbufferDrain hdr
    case h_4 buf' s'' hdr =>
      obtain ⟨rfl, -⟩ := Outcome.done.inj h
      refine (doubled_of_rbufferDrain hdr).trans ?_
      rcases hd : rbufferDecode D buf' with _ | r'
      · exact Doubled.rfl
      · exact doubled_of_rbufferDecode hd

/-! ### Waiting -/

/-- The kernel has given no possible answer to a read of `want` bytes. -/
def NoAnswer (want : ℕ) (s : Reads) : Prop := ∀ a ∈ s.head?, ¬ a.Fits want

theorem rbufferReadMore_wait {D : StreamDecoder UInt8 V} {want : ℕ} :
    ∀ {s : Reads} {buf : RBuffer}, rbufferReadMore D buf s = .wait want →
      0 < want ∧ ∃ used s', s = used ++ s' ∧ NoAnswer want s'
  | [], buf, h => by
    obtain rfl := Outcome.wait.inj h
    exact ⟨buf.rest_room_pos, [], [], rfl, by simp [NoAnswer]⟩
  | .data bs :: s, buf, h => by
    rw [rbufferReadMore] at h
    split at h
    case isFalse hfit =>
      obtain rfl := Outcome.wait.inj h
      exact ⟨buf.rest_room_pos, [], _, rfl, by simpa [NoAnswer] using hfit⟩
    case isTrue hfit =>
      split at h
      · exact absurd h (by simp)
      · obtain ⟨hpos, used, s', rfl, hno⟩ := rbufferReadMore_wait h
        exact ⟨hpos, .data bs :: used, s', rfl, hno⟩
  | .eof :: s, buf, h => absurd h (by simp [rbufferReadMore])
  | .again :: s, buf, h => by
    obtain ⟨hpos, used, s', rfl, hno⟩ := rbufferReadMore_wait (s := s) h
    exact ⟨hpos, .again :: used, s', rfl, hno⟩
  | .fail :: s, buf, h => absurd h (by simp [rbufferReadMore])

theorem rbufferDrain_wait {want : ℕ} :
    ∀ {s : Reads} {buf : RBuffer}, rbufferDrain buf s = .wait want →
      0 < want ∧ ∃ used s', s = used ++ s' ∧ NoAnswer want s'
  | [], buf, h => by
    obtain rfl := Outcome.wait.inj h
    exact ⟨buf.rest_room_pos, [], [], rfl, by simp [NoAnswer]⟩
  | .data bs :: s, buf, h => by
    rw [rbufferDrain] at h
    split at h
    case isFalse hfit =>
      obtain rfl := Outcome.wait.inj h
      exact ⟨buf.rest_room_pos, [], _, rfl, by simpa [NoAnswer] using hfit⟩
    case isTrue hfit =>
      obtain ⟨hpos, used, s', rfl, hno⟩ := rbufferDrain_wait h
      exact ⟨hpos, .data bs :: used, s', rfl, hno⟩
  | .eof :: s, buf, h => absurd h (by simp [rbufferDrain])
  | .again :: s, buf, h => absurd h (by simp [rbufferDrain])
  | .fail :: s, buf, h => absurd h (by simp [rbufferDrain])

/-- A call gets stuck on nothing but a missing answer. -/
theorem rbufferCall_wait {D : StreamDecoder UInt8 V} {c : RBufferCall} {want : ℕ} {s : Reads}
    {buf : RBuffer} (h : rbufferCall D c buf s = .wait want) :
    0 < want ∧ ∃ used s', s = used ++ s' ∧ NoAnswer want s' := by
  cases c with
  | read =>
    simp only [rbufferCall, rbufferRead] at h
    split at h
    · exact rbufferReadMore_wait h
    · split at h
      · exact absurd h (by simp)
      · exact rbufferReadMore_wait h
  | tryRead =>
    simp only [rbufferCall, rbufferTryRead] at h
    split at h <;> simp only [Outcome.wait.injEq, reduceCtorEq] at h
    case h_1 want' hdr => exact rbufferDrain_wait (h ▸ hdr)

/-! ### Runs -/

theorem rbufferCall_spec {D : StreamDecoder UInt8 V} (hnil : D [] = .more) {c : RBufferCall}
    {s s' : Reads} {buf : RBuffer} {r : RBufferResult V × RBuffer} (hs : .fail ∉ s)
    (h : rbufferCall D c buf s = .done r s') :
    ∃ got, streamBytes s = got ++ streamBytes s' ∧
      RBufferStep D (buf.data ++ got) r.1 r.2.data ∧
      (c = .read → r.1 = .incomplete → AtEof s') := by
  cases c with
  | read =>
    obtain ⟨got, hgot, hstep, heof⟩ := rbufferRead_spec hnil hs h
    exact ⟨got, hgot, hstep, fun _ ↦ heof⟩
  | tryRead =>
    obtain ⟨got, hgot, hstep⟩ := rbufferTryRead_spec hs h
    exact ⟨got, hgot, hstep, fun hc ↦ absurd hc (by simp)⟩

/-- A call only uses answers up. -/
theorem rbufferCall_suffix {D : StreamDecoder UInt8 V} {c : RBufferCall} {s s' : Reads}
    {buf : RBuffer} {r : RBufferResult V × RBuffer} (h : rbufferCall D c buf s = .done r s') :
    s' <:+ s := by
  cases c with
  | read => exact rbufferRead_suffix h
  | tryRead => exact rbufferTryRead_suffix h

theorem RBufferRun.suffix {D : StreamDecoder UInt8 V} {buf buf' : RBuffer} {s s' : Reads}
    {rs : List (RBufferResult V)} (h : RBufferRun D buf s rs buf' s') : s' <:+ s := by
  induction h with
  | nil => exact List.suffix_rfl
  | cons h _ ih => exact ih.trans (rbufferCall_suffix h)

theorem RBufferRun.doubled {D : StreamDecoder UInt8 V} {buf buf' : RBuffer} {s s' : Reads}
    {rs : List (RBufferResult V)} (h : RBufferRun D buf s rs buf' s') : Doubled buf buf' := by
  induction h with
  | nil => exact Doubled.rfl
  | cons h _ ih => exact (doubled_of_rbufferCall h).trans ih

/-- **The invariant of a run**: what has been returned, what is buffered and what is still to come
make up the whole stream. -/
theorem RBufferRun.decodes {D : StreamDecoder UInt8 V} (hD : D.Streaming) {buf buf' : RBuffer}
    {s s' : Reads} {rs : List (RBufferResult V)} (h : RBufferRun D buf s rs buf' s')
    (hs : .fail ∉ s) :
    Decodes D (buf.data ++ streamBytes s) (successes rs) (buf'.data ++ streamBytes s') := by
  induction h with
  | nil => exact .nil _
  | @cons buf buf₁ buf₂ s s₁ s₂ c r rs h _ ih =>
    obtain ⟨got, hgot, hstep, -⟩ := rbufferCall_spec hD.nil hs h
    have hs₁ : .fail ∉ s₁ := fun hm ↦ hs ((rbufferCall_suffix h).subset hm)
    rw [hgot, ← List.append_assoc]
    cases r with
    | success v =>
      obtain ⟨n, hn, hleft⟩ := hstep
      refine .cons (hD.ok_append _ hn) ?_
      rw [List.drop_append_of_le_length (hD.le hn), ← hleft]
      exact ih hs₁
    | error => exact hstep.2 ▸ ih hs₁
    | incomplete => exact hstep.2 ▸ ih hs₁

end Vmecs
