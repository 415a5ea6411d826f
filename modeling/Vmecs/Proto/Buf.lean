import Vmecs.Lib.Doubling
import Vmecs.Lib.StreamDecoder
import Vmecs.Pub.Fd

/-!
# Read buffers (`proto/buf.c`)

Two growing buffers. An `rbuffer_t` re-assembles messages from a descriptor: it keeps the bytes
received and not yet decoded, and offers them to a decoder each time more have come in. A
`vbuffer_t` holds decoded bytes that a reader had no room for.

A buffer is the list of its first `w_idx` bytes together with its capacity; the bound between the
two is a field, so every store (`RBuffer.store`, `vbufferWrite`) owes the proof that it stays inside
the block. Both reading functions of an `rbuffer_t` end with the decoder run once more on everything
buffered; `RBufferStep` says what each result code then means, and `rbufferRead_spec` and
`rbufferTryRead_spec` reduce the two loops to it. The loops differ (one decodes before it reads and
after each read, the other reads until nothing more is there), and that is all `RBufferStep` leaves
out.
-/

namespace Vmecs

variable {V : Type}

/-! ### The re-assembly buffer -/

/-- `rbuffer_t`: the bytes received and not yet decoded (`w_idx` of them), and the capacity. -/
structure RBuffer where
  data : Bytes
  size : ℕ
  size_pos : 0 < size
  data_le : data.length ≤ size

/-- `rbuffer_result_t`; the decoder's `result` comes with success. -/
inductive RBufferResult (V : Type) where
  | success (v : V)
  | error
  | incomplete
  deriving DecidableEq, Repr

/-- `rbuffer_new`. -/
def rbufferNew (init : ℕ) : RBuffer where
  data := []
  size := if init > 1 then init else 1
  size_pos := by split <;> omega
  data_le := Nat.zero_le _

namespace RBuffer

/-- Grow to the capacity at which a doubling loop ends. -/
def growTo (buf : RBuffer) (need : ℕ) : RBuffer :=
  { buf with
    size := doubleUntil need buf.size
    size_pos := buf.size_pos.trans_le (self_le_doubleUntil _ _)
    data_le := buf.data_le.trans (self_le_doubleUntil _ _) }

/-- Store behind the buffered bytes, inside the block. -/
def store (buf : RBuffer) (bs : Bytes) (h : buf.data.length + bs.length ≤ buf.size) : RBuffer :=
  { buf with
    data := buf.data ++ bs
    data_le := by rwa [List.length_append] }

/-- `w_idx -= n` and the `memmove` of what is left. -/
def consume (buf : RBuffer) (n : ℕ) : RBuffer :=
  { buf with
    data := buf.data.drop n
    data_le := ((List.drop_sublist n buf.data).length_le).trans buf.data_le }

/-- The buffer with room for a read: `if (w_idx >= size) _rbuffer_expand`. -/
def room (buf : RBuffer) : RBuffer :=
  if buf.data.length ≥ buf.size then
    { buf with
      size := 2 * buf.size
      size_pos := by have := buf.size_pos; omega
      data_le := by have := buf.data_le; omega }
  else buf

/-- `rest = size - w_idx`: how many bytes a read asks for. -/
def rest (buf : RBuffer) : ℕ := buf.size - buf.data.length

@[simp] theorem data_growTo (buf : RBuffer) (need : ℕ) : (buf.growTo need).data = buf.data := rfl

@[simp] theorem data_store (buf : RBuffer) (bs : Bytes) (h) :
    (buf.store bs h).data = buf.data ++ bs := rfl

@[simp] theorem data_consume (buf : RBuffer) (n : ℕ) :
    (buf.consume n).data = buf.data.drop n := rfl

@[simp] theorem data_room (buf : RBuffer) : buf.room.data = buf.data := by
  unfold room
  split <;> rfl

/-- A read always asks for something. -/
theorem rest_room_pos (buf : RBuffer) : 0 < buf.room.rest := by
  have h₁ := buf.size_pos
  have h₂ := buf.data_le
  unfold room rest
  split
  · show 0 < 2 * buf.size - buf.data.length
    omega
  · omega

/-- An empty buffer has room. -/
theorem room_of_nil {buf : RBuffer} (h : buf.data = []) : buf.room = buf := by
  have hpos := buf.size_pos
  refine if_neg ?_
  rw [h]
  exact Nat.not_le.2 hpos

/-- What fits a read fits the block. -/
theorem le_size_of_fits {buf : RBuffer} {bs : Bytes}
    (h : (ReadAnswer.data bs).Fits buf.rest) : buf.data.length + bs.length ≤ buf.size := by
  have h₁ : bs.length ≤ buf.size - buf.data.length := h.2
  have h₂ := buf.data_le
  omega

end RBuffer

/-- `rbuffer_push`: `while (w_idx + size >= buf->size) _rbuffer_expand`, then the copy. -/
def rbufferPush (buf : RBuffer) (data : Bytes) : RBuffer :=
  (buf.growTo (buf.data.length + data.length + 1)).store data <| by
    have := le_doubleUntil (buf.data.length + data.length + 1) buf.size_pos
    show buf.data.length + data.length ≤ doubleUntil _ _
    omega

@[simp] theorem data_rbufferPush (buf : RBuffer) (data : Bytes) :
    (rbufferPush buf data).data = buf.data ++ data := rfl

/-- Run the decoder on the bytes buffered. `none`: not enough data, the caller reads on or gives
up. -/
def rbufferDecode (D : StreamDecoder UInt8 V) (buf : RBuffer) :
    Option (RBufferResult V × RBuffer) :=
  match D buf.data with
  | .more => none
  | .fail => some (.error, buf)
  | .ok n v => some (.success v, buf.consume n)

/-- The loop of `rbuffer_read` from a turn that reads on (`should_read`, or an empty buffer): make
room, read, decode, and turn again while the decoder asks for more. -/
def rbufferReadMore (D : StreamDecoder UInt8 V) :
    RBuffer → Reads → Outcome (RBufferResult V × RBuffer)
  | buf, [] => .wait buf.room.rest
  | buf, .data bs :: s =>
    if h : (ReadAnswer.data bs).Fits buf.room.rest then
      match rbufferDecode D (buf.room.store bs (RBuffer.le_size_of_fits h)) with
      | some r => .done r s
      | none => rbufferReadMore D (buf.room.store bs (RBuffer.le_size_of_fits h)) s
    else .wait buf.room.rest
  | buf, .eof :: s => .done (.incomplete, buf.room) (.eof :: s)
  | buf, .again :: s => rbufferReadMore D buf s
  | buf, .fail :: s => .done (.error, buf.room) s

/-- `rbuffer_read`: decode first what is there, and read on only when that is not enough. -/
def rbufferRead (D : StreamDecoder UInt8 V) (buf : RBuffer) (s : Reads) :
    Outcome (RBufferResult V × RBuffer) :=
  if buf.data.length = 0 then rbufferReadMore D buf s
  else
    match rbufferDecode D buf with
    | some r => .done r s
    | none => rbufferReadMore D buf s

/-- The reading loop of `rbuffer_try_read`: take everything the descriptor has. `false`: a read
failed. -/
def rbufferDrain : RBuffer → Reads → Outcome (Bool × RBuffer)
  | buf, [] => .wait buf.room.rest
  | buf, .data bs :: s =>
    if h : (ReadAnswer.data bs).Fits buf.room.rest then
      rbufferDrain (buf.room.store bs (RBuffer.le_size_of_fits h)) s
    else .wait buf.room.rest
  | buf, .eof :: s => .done (true, buf.room) (.eof :: s)
  | buf, .again :: s => .done (true, buf.room) s
  | buf, .fail :: s => .done (false, buf.room) s

/-- `rbuffer_try_read`: drain the descriptor, then decode once. -/
def rbufferTryRead (D : StreamDecoder UInt8 V) (buf : RBuffer) (s : Reads) :
    Outcome (RBufferResult V × RBuffer) :=
  match rbufferDrain buf s with
  | .wait want => .wait want
  | .abort => .abort
  | .done (false, buf') s' => .done (.error, buf') s'
  | .done (true, buf') s' => .done ((rbufferDecode D buf').getD (.incomplete, buf')) s'

/-! ### What a call does -/

/-- The meaning of a result: the decoder ran last on `full`, and `left` stays in the buffer. -/
def RBufferStep (D : StreamDecoder UInt8 V) (full : Bytes) (r : RBufferResult V)
    (left : Bytes) : Prop :=
  match r with
  | .success v => ∃ n, D full = .ok n v ∧ left = full.drop n
  | .error => D full = .fail ∧ left = full
  | .incomplete => D full = .more ∧ left = full

/-- A decoder that asks for more has an incomplete message. -/
theorem RBufferStep.of_more {D : StreamDecoder UInt8 V} {full left : Bytes} {r : RBufferResult V}
    (h : RBufferStep D full r left) (hmore : D full = .more) : r = .incomplete ∧ left = full := by
  match r with
  | .success _ => exact absurd (hmore.symm.trans h.choose_spec.1) (by simp)
  | .error => exact absurd (hmore.symm.trans h.1) (by simp)
  | .incomplete => exact ⟨rfl, h.2⟩

/-- What a call finds at the front of a stream that begins with a message: not all of it, or the
message. -/
theorem RBufferStep.of_framed {D : StreamDecoder UInt8 V} {m x y rest left : Bytes} {v : V}
    {r : RBufferResult V} (h : RBufferStep D x r left) (hm : D.Framed m v)
    (hx : x ++ y = m ++ rest) :
    (r = .incomplete ∧ left = x ∧ y ≠ []) ∨ (r = .success v ∧ left ++ y = rest) := by
  have hD := hm.of_isPrefix (hx ▸ List.prefix_append x y)
  split at hD
  case isTrue hlt =>
    obtain ⟨hr, hleft⟩ := h.of_more hD
    refine .inl ⟨hr, hleft, fun hy ↦ ?_⟩
    rw [hy, List.append_nil] at hx
    rw [hx, List.length_append] at hlt
    omega
  case isFalse hge =>
    match r with
    | .success _ =>
      obtain ⟨n, hn, rfl⟩ := h
      obtain ⟨rfl, rfl⟩ := Decode.ok.inj (hD.symm.trans hn)
      refine .inr ⟨rfl, ?_⟩
      rw [← List.drop_append_of_le_length (Nat.le_of_not_lt hge), hx, List.drop_left]
    | .error => exact absurd (hD.symm.trans h.1) (by simp)
    | .incomplete => exact absurd (hD.symm.trans h.1) (by simp)

theorem rbufferStep_of_rbufferDecode {D : StreamDecoder UInt8 V} {buf : RBuffer}
    {r : RBufferResult V × RBuffer} (h : rbufferDecode D buf = some r) :
    RBufferStep D buf.data r.1 r.2.data := by
  unfold rbufferDecode at h
  match hd : D buf.data with
  | .more => simp [hd] at h
  | .fail =>
    simp only [hd, Option.some.injEq] at h
    exact h ▸ ⟨hd, rfl⟩
  | .ok n v =>
    simp only [hd, Option.some.injEq] at h
    exact h ▸ ⟨n, hd, rfl⟩

theorem rbufferDecode_eq_none {D : StreamDecoder UInt8 V} {buf : RBuffer} :
    rbufferDecode D buf = none ↔ D buf.data = .more := by
  unfold rbufferDecode
  cases D buf.data <;> simp

/-- The blocking loop, from a buffer the decoder has found too short. -/
theorem rbufferReadMore_step {D : StreamDecoder UInt8 V} :
    ∀ {s s' : Reads} {buf : RBuffer} {r : RBufferResult V × RBuffer},
      D buf.data = .more → rbufferReadMore D buf s = .done r s' →
        ∃ got, streamBytes s = got ++ streamBytes s' ∧
          ((RBufferStep D (buf.data ++ got) r.1 r.2.data ∧ (r.1 = .incomplete → AtEof s')) ∨
            (r.1 = .error ∧ .fail ∈ s ∧ r.2.data = buf.data ++ got))
  | .data bs :: s, s', buf, r, hmore, h => by
    rw [rbufferReadMore] at h
    split at h
    case isFalse => exact absurd h (by simp)
    case isTrue hfit =>
      match hd : rbufferDecode D (buf.room.store bs (RBuffer.le_size_of_fits hfit)) with
      | some r' =>
        simp only [hd, Outcome.done.injEq] at h
        obtain ⟨rfl, rfl⟩ := h
        have hstep := rbufferStep_of_rbufferDecode hd
        rw [RBuffer.data_store, RBuffer.data_room] at hstep
        refine ⟨bs, rfl, .inl ⟨hstep, fun hinc ↦ ?_⟩⟩
        -- a decoder that has answered was not short of input
        rw [hinc] at hstep
        rw [rbufferDecode_eq_none.2] at hd
        · exact absurd hd (by simp)
        · rw [RBuffer.data_store, RBuffer.data_room]
          exact hstep.1
      | none =>
        simp only [hd] at h
        obtain ⟨got, hgot, hend⟩ := rbufferReadMore_step (rbufferDecode_eq_none.1 hd) h
        rw [RBuffer.data_store, RBuffer.data_room, List.append_assoc] at hend
        refine ⟨bs ++ got, by rw [streamBytes_data, hgot, List.append_assoc], hend.imp_right ?_⟩
        exact fun ⟨hres, hfail, hdata⟩ ↦ ⟨hres, List.mem_cons_of_mem _ hfail, hdata⟩
  | .eof :: s, s', buf, r, hmore, h => by
    obtain ⟨rfl, rfl⟩ := Outcome.done.inj h
    exact ⟨[], rfl, .inl ⟨by simpa [RBufferStep] using hmore, fun _ ↦ rfl⟩⟩
  | .again :: s, s', buf, r, hmore, h => by
    obtain ⟨got, hgot, hend⟩ := rbufferReadMore_step (s := s) hmore h
    refine ⟨got, hgot, hend.imp_right ?_⟩
    exact fun ⟨hres, hfail, hdata⟩ ↦ ⟨hres, List.mem_cons_of_mem _ hfail, hdata⟩
  | .fail :: s, s', buf, r, hmore, h => by
    obtain ⟨rfl, rfl⟩ := Outcome.done.inj h
    exact ⟨[], rfl, .inr ⟨rfl, List.mem_cons_self, by simp⟩⟩

/-- **`rbuffer_read`**: it takes some bytes off the stream. Unless a read fails, its result is the
decoder's answer on everything then buffered, and it reports an incomplete message only at the end
of the stream. -/
theorem rbufferRead_step {D : StreamDecoder UInt8 V} (hnil : D [] = .more) {s s' : Reads}
    {buf : RBuffer} {r : RBufferResult V × RBuffer} (h : rbufferRead D buf s = .done r s') :
    ∃ got, streamBytes s = got ++ streamBytes s' ∧
      ((RBufferStep D (buf.data ++ got) r.1 r.2.data ∧ (r.1 = .incomplete → AtEof s')) ∨
        (r.1 = .error ∧ .fail ∈ s ∧ r.2.data = buf.data ++ got)) := by
  unfold rbufferRead at h
  split at h
  case isTrue hemp =>
    exact rbufferReadMore_step (by rw [List.length_eq_zero_iff.1 hemp, hnil]) h
  case isFalse hne =>
    match hd : rbufferDecode D buf with
    | some r' =>
      simp only [hd, Outcome.done.injEq] at h
      obtain ⟨rfl, rfl⟩ := h
      have hstep := rbufferStep_of_rbufferDecode hd
      refine ⟨[], rfl, .inl ⟨by simpa using hstep, fun hinc ↦ ?_⟩⟩
      rw [hinc] at hstep
      rw [rbufferDecode_eq_none.2 hstep.1] at hd
      exact absurd hd (by simp)
    | none =>
      simp only [hd] at h
      exact rbufferReadMore_step (rbufferDecode_eq_none.1 hd) h

/-- On a descriptor without read errors. -/
theorem rbufferRead_spec {D : StreamDecoder UInt8 V} (hnil : D [] = .more) {s s' : Reads}
    {buf : RBuffer} {r : RBufferResult V × RBuffer} (hs : .fail ∉ s)
    (h : rbufferRead D buf s = .done r s') :
    ∃ got, streamBytes s = got ++ streamBytes s' ∧
      RBufferStep D (buf.data ++ got) r.1 r.2.data ∧ (r.1 = .incomplete → AtEof s') := by
  obtain ⟨got, hgot, hstep | ⟨-, hfail, -⟩⟩ := rbufferRead_step hnil h
  · exact ⟨got, hgot, hstep⟩
  · exact absurd hfail hs

/-- Draining takes bytes off the stream, up to a would-block answer, the end of the stream or a read
error. -/
theorem rbufferDrain_spec : ∀ {s s' : Reads} {buf buf' : RBuffer} {b : Bool},
    rbufferDrain buf s = .done (b, buf') s' →
      (b = false → .fail ∈ s) ∧
        ∃ got, streamBytes s = got ++ streamBytes s' ∧ buf'.data = buf.data ++ got
  | .data bs :: s, s', buf, buf', b, h => by
    rw [rbufferDrain] at h
    split at h
    case isFalse => exact absurd h (by simp)
    case isTrue hfit =>
      obtain ⟨hb, got, hgot, hdata⟩ := rbufferDrain_spec h
      rw [RBuffer.data_store, RBuffer.data_room, List.append_assoc] at hdata
      exact ⟨fun hf ↦ List.mem_cons_of_mem _ (hb hf), bs ++ got,
        by rw [streamBytes_data, hgot, List.append_assoc], hdata⟩
  | .eof :: s, s', buf, buf', b, h => by
    obtain ⟨hr, rfl⟩ := Outcome.done.inj h
    obtain ⟨rfl, rfl⟩ := Prod.ext_iff.1 hr
    exact ⟨fun hf ↦ absurd hf (by simp), [], rfl, by simp⟩
  | .again :: s, s', buf, buf', b, h => by
    obtain ⟨hr, rfl⟩ := Outcome.done.inj h
    obtain ⟨rfl, rfl⟩ := Prod.ext_iff.1 hr
    exact ⟨fun hf ↦ absurd hf (by simp), [], rfl, by simp⟩
  | .fail :: s, s', buf, buf', b, h => by
    obtain ⟨hr, rfl⟩ := Outcome.done.inj h
    obtain ⟨rfl, rfl⟩ := Prod.ext_iff.1 hr
    exact ⟨fun _ ↦ List.mem_cons_self, [], rfl, by simp⟩

/-- **`rbuffer_try_read`**: as `rbufferRead_spec`, but a message may be incomplete because nothing
more is there yet, and a call may end with a read error. -/
theorem rbufferTryRead_step {D : StreamDecoder UInt8 V} {s s' : Reads} {buf : RBuffer}
    {r : RBufferResult V × RBuffer} (h : rbufferTryRead D buf s = .done r s') :
    ∃ got, streamBytes s = got ++ streamBytes s' ∧
      (RBufferStep D (buf.data ++ got) r.1 r.2.data ∨ (r.1 = .error ∧ .fail ∈ s)) := by
  rw [rbufferTryRead] at h
  match hdr : rbufferDrain buf s with
  | .wait _ => simp [hdr] at h
  | .abort => simp [hdr] at h
  | .done (false, buf') s'' =>
    obtain ⟨hb, got, hgot, -⟩ := rbufferDrain_spec hdr
    simp only [hdr, Outcome.done.injEq] at h
    obtain ⟨rfl, rfl⟩ := h
    exact ⟨got, hgot, .inr ⟨rfl, hb rfl⟩⟩
  | .done (true, buf') s'' =>
    obtain ⟨-, got, hgot, hdata⟩ := rbufferDrain_spec hdr
    simp only [hdr, Outcome.done.injEq] at h
    obtain ⟨rfl, rfl⟩ := h
    refine ⟨got, hgot, .inl ?_⟩
    rw [← hdata]
    match hd : rbufferDecode D buf' with
    | some r' => exact rbufferStep_of_rbufferDecode hd
    | none => exact ⟨rbufferDecode_eq_none.1 hd, rfl⟩

/-- On a descriptor without read errors. -/
theorem rbufferTryRead_spec {D : StreamDecoder UInt8 V} {s s' : Reads} {buf : RBuffer}
    {r : RBufferResult V × RBuffer} (hs : .fail ∉ s) (h : rbufferTryRead D buf s = .done r s') :
    ∃ got, streamBytes s = got ++ streamBytes s' ∧
      RBufferStep D (buf.data ++ got) r.1 r.2.data := by
  obtain ⟨got, hgot, hstep | ⟨-, hfail⟩⟩ := rbufferTryRead_step h
  · exact ⟨got, hgot, hstep⟩
  · exact absurd hfail hs

/-! ### The answers left over -/

theorem rbufferReadMore_suffix {D : StreamDecoder UInt8 V} :
    ∀ {s s' : Reads} {buf : RBuffer} {r : RBufferResult V × RBuffer},
      rbufferReadMore D buf s = .done r s' → s' <:+ s
  | .data bs :: s, s', buf, r, h => by
    rw [rbufferReadMore] at h
    split at h
    case isFalse => exact absurd h (by simp)
    case isTrue =>
      split at h
      · exact (Outcome.done.inj h).2 ▸ List.suffix_cons _ _
      · exact (rbufferReadMore_suffix h).trans (List.suffix_cons _ _)
  | .eof :: s, s', buf, r, h => (Outcome.done.inj h).2 ▸ List.suffix_rfl
  | .again :: s, s', buf, r, h =>
    (rbufferReadMore_suffix (s := s) h).trans (List.suffix_cons _ _)
  | .fail :: s, s', buf, r, h => (Outcome.done.inj h).2 ▸ List.suffix_cons _ _

theorem rbufferRead_suffix {D : StreamDecoder UInt8 V} {s s' : Reads} {buf : RBuffer}
    {r : RBufferResult V × RBuffer} (h : rbufferRead D buf s = .done r s') : s' <:+ s := by
  unfold rbufferRead at h
  split at h
  · exact rbufferReadMore_suffix h
  · split at h
    · exact (Outcome.done.inj h).2 ▸ List.suffix_rfl
    · exact rbufferReadMore_suffix h

theorem rbufferDrain_suffix : ∀ {s s' : Reads} {buf : RBuffer} {r : Bool × RBuffer},
    rbufferDrain buf s = .done r s' → s' <:+ s
  | .data bs :: s, s', buf, r, h => by
    rw [rbufferDrain] at h
    split at h
    · exact (rbufferDrain_suffix h).trans (List.suffix_cons _ _)
    · exact absurd h (by simp)
  | .eof :: s, s', buf, r, h => (Outcome.done.inj h).2 ▸ List.suffix_rfl
  | .again :: s, s', buf, r, h => (Outcome.done.inj h).2 ▸ List.suffix_cons _ _
  | .fail :: s, s', buf, r, h => (Outcome.done.inj h).2 ▸ List.suffix_cons _ _

theorem rbufferTryRead_suffix {D : StreamDecoder UInt8 V} {s s' : Reads} {buf : RBuffer}
    {r : RBufferResult V × RBuffer} (h : rbufferTryRead D buf s = .done r s') : s' <:+ s := by
  unfold rbufferTryRead at h
  split at h
  case h_1 => exact absurd h (by simp)
  case h_2 => exact absurd h (by simp)
  case h_3 hdr => exact (Outcome.done.inj h).2 ▸ rbufferDrain_suffix hdr
  case h_4 hdr => exact (Outcome.done.inj h).2 ▸ rbufferDrain_suffix hdr

/-! ### The buffer of decoded bytes -/

/-- `vbuffer_t`, less the mutex and the conditions: its operations run one at a time here. -/
structure VBuffer where
  data : Bytes
  size : ℕ
  eof : Bool
  size_pos : 0 < size
  data_le : data.length ≤ size

/-- `vbuffer_new`. -/
def vbufferNew (init : ℕ) : VBuffer where
  data := []
  size := if init > 1 then init else 1
  eof := false
  size_pos := by split <;> omega
  data_le := Nat.zero_le _

/-- Take `n` bytes off the front: the `memcpy`, the `memmove` and `w_idx -= n_read`. -/
def VBuffer.consume (vbuf : VBuffer) (n : ℕ) : VBuffer :=
  { vbuf with
    data := vbuf.data.drop n
    data_le := ((List.drop_sublist n vbuf.data).length_le).trans vbuf.data_le }

/-- `vbuffer_try_read`: the result, the bytes copied out, and the buffer afterwards. A closed
buffer gives -1, an empty one 0. -/
def vbufferTryRead (vbuf : VBuffer) (bufSize : ℕ) : ℤ × Bytes × VBuffer :=
  if vbuf.eof then (-1, [], vbuf)
  else if vbuf.data.length ≠ 0 then
    ((min vbuf.data.length bufSize : ℕ), vbuf.data.take bufSize, vbuf.consume bufSize)
  else (0, [], vbuf)

/-- `vbuffer_read`: the result, the bytes copied out, and the buffer afterwards. It waits, and has
no result, while the buffer is empty and not closed; an empty closed one gives 0. -/
def vbufferRead (vbuf : VBuffer) (bufSize : ℕ) : Option (ℕ × Bytes × VBuffer) :=
  if vbuf.data.length = 0 ∧ vbuf.eof = false then none
  else if vbuf.data.length = 0 ∧ vbuf.eof = true then some (0, [], vbuf)
  else some (min vbuf.data.length bufSize, vbuf.data.take bufSize, vbuf.consume bufSize)

/-- `vbuffer_write`: dropped when closed; `while (w_idx + buf_size > size) _vbuffer_extend`, then
the copy. -/
def vbufferWrite (vbuf : VBuffer) (bs : Bytes) : VBuffer :=
  if vbuf.eof then vbuf
  else
    { vbuf with
      data := vbuf.data ++ bs
      size := doubleUntil (vbuf.data.length + bs.length) vbuf.size
      size_pos := vbuf.size_pos.trans_le (self_le_doubleUntil _ _)
      data_le := by
        rw [List.length_append]
        exact le_doubleUntil _ vbuf.size_pos }

/-- `vbuffer_close`. -/
def vbufferClose (vbuf : VBuffer) : VBuffer := { vbuf with eof := true }

/-- `vbuffer_drain` behind its call of `vbuffer_close`: `w_idx = 0`. -/
def VBuffer.flush (vbuf : VBuffer) : VBuffer := { vbuf with data := [], data_le := Nat.zero_le _ }

@[simp] theorem data_vbufferNew (init : ℕ) : (vbufferNew init).data = [] := rfl

@[simp] theorem eof_vbufferNew (init : ℕ) : (vbufferNew init).eof = false := rfl

@[simp] theorem data_vbufferClose (vbuf : VBuffer) : (vbufferClose vbuf).data = vbuf.data := rfl

@[simp] theorem eof_vbufferClose (vbuf : VBuffer) : (vbufferClose vbuf).eof = true := rfl

@[simp] theorem data_consume (vbuf : VBuffer) (n : ℕ) :
    (vbuf.consume n).data = vbuf.data.drop n := rfl

@[simp] theorem eof_consume (vbuf : VBuffer) (n : ℕ) : (vbuf.consume n).eof = vbuf.eof := rfl

theorem data_vbufferWrite {vbuf : VBuffer} (h : vbuf.eof = false) (bs : Bytes) :
    (vbufferWrite vbuf bs).data = vbuf.data ++ bs := by
  simp [vbufferWrite, h]

@[simp] theorem eof_vbufferWrite (vbuf : VBuffer) (bs : Bytes) :
    (vbufferWrite vbuf bs).eof = vbuf.eof := by
  unfold vbufferWrite
  split <;> rfl

end Vmecs
