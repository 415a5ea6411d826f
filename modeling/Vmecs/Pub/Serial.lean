import Vmecs.Lib.Doubling
import Vmecs.Lib.Incremental
import Vmecs.Pub.Type

/-!
# The serial buffer (`pub/serial.c`)

A `serial_t` is a heap block of `cap` bytes, of which the first `size` are in use, with a read and a
write index. The order of the indices is a field of the structure, so a store outside the block
cannot be written down: `serialWrite` owes the proof that `serial_ensure` has made room
(`le_cap_serialEnsure`).

Two readings of a serial buffer are used by the codecs, and each operation is stated once in them:

* an encoder sees the bytes written so far, `contents`, and a write appends
  (`contents_serialWrite`);
* a decoder sees the bytes not yet read, `unread`, and a read is the step `StreamDecoder.take` of a
  reading program (`serialRead_eq_take`), a failed read being the `return 0` of the decoders.
-/

namespace Vmecs

/-- `SERIAL_INIT_BUF`. -/
def serialInitBuf : ℕ := 8

/-- `serial_t`. Bytes of a fresh block that nothing has written are zero here; nothing reads
them. -/
structure Serial where
  cap : ℕ
  size : ℕ
  buf : Bytes
  rIdx : ℕ
  wIdx : ℕ
  buf_length : buf.length = cap
  size_le_cap : size ≤ cap
  wIdx_le_size : wIdx ≤ size
  rIdx_le_size : rIdx ≤ size

/-- `memcpy(buf + ofs, data, ..)`. -/
def memcpyAt (buf : Bytes) (ofs : ℕ) (data : Bytes) : Bytes :=
  buf.take ofs ++ data ++ buf.drop (ofs + data.length)

theorem length_memcpyAt {buf : Bytes} {ofs : ℕ} {data : Bytes}
    (h : ofs + data.length ≤ buf.length) : (memcpyAt buf ofs data).length = buf.length := by
  simp [memcpyAt]
  omega

/-- `serial_init(ser, data, size, copy)`: on a heap block or a copy of it the two forms differ only
in who frees the bytes. The empty serial of the encoders, `serial_init(&ser, NULL, 0, 0)`, is
`serialInit []`. -/
def serialInit (data : Bytes) : Serial where
  cap := data.length
  size := data.length
  buf := data
  rIdx := 0
  wIdx := 0
  buf_length := rfl
  size_le_cap := le_rfl
  wIdx_le_size := Nat.zero_le _
  rIdx_le_size := Nat.zero_le _

/-- The capacity at which the loop of `serial_ensure` ends. -/
def serialFinal (ser : Serial) (n : ℕ) : ℕ :=
  doubleUntil (ser.size + n) (if ser.cap = 0 then serialInitBuf else ser.cap)

theorem cap_le_serialFinal (ser : Serial) (n : ℕ) : ser.cap ≤ serialFinal ser n := by
  refine le_trans ?_ (self_le_doubleUntil _ _)
  split <;> omega

theorem le_serialFinal (ser : Serial) (n : ℕ) : ser.size + n ≤ serialFinal ser n := by
  refine le_doubleUntil _ ?_
  split
  · exact Nat.succ_pos _
  · omega

/-- `serial_ensure`: make room for `n` more bytes. -/
def serialEnsure (ser : Serial) (n : ℕ) : Serial :=
  if serialFinal ser n = ser.cap then ser
  else
    { ser with
      cap := serialFinal ser n
      buf := ser.buf ++ List.replicate (serialFinal ser n - ser.cap) 0
      buf_length := by
        have := cap_le_serialFinal ser n
        simp [ser.buf_length]
        omega
      size_le_cap := ser.size_le_cap.trans (cap_le_serialFinal ser n) }

theorem le_cap_serialEnsure (ser : Serial) (n : ℕ) :
    ser.size + n ≤ (serialEnsure ser n).cap := by
  have := le_serialFinal ser n
  unfold serialEnsure
  split <;> simp_all

@[simp] theorem size_serialEnsure (ser : Serial) (n : ℕ) :
    (serialEnsure ser n).size = ser.size := by
  unfold serialEnsure
  split <;> rfl

@[simp] theorem wIdx_serialEnsure (ser : Serial) (n : ℕ) :
    (serialEnsure ser n).wIdx = ser.wIdx := by
  unfold serialEnsure
  split <;> rfl

@[simp] theorem rIdx_serialEnsure (ser : Serial) (n : ℕ) :
    (serialEnsure ser n).rIdx = ser.rIdx := by
  unfold serialEnsure
  split <;> rfl

/-- Growing keeps the bytes of the old block in place. -/
theorem buf_prefix_serialEnsure (ser : Serial) (n : ℕ) : ser.buf <+: (serialEnsure ser n).buf := by
  unfold serialEnsure
  split
  · exact List.prefix_rfl
  · exact List.prefix_append _ _

/-- `serial_write(ser, data, size)`. -/
def serialWrite (ser : Serial) (data : Bytes) : Serial :=
  { serialEnsure ser data.length with
    buf := memcpyAt (serialEnsure ser data.length).buf (serialEnsure ser data.length).wIdx data
    size := (serialEnsure ser data.length).size + data.length
    wIdx := (serialEnsure ser data.length).wIdx + data.length
    buf_length := by
      have h₁ := le_cap_serialEnsure ser data.length
      have h₂ := ser.wIdx_le_size
      have h₃ := (serialEnsure ser data.length).buf_length
      rw [length_memcpyAt (by rw [h₃, wIdx_serialEnsure]; omega), h₃]
    size_le_cap := by
      rw [size_serialEnsure]
      exact le_cap_serialEnsure ser data.length
    wIdx_le_size := Nat.add_le_add_right (serialEnsure ser data.length).wIdx_le_size _
    rIdx_le_size := (serialEnsure ser data.length).rIdx_le_size.trans (Nat.le_add_right _ _) }

/-- `serial_write_u8`. -/
def serialWriteU8 (ser : Serial) (val : UInt8) : Serial := serialWrite ser [val]

/-- `serial_write_u16`, of a value given by its bytes in memory. -/
def serialWriteU16 (ser : Serial) (val : Block 2) : Serial := serialWrite ser val.1

/-- `serial_write_u32`, of a value given by its bytes in memory. -/
def serialWriteU32 (ser : Serial) (val : Block 4) : Serial := serialWrite ser val.1

/-- `serial_write_u64`, of a value given by its bytes in memory. -/
def serialWriteU64 (ser : Serial) (val : Block 8) : Serial := serialWrite ser val.1

/-- The bytes in use: what `serial_final` returns. -/
def Serial.contents (ser : Serial) : Bytes := ser.buf.take ser.size

/-- A serial that has only been written to, from empty. -/
def Serial.Appending (ser : Serial) : Prop := ser.wIdx = ser.size

theorem appending_serialInit_nil : (serialInit []).Appending := rfl

theorem appending_serialWrite {ser : Serial} (h : ser.Appending) (data : Bytes) :
    (serialWrite ser data).Appending := by
  have h' : ser.wIdx = ser.size := h
  simp [Serial.Appending, serialWrite, h']

@[simp] theorem contents_serialInit (data : Bytes) : (serialInit data).contents = data :=
  List.take_length

theorem length_contents (ser : Serial) : ser.contents.length = ser.size := by
  rw [Serial.contents, List.length_take, ser.buf_length]
  exact Nat.min_eq_left ser.size_le_cap

/-- **A write appends.** -/
theorem contents_serialWrite {ser : Serial} (h : ser.Appending) (data : Bytes) :
    (serialWrite ser data).contents = ser.contents ++ data := by
  have h' : ser.wIdx = ser.size := h
  obtain ⟨t, ht⟩ := buf_prefix_serialEnsure ser data.length
  have hlen : ser.size ≤ ser.buf.length := by
    rw [ser.buf_length]
    exact ser.size_le_cap
  have htake : (serialEnsure ser data.length).buf.take ser.size = ser.contents := by
    rw [← ht, List.take_append_of_le_length hlen]
    rfl
  simp only [Serial.contents, serialWrite, memcpyAt, wIdx_serialEnsure, size_serialEnsure, h']
  rw [htake, List.take_left']
  · rfl
  · rw [List.length_append, length_contents]

/-- A serial that has only been written to, and the bytes that it was given. -/
def Serial.Holds (ser : Serial) (bs : Bytes) : Prop := ser.Appending ∧ ser.contents = bs

theorem holds_serialInit : (serialInit []).Holds [] :=
  ⟨appending_serialInit_nil, contents_serialInit []⟩

theorem Serial.Holds.write {ser : Serial} {bs : Bytes} (h : ser.Holds bs) (data : Bytes) :
    (serialWrite ser data).Holds (bs ++ data) :=
  ⟨appending_serialWrite h.1 data, by rw [contents_serialWrite h.1, h.2]⟩

/-! ### Reading -/

/-- `serial_read(ser, buf, n)`: the next `n` bytes, or nothing read and failure. -/
def serialRead (ser : Serial) (n : ℕ) : Option (Block n × Serial) :=
  if h : ser.size - ser.rIdx < n then none
  else
    some (⟨(ser.buf.drop ser.rIdx).take n, by
        have h₁ := ser.buf_length
        have h₂ := ser.size_le_cap
        simp
        omega⟩,
      { ser with
        rIdx := ser.rIdx + n
        rIdx_le_size := by
          have := ser.rIdx_le_size
          omega })

/-- The bytes not yet read. -/
def Serial.unread (ser : Serial) : Bytes := ser.contents.drop ser.rIdx

@[simp] theorem unread_serialInit (data : Bytes) : (serialInit data).unread = data := by
  rw [Serial.unread, contents_serialInit]
  rfl

theorem length_unread (ser : Serial) : ser.unread.length = ser.size - ser.rIdx := by
  rw [Serial.unread, List.length_drop, length_contents]

/-- **A read is the reading step of a decoder**: it fails exactly when the step asks for more, and
otherwise gives the step's field and leaves what the step leaves. -/
theorem serialRead_eq_take (ser : Serial) (n : ℕ) :
    (serialRead ser n = none ∧ StreamDecoder.take n ser.unread = .more) ∨
      ∃ b ser', serialRead ser n = some (b, ser') ∧ StreamDecoder.take n ser.unread = .ok n b ∧
        ser'.unread = ser.unread.drop n := by
  by_cases h : ser.size - ser.rIdx < n
  · exact .inl ⟨dif_pos h, dif_pos (by rwa [length_unread])⟩
  · refine .inr ⟨_, _, dif_neg h, StreamDecoder.take_eq_ok.2 ⟨?_, rfl, ?_⟩, ?_⟩
    · rw [length_unread]
      omega
    · show (ser.buf.drop ser.rIdx).take n = ((ser.buf.take ser.size).drop ser.rIdx).take n
      rw [List.drop_take, List.take_take, Nat.min_eq_left (by omega)]
    · show ser.contents.drop (ser.rIdx + n) = (ser.contents.drop ser.rIdx).drop n
      rw [List.drop_drop]

end Vmecs
