import Vmecs.Pub.Serial

/-!
# Serial buffers as logs of bytes (`pub/serial.c`)

A serial buffer over a whole sequence of calls. One that is written to, from empty, is a log of the
bytes that were written: no call stores anything outside the block, which has been grown for it in a
loop that ends (`SerialCall.Sound`). One that is read from is a place in a string of bytes, and each
call goes on by what it asks for, or stays (`readsAt`). So what was written field by field is read
back field by field (`serial_log`).
-/

namespace Vmecs

/-! ### Writing -/

/-- The calls that write; a value is given by its bytes in memory. -/
inductive SerialCall where
  | writeU8 (val : UInt8)
  | writeU16 (val : Block 2)
  | writeU32 (val : Block 4)
  | writeU64 (val : Block 8)
  | write (data : Bytes)

namespace SerialCall

/-- The buffer behind a call. -/
def exec (ser : Serial) : SerialCall → Serial
  | writeU8 val => serialWriteU8 ser val
  | writeU16 val => serialWriteU16 ser val
  | writeU32 val => serialWriteU32 ser val
  | writeU64 val => serialWriteU64 ser val
  | write data => serialWrite ser data

/-- The bytes that it writes. -/
def bytes : SerialCall → Bytes
  | writeU8 val => [val]
  | writeU16 val => val.1
  | writeU32 val => val.1
  | writeU64 val => val.1
  | write data => data

theorem exec_eq (ser : Serial) (call : SerialCall) :
    call.exec ser = serialWrite ser call.bytes := by
  cases call <;> rfl

/-- The buffer behind these calls. -/
def execAll (ser : Serial) (calls : List SerialCall) : Serial := calls.foldl exec ser

/-- The capacity with which the loop of `serial_ensure` begins. -/
def firstCap (ser : Serial) : ℕ := if ser.cap = 0 then serialInitBuf else ser.cap

theorem firstCap_pos (ser : Serial) : 0 < firstCap ser := by
  rw [firstCap]
  split
  · exact Nat.succ_pos _
  · omega

/-- **A sound call**: the loop of `serial_ensure` doubles the capacity while there is no room, and
ends; the stores lie below it; and behind the call all that is in use has been written, in order. -/
structure Sound (ser : Serial) (call : SerialCall) : Prop where
  loop_ends : ∃ turns, (call.exec ser).cap = firstCap ser * 2 ^ turns ∧
    ser.size + call.bytes.length ≤ firstCap ser * 2 ^ turns ∧
    ∀ j < turns, firstCap ser * 2 ^ j < ser.size + call.bytes.length
  stores_lt : ∀ k < call.bytes.length, ser.wIdx + k < (call.exec ser).cap
  size_eq : (call.exec ser).size = (call.exec ser).wIdx
  wIdx_le : (call.exec ser).wIdx ≤ (call.exec ser).cap
  contents_eq : (call.exec ser).contents = ser.contents ++ call.bytes

/-- Each of the calls is sound. -/
def SoundAll : Serial → List SerialCall → Prop
  | _, [] => True
  | ser, call :: calls => call.Sound ser ∧ SoundAll (call.exec ser) calls

theorem cap_serialWrite (ser : Serial) (data : Bytes) :
    (serialWrite ser data).cap = serialFinal ser data.length := by
  show (serialEnsure ser data.length).cap = _
  rw [serialEnsure]
  split
  case isTrue h => exact h.symm
  case isFalse => rfl

/-- **One call**, of a buffer that has only been written to. -/
theorem sound_of_appending {ser : Serial} (h : ser.Appending) (call : SerialCall) :
    call.Sound ser := by
  have hcap := cap_serialWrite ser call.bytes
  have hroom := le_serialFinal ser call.bytes.length
  have happ : (serialWrite ser call.bytes).Appending := appending_serialWrite h call.bytes
  have hle := (serialWrite ser call.bytes).size_le_cap
  rw [Serial.Appending] at h happ
  refine ⟨?_, fun k hk ↦ ?_, ?_, ?_, ?_⟩ <;> rw [exec_eq]
  · rw [hcap]
    exact doubleUntil_turns _ (firstCap_pos ser)
  · rw [hcap]
    omega
  · exact happ.symm
  · rwa [happ]
  · exact contents_serialWrite h call.bytes

/-- **The calls of a sequence** are sound, and the log holds what they write. -/
theorem soundAll {ser : Serial} {bs : Bytes} (h : ser.Holds bs) (calls : List SerialCall) :
    SoundAll ser calls ∧ (execAll ser calls).Holds (bs ++ calls.flatMap bytes) := by
  induction calls generalizing ser bs with
  | nil => exact ⟨trivial, by rw [List.flatMap_nil, List.append_nil]; exact h⟩
  | cons call calls ih =>
    have hcall : (call.exec ser).Holds (bs ++ call.bytes) := exec_eq ser call ▸ h.write call.bytes
    obtain ⟨hsound, hholds⟩ := ih hcall
    refine ⟨⟨sound_of_appending h.1 call, hsound⟩, ?_⟩
    rw [List.flatMap_cons, ← List.append_assoc]
    exact hholds

end SerialCall

/-! ### Reading -/

/-- A sequence of calls of `serial_read` with these sizes: what they give, and the buffer behind
them. A call that fails gives nothing. -/
def serialReads : Serial → List ℕ → List (Option Bytes) × Serial
  | ser, [] => ([], ser)
  | ser, n :: sizes =>
    match serialRead ser n with
    | none =>
      let (answers, last) := serialReads ser sizes
      (none :: answers, last)
    | some (b, ser') =>
      let (answers, last) := serialReads ser' sizes
      (some b.1 :: answers, last)

/-- The same of a string of bytes, from a place in it on: a call gives the bytes from there and goes
on by what it asks for, unless there are fewer. -/
def readsAt (data : Bytes) : ℕ → List ℕ → List (Option Bytes) × ℕ
  | pos, [] => ([], pos)
  | pos, n :: sizes =>
    if pos + n ≤ data.length then
      let (answers, last) := readsAt data (pos + n) sizes
      (some ((data.drop pos).take n) :: answers, last)
    else
      let (answers, last) := readsAt data pos sizes
      (none :: answers, last)

/-- **One read**: it fails where fewer bytes are left than it asks for. -/
theorem serialRead_eq {ser : Serial} {data : Bytes} (hdata : ser.contents = data) (n : ℕ) :
    if ser.rIdx + n ≤ data.length then
      ∃ b ser', serialRead ser n = some (b, ser') ∧ b.1 = (data.drop ser.rIdx).take n ∧
        ser'.contents = data ∧ ser'.rIdx = ser.rIdx + n
    else serialRead ser n = none := by
  have hlen : data.length = ser.size := hdata ▸ length_contents ser
  have hle := ser.rIdx_le_size
  split
  case isTrue h =>
    refine ⟨_, _, dif_neg (by omega), ?_, hdata, rfl⟩
    show (ser.buf.drop ser.rIdx).take n = _
    rw [← hdata, Serial.contents, List.drop_take, List.take_take, Nat.min_eq_left (by omega)]
  case isFalse h => exact dif_pos (by omega)

/-- **A sequence of reads** goes through the bytes in order. -/
theorem serialReads_eq {ser : Serial} {data : Bytes} (hdata : ser.contents = data)
    (sizes : List ℕ) : (serialReads ser sizes).1 = (readsAt data ser.rIdx sizes).1 ∧
      (serialReads ser sizes).2.rIdx = (readsAt data ser.rIdx sizes).2 := by
  induction sizes generalizing ser with
  | nil => exact ⟨rfl, rfl⟩
  | cons n sizes ih =>
    have hread := serialRead_eq hdata n
    rw [serialReads, readsAt]
    split at hread
    case isTrue h =>
      obtain ⟨b, ser', hser, hb, hdata', hidx⟩ := hread
      obtain ⟨ih₁, ih₂⟩ := ih hdata'
      rw [hser, if_pos h]
      dsimp only
      rw [ih₁, ih₂, hidx, hb]
      exact ⟨rfl, rfl⟩
    case isFalse h =>
      obtain ⟨ih₁, ih₂⟩ := ih hdata
      rw [hread, if_neg h]
      dsimp only
      rw [ih₁, ih₂]
      exact ⟨rfl, rfl⟩

/-- Fields one behind the other are read by their sizes. -/
theorem readsAt_flatMap (before : Bytes) (fields : List Bytes) :
    readsAt (before ++ fields.flatten) before.length (fields.map List.length) =
      (fields.map some, (before ++ fields.flatten).length) := by
  induction fields generalizing before with
  | nil => simp [readsAt]
  | cons field fields ih =>
    have hih := ih (before ++ field)
    rw [List.append_assoc, List.length_append, ← List.flatten_cons] at hih
    rw [List.map_cons, readsAt, if_pos, hih, List.drop_left, List.flatten_cons, List.take_left]
    · rfl
    · rw [List.flatten_cons, List.length_append, List.length_append]
      omega

/-! ### A log of bytes -/

/-- **The serial buffer is a log of bytes.** The calls that write to an empty one are all sound, and
leave the bytes that they write; the calls that read from one go through its bytes in order; and
what has been written is read back, field by field. -/
theorem serial_log (calls : List SerialCall) (data : Bytes) (sizes : List ℕ) :
    (SerialCall.SoundAll (serialInit []) calls ∧
      (SerialCall.execAll (serialInit []) calls).contents = calls.flatMap SerialCall.bytes) ∧
    ((serialReads (serialInit data) sizes).1 = (readsAt data 0 sizes).1 ∧
      (serialReads (serialInit data) sizes).2.rIdx = (readsAt data 0 sizes).2) ∧
    (serialReads (serialInit (SerialCall.execAll (serialInit []) calls).contents)
      (calls.map fun call ↦ call.bytes.length)).1 = calls.map fun call ↦ some call.bytes := by
  obtain ⟨hsound, hholds⟩ := SerialCall.soundAll holds_serialInit calls
  have hcontents : (SerialCall.execAll (serialInit []) calls).contents =
      calls.flatMap SerialCall.bytes := hholds.2
  refine ⟨⟨hsound, hcontents⟩, serialReads_eq (contents_serialInit data) sizes, ?_⟩
  have hfields := readsAt_flatMap [] (calls.map SerialCall.bytes)
  rw [List.map_map, List.map_map, List.nil_append, ← List.flatMap_def] at hfields
  rw [hcontents, (serialReads_eq (contents_serialInit _) _).1]
  exact congrArg Prod.fst hfields

end Vmecs
