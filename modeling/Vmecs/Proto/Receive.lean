import Vmecs.Lib.Incremental
import Vmecs.Proto.Buf

/-!
# What a blocking read takes off a stream

`rbuffer_read` reads on only as long as the decoder asks for more, so the answers it uses up are the
first that complete the message (`Completed`). With a prompt decoder they are just those the message
needs: without the last of them the message is not all there (`Received`). The last may bring bytes
beyond the message, and these are what stays in the buffer.

A sequence of messages, each read by a call of its own into one buffer, is received as one message
of the decoders in sequence (`Received.bind`).
-/

namespace Vmecs

variable {V W : Type}

theorem streamBytes_append {s s' : Reads} (h : .eof ∉ s) :
    streamBytes (s ++ s') = streamBytes s ++ streamBytes s' := by
  induction s with
  | nil => rfl
  | cons a s ih =>
    have hs : .eof ∉ s := fun hm ↦ h (List.mem_cons_of_mem _ hm)
    cases a with
    | data bs => rw [List.cons_append, streamBytes_data, streamBytes_data, ih hs, List.append_assoc]
    | eof => exact absurd List.mem_cons_self h
    | again => exact ih hs
    | fail => exact ih hs

/-- The bytes `data` and the answers `used` give a message of `n` bytes, and no fewer of the answers
give any. -/
structure Completed (D : StreamDecoder UInt8 V) (data : Bytes) (used : Reads) (n : ℕ) (v : V) :
    Prop where
  not_eof : .eof ∉ used
  decode : D (data ++ streamBytes used) = .ok n v
  first : ∀ pre, pre <+: used → pre ≠ used → D (data ++ streamBytes pre) = .more

/-- The bytes `data` and the answers `used` give a message of `n` bytes, and all of the answers are
needed for it. -/
structure Received (D : StreamDecoder UInt8 V) (data : Bytes) (used : Reads) (n : ℕ) (v : V) :
    Prop where
  not_eof : .eof ∉ used
  decode : D (data ++ streamBytes used) = .ok n v
  needed : ∀ pre, pre <+: used → pre ≠ used → (data ++ streamBytes pre).length < n

section

variable {D : StreamDecoder UInt8 V} {data : Bytes} {used : Reads} {n : ℕ} {v : V}

/-- An answer that is not the end of the stream comes before the others. -/
theorem append_streamBytes_cons {a : ReadAnswer} (ha : a ≠ .eof) (data : Bytes) (s : Reads) :
    data ++ streamBytes (a :: s) = data ++ streamBytes [a] ++ streamBytes s := by
  have ha' : .eof ∉ [a] := fun hm ↦ ha (List.mem_singleton.1 hm).symm
  rw [← List.singleton_append, streamBytes_append ha', List.append_assoc]

theorem not_eof_cons {a : ReadAnswer} (ha : a ≠ .eof) (h : .eof ∉ used) : .eof ∉ a :: used := by
  rw [List.mem_cons, not_or]
  exact ⟨ha.symm, h⟩

/-- What holds of the bytes before any answer, and of those behind the first one and some of the
others but not all, holds behind some but not all. -/
theorem forall_prefix_cons {P : Bytes → Prop} {a : ReadAnswer} (ha : a ≠ .eof) (hnil : P data)
    (h : ∀ pre, pre <+: used → pre ≠ used → P (data ++ streamBytes [a] ++ streamBytes pre)) :
    ∀ pre, pre <+: a :: used → pre ≠ a :: used → P (data ++ streamBytes pre) := by
  intro pre hpre hne
  rcases List.prefix_cons_iff.1 hpre with rfl | ⟨t, rfl, ht⟩
  · rwa [streamBytes_nil, List.append_nil]
  · rw [append_streamBytes_cons ha]
    exact h t ht fun heq ↦ hne (congrArg _ heq)

/-- No answer completes a message that is there. -/
theorem Completed.nil (h : D data = .ok n v) : Completed D data [] n v where
  not_eof := List.not_mem_nil
  decode := by rwa [streamBytes_nil, List.append_nil]
  first pre hpre hne := absurd (List.prefix_nil.1 hpre) hne

/-- One more answer, as long as the decoder asks for more. -/
theorem Completed.cons {a : ReadAnswer} (ha : a ≠ .eof) (hmore : D data = .more)
    (h : Completed D (data ++ streamBytes [a]) used n v) : Completed D data (a :: used) n v where
  not_eof := not_eof_cons ha h.not_eof
  decode := by
    rw [append_streamBytes_cons ha]
    exact h.decode
  first := forall_prefix_cons (P := fun bs ↦ D bs = .more) ha hmore h.first

/-- The value of a message can be computed further. -/
theorem Completed.bind_pure {f : V → W} (h : Completed D data used n v) :
    Completed (D >>= fun v ↦ pure (f v)) data used n (f v) where
  not_eof := h.not_eof
  decode := StreamDecoder.bind_eq_ok.2 ⟨n, v, 0, h.decode, rfl, rfl⟩
  first pre hpre hne := by rw [StreamDecoder.bind_apply, h.first pre hpre hne]

/-- With a prompt decoder the first answers that complete a message are the ones it needs. -/
theorem Completed.received (hD : D.Prompt) (h : Completed D data used n v) :
    Received D data used n v where
  not_eof := h.not_eof
  decode := h.decode
  needed pre hpre hne := by
    obtain ⟨t, rfl⟩ := hpre
    have hpre : .eof ∉ pre := fun hm ↦ h.not_eof (List.mem_append_left _ hm)
    have hdecode := h.decode
    rw [streamBytes_append hpre, ← List.append_assoc] at hdecode
    exact hD.length_lt_of_more (h.first pre (List.prefix_append _ _) hne) hdecode

namespace Received

/-- Nothing is needed for a message that is there. -/
theorem nil (h : D data = .ok n v) : Received D data [] n v where
  not_eof := List.not_mem_nil
  decode := by rwa [streamBytes_nil, List.append_nil]
  needed pre hpre hne := absurd (List.prefix_nil.1 hpre) hne

/-- An answer is needed as long as the message is not there. -/
theorem cons {a : ReadAnswer} (ha : a ≠ .eof) (hlt : data.length < n)
    (h : Received D (data ++ streamBytes [a]) used n v) : Received D data (a :: used) n v where
  not_eof := not_eof_cons ha h.not_eof
  decode := by
    rw [append_streamBytes_cons ha]
    exact h.decode
  needed := forall_prefix_cons (P := fun bs ↦ bs.length < n) ha hlt h.needed

/-- **Two messages in a row are received as one.** -/
theorem bind {f : V → StreamDecoder UInt8 W} {used' : Reads} {m : ℕ} {w : W} (hD : D.Incremental)
    (h : Received D data used n v)
    (h' : Received (f v) ((data ++ streamBytes used).drop n) used' m w) :
    Received (D >>= f) data (used ++ used') (n + m) w := by
  have hle : n ≤ (data ++ streamBytes used).length := hD.le h.decode
  have hdrop : ((data ++ streamBytes used).drop n).length =
      (data ++ streamBytes used).length - n := List.length_drop
  refine ⟨?_, ?_, ?_⟩
  · intro hm
    rcases List.mem_append.1 hm with hm | hm
    · exact h.not_eof hm
    · exact h'.not_eof hm
  · rw [streamBytes_append h.not_eof, ← List.append_assoc]
    refine StreamDecoder.bind_eq_ok.2 ⟨n, v, m, hD.ok_append _ h.decode, ?_, rfl⟩
    rw [List.drop_append_of_le_length hle]
    exact h'.decode
  · intro pre hpre hne
    rcases List.prefix_or_prefix_of_prefix hpre (List.prefix_append used used') with hle' | hge
    · rcases eq_or_ne pre used with rfl | hne'
      · have hrest := h'.needed [] List.nil_prefix fun heq ↦ hne (by rw [← heq, List.append_nil])
        rw [streamBytes_nil, List.append_nil] at hrest
        omega
      · have hpre' := h.needed pre hle' hne'
        omega
    · obtain ⟨t, rfl⟩ := hge
      have ht : t <+: used' := (List.prefix_append_right_inj used).1 hpre
      have hrest := h'.needed t ht fun heq ↦ hne (congrArg _ heq)
      rw [List.length_append, hdrop] at hrest
      rw [streamBytes_append h.not_eof, ← List.append_assoc, List.length_append]
      omega

end Received

end

/-! ### Reading a message -/

/-- The bytes of one read, and a message that begins with them. -/
theorem Received.of_fdRead {D : StreamDecoder UInt8 V} {want n : ℕ} {v : V} {bs : Bytes}
    {s used s' : Reads} (hpos : 0 < n) (h : fdRead want s = .done (.data bs) (used ++ s'))
    (hrec : Received D bs used n v) : ∃ used', s = used' ++ s' ∧ Received D [] used' n v := by
  induction s with
  | nil => exact absurd h (by simp [fdRead])
  | cons a s ih =>
    cases a with
    | data bs' =>
      rw [fdRead] at h
      split at h
      · obtain ⟨heq, rfl⟩ := Outcome.done.inj h
        obtain rfl := ReadAnswer.data.inj heq
        exact ⟨.data bs' :: used, rfl, .cons (by simp) hpos (by simpa using hrec)⟩
      · exact absurd h (by simp)
    | eof => exact absurd (Outcome.done.inj h).1 (by simp)
    | again =>
      obtain ⟨used', rfl, hrec'⟩ := ih h
      exact ⟨.again :: used', rfl, .cons (by simp) hpos (by simpa using hrec')⟩
    | fail => exact absurd (Outcome.done.inj h).1 (by simp)

theorem rbufferDecode_eq_success {D : StreamDecoder UInt8 V} {buf buf' : RBuffer} {v : V} :
    rbufferDecode D buf = some (.success v, buf') ↔
      ∃ n, D buf.data = .ok n v ∧ buf' = buf.consume n := by
  rw [rbufferDecode]
  cases D buf.data with
  | more => simp
  | fail => simp
  | ok n w =>
    simp only [Option.some.injEq, Prod.mk.injEq, RBufferResult.success.injEq, Decode.ok.injEq]
    constructor
    · rintro ⟨rfl, rfl⟩
      exact ⟨n, ⟨rfl, rfl⟩, rfl⟩
    · rintro ⟨m, ⟨rfl, rfl⟩, rfl⟩
      exact ⟨rfl, rfl⟩

theorem rbufferReadMore_completed {D : StreamDecoder UInt8 V} {s s' : Reads}
    {buf buf' : RBuffer} {v : V} (hmore : D buf.data = .more)
    (h : rbufferReadMore D buf s = .done (.success v, buf') s') :
    ∃ used n, s = used ++ s' ∧ Completed D buf.data used n v ∧
      buf'.data = (buf.data ++ streamBytes used).drop n := by
  induction s generalizing buf with
  | nil => exact absurd h (by simp [rbufferReadMore])
  | cons a s ih =>
    cases a with
    | data bs =>
      rw [rbufferReadMore] at h
      split at h
      case isFalse => exact absurd h (by simp)
      case isTrue hfit =>
        have hdata : (buf.room.store bs (RBuffer.le_size_of_fits hfit)).data = buf.data ++ bs := by
          rw [RBuffer.data_store, RBuffer.data_room]
        split at h
        case h_1 r hd =>
          obtain ⟨rfl, rfl⟩ := Outcome.done.inj h
          obtain ⟨n, hn, rfl⟩ := rbufferDecode_eq_success.1 hd
          rw [hdata] at hn
          refine ⟨[.data bs], n, rfl, .cons (by simp) hmore (.nil ?_), ?_⟩
          · simpa using hn
          · rw [RBuffer.data_consume, hdata, streamBytes_data, streamBytes_nil, List.append_nil]
        case h_2 hd =>
          obtain ⟨used, n, rfl, hcomp, hleft⟩ := ih (rbufferDecode_eq_none.1 hd) h
          rw [hdata] at hcomp hleft
          refine ⟨.data bs :: used, n, rfl, .cons (by simp) hmore (by simpa using hcomp), ?_⟩
          rw [hleft, streamBytes_data, List.append_assoc]
    | eof => exact absurd (Outcome.done.inj h).1 (by simp)
    | again =>
      obtain ⟨used, n, rfl, hcomp, hleft⟩ := ih hmore h
      exact ⟨.again :: used, n, rfl, .cons (by simp) hmore (by simpa using hcomp), hleft⟩
    | fail => exact absurd (Outcome.done.inj h).1 (by simp)

/-- **A blocking read that succeeds takes the first answers that complete its message.** -/
theorem rbufferRead_completed {D : StreamDecoder UInt8 V} (hnil : D [] = .more) {s s' : Reads}
    {buf buf' : RBuffer} {v : V} (h : rbufferRead D buf s = .done (.success v, buf') s') :
    ∃ used n, s = used ++ s' ∧ Completed D buf.data used n v ∧
      buf'.data = (buf.data ++ streamBytes used).drop n := by
  rw [rbufferRead] at h
  split at h
  case isTrue hemp =>
    exact rbufferReadMore_completed (by rw [List.length_eq_zero_iff.1 hemp, hnil]) h
  case isFalse =>
    split at h
    case h_1 r hd =>
      obtain ⟨rfl, rfl⟩ := Outcome.done.inj h
      obtain ⟨n, hn, rfl⟩ := rbufferDecode_eq_success.1 hd
      exact ⟨[], n, rfl, .nil hn, by simp⟩
    case h_2 hd => exact rbufferReadMore_completed (rbufferDecode_eq_none.1 hd) h

/-- **With a prompt decoder it takes what its message needs.** -/
theorem rbufferRead_received {D : StreamDecoder UInt8 V} (hD : D.Prompt) {s s' : Reads}
    {buf buf' : RBuffer} {v : V} (h : rbufferRead D buf s = .done (.success v, buf') s') :
    ∃ used n, s = used ++ s' ∧ Received D buf.data used n v ∧
      buf'.data = (buf.data ++ streamBytes used).drop n := by
  obtain ⟨used, n, hs, hcomp, hleft⟩ := rbufferRead_completed hD.nil h
  exact ⟨used, n, hs, hcomp.received hD, hleft⟩

end Vmecs
