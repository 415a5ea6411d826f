import Vmecs.Proto.Receive
import Vmecs.Proto.Reassembly

/-!
# Calls in progress

A call that waits in a `read(2)` has used up all the answers it was given, and goes on with the next
one as its loop does from the buffer it has filled by then. So the answers that a call has had are
those given to it one at a time, whenever it waited (`Asked`), and when it returns none of their
bytes is left over.

Both loops of an `rbuffer_t` are of this kind (`ReadingLoop`): an answer either takes the loop to a
next turn, with its bytes in the buffer, or ends it.
-/

namespace Vmecs

open StreamDecoder

variable {α V : Type}

/-- The answers that a call has had: each came when the call waited for it, and fits. -/
inductive Asked (f : Reads → Outcome α) : Reads → Prop where
  | nil : Asked f []
  | snoc {got : Reads} {want : ℕ} {a : ReadAnswer} (h : Asked f got) (hw : f got = .wait want)
      (ha : a.Fits want) : Asked f (got ++ [a])

/-- A call that waits whenever another one does can have had what the other one has had. -/
theorem Asked.mono {β : Type} {f : Reads → Outcome α} {g : Reads → Outcome β} {got : Reads}
    (h : Asked f got) (hfg : ∀ s want, f s = .wait want → g s = .wait want) : Asked g got := by
  induction h with
  | nil => exact .nil
  | snoc _ hw ha ih => exact .snoc ih (hfg _ _ hw) ha

/-- A call that returns at once has had no answer. -/
theorem Asked.eq_nil {f : Reads → Outcome α} {got : Reads} (h : Asked f got) {r : α}
    (hf : ∀ s, f s = .done r s) : got = [] := by
  cases h with
  | nil => rfl
  | snoc _ hw _ => exact absurd ((hf _).symm.trans hw) (by simp)

/-- A loop that puts what it reads into a buffer; `ok` is what it has found out about the bytes
buffered when it reads on. -/
structure ReadingLoop (ok : Bytes → Prop) (loop : RBuffer → Reads → Outcome α) : Prop where
  nil : ∀ buf, loop buf [] = .wait buf.room.rest
  cons : ∀ buf a, ok buf.data → a.Fits buf.room.rest →
    (∃ buf', ok buf'.data ∧ buf'.data = buf.data ++ a.bytes ∧ a ≠ .eof ∧
      ∀ s, loop buf (a :: s) = loop buf' s) ∨
    ∃ r rest, loop buf [a] = .done r rest ∧ (rest = [] ∨ rest = [.eof])

/-- The call is the loop, unless it returns at once. -/
def StartsLoop (ok : Bytes → Prop) (loop : RBuffer → Reads → Outcome α) (buf : RBuffer)
    (f : Reads → Outcome α) : Prop :=
  (ok buf.data ∧ ∀ s, f s = loop buf s) ∨ ∃ r, ∀ s, f s = .done r s

theorem streamBytes_concat {got : Reads} (h : .eof ∉ got) (a : ReadAnswer) :
    streamBytes (got ++ [a]) = streamBytes got ++ a.bytes := by
  rw [streamBytes_append h]
  cases a with
  | data bs => rw [streamBytes_data, streamBytes_nil, List.append_nil]; rfl
  | eof => rfl
  | again => rfl
  | fail => rfl

section

variable {ok : Bytes → Prop} {loop : RBuffer → Reads → Outcome α} {f : Reads → Outcome α}
  {buf : RBuffer} {got : Reads}

/-- **Where a call that waits stands**: at a buffer with all that it was given, from which it goes
on. -/
theorem Asked.waitsAt (hl : ReadingLoop ok loop) (hf : StartsLoop ok loop buf f) {want : ℕ}
    (h : Asked f got) (hw : f got = .wait want) :
    ∃ buf', ok buf'.data ∧ buf'.data = buf.data ++ streamBytes got ∧ .eof ∉ got ∧
      want = buf'.room.rest ∧ ∀ s, f (got ++ s) = loop buf' s := by
  induction h generalizing want with
  | nil =>
    rcases hf with ⟨hok, hf⟩ | ⟨r, hr⟩
    · rw [hf, hl.nil] at hw
      exact ⟨buf, hok, by simp, List.not_mem_nil, (Outcome.wait.inj hw).symm, hf⟩
    · exact absurd ((hr []).symm.trans hw) (by simp)
  | @snoc got want₁ a _ hw₁ ha ih =>
    obtain ⟨buf₁, hok₁, hdata₁, heof₁, hwant₁, hgo₁⟩ := ih hw₁
    obtain ⟨buf', hok', hdata', hne, hgo'⟩ | ⟨r, rest, hd, -⟩ := hl.cons buf₁ a hok₁ (hwant₁ ▸ ha)
    · refine ⟨buf', hok', ?_, ?_, ?_, fun s ↦ ?_⟩
      · rw [hdata', hdata₁, streamBytes_concat heof₁, List.append_assoc]
      · rw [List.mem_append, List.mem_singleton, not_or]
        exact ⟨heof₁, hne.symm⟩
      · rw [hgo₁, hgo', hl.nil] at hw
        exact (Outcome.wait.inj hw).symm
      · rw [List.append_assoc, hgo₁]
        exact hgo' s
    · rw [hgo₁, hd] at hw
      exact absurd hw (by simp)

/-- **A call that returns leaves nothing of what it was given**, but the end of the stream. -/
theorem Asked.rest_eq (hl : ReadingLoop ok loop) (hf : StartsLoop ok loop buf f) {r : α}
    {rest : Reads} (h : Asked f got) (hd : f got = .done r rest) : rest = [] ∨ rest = [.eof] := by
  cases h with
  | nil =>
    rcases hf with ⟨-, hf⟩ | ⟨r', hr'⟩
    · rw [hf, hl.nil] at hd
      exact absurd hd (by simp)
    · exact .inl (Outcome.done.inj ((hr' []).symm.trans hd)).2.symm
  | @snoc got want a h hw ha =>
    obtain ⟨buf₁, hok₁, -, -, hwant₁, hgo₁⟩ := h.waitsAt hl hf hw
    rw [hgo₁] at hd
    obtain ⟨buf', -, -, -, hgo'⟩ | ⟨r', rest', hd', hrest⟩ := hl.cons buf₁ a hok₁ (hwant₁ ▸ ha)
    · rw [hgo', hl.nil] at hd
      exact absurd hd (by simp)
    · rw [hd'] at hd
      obtain ⟨-, rfl⟩ := Outcome.done.inj hd
      exact hrest

end

/-! ### The loops of an `rbuffer_t` -/

theorem readingLoop_rbufferReadMore (D : StreamDecoder UInt8 V) :
    ReadingLoop (fun x ↦ D x = .more) (rbufferReadMore D) where
  nil _ := rfl
  cons buf a hok ha := by
    cases a with
    | data bs =>
      match hd : rbufferDecode D (buf.room.store bs (RBuffer.le_size_of_fits ha)) with
      | some r =>
        refine .inr ⟨r, [], ?_, .inl rfl⟩
        rw [rbufferReadMore, dif_pos ha, hd]
      | none =>
        refine .inl ⟨buf.room.store bs (RBuffer.le_size_of_fits ha), rbufferDecode_eq_none.1 hd, ?_,
          by simp, fun s ↦ ?_⟩
        · rw [RBuffer.data_store, RBuffer.data_room]
          rfl
        · rw [rbufferReadMore, dif_pos ha, hd]
    | eof => exact .inr ⟨_, _, rfl, .inr rfl⟩
    | again => exact .inl ⟨buf, hok, (List.append_nil _).symm, by simp, fun s ↦ rfl⟩
    | fail => exact .inr ⟨_, _, rfl, .inl rfl⟩

theorem startsLoop_rbufferRead {D : StreamDecoder UInt8 V} (hnil : D [] = .more) (buf : RBuffer) :
    StartsLoop (fun x ↦ D x = .more) (rbufferReadMore D) buf (rbufferRead D buf) := by
  by_cases hemp : buf.data.length = 0
  · refine .inl ⟨?_, fun s ↦ ?_⟩
    · show D buf.data = .more
      rw [List.length_eq_zero_iff.1 hemp, hnil]
    · rw [rbufferRead, if_pos hemp]
  · rcases hd : rbufferDecode D buf with _ | r
    · refine .inl ⟨rbufferDecode_eq_none.1 hd, fun s ↦ ?_⟩
      rw [rbufferRead, if_neg hemp, hd]
    · refine .inr ⟨r, fun s ↦ ?_⟩
      rw [rbufferRead, if_neg hemp, hd]

theorem readingLoop_rbufferTryRead (D : StreamDecoder UInt8 V) :
    ReadingLoop (fun _ ↦ True) (rbufferTryRead D) where
  nil _ := rfl
  cons buf a _ ha := by
    cases a with
    | data bs =>
      refine .inl ⟨buf.room.store bs (RBuffer.le_size_of_fits ha), trivial, ?_, by simp, fun s ↦ ?_⟩
      · rw [RBuffer.data_store, RBuffer.data_room]
        rfl
      · rw [rbufferTryRead, rbufferTryRead, rbufferDrain, dif_pos ha]
    | eof => exact .inr ⟨_, _, rfl, .inr rfl⟩
    | again => exact .inr ⟨_, _, rfl, .inl rfl⟩
    | fail => exact .inr ⟨_, _, rfl, .inl rfl⟩

theorem startsLoop_rbufferTryRead (D : StreamDecoder UInt8 V) (buf : RBuffer) :
    StartsLoop (fun _ ↦ True) (rbufferTryRead D) buf (rbufferTryRead D buf) :=
  .inl ⟨trivial, fun _ ↦ rfl⟩

theorem rbufferReadMore_ne_abort {D : StreamDecoder UInt8 V} :
    ∀ (s : Reads) (buf : RBuffer), rbufferReadMore D buf s ≠ .abort
  | [], _ => by simp [rbufferReadMore]
  | .data bs :: s, buf => by
    rw [rbufferReadMore]
    split
    · split
      · simp
      · exact rbufferReadMore_ne_abort s _
    · simp
  | .eof :: s, _ => by simp [rbufferReadMore]
  | .again :: s, buf => rbufferReadMore_ne_abort s buf
  | .fail :: s, _ => by simp [rbufferReadMore]

theorem rbufferRead_ne_abort {D : StreamDecoder UInt8 V} (buf : RBuffer) (s : Reads) :
    rbufferRead D buf s ≠ .abort := by
  rw [rbufferRead]
  split
  · exact rbufferReadMore_ne_abort s buf
  · split
    · simp
    · exact rbufferReadMore_ne_abort s buf

/-- A blocking read that waits has not been given all of a message. -/
theorem decode_eq_more_of_wait {D : StreamDecoder UInt8 V} (hnil : D [] = .more) {buf : RBuffer}
    {got : Reads} {want : ℕ} (h : Asked (rbufferRead D buf) got)
    (hw : rbufferRead D buf got = .wait want) : D (buf.data ++ streamBytes got) = .more := by
  obtain ⟨buf', hok, hdata, -⟩ :=
    h.waitsAt (readingLoop_rbufferReadMore D) (startsLoop_rbufferRead hnil buf) hw
  rwa [hdata] at hok

/-- What a call that returns has found in the bytes it was given. -/
theorem rbufferCall_of_asked {D : StreamDecoder UInt8 V} (hnil : D [] = .more) {c : RBufferCall}
    {got rest : Reads} {buf : RBuffer} {r : RBufferResult V × RBuffer} (hs : .fail ∉ got)
    (ha : Asked (rbufferCall D c buf) got) (h : rbufferCall D c buf got = .done r rest) :
    RBufferStep D (buf.data ++ streamBytes got) r.1 r.2.data ∧
      (c = .read → r.1 = .incomplete → .eof ∈ got) := by
  have hrest : rest = [] ∨ rest = [.eof] := by
    cases c with
    | read =>
      exact ha.rest_eq (readingLoop_rbufferReadMore D) (startsLoop_rbufferRead hnil buf) h
    | tryRead =>
      exact ha.rest_eq (readingLoop_rbufferTryRead D) (startsLoop_rbufferTryRead D buf) h
  have hbytes : streamBytes rest = [] := by rcases hrest with rfl | rfl <;> rfl
  obtain ⟨taken, htaken, hstep, heof⟩ := rbufferCall_spec hnil hs h
  rw [hbytes, List.append_nil] at htaken
  rw [htaken]
  refine ⟨hstep, fun hc hinc ↦ (rbufferCall_suffix h).subset ?_⟩
  rcases hrest with rfl | rfl
  · exact absurd (heof hc hinc) (by simp [AtEof])
  · exact List.mem_singleton_self _

end Vmecs
