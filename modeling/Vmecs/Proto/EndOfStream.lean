import Vmecs.Lib.Incremental
import Vmecs.Proto.Buf

/-!
# A stream that ends in the middle of a message

Both reading functions of an `rbuffer_t` report an incomplete message when the stream is at its end
and the decoder asks for more. `rbuffer_read` reports it for no other reason
(`rbufferRead_incomplete_iff`). For `rbuffer_try_read` it is also the report of a message that is
still coming, so behind the end of the stream it says what is not so
(`rbufferTryRead_of_reachesEof`).
-/

namespace Vmecs

open StreamDecoder

variable {V : Type} {D : StreamDecoder UInt8 V} {data : Bytes} {s s' : Reads} {buf buf' : RBuffer}
  {r : RBufferResult V}

/-- The stream ends, and before any read error, when the decoder still asks for more than the bytes
`data` and those that have come. -/
def Truncated (D : StreamDecoder UInt8 V) : Bytes → Reads → Prop
  | _, [] => False
  | data, .data bs :: s => Truncated D (data ++ bs) s
  | data, .eof :: _ => D data = .more
  | data, .again :: s => Truncated D data s
  | _, .fail :: _ => False

/-- A decoder that has answered goes on answering. -/
theorem Truncated.more (hD : D.Streaming) (h : Truncated D data s) : D data = .more := by
  induction s generalizing data with
  | nil => exact h.elim
  | cons a s ih =>
    match a with
    | .data bs =>
      have hmore := ih h
      match hd : D data with
      | .more => rfl
      | .fail => exact absurd (hmore.symm.trans (hD.fail_append bs hd)) (by simp)
      | .ok n v => exact absurd (hmore.symm.trans (hD.ok_append bs hd)) (by simp)
    | .eof => exact h
    | .again => exact ih h
    | .fail => exact h.elim

/-- What the decoder has answered is not an incomplete message, and the stream does not end within
it. -/
theorem incomplete_iff_of_rbufferDecode (hD : D.Streaming) (s : Reads)
    (hd : rbufferDecode D buf = some (r, buf')) : r = .incomplete ↔ Truncated D buf.data s := by
  have hnot : ¬D buf.data = .more := fun hm ↦ by
    rw [rbufferDecode_eq_none.2 hm] at hd
    exact absurd hd (by simp)
  refine iff_of_false (fun hinc ↦ ?_) fun ht ↦ hnot (ht.more hD)
  have hstep := rbufferStep_of_rbufferDecode hd
  rw [hinc] at hstep
  exact hnot hstep.1

/-! ### The blocking read -/

theorem rbufferReadMore_incomplete_iff (hD : D.Streaming) (hmore : D buf.data = .more)
    (h : rbufferReadMore D buf s = .done (r, buf') s') :
    r = .incomplete ↔ Truncated D buf.data s := by
  induction s generalizing buf with
  | nil => exact absurd h (by simp [rbufferReadMore])
  | cons a s ih =>
    cases a with
    | data bs =>
      rw [rbufferReadMore] at h
      split at h
      case isFalse => exact absurd h (by simp)
      case isTrue hfit =>
        have hstore : (buf.room.store bs (RBuffer.le_size_of_fits hfit)).data = buf.data ++ bs := by
          rw [RBuffer.data_store, RBuffer.data_room]
        rw [Truncated, ← hstore]
        split at h
        case h_1 hd =>
          obtain ⟨rfl, -⟩ := Outcome.done.inj h
          exact incomplete_iff_of_rbufferDecode hD s hd
        case h_2 hd => exact ih (rbufferDecode_eq_none.1 hd) h
    | eof =>
      obtain ⟨hr, -⟩ := Outcome.done.inj h
      exact iff_of_true (Prod.mk.inj hr).1.symm hmore
    | again => exact ih hmore h
    | fail =>
      obtain ⟨hr, -⟩ := Outcome.done.inj h
      obtain ⟨rfl, -⟩ := Prod.mk.inj hr
      exact iff_of_false (by simp) id

/-- **A blocking read** reports an incomplete message exactly when the stream ends within it. -/
theorem rbufferRead_incomplete_iff (hD : D.Streaming)
    (h : rbufferRead D buf s = .done (r, buf') s') :
    r = .incomplete ↔ Truncated D buf.data s := by
  rw [rbufferRead] at h
  split at h
  case isTrue hemp =>
    exact rbufferReadMore_incomplete_iff hD (by rw [List.length_eq_zero_iff.1 hemp, hD.nil]) h
  case isFalse =>
    split at h
    case h_1 hd =>
      obtain ⟨rfl, -⟩ := Outcome.done.inj h
      exact incomplete_iff_of_rbufferDecode hD s hd
    case h_2 hd => exact rbufferReadMore_incomplete_iff hD (rbufferDecode_eq_none.1 hd) h

/-! ### The non-blocking read -/

/-- A call that reads all there is gets to the end of the stream. -/
def ReachesEof : Reads → Prop
  | .data _ :: s => ReachesEof s
  | .eof :: _ => True
  | _ => False

theorem rbufferDrain_of_reachesEof {b : Bool} (hs : ReachesEof s)
    (h : rbufferDrain buf s = .done (b, buf') s') :
    b = true ∧ buf'.data = buf.data ++ streamBytes s ∧ AtEof s' := by
  induction s generalizing buf with
  | nil => exact hs.elim
  | cons a s ih =>
    match a with
    | .data bs =>
      rw [rbufferDrain] at h
      split at h
      case isFalse => exact absurd h (by simp)
      case isTrue hfit =>
        obtain ⟨hb, hdata, hend⟩ := ih hs h
        rw [RBuffer.data_store, RBuffer.data_room, List.append_assoc] at hdata
        exact ⟨hb, hdata, hend⟩
    | .eof =>
      obtain ⟨hr, rfl⟩ := Outcome.done.inj h
      obtain ⟨rfl, rfl⟩ := Prod.mk.inj hr
      exact ⟨rfl, by simp, rfl⟩

/-- **A non-blocking read that gets to the end of the stream** says what the decoder says of all the
bytes there are. -/
theorem rbufferTryRead_of_reachesEof (hs : ReachesEof s)
    (h : rbufferTryRead D buf s = .done (r, buf') s') :
    RBufferStep D (buf.data ++ streamBytes s) r buf'.data ∧ AtEof s' := by
  rw [rbufferTryRead] at h
  cases hdrain : rbufferDrain buf s with
  | wait _ => simp [hdrain] at h
  | abort => simp [hdrain] at h
  | done x s₁ =>
    obtain ⟨b, buf₁⟩ := x
    obtain ⟨rfl, hdata, hend⟩ := rbufferDrain_of_reachesEof hs hdrain
    simp only [hdrain, Outcome.done.injEq] at h
    obtain ⟨hr, rfl⟩ := h
    rw [← hdata]
    rcases hd : rbufferDecode D buf₁ with _ | r'
    · obtain ⟨rfl, rfl⟩ : .incomplete = r ∧ buf₁ = buf' := by simpa [hd] using hr
      exact ⟨⟨rbufferDecode_eq_none.1 hd, rfl⟩, hend⟩
    · obtain rfl : r' = (r, buf') := by simpa [hd] using hr
      exact ⟨rbufferStep_of_rbufferDecode hd, hend⟩

end Vmecs
