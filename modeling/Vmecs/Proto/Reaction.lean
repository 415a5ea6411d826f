import Vmecs.Proto.Receive
import Vmecs.Proto.Reassembly
import Vmecs.Proto.Waiting

/-!
# Programs as functions of the stream

A program that reads messages with an `rbuffer_t` and answers them is, seen from outside, a function
of the bytes it is sent: what it has written and whether it has returned follow from the bytes that
have come so far, and from whether the stream ends behind them (`Reaction`). `Reacts` says that a
program behaves like such a function under every list of answers the kernel can give it
(`Possible`), so nothing about the segments is left in it.

The rules below give the function of a program from those of its parts: a program that returns at
once, a write, the reading of a message (`Reacts.read`), and of a first byte that is put back
(`Reacts.peek`).
-/

namespace Vmecs

open StreamDecoder

variable {α V : Type}

/-! ### Possible answers -/

/-- The answer can be given to a call that has got so far. -/
def Outcome.Takes (a : ReadAnswer) : Outcome α → Prop
  | wait want => a.Fits want
  | _ => True

instance (a : ReadAnswer) (o : Outcome α) : Decidable (o.Takes a) :=
  match o with
  | .wait want => inferInstanceAs (Decidable (a.Fits want))
  | .done _ _ | .abort => inferInstanceAs (Decidable True)

/-- The list is a behaviour of `read(2)`: every answer fits the call that it is given to. -/
def Possible (f : Reads → Outcome α) (s : Reads) : Prop :=
  ∀ pre a post, s = pre ++ a :: post → (f pre).Takes a

theorem possible_iff {f : Reads → Outcome α} {s : Reads} :
    Possible f s ↔ ∀ i : Fin s.length, (f (s.take i)).Takes (s.get i) := by
  constructor
  · intro h i
    refine h (s.take i) (s.get i) (s.drop (i + 1)) ?_
    rw [List.get_eq_getElem, List.getElem_cons_drop, List.take_append_drop]
  · rintro h pre a post rfl
    simpa using h ⟨pre.length, by simp⟩

instance (f : Reads → Outcome α) (s : Reads) : Decidable (Possible f s) :=
  decidable_of_iff _ possible_iff.symm

/-- What comes later is possible for what the call goes on with. -/
theorem Possible.shift {β : Type} {f : Reads → Outcome α} {g : Reads → Outcome β} (used : Reads)
    {s : Reads} (h : Possible f (used ++ s))
    (hfg : ∀ t want, g t = .wait want → f (used ++ t) = .wait want) : Possible g s := by
  rintro pre a post rfl
  have hpre := h (used ++ pre) a post (by rw [List.append_assoc])
  match hg : g pre with
  | .wait want => rwa [hfg pre want hg] at hpre
  | .done _ _ => trivial
  | .abort => trivial

/-- The answers that a call has had are possible. -/
theorem Asked.possible {f : Reads → Outcome α} {got : Reads} (h : Asked f got) :
    Possible f got := by
  induction h with
  | nil =>
    intro pre a post heq
    exact absurd heq (by simp)
  | @snoc got want a _ hw ha ih =>
    intro pre a' post heq
    rcases List.eq_nil_or_concat post with rfl | ⟨post', a'', rfl⟩
    · obtain ⟨rfl, heq'⟩ := List.append_inj' heq rfl
      obtain rfl := List.singleton_inj.1 heq'
      rw [hw]
      exact ha
    · rw [List.concat_eq_append, ← List.cons_append, ← List.append_assoc] at heq
      exact ih pre a' post' (List.append_inj' heq rfl).1

/-! ### Blocking reads -/

/-- A read that succeeds does not look at the answers that follow. -/
theorem rbufferReadMore_append {D : StreamDecoder UInt8 V} {s s' : Reads} {buf buf' : RBuffer}
    {v : V} (h : rbufferReadMore D buf s = .done (.success v, buf') s') :
    ∃ used, s = used ++ s' ∧
      ∀ t, rbufferReadMore D buf (used ++ t) = .done (.success v, buf') t := by
  induction s generalizing buf with
  | nil => exact absurd h (by simp [rbufferReadMore])
  | cons a s ih =>
    cases a with
    | data bs =>
      rw [rbufferReadMore] at h
      split at h
      case isFalse => exact absurd h (by simp)
      case isTrue hfit =>
        split at h
        case h_1 r hd =>
          obtain ⟨rfl, rfl⟩ := Outcome.done.inj h
          refine ⟨[.data bs], rfl, fun t ↦ ?_⟩
          rw [List.singleton_append, rbufferReadMore, dif_pos hfit, hd]
        case h_2 hd =>
          obtain ⟨used, rfl, hgo⟩ := ih h
          refine ⟨.data bs :: used, rfl, fun t ↦ ?_⟩
          rw [List.cons_append, rbufferReadMore, dif_pos hfit, hd]
          exact hgo t
    | eof => exact absurd (Outcome.done.inj h).1 (by simp)
    | again =>
      obtain ⟨used, rfl, hgo⟩ := ih h
      exact ⟨.again :: used, rfl, hgo⟩
    | fail => exact absurd (Outcome.done.inj h).1 (by simp)

theorem rbufferRead_append {D : StreamDecoder UInt8 V} {s s' : Reads} {buf buf' : RBuffer} {v : V}
    (h : rbufferRead D buf s = .done (.success v, buf') s') :
    ∃ used, s = used ++ s' ∧ ∀ t, rbufferRead D buf (used ++ t) = .done (.success v, buf') t := by
  rw [rbufferRead] at h
  split at h
  case isTrue hemp =>
    obtain ⟨used, hs, hgo⟩ := rbufferReadMore_append h
    refine ⟨used, hs, fun t ↦ ?_⟩
    rw [rbufferRead, if_pos hemp, hgo]
  case isFalse hne =>
    split at h
    case h_1 r hd =>
      obtain ⟨rfl, rfl⟩ := Outcome.done.inj h
      refine ⟨[], rfl, fun t ↦ ?_⟩
      rw [List.nil_append, rbufferRead, if_neg hne, hd]
    case h_2 hd =>
      obtain ⟨used, hs, hgo⟩ := rbufferReadMore_append h
      refine ⟨used, hs, fun t ↦ ?_⟩
      rw [rbufferRead, if_neg hne, hd]
      exact hgo t

/-- A read that waits has used up all the answers, and they do not make up a message. -/
theorem rbufferReadMore_of_wait {D : StreamDecoder UInt8 V} {want : ℕ} :
    ∀ {s : Reads} {buf : RBuffer}, D buf.data = .more → Possible (rbufferReadMore D buf) s →
      rbufferReadMore D buf s = .wait want →
        .eof ∉ s ∧ D (buf.data ++ streamBytes s) = .more
  | [], buf, hmore, _, _ => ⟨List.not_mem_nil, by simpa using hmore⟩
  | .data bs :: s, buf, _, hposs, h => by
    have hfit : (ReadAnswer.data bs).Fits buf.room.rest := hposs [] _ _ rfl
    rw [rbufferReadMore, dif_pos hfit] at h
    split at h
    case h_1 => exact absurd h (by simp)
    case h_2 hd =>
      have hposs' : Possible (rbufferReadMore D
          (buf.room.store bs (RBuffer.le_size_of_fits hfit))) s := by
        refine hposs.shift [.data bs] fun t want ht ↦ ?_
        rw [List.singleton_append, rbufferReadMore, dif_pos hfit, hd]
        exact ht
      obtain ⟨heof, hmore⟩ := rbufferReadMore_of_wait (rbufferDecode_eq_none.1 hd) hposs' h
      rw [RBuffer.data_store, RBuffer.data_room, List.append_assoc] at hmore
      exact ⟨by simpa using heof, hmore⟩
  | .eof :: s, buf, _, _, h => absurd h (by simp [rbufferReadMore])
  | .again :: s, buf, hmore, hposs, h => by
    have hposs' : Possible (rbufferReadMore D buf) s :=
      hposs.shift [.again] fun _ _ ht ↦ ht
    obtain ⟨heof, hmore'⟩ := rbufferReadMore_of_wait (s := s) hmore hposs' h
    exact ⟨by simpa using heof, hmore'⟩
  | .fail :: s, buf, _, _, h => absurd h (by simp [rbufferReadMore])

theorem rbufferRead_of_wait {D : StreamDecoder UInt8 V} (hnil : D [] = .more) {want : ℕ}
    {s : Reads} {buf : RBuffer} (hposs : Possible (rbufferRead D buf) s)
    (h : rbufferRead D buf s = .wait want) :
    .eof ∉ s ∧ D (buf.data ++ streamBytes s) = .more := by
  rcases startsLoop_rbufferRead hnil buf with ⟨hmore, hloop⟩ | ⟨r, hr⟩
  · rw [hloop] at h
    refine rbufferReadMore_of_wait hmore (hposs.shift [] fun t want ht ↦ ?_) h
    rw [List.nil_append, hloop, ht]
  · exact absurd ((hr s).symm.trans h) (by simp)

/-! ### Reactions -/

/-- What a program does on a stream: from the bytes, and whether the stream ends behind them, what
it has written, and what it returns if it does. -/
abbrev Reaction (α : Type) := Bytes → Bool → List Bytes × Option α

namespace Reaction

/-- Return at once. -/
def done (a : α) : Reaction α := fun _ _ ↦ ([], some a)

/-- Write first. -/
def write (bs : Bytes) (R : Reaction α) : Reaction α := fun x ended ↦
  (bs :: (R x ended).1, (R x ended).2)

/-- Look at the first byte; return `a` if the stream ends before it. -/
def peek (R : UInt8 → Reaction α) (a : α) : Reaction α := fun x ended ↦
  match x with
  | [] => ([], if ended then some a else none)
  | b :: _ => R b x ended

/-- Read a message; return `a` if there is something else, or the stream ends before. -/
def read (D : StreamDecoder UInt8 V) (R : V → Reaction α) (a : α) : Reaction α := fun x ended ↦
  match D x with
  | .ok n v => R v (x.drop n) ended
  | .fail => ([], some a)
  | .more => ([], if ended then some a else none)

theorem read_of_ok {D : StreamDecoder UInt8 V} {R : V → Reaction α} {a : α} {x : Bytes} {n : ℕ}
    {v : V} (h : D x = .ok n v) (ended : Bool) :
    read D R a x ended = R v (x.drop n) ended := by
  rw [read, h]

theorem read_of_more {D : StreamDecoder UInt8 V} {R : V → Reaction α} {a : α} {x : Bytes}
    (h : D x = .more) (ended : Bool) :
    read D R a x ended = ([], if ended then some a else none) := by
  rw [read, h]

theorem read_of_fail {D : StreamDecoder UInt8 V} {R : V → Reaction α} {a : α} {x : Bytes}
    (h : D x = .fail) (ended : Bool) : read D R a x ended = ([], some a) := by
  rw [read, h]

/-- A result other than the one for bad input comes from what follows the message. -/
theorem read_eq_some {D : StreamDecoder UInt8 V} {R : V → Reaction α} {a b : α} (hab : b ≠ a)
    {x : Bytes} {ended : Bool} :
    (read D R a x ended).2 = some b ↔
      ∃ n v, D x = .ok n v ∧ (R v (x.drop n) ended).2 = some b := by
  rw [read]
  cases D x with
  | fail => simp [hab.symm]
  | more => cases ended <;> simp [hab.symm]
  | ok n v => simp

/-- The end of the stream is enough for the program to return. -/
def Returns (R : Reaction α) : Prop := ∀ x, ∃ a, (R x true).2 = some a

namespace Returns

theorem done (a : α) : (Reaction.done a).Returns := fun _ ↦ ⟨a, rfl⟩

theorem write {bs : Bytes} {R : Reaction α} (h : R.Returns) : (Reaction.write bs R).Returns :=
  fun x ↦ h x

theorem ite {P : Prop} [Decidable P] {R Q : Reaction α} (hR : R.Returns) (hQ : Q.Returns) :
    Returns (if P then R else Q) := by
  split
  · exact hR
  · exact hQ

theorem peek {R : UInt8 → Reaction α} {a : α} (h : ∀ b, (R b).Returns) :
    (Reaction.peek R a).Returns := by
  intro x
  cases x with
  | nil => exact ⟨a, rfl⟩
  | cons b x => exact h b (b :: x)

theorem read {D : StreamDecoder UInt8 V} {R : V → Reaction α} {a : α} (h : ∀ v, (R v).Returns) :
    (Reaction.read D R a).Returns := by
  intro x
  match hd : D x with
  | .fail => exact ⟨a, by rw [read_of_fail hd]⟩
  | .more => exact ⟨a, by rw [read_of_more hd, if_pos rfl]⟩
  | .ok n v =>
    rw [read_of_ok hd]
    exact h v (x.drop n)

end Returns

/-- What has been written stays written when more of the stream comes. -/
def Grows (R : Reaction α) : Prop := ∀ x y, x <+: y → (R x false).1 <+: (R y false).1

namespace Grows

theorem done (a : α) : (Reaction.done a).Grows := fun _ _ _ ↦ List.prefix_rfl

theorem write {bs : Bytes} {R : Reaction α} (h : R.Grows) : (Reaction.write bs R).Grows :=
  fun x y hxy ↦ List.cons_prefix_cons.2 ⟨rfl, h x y hxy⟩

theorem ite {P : Prop} [Decidable P] {R Q : Reaction α} (hR : R.Grows) (hQ : Q.Grows) :
    Grows (if P then R else Q) := by
  split
  · exact hR
  · exact hQ

theorem peek {R : UInt8 → Reaction α} {a : α} (h : ∀ b, (R b).Grows) :
    (Reaction.peek R a).Grows := by
  intro x y hxy
  cases x with
  | nil => exact List.nil_prefix
  | cons b x =>
    obtain ⟨t, rfl⟩ := hxy
    exact h b (b :: x) (b :: (x ++ t)) ⟨t, rfl⟩

theorem read {D : StreamDecoder UInt8 V} (hD : D.Streaming) {R : V → Reaction α} {a : α}
    (h : ∀ v, (R v).Grows) : (Reaction.read D R a).Grows := by
  rintro x _ ⟨t, rfl⟩
  match hd : D x with
  | .fail =>
    rw [read_of_fail hd]
    exact List.nil_prefix
  | .more =>
    rw [read_of_more hd]
    exact List.nil_prefix
  | .ok n v =>
    rw [read_of_ok hd, read_of_ok (hD.ok_append t hd), List.drop_append_of_le_length (hD.le hd)]
    exact h v _ _ (List.prefix_append _ _)

end Grows

/-- On the beginning of a stream whose first message is `m`, the program waits for all of it. -/
theorem read_of_isPrefix {D : StreamDecoder UInt8 V} {m : Bytes} {v : V} (hm : D.Framed m v)
    {x s : Bytes} (hx : x <+: m ++ s) (R : V → Reaction α) (a : α) :
    read D R a x false =
      if x.length < m.length then ([], none) else R v (x.drop m.length) false := by
  have hd := hm.of_isPrefix hx
  split
  case isTrue hlt =>
    rw [if_pos hlt] at hd
    exact read_of_more hd false
  case isFalse hge =>
    rw [if_neg hge] at hd
    exact read_of_ok hd false

end Reaction

/-- The call returns `a`. -/
def Outcome.Returns (o : Outcome α) (a : α) : Prop := ∃ rest, o = .done a rest

/-- The call returns this, or it waits for at least a byte. -/
def Outcome.Ends (o : Outcome α) : Option α → Prop
  | some a => o.Returns a
  | none => ∃ want, 0 < want ∧ o = .wait want

theorem Outcome.Ends.returns_iff {o : Outcome α} {r : Option α} (h : o.Ends r) {a : α} :
    o.Returns a ↔ r = some a := by
  cases r with
  | none =>
    obtain ⟨want, -, rfl⟩ := h
    simp [Returns]
  | some b =>
    obtain ⟨rest, rfl⟩ := h
    constructor
    · rintro ⟨rest', heq⟩
      exact congrArg some (Outcome.done.inj heq).1
    · intro heq
      exact ⟨rest, by rw [Option.some.inj heq]⟩

/-- **The program is this function of its stream**, which begins with the bytes `data` that it has
already read: under all possible answers without read errors. -/
def Reacts (p : FdProc α) (data : Bytes) (R : Reaction α) : Prop :=
  ∀ s out, .fail ∉ s → Possible (fun t ↦ (p t out).2) s →
    (p s out).1 = fdWrites out (R (data ++ streamBytes s) (decide (.eof ∈ s))).1 ∧
      (p s out).2.Ends (R (data ++ streamBytes s) (decide (.eof ∈ s))).2

namespace Reacts

variable {p : FdProc α} {data : Bytes} {R : Reaction α}

theorem done (a : α) : Reacts (pure a) data (.done a) := by
  intro s out _ _
  exact ⟨rfl, s, rfl⟩

theorem write {bs : Bytes} (h : Reacts p data R) :
    Reacts (FdProc.write bs >>= fun _ ↦ p) data (.write bs R) := by
  intro s out hs hposs
  exact h s (fdWrite out bs).2 hs hposs

theorem ite {P : Prop} [Decidable P] {q : FdProc α} {Q : Reaction α} (hp : Reacts p data R)
    (hq : Reacts q data Q) : Reacts (if P then p else q) data (if P then R else Q) := by
  split
  · exact hp
  · exact hq

theorem eof_mem_cons {a : ReadAnswer} (ha : a ≠ .eof) (s : Reads) :
    decide (ReadAnswer.eof ∈ a :: s) = decide (ReadAnswer.eof ∈ s) := by
  simp [ha.symm]

theorem eof_mem_append {used s : Reads} (h : .eof ∉ used) :
    decide (ReadAnswer.eof ∈ used ++ s) = decide (ReadAnswer.eof ∈ s) := by
  simp [h]

/-- **A message, and the rest of the program.** -/
theorem read {D : StreamDecoder UInt8 V} (hD : D.Streaming) {rbuf : RBuffer}
    {k : RBufferResult V × RBuffer → FdProc α} {R : V → Reaction α} {a : α}
    (hk : ∀ v rbuf', Reacts (k (.success v, rbuf')) rbuf'.data (R v))
    (herr : ∀ rbuf', k (.error, rbuf') = pure a) (hinc : ∀ rbuf', k (.incomplete, rbuf') = pure a) :
    Reacts (FdProc.read (rbufferRead D rbuf) >>= k) rbuf.data (.read D R a) := by
  intro s out hs hposs
  have hposs' : Possible (rbufferRead D rbuf) s := by
    refine hposs.shift [] fun t want ht ↦ ?_
    show ((FdProc.read (rbufferRead D rbuf) >>= k) t out).2 = _
    rw [FdProc.read_bind_apply, ht]
  rw [FdProc.read_bind_apply]
  match hr : rbufferRead D rbuf s with
  | .abort => exact absurd hr (rbufferRead_ne_abort rbuf s)
  | .wait want =>
    obtain ⟨heof, hmore⟩ := rbufferRead_of_wait hD.nil hposs' hr
    have hpos := (rbufferCall_wait (c := .read) hr).1
    rw [Reaction.read_of_more hmore]
    exact ⟨rfl, by simp [heof, Outcome.Ends, hpos]⟩
  | .done (.success v, rbuf') s' =>
    obtain ⟨used, n, rfl, hcomp, hleft⟩ := rbufferRead_completed hD.nil hr
    obtain ⟨used', heq, hgo⟩ := rbufferRead_append hr
    obtain rfl : used = used' := List.append_cancel_right heq
    have hs' : .fail ∉ s' := fun hm ↦ hs (List.mem_append_right _ hm)
    have hposs'' : Possible (fun t ↦ (k (.success v, rbuf') t out).2) s' := by
      refine hposs.shift used fun t want ht ↦ ?_
      show ((FdProc.read (rbufferRead D rbuf) >>= k) (used ++ t) out).2 = _
      rw [FdProc.read_bind_apply, hgo]
      exact ht
    have hok : D (rbuf.data ++ streamBytes (used ++ s')) = .ok n v := by
      rw [streamBytes_append hcomp.not_eof, ← List.append_assoc]
      exact hD.ok_append _ hcomp.decode
    have hrest : (rbuf.data ++ streamBytes (used ++ s')).drop n =
        rbuf'.data ++ streamBytes s' := by
      rw [streamBytes_append hcomp.not_eof, ← List.append_assoc,
        List.drop_append_of_le_length (hD.le hcomp.decode), hleft]
    rw [Reaction.read_of_ok hok, hrest, eof_mem_append hcomp.not_eof]
    exact hk v rbuf' s' out hs' hposs''
  | .done (.error, rbuf') s' =>
    obtain ⟨got, hgot, ⟨hfail, -⟩, -⟩ := rbufferRead_spec hD.nil hs hr
    have hfail' : D (rbuf.data ++ streamBytes s) = .fail := by
      rw [hgot, ← List.append_assoc]
      exact hD.fail_append _ hfail
    rw [Reaction.read_of_fail hfail']
    show (k (.error, rbuf') s' out).1 = out ∧ (k (.error, rbuf') s' out).2.Ends (some a)
    rw [herr]
    exact ⟨rfl, s', rfl⟩
  | .done (.incomplete, rbuf') s' =>
    obtain ⟨got, hgot, ⟨hmore, -⟩, heof⟩ := rbufferRead_spec hD.nil hs hr
    have hend : AtEof s' := heof rfl
    have hmem : .eof ∈ s := (rbufferRead_suffix hr).subset (List.mem_of_mem_head? hend)
    rw [hend.streamBytes_eq, List.append_nil] at hgot
    rw [hgot, Reaction.read_of_more hmore, decide_eq_true hmem]
    show (k (.incomplete, rbuf') s' out).1 = out ∧ (k (.incomplete, rbuf') s' out).2.Ends (some a)
    rw [hinc]
    exact ⟨rfl, s', rfl⟩

/-- **A first byte that is put back into the buffer.** -/
theorem peek {k : ReadAnswer → FdProc α} {R : UInt8 → Reaction α} {a : α}
    (hk : ∀ b, Reacts (k (.data [b])) [b] (R b)) (heof : k .eof = pure a) :
    Reacts (FdProc.read (fdRead 1) >>= k) [] (.peek R a) := by
  intro s out hs hposs
  rw [List.nil_append]
  induction s with
  | nil => exact ⟨rfl, 1, Nat.one_pos, rfl⟩
  | cons b s ih =>
    have hs' : .fail ∉ s := fun hm ↦ hs (List.mem_cons_of_mem _ hm)
    cases b with
    | data bs =>
      have hfit : (ReadAnswer.data bs).Fits 1 := hposs [] _ _ rfl
      obtain ⟨b, rfl⟩ := List.length_eq_one_iff.1 (Nat.le_antisymm hfit.2 hfit.1)
      have hgo : ∀ t, fdRead 1 (.data [b] :: t) = .done (.data [b]) t := fun t ↦ if_pos hfit
      have hposs' : Possible (fun t ↦ (k (.data [b]) t out).2) s := by
        refine hposs.shift [.data [b]] fun t want ht ↦ ?_
        show ((FdProc.read (fdRead 1) >>= k) (.data [b] :: t) out).2 = _
        rw [FdProc.read_bind_apply, hgo]
        exact ht
      rw [eof_mem_cons (by simp), streamBytes_data]
      have hrun : (FdProc.read (fdRead 1) >>= k) (.data [b] :: s) out = k (.data [b]) s out := by
        rw [FdProc.read_bind_apply, hgo]
      rw [hrun]
      exact hk b s out hs' hposs'
    | eof =>
      have hmem : ReadAnswer.eof ∈ ReadAnswer.eof :: s := List.mem_cons_self
      rw [FdProc.read_bind_apply, fdRead, streamBytes_eof, decide_eq_true hmem]
      show (k .eof (.eof :: s) out).1 = out ∧ (k .eof (.eof :: s) out).2.Ends (some a)
      rw [heof]
      exact ⟨rfl, _, rfl⟩
    | again =>
      have hposs' : Possible (fun t ↦ ((FdProc.read (fdRead 1) >>= k) t out).2) s :=
        hposs.shift [.again] fun _ _ ht ↦ ht
      rw [eof_mem_cons (by simp)]
      exact ih hs' hposs'
    | fail => exact absurd List.mem_cons_self hs

/-- What the program returns. -/
theorem returns_iff (h : Reacts p data R) {s : Reads} {out : OutFd} (hs : .fail ∉ s)
    (hposs : Possible (fun t ↦ (p t out).2) s) {a : α} :
    (p s out).2.Returns a ↔ (R (data ++ streamBytes s) (decide (.eof ∈ s))).2 = some a :=
  (h s out hs hposs).2.returns_iff

/-- What the program has written on the answers it has had. -/
theorem sent_eq (h : Reacts p [] R) {got : Reads} (ha : Asked (fun t ↦ (p t {}).2) got)
    (heof : .eof ∉ got) (hfail : .fail ∉ got) :
    (p got {}).1.sent = (R (streamBytes got) false).1.flatten := by
  have hout := (h got {} hfail ha.possible).1
  rw [List.nil_append, decide_eq_false heof] at hout
  rw [hout, fdWrites_of_reliable rfl]
  rfl

/-- **Segments do not matter**: on the same bytes the program writes and returns the same. -/
theorem eq_of_streamBytes_eq (h : Reacts p data R) {s₁ s₂ : Reads} {out : OutFd}
    (hs₁ : .fail ∉ s₁) (hs₂ : .fail ∉ s₂) (hposs₁ : Possible (fun t ↦ (p t out).2) s₁)
    (hposs₂ : Possible (fun t ↦ (p t out).2) s₂) (hbytes : streamBytes s₁ = streamBytes s₂)
    (heof : .eof ∈ s₁ ↔ .eof ∈ s₂) :
    (p s₁ out).1 = (p s₂ out).1 ∧ ∀ a, (p s₁ out).2.Returns a ↔ (p s₂ out).2.Returns a := by
  constructor
  · rw [(h s₁ out hs₁ hposs₁).1, (h s₂ out hs₂ hposs₂).1, hbytes, decide_eq_decide.2 heof]
  · intro a
    rw [h.returns_iff hs₁ hposs₁, h.returns_iff hs₂ hposs₂, hbytes, decide_eq_decide.2 heof]

end Reacts

end Vmecs
