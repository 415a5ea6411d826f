import Mathlib.Data.Int.Basic
import Vmecs.Pub.Type

/-!
# File descriptors (`pub/fd.h`)

The environment of a descriptor is what the kernel answers. The reading side is the list of answers
of `read(2)` in the order of the calls (`Reads`): some bytes, end of stream, would-block, or an
error. An answer to a call that asks for `want` bytes is between 1 and `want` bytes long
(`ReadAnswer.Fits`); a list whose next answer is longer is not a behaviour of `read(2)`, and the
call it is put to does not get past it. So a cut of a stream into segments is the list of its
pieces, and "for every segmentation" is "for every list of answers".

A call that needs an answer the list does not have **waits** (`Outcome.wait`). Running the same call
on a longer list is what the call goes on to do when the answer comes, so a blocking function is
modelled as one function of everything the kernel answers until it returns.

End of stream is final: it stays at the head of the list, and every later read gets it again.

The writing side (`OutFd`) is the bytes the kernel has accepted and its next answers to `write(2)`;
with no answers given, every write is accepted whole.
-/

namespace Vmecs

/-! ### Reading -/

/-- What one `read(2)` returns; an interrupted one is repeated by every caller and not listed. -/
inductive ReadAnswer where
  /-- a positive count, and these bytes -/
  | data (bs : Bytes)
  /-- 0 -/
  | eof
  /-- -1 with `EAGAIN` or `EWOULDBLOCK` -/
  | again
  /-- -1 with another error -/
  | fail
  deriving DecidableEq, Repr

/-- A possible answer to a call that asks for `want` bytes. -/
def ReadAnswer.Fits (want : ℕ) : ReadAnswer → Prop
  | .data bs => 0 < bs.length ∧ bs.length ≤ want
  | _ => True

instance ReadAnswer.decidableFits (want : ℕ) (a : ReadAnswer) : Decidable (a.Fits want) :=
  match a with
  | .data bs => inferInstanceAs (Decidable (0 < bs.length ∧ bs.length ≤ want))
  | .eof | .again | .fail => inferInstanceAs (Decidable True)

/-- The answers to come, in the order of the calls. -/
abbrev Reads := List ReadAnswer

/-- The bytes still to be read: everything before the end of stream. -/
def streamBytes : Reads → Bytes
  | [] => []
  | .data bs :: s => bs ++ streamBytes s
  | .eof :: _ => []
  | .again :: s => streamBytes s
  | .fail :: s => streamBytes s

@[simp] theorem streamBytes_nil : streamBytes [] = [] := rfl

@[simp] theorem streamBytes_data (bs : Bytes) (s : Reads) :
    streamBytes (.data bs :: s) = bs ++ streamBytes s := rfl

@[simp] theorem streamBytes_eof (s : Reads) : streamBytes (.eof :: s) = [] := rfl

@[simp] theorem streamBytes_again (s : Reads) : streamBytes (.again :: s) = streamBytes s := rfl

@[simp] theorem streamBytes_fail (s : Reads) : streamBytes (.fail :: s) = streamBytes s := rfl

/-- The end of stream is all that is left to read. -/
def AtEof (s : Reads) : Prop := s.head? = some .eof

theorem AtEof.streamBytes_eq {s : Reads} (h : AtEof s) : streamBytes s = [] := by
  match s, h with
  | .eof :: _, _ => rfl

/-- How a call ends on a given list of answers: it returns and leaves the answers it has not used;
it waits in a `read(2)` for up to `want` bytes; or an `ASSERT` fails. -/
inductive Outcome (α : Type) where
  | done (a : α) (rest : Reads)
  | wait (want : ℕ)
  | abort
  deriving DecidableEq, Repr

/-- The call with its result changed. -/
def Outcome.map {α β : Type} (f : α → β) : Outcome α → Outcome β
  | done a rest => done (f a) rest
  | wait want => wait want
  | abort => abort

theorem Outcome.map_eq_done {α β : Type} {f : α → β} {o : Outcome α} {b : β} {rest : Reads} :
    o.map f = .done b rest ↔ ∃ a, o = .done a rest ∧ f a = b := by
  cases o <;> simp [map, and_comm]

theorem Outcome.map_eq_wait {α β : Type} {f : α → β} {o : Outcome α} {want : ℕ} :
    o.map f = .wait want ↔ o = .wait want := by
  cases o <;> simp [map]

/-- `fd_read`: a would-block answer is tried again. -/
def fdRead (want : ℕ) : Reads → Outcome ReadAnswer
  | [] => .wait want
  | .data bs :: s => if (ReadAnswer.data bs).Fits want then .done (.data bs) s else .wait want
  | .eof :: s => .done .eof (.eof :: s)
  | .again :: s => fdRead want s
  | .fail :: s => .done .fail s

/-- `fd_try_read`: a would-block answer is passed on, as -2. -/
def fdTryRead (want : ℕ) : Reads → Outcome ReadAnswer
  | [] => .wait want
  | .data bs :: s => if (ReadAnswer.data bs).Fits want then .done (.data bs) s else .wait want
  | .eof :: s => .done .eof (.eof :: s)
  | .again :: s => .done .again s
  | .fail :: s => .done .fail s

/-- A blocking read gives the bytes it takes off the stream, and no would-block answer. -/
theorem fdRead_done {want : ℕ} : ∀ {s rest : Reads} {a : ReadAnswer},
    fdRead want s = .done a rest →
      (∃ bs, a = .data bs ∧ a.Fits want ∧ streamBytes s = bs ++ streamBytes rest) ∨
      (a = .eof ∧ AtEof rest ∧ streamBytes s = []) ∨
      (a = .fail ∧ .fail ∈ s ∧ streamBytes s = streamBytes rest)
  | .data bs :: s, rest, a, h => by
    simp only [fdRead] at h
    split at h
    case isTrue hfit =>
      obtain ⟨rfl, rfl⟩ := Outcome.done.inj h
      exact .inl ⟨bs, rfl, hfit, rfl⟩
    case isFalse => exact absurd h (by simp)
  | .eof :: s, rest, a, h => by
    obtain ⟨rfl, rfl⟩ := Outcome.done.inj h
    exact .inr (.inl ⟨rfl, rfl, rfl⟩)
  | .again :: s, rest, a, h => by
    obtain h' | h' | ⟨ha, hs, hb⟩ := fdRead_done (s := s) h
    · exact .inl h'
    · exact .inr (.inl h')
    · exact .inr (.inr ⟨ha, List.mem_cons_of_mem _ hs, hb⟩)
  | .fail :: s, rest, a, h => by
    obtain ⟨rfl, rfl⟩ := Outcome.done.inj h
    exact .inr (.inr ⟨rfl, List.mem_cons_self, rfl⟩)

/-- The bytes of an answer. -/
def ReadAnswer.bytes : ReadAnswer → Bytes
  | .data bs => bs
  | _ => []

/-- A non-blocking read gives the bytes it takes off the stream. -/
theorem fdTryRead_done {want : ℕ} {s rest : Reads} {a : ReadAnswer}
    (h : fdTryRead want s = .done a rest) : streamBytes s = a.bytes ++ streamBytes rest := by
  cases s with
  | nil => exact absurd h (by simp [fdTryRead])
  | cons b s =>
    cases b with
    | data bs =>
      rw [fdTryRead] at h
      split at h
      · obtain ⟨rfl, rfl⟩ := Outcome.done.inj h
        rfl
      · exact absurd h (by simp)
    | eof =>
      obtain ⟨rfl, rfl⟩ := Outcome.done.inj h
      rfl
    | again =>
      obtain ⟨rfl, rfl⟩ := Outcome.done.inj h
      rfl
    | fail =>
      obtain ⟨rfl, rfl⟩ := Outcome.done.inj h
      rfl

/-! ### Writing -/

/-- What one `write(2)` returns: a count, or -1. -/
inductive WriteAnswer where
  | accept (n : ℕ)
  | fail
  deriving DecidableEq, Repr

/-- The writing side of a descriptor: the bytes accepted so far, the kernel's next answers (none
left: every write is accepted whole), and whether `shutdown(SHUT_WR)` was called. -/
structure OutFd where
  sent : Bytes := []
  answers : List WriteAnswer := []
  shut : Bool := false
  deriving DecidableEq, Repr

/-- `fd_write`: the count or -1, and the descriptor afterwards. -/
def fdWrite (out : OutFd) (bs : Bytes) : ℤ × OutFd :=
  match out.answers with
  | [] => (bs.length, { out with sent := out.sent ++ bs })
  | .accept n :: as => (min n bs.length, { out with sent := out.sent ++ bs.take n, answers := as })
  | .fail :: as => (-1, { out with answers := as })

/-- A reliable descriptor accepts every write whole. -/
theorem fdWrite_of_reliable {out : OutFd} (h : out.answers = []) (bs : Bytes) :
    fdWrite out bs = ((bs.length : ℤ), { out with sent := out.sent ++ bs }) := by
  simp [fdWrite, h]

/-- The descriptor after these writes. -/
def fdWrites (out : OutFd) (ws : List Bytes) : OutFd :=
  ws.foldl (fun out w ↦ (fdWrite out w).2) out

@[simp] theorem fdWrites_nil (out : OutFd) : fdWrites out [] = out := rfl

@[simp] theorem fdWrites_cons (out : OutFd) (w : Bytes) (ws : List Bytes) :
    fdWrites out (w :: ws) = fdWrites (fdWrite out w).2 ws := rfl

theorem fdWrites_append (out : OutFd) (ws ws' : List Bytes) :
    fdWrites out (ws ++ ws') = fdWrites (fdWrites out ws) ws' := List.foldl_append

/-- A reliable descriptor accepts all of them. -/
theorem fdWrites_of_reliable {out : OutFd} (h : out.answers = []) (ws : List Bytes) :
    fdWrites out ws = { out with sent := out.sent ++ ws.flatten } := by
  induction ws generalizing out with
  | nil => rw [fdWrites_nil, List.flatten_nil, List.append_nil]
  | cons w ws ih =>
    have hw : (fdWrite out w).2 = { out with sent := out.sent ++ w } := by
      rw [fdWrite_of_reliable h]
    have hws := @ih { out with sent := out.sent ++ w } h
    rw [fdWrites_cons, hw, hws, List.flatten_cons, List.append_assoc]

/-- At most everything is accepted. -/
theorem length_sent_fdWrites_le (out : OutFd) (ws : List Bytes) :
    (fdWrites out ws).sent.length ≤ out.sent.length + ws.flatten.length := by
  induction ws generalizing out with
  | nil => simp
  | cons w ws ih =>
    have hw : (fdWrite out w).2.sent.length ≤ out.sent.length + w.length := by
      rw [fdWrite]
      split
      · simp
      · simp only [List.length_append, List.length_take]
        omega
      · simp
    have hws := ih (fdWrite out w).2
    rw [fdWrites_cons, List.flatten_cons, List.length_append]
    omega

/-- The next answers accept each of these writes whole. -/
def AcceptsAll : List WriteAnswer → List Bytes → Prop
  | _, [] => True
  | [], _ :: _ => True
  | .accept n :: as, w :: ws => w.length ≤ n ∧ AcceptsAll as ws
  | .fail :: _, _ :: _ => False

/-- **Exactly when nothing is lost**: the bytes of a sequence of writes have all been accepted if
and only if each write was accepted whole. -/
theorem sent_fdWrites_eq_iff {out : OutFd} {ws : List Bytes} (hws : ∀ w ∈ ws, w ≠ []) :
    (fdWrites out ws).sent = out.sent ++ ws.flatten ↔ AcceptsAll out.answers ws := by
  induction ws generalizing out with
  | nil => simp [AcceptsAll]
  | cons w ws ih =>
    have hpos : 0 < w.length := List.length_pos_iff.2 (hws w List.mem_cons_self)
    have ih' (out : OutFd) := @ih out fun w' hw' ↦ hws w' (List.mem_cons_of_mem _ hw')
    obtain ⟨sent, answers, shut⟩ := out
    rw [fdWrites_cons, List.flatten_cons, ← List.append_assoc]
    match answers with
    | [] =>
      have hnil : AcceptsAll [] ws ↔ True := by cases ws <;> exact iff_of_true trivial trivial
      exact (ih' ⟨sent ++ w, [], shut⟩).trans (hnil.trans (iff_of_true trivial trivial))
    | .fail :: as =>
      -- nothing of this write has arrived, so something is missing
      refine iff_of_false (fun h ↦ ?_) id
      have hle := length_sent_fdWrites_le ⟨sent, as, shut⟩ ws
      rw [show (fdWrite ⟨sent, .fail :: as, shut⟩ w).2 = ⟨sent, as, shut⟩ from rfl] at h
      rw [h, List.length_append, List.length_append] at hle
      dsimp only at hle
      omega
    | .accept n :: as =>
      rw [show (fdWrite ⟨sent, .accept n :: as, shut⟩ w).2 = ⟨sent ++ w.take n, as, shut⟩ from rfl]
      have hle := length_sent_fdWrites_le ⟨sent ++ w.take n, as, shut⟩ ws
      by_cases hn : w.length ≤ n
      · rw [List.take_of_length_le hn]
        exact (ih' ⟨sent ++ w, as, shut⟩).trans (and_iff_right hn).symm
      · refine iff_of_false (fun h ↦ ?_) fun h ↦ hn h.1
        rw [h] at hle
        simp only [List.length_append, List.length_take] at hle
        omega

/-- `socket_shutdown_write`. -/
def socketShutdownWrite (out : OutFd) : OutFd := { out with shut := true }

/-! ### Programs over one descriptor -/

/-- A function that reads from and writes to one descriptor: what it has written when it returns or
waits, and how it ends. -/
def FdProc (α : Type) := Reads → OutFd → OutFd × Outcome α

namespace FdProc

variable {α β : Type}

instance : Monad FdProc where
  pure a := fun s out ↦ (out, .done a s)
  bind p f := fun s out ↦
    match p s out with
    | (out', .done a s') => f a s' out'
    | (out', .wait want) => (out', .wait want)
    | (out', .abort) => (out', .abort)

/-- A call that only reads. -/
def read (f : Reads → Outcome α) : FdProc α := fun s out ↦ (out, f s)

/-- `fd_write`. -/
def write (bs : Bytes) : FdProc ℤ := fun s out ↦ ((fdWrite out bs).2, .done (fdWrite out bs).1 s)

/-- A failed `ASSERT`. -/
def abort : FdProc α := fun _ out ↦ (out, .abort)

/-- A call that has no result when it faults. -/
def ofOption : Option α → FdProc α
  | some a => pure a
  | none => abort

theorem bind_apply (p : FdProc α) (f : α → FdProc β) (s : Reads) (out : OutFd) :
    (p >>= f) s out =
      match p s out with
      | (out', .done a s') => f a s' out'
      | (out', .wait want) => (out', .wait want)
      | (out', .abort) => (out', .abort) :=
  rfl

@[simp] theorem pure_apply (a : α) (s : Reads) (out : OutFd) :
    (pure a : FdProc α) s out = (out, .done a s) := rfl

theorem read_bind_apply (r : Reads → Outcome α) (f : α → FdProc β) (s : Reads) (out : OutFd) :
    (read r >>= f) s out =
      match r s with
      | .done a s' => f a s' out
      | .wait want => (out, .wait want)
      | .abort => (out, .abort) := by
  rw [bind_apply, read]
  cases r s <;> rfl

end FdProc

end Vmecs
