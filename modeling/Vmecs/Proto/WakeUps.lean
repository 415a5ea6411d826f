import Vmecs.Lib.Run
import Vmecs.Proto.Buf

/-!
# Threads that wait at a `vbuffer_t` (`proto/buf.c`)

Any number of threads use one `vbuffer_t`. What a thread does between taking the mutex and giving it
back is one step (`VSection.exec`): it changes the buffer, broadcasts on the two conditions `data`
and `drain`, and leaves the thread behind the operation, or asleep on one of them. A thread that
sleeps is woken by a broadcast only, and then has to take the mutex before it tests again what it
waits for.

So a thread sleeps for ever if what it waits for comes about without a broadcast. That does not
happen to the readers. It happens to a thread that waits for the buffer to become empty, in one way:
`vbuffer_try_read` takes the last bytes, and does not tell (`vbuffer_noLostWakeUp_iff`).
-/

namespace Vmecs

/-! ### The system -/

/-- Where a thread is: between two operations, between the two critical sections of `vbuffer_drain`,
or in one of the two operations that wait. There it sleeps in `cv_wait`, or has been woken. -/
inductive VThread where
  | idle
  | draining
  | readAsleep (bufSize : ℕ)
  | readAwake (bufSize : ℕ)
  | drainAsleep
  | drainAwake

/-- The critical sections; those of `vbuffer_drain` are that of `vbuffer_close`, and the one behind
it. -/
inductive VSection where
  | write (bs : Bytes)
  | read (bufSize : ℕ)
  | tryRead (bufSize : ℕ)
  | close
  | drainClose
  | drainFlush
  | waitDrain

/-- What a critical section leaves: the buffer, the conditions on which it has broadcast, and where
the thread is. -/
structure VSectionEnd where
  vbuf : VBuffer
  data : Bool
  drain : Bool
  thread : VThread

/-- A critical section, from the test of the waiting loop on. -/
def VSection.exec (vbuf : VBuffer) : VSection → VSectionEnd
  | write bs => ⟨vbufferWrite vbuf bs, !vbuf.eof, false, .idle⟩
  | read bufSize =>
    match vbufferRead vbuf bufSize with
    | none => ⟨vbuf, false, false, .readAsleep bufSize⟩
    | some (_, _, vbuf') =>
      -- the `return 0` of a closed buffer that is empty comes before the broadcast
      ⟨vbuf', false, vbuf.data.length ≠ 0 && vbuf'.data.length = 0, .idle⟩
  | tryRead bufSize => ⟨(vbufferTryRead vbuf bufSize).2.2, false, false, .idle⟩
  | close => ⟨vbufferClose vbuf, !vbuf.eof, false, .idle⟩
  | drainClose => ⟨vbufferClose vbuf, !vbuf.eof, false, .draining⟩
  | drainFlush => ⟨vbuf.flush, false, true, .idle⟩
  | waitDrain =>
    if vbuf.data.length ≠ 0 then ⟨vbuf, false, false, .drainAsleep⟩
    else ⟨vbuf, false, false, .idle⟩

/-- A thread can enter the critical section: it begins an operation, or goes on with one. -/
def VThread.CanEnter (t : VThread) : VSection → Prop
  | .read bufSize => t = .idle ∨ t = .readAwake bufSize
  | .waitDrain => t = .idle ∨ t = .drainAwake
  | .drainFlush => t = .draining
  | _ => t = .idle

/-- `cv_broadcast`, on each condition or not. -/
def VThread.wake (data drain : Bool) : VThread → VThread
  | readAsleep bufSize => if data then readAwake bufSize else readAsleep bufSize
  | drainAsleep => if drain then drainAwake else drainAsleep
  | t => t

/-- The buffer, and its threads. -/
structure VSystem (ι : Type) where
  vbuf : VBuffer
  threads : ι → VThread

variable {ι : Type} [DecidableEq ι]

/-- Thread `i` runs a critical section. -/
def VSystem.enter (sys : VSystem ι) (i : ι) (sec : VSection) : VSystem ι where
  vbuf := (sec.exec sys.vbuf).vbuf
  threads := Function.update
    (fun j ↦ (sys.threads j).wake (sec.exec sys.vbuf).data (sec.exec sys.vbuf).drain) i
    (sec.exec sys.vbuf).thread

/-- A critical section that has been run, with the system before. -/
structure VEntry (ι : Type) where
  before : VSystem ι
  thread : ι
  sec : VSection

/-- A thread that can enter a critical section runs it. -/
def VSystemStep (sys : VSystem ι) (e : VEntry ι) (sys' : VSystem ι) : Prop :=
  e.before = sys ∧ (sys.threads e.thread).CanEnter e.sec ∧ sys.enter e.thread e.sec = sys'

/-- A new buffer, and no thread at it. -/
def vsystemNew (ι : Type) (init : ℕ) : VSystem ι := ⟨vbufferNew init, fun _ ↦ .idle⟩

/-- **No wake-up is lost**: what a sleeping thread waits for has not come about. -/
structure NoLostWakeUp (sys : VSystem ι) : Prop where
  drain : ∀ i, sys.threads i = .drainAsleep → sys.vbuf.data ≠ []
  read : ∀ i bufSize, sys.threads i = .readAsleep bufSize →
    sys.vbuf.data = [] ∧ sys.vbuf.eof = false

/-- A `vbuffer_try_read` takes the last bytes while a thread waits for the buffer to become
empty. -/
def VEntry.StealsLast (e : VEntry ι) : Prop :=
  (∃ bufSize, e.sec = .tryRead bufSize ∧ e.before.vbuf.data.length ≤ bufSize) ∧
    e.before.vbuf.eof = false ∧ ∃ i, e.before.threads i = .drainAsleep

/-! ### One critical section -/

/-- The thread goes to sleep only on what has not come about. -/
theorem VSection.thread_exec (vbuf : VBuffer) (sec : VSection) :
    ((sec.exec vbuf).thread = .drainAsleep → (sec.exec vbuf).vbuf.data ≠ []) ∧
      ∀ bufSize, (sec.exec vbuf).thread = .readAsleep bufSize →
        (sec.exec vbuf).vbuf.data = [] ∧ (sec.exec vbuf).vbuf.eof = false := by
  match sec with
  | .write _ | .tryRead _ | .close | .drainClose | .drainFlush => simp [exec]
  | .read bufSize =>
    rw [exec]
    match hread : vbufferRead vbuf bufSize with
    | some (_, _, vbuf') => simp
    | none =>
      unfold vbufferRead at hread
      split at hread
      case isTrue h => simpa using h
      case isFalse => split at hread <;> exact absurd hread (by simp)
  | .waitDrain =>
    rw [exec]
    split
    case isTrue h => simpa using h
    case isFalse => simp

/-- **A reader is told** when something is there for it to see: without a broadcast on `data` the
buffer stays empty and open. -/
theorem VSection.data_exec {vbuf : VBuffer} {sec : VSection} (h : (sec.exec vbuf).data = false)
    (hempty : vbuf.data = []) (heof : vbuf.eof = false) :
    (sec.exec vbuf).vbuf.data = [] ∧ (sec.exec vbuf).vbuf.eof = false := by
  match sec with
  | .write _ | .close | .drainClose => simp [exec, heof] at h
  | .read bufSize =>
    have hread : vbufferRead vbuf bufSize = none := if_pos ⟨by rw [hempty]; rfl, heof⟩
    rw [exec, hread]
    exact ⟨hempty, heof⟩
  | .tryRead bufSize =>
    rw [exec, vbufferTryRead, if_neg (by simp [heof]), if_neg (by simp [hempty])]
    exact ⟨hempty, heof⟩
  | .drainFlush => exact ⟨rfl, heof⟩
  | .waitDrain =>
    rw [exec, if_neg (by simp [hempty])]
    exact ⟨hempty, heof⟩

/-- **A thread that waits for the buffer to become empty is told**, but not by `vbuffer_try_read`:
without a broadcast on `drain` only this takes the last bytes. -/
theorem VSection.drain_exec {vbuf : VBuffer} {sec : VSection} (h : (sec.exec vbuf).drain = false)
    (hne : vbuf.data ≠ []) : (sec.exec vbuf).vbuf.data = [] ↔
      ∃ bufSize, sec = .tryRead bufSize ∧ vbuf.data.length ≤ bufSize ∧ vbuf.eof = false := by
  have hlen : vbuf.data.length ≠ 0 := fun hlen ↦ hne (List.length_eq_zero_iff.1 hlen)
  match sec with
  | .write bs =>
    refine iff_of_false ?_ (by simp)
    rw [exec]
    match heof : vbuf.eof with
    | true => simpa [vbufferWrite, heof] using hne
    | false => simp [data_vbufferWrite heof, hne]
  | .close | .drainClose => exact iff_of_false hne (by simp)
  | .drainFlush => exact absurd h (by simp [exec])
  | .waitDrain =>
    rw [exec, if_pos hlen]
    exact iff_of_false hne (by simp)
  | .read bufSize =>
    have hread : vbufferRead vbuf bufSize =
        some (min vbuf.data.length bufSize, vbuf.data.take bufSize, vbuf.consume bufSize) := by
      rw [vbufferRead, if_neg fun hc ↦ hlen hc.1, if_neg fun hc ↦ hlen hc.1]
    rw [exec, hread] at h ⊢
    refine iff_of_false (fun hdata ↦ ?_) (by simp)
    have hdrop : vbuf.data.drop bufSize = [] := hdata
    have hzero : vbuf.data.length - bufSize = 0 := by simpa using congrArg List.length hdrop
    simp [hlen, hzero] at h
  | .tryRead bufSize =>
    rw [exec, vbufferTryRead]
    match heof : vbuf.eof with
    | true => simpa using hne
    | false => simp [hlen]

/-! ### The runs -/

/-- Who sleeps behind a broadcast slept before, and was not woken. -/
theorem VThread.wake_eq_drainAsleep {t : VThread} {data drain : Bool}
    (h : t.wake data drain = .drainAsleep) : t = .drainAsleep ∧ drain = false := by
  cases t <;> cases data <;> cases drain <;> simp_all [wake]

theorem VThread.wake_eq_readAsleep {t : VThread} {data drain : Bool} {bufSize : ℕ}
    (h : t.wake data drain = .readAsleep bufSize) : t = .readAsleep bufSize ∧ data = false := by
  cases t <;> cases data <;> cases drain <;> simp_all [wake]

section

variable (sys : VSystem ι) (i : ι) (sec : VSection)

@[simp] theorem VSystem.vbuf_enter : (sys.enter i sec).vbuf = (sec.exec sys.vbuf).vbuf := rfl

theorem VSystem.threads_enter_self :
    (sys.enter i sec).threads i = (sec.exec sys.vbuf).thread := by
  simp only [enter, Function.update_self]

theorem VSystem.threads_enter_of_ne {j : ι} (h : j ≠ i) : (sys.enter i sec).threads j =
    (sys.threads j).wake (sec.exec sys.vbuf).data (sec.exec sys.vbuf).drain := by
  simp only [enter, Function.update_of_ne h]

end

/-- Readers do not sleep beside bytes, or at a closed buffer. -/
theorem NoLostWakeUp.read_enter {sys : VSystem ι} (h : NoLostWakeUp sys) (i : ι) (sec : VSection)
    {j : ι} {bufSize : ℕ} (hj : (sys.enter i sec).threads j = .readAsleep bufSize) :
    (sys.enter i sec).vbuf.data = [] ∧ (sys.enter i sec).vbuf.eof = false := by
  rcases eq_or_ne j i with rfl | hne
  · rw [VSystem.threads_enter_self] at hj
    exact (sec.thread_exec sys.vbuf).2 bufSize hj
  · rw [VSystem.threads_enter_of_ne _ _ _ hne] at hj
    obtain ⟨hasleep, hdata⟩ := VThread.wake_eq_readAsleep hj
    obtain ⟨hempty, heof⟩ := h.read j bufSize hasleep
    exact VSection.data_exec hdata hempty heof

/-- **What a step does to the sleepers**: it leaves one behind exactly when it is a
`vbuffer_try_read` that takes the last bytes. -/
theorem NoLostWakeUp.step_iff {sys sys' : VSystem ι} {e : VEntry ι} (h : NoLostWakeUp sys)
    (hstep : VSystemStep sys e sys') : NoLostWakeUp sys' ↔ ¬e.StealsLast := by
  obtain ⟨before, i, sec⟩ := e
  obtain ⟨rfl, hcan, rfl⟩ := hstep
  constructor
  · rintro h' ⟨⟨bufSize, hsec, hle⟩, heof, j, hj⟩
    obtain rfl : sec = .tryRead bufSize := hsec
    -- the thread that sleeps is another one, and nothing wakes it
    have hne : j ≠ i := by
      rintro rfl
      exact absurd (hj.symm.trans hcan) (by simp)
    have hasleep : (before.enter i (.tryRead bufSize)).threads j = .drainAsleep := by
      rw [VSystem.threads_enter_of_ne _ _ _ hne, hj]
      rfl
    exact h'.drain j hasleep ((VSection.drain_exec rfl (h.drain j hj)).2 ⟨bufSize, rfl, hle, heof⟩)
  · intro hno
    refine ⟨fun j hj ↦ ?_, fun j bufSize hj ↦ h.read_enter i sec hj⟩
    rcases eq_or_ne j i with rfl | hne
    · rw [VSystem.threads_enter_self] at hj
      exact (sec.thread_exec before.vbuf).1 hj
    · rw [VSystem.threads_enter_of_ne _ _ _ hne] at hj
      obtain ⟨hasleep, hdrain⟩ := VThread.wake_eq_drainAsleep hj
      intro hempty
      obtain ⟨bufSize, rfl, hle, heof⟩ :=
        (VSection.drain_exec hdrain (h.drain j hasleep)).1 hempty
      exact hno ⟨⟨bufSize, rfl, hle⟩, heof, j, hasleep⟩

omit [DecidableEq ι] in
theorem noLostWakeUp_vsystemNew (init : ℕ) : NoLostWakeUp (vsystemNew ι init) where
  drain _ h := absurd h (by simp [vsystemNew])
  read _ _ h := absurd h (by simp [vsystemNew])

/-- **When no wake-up is lost**: in the states of a run, with any number of threads and any
interleaving, exactly when no `vbuffer_try_read` takes the last bytes while a thread waits for the
buffer to become empty. -/
theorem vbuffer_noLostWakeUp_iff {init : ℕ} {es : List (VEntry ι)} {sys : VSystem ι}
    (h : Run VSystemStep (vsystemNew ι init) es sys) :
    ((∀ e ∈ es, NoLostWakeUp e.before) ∧ NoLostWakeUp sys) ↔ ∀ e ∈ es, ¬e.StealsLast := by
  induction h with
  | nil => exact iff_of_true ⟨by simp, noLostWakeUp_vsystemNew init⟩ (by simp)
  | @snoc es sys e sys' _ hstep ih =>
    have hbefore : e.before = sys := hstep.1
    simp only [List.forall_mem_append, List.forall_mem_singleton, hbefore]
    rw [← ih, and_assoc, and_assoc, and_congr_right_iff, and_congr_right_iff]
    exact fun _ hsys ↦ hsys.step_iff hstep

/-- Two threads, and one byte that has been written by the first; the second waits for it to be
taken. -/
def sampleWaiting : VSystem Bool :=
  ((vsystemNew Bool 0).enter false (.write [104])).enter true .waitDrain

/-- The critical sections up to there. -/
def sampleWaits : List (VEntry Bool) :=
  [⟨vsystemNew Bool 0, false, .write [104]⟩,
    ⟨(vsystemNew Bool 0).enter false (.write [104]), true, .waitDrain⟩]

theorem run_sampleWaits : Run VSystemStep (vsystemNew Bool 0) sampleWaits sampleWaiting :=
  .cons ⟨rfl, rfl, rfl⟩ <| .cons ⟨rfl, .inl rfl, rfl⟩ .nil

/-- `vbuffer_read` takes the byte, and the second thread is woken. -/
theorem vbuffer_noLostWakeUp_sampleWaits :
    NoLostWakeUp (sampleWaiting.enter false (.read 8)) ∧
      (sampleWaiting.enter false (.read 8)).threads true = .drainAwake := by
  have hrun : Run VSystemStep (vsystemNew Bool 0) (sampleWaits ++ [⟨sampleWaiting, false, .read 8⟩])
      (sampleWaiting.enter false (.read 8)) := run_sampleWaits.snoc ⟨rfl, .inl rfl, rfl⟩
  refine ⟨((vbuffer_noLostWakeUp_iff hrun).2 fun e he ⟨⟨bufSize, hsec, _⟩, _⟩ ↦ ?_).2, rfl⟩
  simp only [sampleWaits, List.mem_append, List.mem_cons, List.not_mem_nil, or_false] at he
  rcases he with (rfl | rfl) | rfl <;> exact absurd hsec (by simp)

/-- `vbuffer_try_read` takes the byte, and the second thread sleeps on. -/
theorem not_noLostWakeUp_sampleWaits :
    Run VSystemStep (vsystemNew Bool 0) (sampleWaits ++ [⟨sampleWaiting, false, .tryRead 8⟩])
        (sampleWaiting.enter false (.tryRead 8)) ∧
      ¬NoLostWakeUp (sampleWaiting.enter false (.tryRead 8)) :=
  ⟨run_sampleWaits.snoc ⟨rfl, rfl, rfl⟩, fun h ↦ h.drain true rfl rfl⟩

end Vmecs
