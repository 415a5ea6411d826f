import Mathlib.Data.List.Infix
import Mathlib.Logic.Function.Basic
import Vmecs.Lib.Run
import Vmecs.Proto.Reaction

/-!
# Two programs that talk to each other

A client and a server, each a program over its end of a connection, and two reliable channels that
keep the order of the bytes. A program that has had certain answers is given by them: it writes what
it writes on them, one piece after the other, and when it has written all of it, it waits for the
next answer or returns. A step is the writing of some bytes, or an answer that brings some of what
the peer has written; so the ends proceed in any order, and what is on its way is cut in any way.

When the programs are functions of their streams, a run is determined by how much each has taken.
`Agree` is what two such functions have to satisfy on prefixes of two fixed streams, and
`Agree.dialogue` says what follows for every run: no end ever returns anything else, and when
nothing can happen any more both have returned and the channels are empty.
-/

namespace Vmecs

variable {α : Type}

/-- The two ends of a connection. -/
inductive Role where
  | client
  | server
  deriving DecidableEq

/-- The other end. -/
def Role.peer : Role → Role
  | client => server
  | server => client

/-- A dialogue: the answers that each end has had, and the bytes it has written. -/
structure Dialogue where
  got : Role → Reads
  written : Role → Bytes

/-- At first nothing has happened. -/
def dialogueStart : Dialogue where
  got _ := []
  written _ := []

namespace Dialogue

variable (P : Role → FdProc α) (d : Dialogue)

/-- All that an end writes before it reads on. -/
def toWrite (x : Role) : Bytes := (P x (d.got x) {}).1.sent

/-- The call of an end, on the answers it has had. -/
def call (x : Role) : Outcome α := (P x (d.got x) {}).2

/-- An end has written all it had to, and returned. -/
def HasReturned (x : Role) (a : α) : Prop := d.written x = d.toWrite P x ∧ (d.call P x).Returns a

/-- An end has written some more. -/
def write (x : Role) (bs : Bytes) : Dialogue :=
  { d with written := Function.update d.written x (d.written x ++ bs) }

/-- An end has had one more answer. -/
def give (x : Role) (a : ReadAnswer) : Dialogue :=
  { d with got := Function.update d.got x (d.got x ++ [a]) }

variable {d} {x y : Role}

@[simp] theorem written_write_self (bs : Bytes) : (d.write x bs).written x = d.written x ++ bs :=
  Function.update_self ..

@[simp] theorem got_give_self (a : ReadAnswer) : (d.give x a).got x = d.got x ++ [a] :=
  Function.update_self ..

theorem written_write_of_ne (h : y ≠ x) (bs : Bytes) : (d.write x bs).written y = d.written y :=
  Function.update_of_ne h ..

theorem got_give_of_ne (h : y ≠ x) (a : ReadAnswer) : (d.give x a).got y = d.got y :=
  Function.update_of_ne h ..

variable (d)

/-- Nothing is on its way to an end. -/
def Arrived (x : Role) : Prop := streamBytes (d.got x) = d.written x.peer

end Dialogue

/-- What happens in a dialogue. -/
inductive DialogueEvent where
  | wrote (x : Role) (bs : Bytes)
  | answer (x : Role) (a : ReadAnswer)
  deriving DecidableEq

/-- The answers of a reliable channel to an end that has taken `taken`: the next bytes of the peer,
or that there is nothing yet. -/
def ChannelAnswers (taken written : Bytes) : ReadAnswer → Prop
  | .data bs => taken ++ bs <+: written
  | .again => True
  | .eof | .fail => False

instance (taken written : Bytes) (a : ReadAnswer) : Decidable (ChannelAnswers taken written a) :=
  match a with
  | .data bs => inferInstanceAs (Decidable (taken ++ bs <+: written))
  | .again => inferInstanceAs (Decidable True)
  | .eof | .fail => inferInstanceAs (Decidable False)

/-- The steps of a dialogue. -/
inductive DialogueStep (P : Role → FdProc α) : Dialogue → DialogueEvent → Dialogue → Prop where
  | wrote {d : Dialogue} {x : Role} {bs : Bytes} (hne : bs ≠ [])
      (h : d.written x ++ bs <+: d.toWrite P x) :
      DialogueStep P d (.wrote x bs) (d.write x bs)
  | answer {d : Dialogue} {x : Role} {want : ℕ} {a : ReadAnswer}
      (hall : d.written x = d.toWrite P x) (hw : d.call P x = .wait want) (hfit : a.Fits want)
      (ha : ChannelAnswers (streamBytes (d.got x)) (d.written x.peer) a) :
      DialogueStep P d (.answer x a) (d.give x a)

/-- Nothing can happen, but that a read finds nothing yet and is tried again. -/
def Dialogue.Stuck (P : Role → FdProc α) (d : Dialogue) : Prop :=
  ∀ e d', DialogueStep P d e d' → ∃ x, e = .answer x .again

/-- When both ends have returned nothing can happen. -/
theorem Dialogue.stuck_of_hasReturned {P : Role → FdProc α} {d : Dialogue} {r : Role → α}
    (h : ∀ x, d.HasReturned P x (r x)) : d.Stuck P := by
  intro e d' hstep
  cases hstep with
  | @wrote x bs hne hbs =>
    rw [(h x).1] at hbs
    have := hbs.length_le
    rw [List.length_append] at this
    have := List.length_pos_iff.2 hne
    omega
  | @answer x want a hall hw hfit ha =>
    obtain ⟨rest, hret⟩ := (h x).2
    exact absurd (hw.symm.trans hret) (by simp)

/-! ### Programs that agree -/

/-- Two functions of their streams that are made for each other: as long as each hears a prefix of
all that the other ever says (`M`), it says a prefix of its own part, and returns `r` at the end of
what it hears and not before; and if each has heard all that the other has said so far, both have
come to their end. -/
structure Agree (R : Role → Reaction α) (M : Role → Bytes) (r : Role → α) : Prop where
  grows : ∀ x, (R x).Grows
  tells : ∀ x t, t <+: M x.peer → (R x t false).1.flatten <+: M x
  returns : ∀ x t a, t <+: M x.peer → (R x t false).2 = some a → a = r x ∧ t = M x.peer
  progress : ∀ t : Role → Bytes, (∀ x, t x <+: M x.peer) →
    (∀ x, t x = (R x.peer (t x.peer) false).1.flatten) → ∀ x, (R x (t x) false).2 = some (r x)

theorem Role.eq_or_eq_peer (x y : Role) : x = y ∨ x = y.peer := by
  cases x <;> cases y <;> simp [Role.peer]

/-- **The invariant of a run**: the answers were asked for, each end has heard what the other has
written, which is a part of what it writes, and of what it ever says. -/
structure DialogueInvariant (P : Role → FdProc α) (M : Role → Bytes) (d : Dialogue) : Prop where
  asked : ∀ x, Asked (fun s ↦ (P x s {}).2) (d.got x)
  not_eof : ∀ x, .eof ∉ d.got x
  not_fail : ∀ x, .fail ∉ d.got x
  taken : ∀ x, streamBytes (d.got x) <+: d.written x.peer
  written : ∀ x, d.written x <+: d.toWrite P x
  heard : ∀ x, streamBytes (d.got x) <+: M x.peer

section

variable {P : Role → FdProc α} {R : Role → Reaction α} {M : Role → Bytes} {r : Role → α}
  {d d' : Dialogue} {e : DialogueEvent}

theorem dialogueInvariant_start : DialogueInvariant P M dialogueStart where
  asked _ := .nil
  not_eof _ := List.not_mem_nil
  not_fail _ := List.not_mem_nil
  taken _ := List.nil_prefix
  written _ := List.nil_prefix
  heard _ := List.nil_prefix

namespace DialogueInvariant

/-- An end that is a function of its stream writes what the function says. -/
theorem toWrite_eq (h : DialogueInvariant P M d) (hP : ∀ x, Reacts (P x) [] (R x)) (x : Role) :
    d.toWrite P x = (R x (streamBytes (d.got x)) false).1.flatten :=
  (hP x).sent_eq (h.asked x) (h.not_eof x) (h.not_fail x)

/-- And returns or waits as it says. -/
theorem call_ends (h : DialogueInvariant P M d) (hP : ∀ x, Reacts (P x) [] (R x)) (x : Role) :
    (d.call P x).Ends (R x (streamBytes (d.got x)) false).2 := by
  have hcall := (hP x (d.got x) {} (h.not_fail x) (h.asked x).possible).2
  rwa [List.nil_append, decide_eq_false (h.not_eof x)] at hcall

/-- What an end has written is a part of all that it ever says. -/
theorem written_isPrefix (h : DialogueInvariant P M d) (hP : ∀ x, Reacts (P x) [] (R x))
    (hR : Agree R M r) (x : Role) : d.written x <+: M x := by
  refine (h.written x).trans ?_
  rw [h.toWrite_eq hP]
  exact hR.tells x _ (h.heard x)

/-- **One step keeps the invariant.** -/
theorem step (h : DialogueInvariant P M d) (hP : ∀ x, Reacts (P x) [] (R x)) (hR : Agree R M r)
    (hstep : DialogueStep P d e d') : DialogueInvariant P M d' := by
  cases hstep with
  | @wrote x bs hne hbs =>
    refine ⟨h.asked, h.not_eof, h.not_fail, fun y ↦ ?_, fun y ↦ ?_, h.heard⟩
    · rcases eq_or_ne y.peer x with rfl | hy
      · rw [Dialogue.written_write_self]
        exact (h.taken y).trans (List.prefix_append _ _)
      · rw [Dialogue.written_write_of_ne hy]
        exact h.taken y
    · rcases eq_or_ne y x with rfl | hy
      · rw [Dialogue.written_write_self]
        exact hbs
      · rw [Dialogue.written_write_of_ne hy]
        exact h.written y
  | @answer x want a hall hw hfit ha =>
    have hasked : Asked (fun s ↦ (P x s {}).2) (d.got x ++ [a]) := .snoc (h.asked x) hw hfit
    have hne : a ≠ .eof ∧ a ≠ .fail := by
      constructor
      · rintro rfl
        exact ha
      · rintro rfl
        exact ha
    have heof : .eof ∉ d.got x ++ [a] := by
      simpa using ⟨h.not_eof x, hne.1.symm⟩
    have hfail : .fail ∉ d.got x ++ [a] := by
      simpa using ⟨h.not_fail x, hne.2.symm⟩
    have hbytes := streamBytes_concat (h.not_eof x) a
    have htaken : streamBytes (d.got x ++ [a]) <+: d.written x.peer := by
      rw [hbytes]
      cases a with
      | data bs => exact ha
      | again => simpa [ReadAnswer.bytes] using h.taken x
      | eof => exact absurd rfl hne.1
      | fail => exact absurd rfl hne.2
    have hwritten : d.written x <+: (P x (d.got x ++ [a]) {}).1.sent := by
      -- the end goes on writing behind what it has written
      rw [hall, h.toWrite_eq hP, (hP x).sent_eq hasked heof hfail]
      exact List.IsPrefix.flatten (hR.grows x _ _ (hbytes ▸ List.prefix_append _ _))
    have hother : ∀ y, (d.give x a).got y = d.got y ∨ y = x := fun y ↦ by
      rcases eq_or_ne y x with rfl | hy
      · exact .inr rfl
      · exact .inl (Dialogue.got_give_of_ne hy a)
    refine ⟨fun y ↦ ?_, fun y ↦ ?_, fun y ↦ ?_, fun y ↦ ?_, fun y ↦ ?_, fun y ↦ ?_⟩
    · rcases hother y with hy | rfl
      · exact hy ▸ h.asked y
      · simpa using hasked
    · rcases hother y with hy | rfl
      · exact hy ▸ h.not_eof y
      · rwa [Dialogue.got_give_self]
    · rcases hother y with hy | rfl
      · exact hy ▸ h.not_fail y
      · rwa [Dialogue.got_give_self]
    · rcases hother y with hy | rfl
      · exact hy ▸ h.taken y
      · rwa [Dialogue.got_give_self]
    · rcases hother y with hy | rfl
      · rw [Dialogue.toWrite, hy]
        exact h.written y
      · rwa [Dialogue.toWrite, Dialogue.got_give_self]
    · rcases hother y with hy | rfl
      · exact hy ▸ h.heard y
      · rw [Dialogue.got_give_self]
        exact htaken.trans (h.written_isPrefix hP hR y.peer)

end DialogueInvariant

theorem dialogueInvariant_of_run (hP : ∀ x, Reacts (P x) [] (R x)) (hR : Agree R M r)
    {es : List DialogueEvent} (hrun : Run (DialogueStep P) dialogueStart es d) :
    DialogueInvariant P M d :=
  hrun.invariant (I := fun _ d ↦ DialogueInvariant P M d) dialogueInvariant_start
    fun _ _ _ _ h hstep ↦ h.step hP hR hstep

/-- An end that can still take a step takes it. -/
theorem DialogueInvariant.of_stuck (h : DialogueInvariant P M d)
    (hP : ∀ x, Reacts (P x) [] (R x)) (hstuck : d.Stuck P) (x : Role) :
    d.written x = d.toWrite P x ∧
      ((R x (streamBytes (d.got x)) false).2 = none → d.Arrived x) := by
  have hwritten : d.written x = d.toWrite P x := by
    obtain ⟨bs, hbs⟩ := h.written x
    rcases eq_or_ne bs [] with rfl | hne
    · rw [← hbs, List.append_nil]
    · -- the rest could be written
      obtain ⟨y, hy⟩ := hstuck _ _ (.wrote hne ⟨[], by rw [List.append_nil, hbs]⟩)
      exact absurd hy (by simp)
  refine ⟨hwritten, fun hnone ↦ ?_⟩
  obtain ⟨want, hpos, hwait⟩ : ∃ want, 0 < want ∧ d.call P x = .wait want := by
    have hends := h.call_ends hP x
    rwa [hnone] at hends
  obtain ⟨bs, hbs⟩ := h.taken x
  cases bs with
  | nil => rw [Dialogue.Arrived, ← hbs, List.append_nil]
  | cons b bs =>
    -- the next byte could be read
    have hfit : (ReadAnswer.data [b]).Fits want := ⟨Nat.one_pos, hpos⟩
    have hnext : ChannelAnswers (streamBytes (d.got x)) (d.written x.peer) (.data [b]) :=
      ⟨bs, by rw [← hbs, List.append_assoc]; rfl⟩
    obtain ⟨y, hy⟩ := hstuck _ _ (.answer hwritten hwait hfit hnext)
    exact absurd hy (by simp)

/-- **Dialogues of programs that agree.** In every state of every run a call has not failed, and
returns nothing but what is agreed on; when nothing can happen any more, both have returned, and
nothing is on its way. -/
theorem Agree.dialogue (hP : ∀ x, Reacts (P x) [] (R x)) (hR : Agree R M r)
    {es : List DialogueEvent} (hrun : Run (DialogueStep P) dialogueStart es d) :
    (∀ x, d.call P x ≠ .abort ∧ ∀ a, (d.call P x).Returns a → a = r x) ∧
      (d.Stuck P → ∀ x, d.HasReturned P x (r x) ∧ d.Arrived x) := by
  have h := dialogueInvariant_of_run hP hR hrun
  refine ⟨fun x ↦ ⟨fun habort ↦ ?_, fun a hret ↦ ?_⟩, fun hstuck ↦ ?_⟩
  · have hends := h.call_ends hP x
    rw [habort] at hends
    cases hr : (R x (streamBytes (d.got x)) false).2 with
    | none =>
      obtain ⟨want, -, hwait⟩ := hr ▸ hends
      exact absurd hwait (by simp)
    | some a =>
      obtain ⟨rest, hdone⟩ := hr ▸ hends
      exact absurd hdone (by simp)
  · exact (hR.returns x _ a (h.heard x) ((h.call_ends hP x).returns_iff.1 hret)).1
  · have harrived : ∀ x, d.Arrived x := by
      intro x
      cases hr : (R x (streamBytes (d.got x)) false).2 with
      | none => exact (h.of_stuck hP hstuck x).2 hr
      | some a =>
        -- an end that has returned has heard all that there is
        have hall := (hR.returns x _ a (h.heard x) hr).2
        refine List.IsPrefix.eq_of_length_le (h.taken x) ?_
        rw [hall]
        exact (h.written_isPrefix hP hR x.peer).length_le
    have hsaid : ∀ x, streamBytes (d.got x) =
        (R x.peer (streamBytes (d.got x.peer)) false).1.flatten := by
      intro x
      rw [harrived x, (h.of_stuck hP hstuck x.peer).1, h.toWrite_eq hP]
    intro x
    have hdone := hR.progress (fun x ↦ streamBytes (d.got x)) h.heard hsaid x
    exact ⟨⟨(h.of_stuck hP hstuck x).1, (h.call_ends hP x).returns_iff.2 hdone⟩, harrived x⟩

end

/-! ### Rounds -/

/-- What is said in rounds of a message of the client and the server's answer. -/
abbrev Rounds := List (Bytes × Bytes)

/-- All that an end ever says. -/
def Rounds.said (rounds : Rounds) : Role → Bytes
  | .client => (rounds.map Prod.fst).flatten
  | .server => (rounds.map Prod.snd).flatten

/-- A client speaks first in every round, and returns when it has heard the last answer. -/
def clientRounds (a : α) : Rounds → Bytes → List Bytes × Option α
  | [], _ => ([], some a)
  | (c, s) :: rounds, x =>
    if x.length < s.length then ([c], none)
    else
      (c :: (clientRounds a rounds (x.drop s.length)).1,
        (clientRounds a rounds (x.drop s.length)).2)

/-- A server answers, and returns with its last answer. -/
def serverRounds (a : α) : Rounds → Bytes → List Bytes × Option α
  | [], _ => ([], some a)
  | (c, s) :: rounds, x =>
    if x.length < c.length then ([], none)
    else
      (s :: (serverRounds a rounds (x.drop c.length)).1,
        (serverRounds a rounds (x.drop c.length)).2)

section

variable {a b : α} {rounds : Rounds} {x y : Bytes}

theorem clientRounds_isPrefix :
    (clientRounds a rounds x).1.flatten <+: rounds.said .client := by
  induction rounds generalizing x with
  | nil => exact List.nil_prefix
  | cons round rounds ih =>
    obtain ⟨c, s⟩ := round
    rw [clientRounds]
    split
    · exact (List.prefix_append_right_inj c).2 List.nil_prefix
    · exact (List.prefix_append_right_inj c).2 ih

theorem serverRounds_isPrefix :
    (serverRounds a rounds x).1.flatten <+: rounds.said .server := by
  induction rounds generalizing x with
  | nil => exact List.nil_prefix
  | cons round rounds ih =>
    obtain ⟨c, s⟩ := round
    rw [serverRounds]
    split
    · exact List.nil_prefix
    · exact (List.prefix_append_right_inj s).2 ih

/-- A prefix that has all of the first part goes on with a prefix of the second. -/
theorem exists_append_of_isPrefix {m t : Bytes} (h : x <+: m ++ t) (hlen : ¬x.length < m.length) :
    ∃ x', x = m ++ x' ∧ x' <+: t := by
  obtain ⟨x', rfl⟩ : m <+: x :=
    List.prefix_of_prefix_length_le (List.prefix_append m t) h (Nat.le_of_not_lt hlen)
  exact ⟨x', rfl, (List.prefix_append_right_inj m).1 h⟩

theorem clientRounds_returns (hx : x <+: rounds.said .server)
    (h : (clientRounds a rounds x).2 = some b) : b = a ∧ x = rounds.said .server := by
  induction rounds generalizing x with
  | nil => exact ⟨(Option.some.inj h).symm, List.prefix_nil.1 hx⟩
  | cons round rounds ih =>
    obtain ⟨c, s⟩ := round
    rw [clientRounds] at h
    split at h
    case isTrue => exact absurd h (by simp)
    case isFalse hlen =>
      obtain ⟨x', rfl, hx'⟩ := exists_append_of_isPrefix hx hlen
      rw [List.drop_left] at h
      obtain ⟨rfl, rfl⟩ := ih hx' h
      exact ⟨rfl, rfl⟩

theorem serverRounds_returns (hx : x <+: rounds.said .client)
    (h : (serverRounds a rounds x).2 = some b) : b = a ∧ x = rounds.said .client := by
  induction rounds generalizing x with
  | nil => exact ⟨(Option.some.inj h).symm, List.prefix_nil.1 hx⟩
  | cons round rounds ih =>
    obtain ⟨c, s⟩ := round
    rw [serverRounds] at h
    split at h
    case isTrue => exact absurd h (by simp)
    case isFalse hlen =>
      obtain ⟨x', rfl, hx'⟩ := exists_append_of_isPrefix hx hlen
      rw [List.drop_left] at h
      obtain ⟨rfl, rfl⟩ := ih hx' h
      exact ⟨rfl, rfl⟩

/-- **No deadlock**: when each has heard all that the other has said, both are through. By induction
on the rounds, the first of which must be over. -/
theorem rounds_progress {a' : α} (hx : x = (serverRounds a' rounds y).1.flatten)
    (hy : y = (clientRounds a rounds x).1.flatten) :
    (clientRounds a rounds x).2 = some a ∧ (serverRounds a' rounds y).2 = some a' := by
  induction rounds generalizing x y with
  | nil => exact ⟨rfl, rfl⟩
  | cons round rounds ih =>
    obtain ⟨c, s⟩ := round
    have hc : ∃ y', y = c ++ y' := by
      rw [hy, clientRounds]
      split
      · exact ⟨[], by simp⟩
      · exact ⟨_, rfl⟩
    obtain ⟨y', rfl⟩ := hc
    have hlen : ¬(c ++ y').length < c.length := by simp
    rw [serverRounds, if_neg hlen, List.drop_left] at hx ⊢
    obtain ⟨x', rfl⟩ : ∃ x', x = s ++ x' := ⟨_, hx⟩
    have hlen' : ¬(s ++ x').length < s.length := by simp
    rw [clientRounds, if_neg hlen', List.drop_left] at hy ⊢
    exact ih (List.append_cancel_left hx) (List.append_cancel_left hy)

/-- **A client and a server that keep to the same rounds agree.** -/
theorem agree_of_rounds {R : Role → Reaction α} {r : Role → α} (hgrows : ∀ x, (R x).Grows)
    (hclient : ∀ x, x <+: rounds.said .server →
      R .client x false = clientRounds (r .client) rounds x)
    (hserver : ∀ x, x <+: rounds.said .client →
      R .server x false = serverRounds (r .server) rounds x) : Agree R rounds.said r where
  grows := hgrows
  tells x t ht := by
    cases x with
    | client =>
      rw [hclient t ht]
      exact clientRounds_isPrefix
    | server =>
      rw [hserver t ht]
      exact serverRounds_isPrefix
  returns x t b ht h := by
    cases x with
    | client =>
      rw [hclient t ht] at h
      exact clientRounds_returns ht h
    | server =>
      rw [hserver t ht] at h
      exact serverRounds_returns ht h
  progress t ht hsaid := by
    have hc : t .client = (serverRounds (r .server) rounds (t .server)).1.flatten := by
      rw [← hserver _ (ht .server)]
      exact hsaid .client
    have hs : t .server = (clientRounds (r .client) rounds (t .client)).1.flatten := by
      rw [← hclient _ (ht .client)]
      exact hsaid .server
    obtain ⟨hc', hs'⟩ := rounds_progress hc hs
    intro x
    cases x with
    | client =>
      rw [hclient _ (ht .client)]
      exact hc'
    | server =>
      rw [hserver _ (ht .server)]
      exact hs'

end

end Vmecs
