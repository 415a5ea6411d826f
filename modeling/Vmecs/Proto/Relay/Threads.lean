import Mathlib.Tactic.Cases
import Vmecs.Proto.Relay.Job
import Vmecs.Proto.Relay.Serving

/-!
# The life of a job of the threaded relay

What the handler of a job holds is known at each of its lines (`TcpRelayHolds`), and a list of
statements is lawful if each of them is allowed by what is held there and nothing is held at the
end (`TcpRelayHolds.Lawful`). The three lists of the handler are lawful, and a job whose handler
runs lawful statements is sound whatever the order of the turns of its threads
(`TcpRelayJob.Sound`).

So a socket lives as the socket interface has it (`SocketLife.Step`): it is written to until it is
closed, it is read until it is freed, and it is closed once before it is freed, once.
-/

namespace Vmecs

open TcpRelayEnd TcpRelayStmt

variable {σ : Type} {C : Crypto} {I : Inet}

/-! ### The life of a socket -/

/-- How a socket is used. -/
inductive SocketUse where
  | opens
  | reads
  | writes
  | closes
  | frees

/-- How far the life of a socket has come. -/
inductive SocketLife where
  | absent
  | opened
  | shut
  | freed
  deriving DecidableEq

namespace SocketLife

/-- A use that a socket allows: closing is for writing, and only what is closed is freed. -/
inductive Step : SocketLife → SocketUse → SocketLife → Prop
  | opens : Step absent .opens opened
  | reads : Step opened .reads opened
  | readsShut : Step shut .reads shut
  | writes : Step opened .writes opened
  | closes : Step opened .closes shut
  | frees : Step shut .frees freed

/-- The life of a socket goes on, if it is used. -/
def Moves (l : SocketLife) : Option SocketUse → SocketLife → Prop
  | none, l' => l' = l
  | some u, l' => Step l u l'

/-- There is a block. -/
def there : SocketLife → Bool
  | opened => true
  | shut => true
  | _ => false

theorem there_iff {l : SocketLife} : l.there = true ↔ l = opened ∨ l = shut := by
  rcases l with _ | _ | _ | _ <;> simp [there]

end SocketLife

/-- How a call uses an end. -/
def TcpRelayCall.touches (e : TcpRelayEnd) : TcpRelayCall → Option SocketUse
  | .handshake => if inSock = e then some .writes else none
  | .client connected => if connected ∧ outSock = e then some .opens else none
  | .read source _ _ => if source = e then some .reads else none
  | .write sink _ _ => if sink = e then some .writes else none
  | .close e' => if e' = e then some .closes else none
  | .free e' => if e' = e then some .frees else none
  | .other => none

/-- A call of `tcp_outbound_client`. -/
def TcpRelayCall.isClient : TcpRelayCall → Bool
  | .client _ => true
  | _ => false

namespace TcpRelayEnd

@[simp] theorem other_other (e : TcpRelayEnd) : e.other.other = e := by
  rcases e with _ | _ <;> rfl

@[simp] theorem other_ne (e : TcpRelayEnd) : e.other ≠ e := by
  rcases e with _ | _ <;> simp [other]

@[simp] theorem ne_other (e : TcpRelayEnd) : e ≠ e.other := (other_ne e).symm

theorem eq_or_eq_other (e e' : TcpRelayEnd) : e' = e ∨ e' = e.other := by
  rcases e with _ | _ <;> rcases e' with _ | _ <;> simp [other]

end TcpRelayEnd

/-! ### What the handler holds -/

/-- A copying thread, as its handler knows it. -/
inductive TcpRelayThreadView where
  | unborn
  | running
  | joined
  deriving DecidableEq

/-- What is there at a line of the handler: the record, a target, the sockets as far as their lives
have come by what the handler knows, and the threads. -/
structure TcpRelayHolds where
  record : Bool
  target : Bool
  life : TcpRelayEnd → SocketLife
  thread : TcpRelayEnd → TcpRelayThreadView

namespace TcpRelayHolds

/-- No copying thread is running. -/
def Alone (h : TcpRelayHolds) : Prop := ∀ e, h.thread e ≠ .running

/-- A statement uses only what is there, and nothing that a running thread may use is taken from
it. -/
def Allows (h : TcpRelayHolds) : TcpRelayStmt → Prop
  | printTarget => h.target = true
  | close e => h.record = true ∧ h.life e = .opened ∧ h.Alone
  | free e => h.record = true ∧ h.life e = .shut ∧ h.Alone
  | targetFree => h.target = true
  | jobFree => h.record = true ∧ h.Alone
  | threadNew source => h.record = true ∧ (∀ e, h.life e = .opened) ∧ h.thread source = .unborn
  | threadJoin source => h.thread source = .running

/-- The life of a socket has come further. -/
def setLife (h : TcpRelayHolds) (e : TcpRelayEnd) (l : SocketLife) : TcpRelayHolds :=
  { h with life := Function.update h.life e l }

/-- A copying thread is started or joined. -/
def setThread (h : TcpRelayHolds) (e : TcpRelayEnd) (v : TcpRelayThreadView) : TcpRelayHolds :=
  { h with thread := Function.update h.thread e v }

/-- What is there behind a statement. A thread that is joined has closed its sink. -/
def after (h : TcpRelayHolds) : TcpRelayStmt → TcpRelayHolds
  | printTarget => h
  | close e => h.setLife e .shut
  | free e => h.setLife e .freed
  | targetFree => { h with target := false }
  | jobFree => { h with record := false }
  | threadNew source => h.setThread source .running
  | threadJoin source => (h.setThread source .joined).setLife source.other .shut

section

variable {h : TcpRelayHolds} {e e' : TcpRelayEnd} {l : SocketLife} {v : TcpRelayThreadView}

@[simp] theorem record_setLife : (h.setLife e l).record = h.record := rfl

@[simp] theorem thread_setLife : (h.setLife e l).thread = h.thread := rfl

@[simp] theorem life_setLife_self : (h.setLife e l).life e = l := Function.update_self ..

theorem life_setLife_of_ne (hne : e' ≠ e) : (h.setLife e l).life e' = h.life e' :=
  Function.update_of_ne hne ..

@[simp] theorem record_setThread : (h.setThread e v).record = h.record := rfl

@[simp] theorem life_setThread : (h.setThread e v).life = h.life := rfl

@[simp] theorem thread_setThread_self : (h.setThread e v).thread e = v := Function.update_self ..

theorem thread_setThread_of_ne (hne : e' ≠ e) : (h.setThread e v).thread e' = h.thread e' :=
  Function.update_of_ne hne ..

end

/-- Everything has been given back. -/
structure Done (h : TcpRelayHolds) : Prop where
  record : h.record = false
  target : h.target = false
  inSock : h.life inSock = .freed
  outSock : h.life outSock = .absent ∨ h.life outSock = .freed
  alone : h.Alone

/-- Every statement of a list is allowed where it stands, and nothing is left behind the last. -/
def Lawful : TcpRelayHolds → List TcpRelayStmt → Prop
  | h, [] => h.Done
  | h, stmt :: stmts => h.Allows stmt ∧ (h.after stmt).Lawful stmts

/-- Before the threads are started: the client's socket, and perhaps the target and the other
socket. -/
def before (target connected : Bool) : TcpRelayHolds where
  record := true
  target := target
  life
    | inSock => .opened
    | outSock => if connected then .opened else .absent
  thread _ := .unborn

theorem alone_before (target connected : Bool) : (before target connected).Alone := by
  intro e h
  exact absurd h (by simp [before])

theorem lawful_refused : (before false false).Lawful tcpRelayRefused := by
  have halone := alone_before false false
  exact ⟨⟨rfl, rfl, halone⟩, ⟨rfl, rfl, halone⟩, ⟨rfl, halone⟩, rfl, rfl, rfl, .inl rfl, halone⟩

theorem lawful_gaveUp : (before true false).Lawful tcpRelayGaveUp := by
  have halone := alone_before true false
  exact ⟨rfl, ⟨rfl, rfl, halone⟩, ⟨rfl, rfl, halone⟩, rfl, ⟨rfl, halone⟩, rfl, rfl, rfl, .inl rfl,
    halone⟩

theorem lawful_connected : (before true true).Lawful tcpRelayConnected := by
  refine ⟨rfl, ⟨rfl, ?_, rfl⟩, ⟨rfl, ?_, rfl⟩, rfl, rfl, ⟨rfl, rfl, ?_⟩, ⟨rfl, rfl, ?_⟩, rfl,
    ⟨rfl, ?_⟩, ⟨rfl, rfl, rfl, .inr rfl, ?_⟩⟩
  all_goals rintro (_ | _) <;> decide

end TcpRelayHolds

/-! ### Sound jobs -/

/-- What a handler holds is what is there. A thread that runs may use both sockets, and its handler
knows no more of the one it writes to than that it was open. -/
structure TcpRelayJob.Holds (s : TcpRelayJob σ) (h : TcpRelayHolds) : Prop where
  record : s.record.isSome = h.record
  target : s.target.isSome = h.target
  sock : ∀ e, (s.sock e).isSome = (h.life e).there
  unborn : ∀ e, h.thread e = .unborn → s.copier e = .idle
  joined : ∀ e, h.thread e = .joined → s.copier e = .returned
  running : ∀ e, h.thread e = .running →
    s.copier e ≠ .idle ∧ h.record = true ∧ (h.life e).there = true ∧ h.life e.other = .opened

/-- The handler holds what its next lines need. -/
def TcpRelayHandler.Lawful (h : TcpRelayHolds) : TcpRelayHandler → Prop
  | handshake => h = .before false false
  | connect _ => h = .before true false
  | does stmts => h.Lawful stmts

/-- How far the life of a socket has come. -/
def TcpRelayHolds.lives (h : TcpRelayHolds) (s : TcpRelayJob σ) (e : TcpRelayEnd) : SocketLife :=
  if h.thread e.other = .running ∧ s.copier e.other = .returned then .shut else h.life e

namespace TcpRelayJob

variable {s s' : TcpRelayJob σ} {h : TcpRelayHolds} {ops : TcpBlockingOps σ} {e : TcpRelayEnd}
  {call : TcpRelayCall}

theorem lives_of_alone (halone : h.Alone) (s : TcpRelayJob σ) (e : TcpRelayEnd) :
    h.lives s e = h.life e :=
  if_neg fun hr ↦ halone _ hr.1

theorem Holds.loadRecord (hs : s.Holds h) (hrecord : h.record = true) :
    ∃ config, s.loadRecord = .ok config := by
  obtain ⟨config, hconfig⟩ := Option.isSome_iff_exists.1 (hs.record.trans hrecord)
  exact ⟨config, by rw [TcpRelayJob.loadRecord, hconfig]⟩

theorem Holds.loadSock (hs : s.Holds h) (hrecord : h.record = true) (he : (h.life e).there = true) :
    ∃ sock, s.sock e = some sock ∧ s.loadSock e = .ok sock := by
  obtain ⟨config, hconfig⟩ := hs.loadRecord hrecord
  obtain ⟨sock, hsock⟩ := Option.isSome_iff_exists.1 ((hs.sock e).trans he)
  exact ⟨sock, hsock, by rw [TcpRelayJob.loadSock, hconfig, hsock]; rfl⟩

/-- A socket is changed and stays. -/
theorem Holds.setSock_some (hs : s.Holds h) (he : (h.life e).there = true) (sock : σ) :
    (s.setSock e (some sock)).Holds h := by
  refine ⟨hs.record, hs.target, fun e' ↦ ?_, hs.unborn, hs.joined, hs.running⟩
  rcases eq_or_ne e' e with rfl | hne
  · rw [sock_setSock_self, he]
    rfl
  · rw [sock_setSock_of_ne hne]
    exact hs.sock e'

/-- A running thread goes on. -/
theorem Holds.setCopier (hs : s.Holds h) (he : h.thread e = .running) {c : TcpRelayCopier}
    (hc : c ≠ .idle) : (s.setCopier e c).Holds h := by
  have hcopier {e' : TcpRelayEnd} (hne : h.thread e' ≠ .running) :
      (s.setCopier e c).copier e' = s.copier e' :=
    copier_setCopier_of_ne fun heq ↦ hne (heq ▸ he)
  refine ⟨hs.record, hs.target, hs.sock, fun e' h' ↦ ?_, fun e' h' ↦ ?_, fun e' h' ↦ ?_⟩
  · rw [hcopier (by simp [h'])]
    exact hs.unborn e' h'
  · rw [hcopier (by simp [h'])]
    exact hs.joined e' h'
  · refine ⟨?_, (hs.running e' h').2⟩
    rcases eq_or_ne e' e with rfl | hne
    · rwa [copier_setCopier_self]
    · rw [copier_setCopier_of_ne hne]
      exact (hs.running e' h').1

/-- The life of a socket comes further while no thread is running. -/
theorem Holds.setSock_of_alone (hs : s.Holds h) (halone : h.Alone) {sock : Option σ}
    {l : SocketLife} (hl : sock.isSome = l.there) : (s.setSock e sock).Holds (h.setLife e l) := by
  refine ⟨hs.record, hs.target, fun e' ↦ ?_, hs.unborn, hs.joined,
    fun e' h' ↦ absurd h' (halone e')⟩
  rcases eq_or_ne e' e with rfl | hne
  · rw [sock_setSock_self, hl, TcpRelayHolds.life_setLife_self]
  · rw [sock_setSock_of_ne hne, TcpRelayHolds.life_setLife_of_ne hne]
    exact hs.sock e'

theorem moves_of_alone (halone : h.Alone) {l : SocketLife} {u : SocketUse}
    (hstep : (h.life e).Step u l) (s s' : TcpRelayJob σ) (e' : TcpRelayEnd) :
    (h.lives s e').Moves (if e = e' then some u else none) ((h.setLife e l).lives s' e') := by
  rw [lives_of_alone halone, lives_of_alone (by exact halone)]
  rcases eq_or_ne e e' with rfl | hne
  · rw [if_pos rfl, TcpRelayHolds.life_setLife_self]
    exact hstep
  · rw [if_neg hne, TcpRelayHolds.life_setLife_of_ne hne.symm]
    rfl

/-- A thread is started. -/
theorem Holds.started (hs : s.Holds h) {source : TcpRelayEnd} (hrecord : h.record = true)
    (hlife : ∀ e, h.life e = .opened) (hunborn : h.thread source = .unborn) :
    (s.setCopier source .read).Holds (h.setThread source .running) ∧
      ∀ e, (h.setThread source .running).lives (s.setCopier source .read) e = h.lives s e := by
  refine ⟨⟨hs.record, hs.target, hs.sock, fun e h' ↦ ?_, fun e h' ↦ ?_, fun e h' ↦ ?_⟩, fun e ↦ ?_⟩
  · rcases eq_or_ne e source with rfl | hne
    · exact absurd (TcpRelayHolds.thread_setThread_self.symm.trans h') (by simp)
    · rw [copier_setCopier_of_ne hne]
      exact hs.unborn e ((TcpRelayHolds.thread_setThread_of_ne hne).symm.trans h')
  · rcases eq_or_ne e source with rfl | hne
    · exact absurd (TcpRelayHolds.thread_setThread_self.symm.trans h') (by simp)
    · rw [copier_setCopier_of_ne hne]
      exact hs.joined e ((TcpRelayHolds.thread_setThread_of_ne hne).symm.trans h')
  · refine ⟨?_, hrecord, by simp [hlife, SocketLife.there], hlife _⟩
    rcases eq_or_ne e source with rfl | hne
    · simp
    · rw [copier_setCopier_of_ne hne]
      exact (hs.running e ((TcpRelayHolds.thread_setThread_of_ne hne).symm.trans h')).1
  · rw [TcpRelayHolds.lives, TcpRelayHolds.lives, TcpRelayHolds.life_setThread]
    rcases eq_or_ne e.other source with rfl | hne
    · rw [copier_setCopier_self, if_neg (by simp), if_neg (by simp [hunborn])]
    · rw [copier_setCopier_of_ne hne, TcpRelayHolds.thread_setThread_of_ne hne]

/-- A thread that has returned is joined. -/
theorem Holds.joins (hs : s.Holds h) {source : TcpRelayEnd}
    (hrunning : h.thread source = .running) (hreturned : s.copier source = .returned) :
    s.Holds ((h.setThread source .joined).setLife source.other .shut) ∧
      ∀ e, ((h.setThread source .joined).setLife source.other .shut).lives s e = h.lives s e := by
  obtain ⟨-, hrecord, hthere, hopened⟩ := hs.running source hrunning
  have hthread {e : TcpRelayEnd} (hne : e ≠ source) :
      ((h.setThread source .joined).setLife source.other .shut).thread e = h.thread e := by
    rw [TcpRelayHolds.thread_setLife, TcpRelayHolds.thread_setThread_of_ne hne]
  have hself :
      ((h.setThread source .joined).setLife source.other .shut).thread source = .joined := by
    rw [TcpRelayHolds.thread_setLife, TcpRelayHolds.thread_setThread_self]
  have hsource : ((h.setThread source .joined).setLife source.other .shut).life source =
      h.life source := by
    rw [TcpRelayHolds.life_setLife_of_ne (ne_other source), TcpRelayHolds.life_setThread]
  refine ⟨⟨hs.record, hs.target, fun e ↦ ?_, fun e h' ↦ ?_, fun e h' ↦ ?_, fun e h' ↦ ?_⟩,
    fun e ↦ ?_⟩
  · obtain rfl | rfl := source.eq_or_eq_other e
    · rw [hsource]
      exact hs.sock e
    · rw [TcpRelayHolds.life_setLife_self, hs.sock, hopened]
      rfl
  · rcases eq_or_ne e source with rfl | hne
    · exact absurd (hself.symm.trans h') (by simp)
    · exact hs.unborn e ((hthread hne).symm.trans h')
  · rcases eq_or_ne e source with rfl | hne
    · exact hreturned
    · exact hs.joined e ((hthread hne).symm.trans h')
  · obtain rfl | rfl := source.eq_or_eq_other e
    · exact absurd (hself.symm.trans h') (by simp)
    · obtain ⟨hidle, -, -, hopened'⟩ := hs.running _ ((hthread (other_ne source)).symm.trans h')
      rw [other_other] at hopened' ⊢
      refine ⟨hidle, hrecord, ?_, hsource.trans hopened'⟩
      rw [TcpRelayHolds.life_setLife_self]
      rfl
  · rw [TcpRelayHolds.lives, TcpRelayHolds.lives]
    obtain rfl | rfl := source.eq_or_eq_other e
    · rw [hthread (other_ne e), hsource]
    · rw [other_other, hself, if_neg (by simp), if_pos ⟨hrunning, hreturned⟩,
        TcpRelayHolds.life_setLife_self]

/-! ### Statements -/

/-- **A statement that is allowed** takes what the handler holds to what it holds behind it. -/
theorem Holds.exec (hs : s.Holds h) {stmt : TcpRelayStmt} (hallows : h.Allows stmt)
    (hexec : tcpRelayExec ops s stmt = .ok (call, s')) :
    s'.Holds (h.after stmt) ∧
      ∀ e, (h.lives s e).Moves (call.touches e) ((h.after stmt).lives s' e) := by
  rcases stmt with _ | e | e | _ | _ | source | source
  · rw [tcpRelayExec] at hexec
    split at hexec
    · cases hexec
      exact ⟨hs, fun _ ↦ rfl⟩
    · exact absurd hexec (by simp)
  · obtain ⟨hrecord, hlife, halone⟩ := hallows
    obtain ⟨sock, -, hsock⟩ := hs.loadSock hrecord (e := e) (by rw [hlife]; rfl)
    rw [tcpRelayExec, hsock] at hexec
    cases hexec
    exact ⟨hs.setSock_of_alone halone rfl, moves_of_alone halone (hlife ▸ .closes) _ _⟩
  · obtain ⟨hrecord, hlife, halone⟩ := hallows
    obtain ⟨sock, -, hsock⟩ := hs.loadSock hrecord (e := e) (by rw [hlife]; rfl)
    rw [tcpRelayExec, hsock] at hexec
    cases hexec
    exact ⟨hs.setSock_of_alone halone rfl, moves_of_alone halone (hlife ▸ .frees) _ _⟩
  · rw [tcpRelayExec] at hexec
    split at hexec
    · cases hexec
      exact ⟨⟨hs.record, rfl, hs.sock, hs.unborn, hs.joined, hs.running⟩, fun _ ↦ rfl⟩
    · exact absurd hexec (by simp)
  · obtain ⟨config, hconfig⟩ := hs.loadRecord hallows.1
    rw [tcpRelayExec, hconfig] at hexec
    cases hexec
    exact ⟨⟨rfl, hs.target, hs.sock, hs.unborn, hs.joined, fun e h' ↦ absurd h' (hallows.2 e)⟩,
      fun _ ↦ rfl⟩
  · obtain ⟨hrecord, hlife, hunborn⟩ := hallows
    cases hexec
    exact hs.started hrecord hlife hunborn
  · rw [tcpRelayExec] at hexec
    split at hexec
    case h_1 hreturned =>
      cases hexec
      exact hs.joins hallows hreturned
    case h_2 => exact absurd hexec (by simp)

/-! ### The copying threads -/

/-- A thread that takes a turn is running. -/
theorem Holds.running_of_copier (hs : s.Holds h) {source : TcpRelayEnd} {c : TcpRelayCopier}
    (hc : s.copier source = c) (hidle : c ≠ .idle) (hreturned : c ≠ .returned) :
    h.thread source = .running := by
  rcases hv : h.thread source with _ | _ | _
  · exact absurd (hc.symm.trans (hs.unborn source hv)) hidle
  · rfl
  · exact absurd (hc.symm.trans (hs.joined source hv)) hreturned

/-- What a running thread uses is there. -/
theorem Holds.loadSock_of_running (hs : s.Holds h) {source : TcpRelayEnd}
    (hrunning : h.thread source = .running) (e : TcpRelayEnd) :
    ∃ sock, s.sock e = some sock ∧ s.loadSock e = .ok sock := by
  obtain ⟨-, hrecord, hthere, hopened⟩ := hs.running source hrunning
  refine hs.loadSock hrecord ?_
  obtain rfl | rfl := source.eq_or_eq_other e
  · exact hthere
  · rw [hopened]
    rfl

/-- What the turns of one thread do not tell of the other's sink. -/
theorem lives_of_copier_other {source : TcpRelayEnd}
    (hcopier : ∀ e, e ≠ source → s'.copier e = s.copier e) :
    h.lives s' source = h.lives s source := by
  rw [TcpRelayHolds.lives, TcpRelayHolds.lives, hcopier _ (other_ne source)]

theorem lives_of_not_returned {source : TcpRelayEnd} (hreturned : s.copier source ≠ .returned) :
    h.lives s source.other = h.life source.other := by
  rw [TcpRelayHolds.lives, other_other]
  exact if_neg fun hr ↦ hreturned hr.2

theorem reads_lives {source : TcpRelayEnd} (hthere : (h.life source).there = true) :
    (h.lives s source).Step .reads (h.lives s source) := by
  rw [TcpRelayHolds.lives]
  split
  · exact .readsShut
  · rcases SocketLife.there_iff.1 hthere with hl | hl <;> rw [hl]
    · exact .reads
    · exact .readsShut

theorem lives_setCopier_other {source : TcpRelayEnd} (hrunning : h.thread source = .running)
    (c : TcpRelayCopier) :
    h.lives (s.setCopier source c) source.other =
      if c = .returned then .shut else h.life source.other := by
  simp only [TcpRelayHolds.lives, other_other, hrunning, copier_setCopier_self, true_and]

/-- A turn that reads. -/
theorem Holds.read (hs : s.Holds h) {source : TcpRelayEnd} (hrunning : h.thread source = .running)
    (hfrom : s.copier source ≠ .returned) {c : TcpRelayCopier} (hc : c ≠ .idle)
    (hc' : c ≠ .returned) (sock : σ) (nRead : ℤ) (buf : Bytes) :
    ((s.setSock source (some sock)).setCopier source c).Holds h ∧
      ∀ e, (h.lives s e).Moves ((TcpRelayCall.read source nRead buf).touches e)
        (h.lives ((s.setSock source (some sock)).setCopier source c) e) := by
  obtain ⟨-, -, hthere, -⟩ := hs.running source hrunning
  refine ⟨(hs.setSock_some hthere sock).setCopier hrunning hc, fun e ↦ ?_⟩
  rw [TcpRelayCall.touches]
  rcases source.eq_or_eq_other e with heq | heq <;> subst heq
  · rw [if_pos rfl, lives_of_copier_other fun e hne ↦ copier_setCopier_of_ne hne]
    exact reads_lives hthere
  · rw [if_neg (ne_other source), lives_of_not_returned hfrom, lives_setCopier_other hrunning,
      if_neg hc']
    rfl

/-- A turn that writes, or closes. -/
theorem Holds.sink (hs : s.Holds h) {source : TcpRelayEnd} (hrunning : h.thread source = .running)
    (hfrom : s.copier source ≠ .returned) {c : TcpRelayCopier} (hc : c ≠ .idle) {u : SocketUse}
    (hstep : SocketLife.opened.Step u (if c = .returned then .shut else .opened)) (sock : σ) :
    ((s.setSock source.other (some sock)).setCopier source c).Holds h ∧
      ∀ e, (h.lives s e).Moves (if source.other = e then some u else none)
        (h.lives ((s.setSock source.other (some sock)).setCopier source c) e) := by
  obtain ⟨-, -, -, hopened⟩ := hs.running source hrunning
  refine ⟨(hs.setSock_some (by rw [hopened]; rfl) sock).setCopier hrunning hc, fun e ↦ ?_⟩
  rcases source.eq_or_eq_other e with heq | heq <;> subst heq
  · rw [if_neg (other_ne _), lives_of_copier_other fun e hne ↦ copier_setCopier_of_ne hne]
    rfl
  · rw [if_pos rfl, lives_of_not_returned hfrom, lives_setCopier_other hrunning, hopened]
    exact hstep

/-- **A turn of a copying thread** reads from its source, or writes to or closes its sink. -/
theorem Holds.copier (hs : s.Holds h) {source : TcpRelayEnd}
    (hturn : tcpRelayCopier ops source s = .ok (call, s')) :
    s'.Holds h ∧ s'.handler = s.handler ∧ s'.record = s.record ∧
      ∀ e, (h.lives s e).Moves (call.touches e) (h.lives s' e) := by
  obtain ⟨sock, nRead, buf, sock', hc, -, -, rfl, rfl⟩ | ⟨buf, nRead, sink, nWrite, sink', hc, -, -,
    -, rfl, rfl⟩ | ⟨sink, hc, -, rfl, rfl⟩ := tcpRelayCopier_cases hturn
  · have hrunning := hs.running_of_copier hc (by simp) (by simp)
    obtain ⟨hidle, hreturned⟩ := TcpRelayCopier.afterRead_ne nRead buf
    obtain ⟨hs', hmoves⟩ := hs.read hrunning (by simp [hc]) hidle hreturned sock' nRead buf
    exact ⟨hs', rfl, rfl, hmoves⟩
  · have hrunning := hs.running_of_copier hc (by simp) (by simp)
    obtain ⟨hidle, hreturned⟩ := TcpRelayCopier.afterWrite_ne nWrite
    obtain ⟨hs', hmoves⟩ := hs.sink hrunning (by simp [hc]) hidle
      (by rw [if_neg hreturned]; exact .writes) sink'
    exact ⟨hs', rfl, rfl, hmoves⟩
  · have hrunning := hs.running_of_copier hc (by simp) (by simp)
    obtain ⟨hs', hmoves⟩ := hs.sink hrunning (by simp [hc]) (c := .returned) (by simp) .closes
      (ops.close sink)
    exact ⟨hs', rfl, rfl, hmoves⟩

/-! ### Runs of a job -/

/-- A job whose handler holds what its next lines need. -/
structure Sound (s : TcpRelayJob σ) (h : TcpRelayHolds) : Prop where
  holds : s.Holds h
  lawful : s.handler.Lawful h

/-- Before the threads are started. -/
theorem holds_before_iff {target connected : Bool} :
    s.Holds (.before target connected) ↔ s.record.isSome = true ∧ s.target.isSome = target ∧
      (s.sock inSock).isSome = true ∧ (s.sock outSock).isSome = connected ∧
      ∀ e, s.copier e = .idle := by
  have hout : ((TcpRelayHolds.before target connected).life outSock).there = connected := by
    rcases connected with _ | _ <;> rfl
  constructor
  · intro h
    exact ⟨h.record, h.target, h.sock inSock, (h.sock outSock).trans hout, fun e ↦ h.unborn e rfl⟩
  · rintro ⟨hrecord, htarget, hin, hout', hidle⟩
    refine ⟨hrecord, htarget, ?_, fun e _ ↦ hidle e, fun e h ↦ absurd h ?_, fun e h ↦ absurd h ?_⟩
    · rintro (_ | _)
      · exact hin
      · exact hout'.trans hout.symm
    · simp [TcpRelayHolds.before]
    · exact TcpRelayHolds.alone_before _ _ e

/-- What a handler holds does not depend on where it is. -/
theorem Holds.goOn (hs : s.Holds h) (handler : TcpRelayHandler) :
    TcpRelayJob.Holds { s with handler } h :=
  ⟨hs.record, hs.target, hs.sock, hs.unborn, hs.joined, hs.running⟩

theorem sound_new (record : TcpRelayRecord) (client : σ) :
    (tcpRelayJobNew record client).Sound (.before false false) :=
  ⟨holds_before_iff.2 ⟨rfl, rfl, rfl, rfl, fun _ ↦ rfl⟩, rfl⟩

/-- The lives of the sockets before the threads are started. -/
theorem lives_before (target connected : Bool) (s : TcpRelayJob σ) (e : TcpRelayEnd) :
    (TcpRelayHolds.before target connected).lives s e =
      (TcpRelayHolds.before target connected).life e :=
  lives_of_alone (TcpRelayHolds.alone_before _ _) s e

/-- A turn of the handler. -/
theorem Sound.handler (hs : s.Sound h) {a : TcpRelayAnswers σ}
    (hturn : tcpRelayHandler C I ops a s = .ok (call, s')) :
    ∃ h', s'.Sound h' ∧ ∀ e, (h.lives s e).Moves (call.touches e) (h'.lives s' e) := by
  obtain ⟨hholds, hlawful⟩ := hs
  obtain ⟨sock, hc, -, rfl, rfl | rfl⟩ | ⟨retry, record, hc, -, ⟨rfl, rfl⟩ | ⟨rfl, rfl⟩ |
    ⟨rfl, -, rfl⟩⟩ | ⟨stmt, stmts, s₁, hc, hexec, rfl⟩ :=
    tcpRelayHandler_cases hturn <;> rw [hc] at hlawful
  · obtain rfl := hlawful
    obtain ⟨hrecord, -, -, hout, hidle⟩ := holds_before_iff.1 hholds
    refine ⟨.before true false, ⟨holds_before_iff.2 ⟨hrecord, rfl, rfl, hout, hidle⟩, rfl⟩, ?_⟩
    rintro (_ | _) <;> rw [lives_before, lives_before]
    · exact .writes
    · rfl
  · obtain rfl := hlawful
    obtain ⟨hrecord, htarget, -, hout, hidle⟩ := holds_before_iff.1 hholds
    refine ⟨.before false false, ⟨holds_before_iff.2 ⟨hrecord, htarget, rfl, hout, hidle⟩,
      TcpRelayHolds.lawful_refused⟩, ?_⟩
    rintro (_ | _) <;> rw [lives_before, lives_before]
    · exact .writes
    · rfl
  · obtain rfl := hlawful
    obtain ⟨hrecord, htarget, hin, -, hidle⟩ := holds_before_iff.1 hholds
    refine ⟨.before true true, ⟨holds_before_iff.2 ⟨hrecord, htarget, hin, rfl, hidle⟩,
      TcpRelayHolds.lawful_connected⟩, ?_⟩
    rintro (_ | _) <;> rw [lives_before, lives_before]
    · rfl
    · exact .opens
  · obtain rfl := hlawful
    refine ⟨.before true false, ⟨hholds.goOn _, TcpRelayHolds.lawful_gaveUp⟩, fun e ↦ ?_⟩
    rw [lives_before, lives_before]
    rfl
  · obtain rfl := hlawful
    refine ⟨.before true false, ⟨hholds.goOn _, rfl⟩, fun e ↦ ?_⟩
    rw [lives_before, lives_before]
    rfl
  · obtain ⟨hallows, hrest⟩ := hlawful
    obtain ⟨hholds', hmoves⟩ := hholds.exec hallows hexec
    exact ⟨h.after stmt, ⟨hholds'.goOn _, hrest⟩, hmoves⟩

/-- **A turn of any thread** keeps the job sound, and uses the sockets as they allow. -/
theorem Sound.step (hs : s.Sound h) {e : TcpRelayJobEvent σ}
    (hstep : TcpRelayJobStep C I ops s e s') :
    ∃ h', s'.Sound h' ∧ ∀ e', (h.lives s e').Moves (e.call.touches e') (h'.lives s' e') := by
  rcases ht : e.thread with _ | source <;> rw [TcpRelayJobStep, ht] at hstep
  · exact hs.handler hstep
  · obtain ⟨hholds, hhandler, -, hmoves⟩ := hs.holds.copier hstep
    exact ⟨h, ⟨hholds, hhandler ▸ hs.lawful⟩, hmoves⟩

/-- The life of a socket at first. -/
def firstLife : TcpRelayEnd → SocketLife
  | inSock => .opened
  | outSock => .absent

theorem lives_of_run {record : TcpRelayRecord} {client : σ} {es : List (TcpRelayJobEvent σ)}
    (hrun : Run (TcpRelayJobStep C I ops) (tcpRelayJobNew record client) es s) :
    ∃ h, s.Sound h ∧ ∀ e, Run SocketLife.Step (firstLife e) (es.filterMap (·.call.touches e))
      (h.lives s e) := by
  refine hrun.invariant (I := fun es s ↦ ∃ h : TcpRelayHolds, s.Sound h ∧ ∀ e,
    Run SocketLife.Step (firstLife e) (es.filterMap (·.call.touches e)) (h.lives s e)) ?_ ?_
  · refine ⟨_, sound_new _ _, ?_⟩
    rintro (_ | _) <;> exact .nil
  · rintro es s₁ e s₂ ⟨h, hs, hlives⟩ hstep
    obtain ⟨h', hs', hmoves⟩ := hs.step hstep
    refine ⟨h', hs', fun e' ↦ ?_⟩
    have hmove := hmoves e'
    rw [List.filterMap_append]
    rcases hu : e.call.touches e' with _ | u <;> rw [hu] at hmove
    · have hnil : [e].filterMap (·.call.touches e') = [] := by simp [hu]
      rw [hnil, List.append_nil, hmove]
      exact hlives e'
    · have hcons : [e].filterMap (·.call.touches e') = [u] := by simp [hu]
      rw [hcons]
      exact (hlives e').snoc hmove

/-! ### Faults, attempts and waiting -/

/-- The handler is about to call an outbound for which there is no socket, or no target, or to print
a target that is `NULL`, or a copying thread to write more than its buffer. -/
def Faulty (s : TcpRelayJob σ) (a : TcpRelayAnswers σ) : TcpRelayThread → Prop
  | .handler =>
    (∃ retry record target, s.handler = .connect retry ∧ s.record = some record ∧
      s.target = some target ∧
      ¬record.outbound.Starts a.calls.socket (target.map (·.1))) ∨
    ((∃ stmts, s.handler = .does (printTarget :: stmts)) ∧ s.target = some none)
  | .copier source =>
    ∃ buf nRead, s.copier source = .write buf nRead ∧ tcpRelayDefaultBuffer < nRead

/-- A copying thread waits in a call on a socket. -/
def Blocked (ops : TcpBlockingOps σ) (s : TcpRelayJob σ) (source : TcpRelayEnd) : Prop :=
  (s.copier source = .read ∧
    ∃ sock, s.sock source = some sock ∧ ops.read tcpRelaySizeofBuf sock = none) ∨
  ∃ buf nRead, s.copier source = .write buf nRead ∧ nRead ≤ tcpRelayDefaultBuffer ∧
    ∃ sock, s.sock source.other = some sock ∧ ops.write buf sock = none

/-- The handler waits for the other side of the outbound. -/
def Connecting (C : Crypto) (I : Inet) (s : TcpRelayJob σ) (a : TcpRelayAnswers σ) : Prop :=
  ∃ retry record target want, s.handler = .connect retry ∧ s.record = some record ∧
    s.target = some target ∧ tcpRelayClient C I a record target = .wait want

theorem tcpRelayClient_eq_abort_iff (hI : InetLaws I) (a : TcpRelayAnswers σ)
    (record : TcpRelayRecord) (target : Option ShortTarget) :
    tcpRelayClient C I a record target = .abort ↔
      ¬record.outbound.Starts a.calls.socket (target.map (·.1)) := by
  refine client_eq_abort_iff hI C record.usable ?_ a.answered {}
  rintro t ht
  obtain ⟨target, -, rfl⟩ := Option.map_eq_some_iff.1 ht
  exact target.2

/-- A statement that is allowed stops at a target that is `NULL` and at a thread that runs. -/
theorem Holds.exec_error_iff (hs : s.Holds h) {stmt : TcpRelayStmt} (hallows : h.Allows stmt)
    {stop : TcpRelayStop} : tcpRelayExec ops s stmt = .error stop ↔
      (stop = .fault ∧ stmt = printTarget ∧ s.target = some none) ∨
        (stop = .waits ∧ ∃ source, stmt = threadJoin source ∧ s.copier source ≠ .returned) := by
  rcases stmt with _ | e | e | _ | _ | source | source
  · obtain ⟨t, ht⟩ := Option.isSome_iff_exists.1 (hs.target.trans hallows)
    rcases t with _ | t <;> simp [tcpRelayExec, ht, @eq_comm _ stop]
  · obtain ⟨sock, -, hsock⟩ := hs.loadSock hallows.1 (e := e) (by rw [hallows.2.1]; rfl)
    simp [tcpRelayExec, hsock, bind, Except.bind]
  · obtain ⟨sock, -, hsock⟩ := hs.loadSock hallows.1 (e := e) (by rw [hallows.2.1]; rfl)
    simp [tcpRelayExec, hsock, bind, Except.bind]
  · obtain ⟨t, ht⟩ := Option.isSome_iff_exists.1 (hs.target.trans hallows)
    simp [tcpRelayExec, ht]
  · obtain ⟨config, hconfig⟩ := hs.loadRecord hallows.1
    simp [tcpRelayExec, hconfig, bind, Except.bind]
  · simp [tcpRelayExec]
  · rw [tcpRelayExec]
    split <;> simp_all [@eq_comm _ stop]

/-- An attempt to connect stops when the outbound faults or waits. -/
theorem Holds.connect_error_iff (hs : s.Holds h) (hrecord : h.record = true)
    (htarget : h.target = true) {retry : ℤ} (hc : s.handler = .connect retry) (hI : InetLaws I)
    {a : TcpRelayAnswers σ} {stop : TcpRelayStop} :
    tcpRelayHandler C I ops a s = .error stop ↔
      (stop = .fault ∧ s.Faulty a .handler) ∨ (stop = .waits ∧ s.Connecting C I a) := by
  obtain ⟨record, hrecord⟩ := Option.isSome_iff_exists.1 (hs.record.trans hrecord)
  obtain ⟨target, htarget⟩ := Option.isSome_iff_exists.1 (hs.target.trans htarget)
  have habort := tcpRelayClient_eq_abort_iff (C := C) hI a record target
  have hfaulty : s.Faulty a .handler ↔ tcpRelayClient C I a record target = .abort := by
    simp [Faulty, hc, hrecord, htarget, habort]
  have hconnecting : s.Connecting C I a ↔
      ∃ want, tcpRelayClient C I a record target = .wait want := by
    simp [Connecting, hc, hrecord, htarget]
  have hload : s.loadRecord = .ok record := by rw [TcpRelayJob.loadRecord, hrecord]
  have hload' : s.loadTarget = .ok target := by rw [TcpRelayJob.loadTarget, htarget]
  rw [hfaulty, hconnecting, tcpRelayHandler, hc]
  simp only [hload, hload', bind, Except.bind]
  rcases tcpRelayClient C I a record target with ⟨_ | _, rest⟩ | want | _
  · dsimp only
    split <;> simp
  · simp
  · simp [@eq_comm _ stop]
  · simp [@eq_comm _ stop]

/-- Where the handler stops; it does when it has returned. -/
theorem Sound.handler_error_iff (hs : s.Sound h) (hI : InetLaws I) {a : TcpRelayAnswers σ}
    {stop : TcpRelayStop} :
    tcpRelayHandler C I ops a s = .error stop ↔
      (stop = .fault ∧ s.Faulty a .handler) ∨
      (stop = .waits ∧ (s.handler = .does [] ∨ s.Connecting C I a ∨ ∃ source stmts,
        s.handler = .does (threadJoin source :: stmts) ∧ s.copier source ≠ .returned)) := by
  obtain ⟨hholds, hlawful⟩ := hs
  rcases hc : s.handler with _ | retry | _ | ⟨stmt, stmts⟩ <;> rw [hc] at hlawful
  · obtain rfl := hlawful
    obtain ⟨sock, -, hsock⟩ := hholds.loadSock (e := inSock) rfl rfl
    simp only [tcpRelayHandler, hc, hsock, bind, Except.bind]
    split <;> simp [Faulty, Connecting, hc]
  · obtain rfl := hlawful
    rw [hholds.connect_error_iff rfl rfl hc hI]
    simp
  · simp [tcpRelayHandler, Faulty, Connecting, hc, @eq_comm _ stop]
  · have hexec : tcpRelayExec ops s stmt = .error stop ↔ _ := hholds.exec_error_iff hlawful.1
    simp only [tcpRelayHandler, Faulty, Connecting, hc]
    rcases htry : tcpRelayExec ops s stmt with stop' | ⟨call, s'⟩ <;> rw [htry] at hexec
    · simp only [bind, Except.bind]
      simpa using hexec
    · simp only [bind, Except.bind]
      simpa using hexec

/-- Where a running thread stops. -/
theorem Holds.copier_error_iff (hs : s.Holds h) {source : TcpRelayEnd} {stop : TcpRelayStop} :
    tcpRelayCopier ops source s = .error stop ↔
      (stop = .fault ∧ ∃ buf nRead, s.copier source = .write buf nRead ∧
        tcpRelayDefaultBuffer < nRead) ∨
      (stop = .waits ∧ (s.copier source = .idle ∨ s.copier source = .returned ∨
        s.Blocked ops source)) := by
  rw [tcpRelayCopier]
  rcases hc : s.copier source with _ | _ | ⟨buf, nRead⟩ | _ | _
  · simp [@eq_comm _ stop]
  · have hrunning := hs.running_of_copier hc (by simp) (by simp)
    obtain ⟨sock, hsock, hload⟩ := hs.loadSock_of_running hrunning source
    simp only [hload, bind, Except.bind, Blocked, hc, hsock]
    rcases hread : ops.read tcpRelaySizeofBuf sock with _ | ⟨nRead, buf, sock'⟩ <;>
      simp [hread, @eq_comm _ stop]
  · have hrunning := hs.running_of_copier hc (by simp) (by simp)
    obtain ⟨sink, hsink, hload⟩ := hs.loadSock_of_running hrunning source.other
    simp only [hload, bind, Except.bind, Blocked, hc, hsink]
    split
    case isTrue hle =>
      have hnot := not_lt.2 hle
      rcases hwrite : ops.write buf sink with _ | ⟨nWrite, sink'⟩ <;>
        simp [hwrite, hnot, hle, @eq_comm _ stop]
    case isFalse hgt =>
      have hlt := not_le.1 hgt
      simp [hgt, hlt, @eq_comm _ stop]
  · have hrunning := hs.running_of_copier hc (by simp) (by simp)
    obtain ⟨sink, hsink, hload⟩ := hs.loadSock_of_running hrunning source.other
    simp [hload, bind, Except.bind, Blocked, hc]
  · simp [@eq_comm _ stop]

/-- After so many attempts to connect, of which `max_connect_retry` are allowed. -/
structure Attempts (record : TcpRelayRecord) (n : ℕ) (s : TcpRelayJob σ) : Prop where
  record_eq : s.record = some record ∨ s.record = none
  count : match s.handler with
    | .handshake => n = 0
    | .connect retry => n = retry ∧ (retry = 0 ∨ retry < record.maxConnectRetry)
    | .does _ => (n : ℤ) ≤ max 1 record.maxConnectRetry

theorem exec_attempts {stmt : TcpRelayStmt} (hexec : tcpRelayExec ops s stmt = .ok (call, s')) :
    call.isClient = false ∧ (s'.record = s.record ∨ s'.record = none) := by
  obtain ⟨_, _, -, rfl, rfl⟩ | ⟨_, -, rfl, rfl⟩ | ⟨_, -, rfl, rfl⟩ | ⟨rfl, -, -, hrecord⟩ :=
    tcpRelayExec_cases hexec
  · exact ⟨rfl, .inl rfl⟩
  · exact ⟨rfl, .inl rfl⟩
  · exact ⟨rfl, .inl rfl⟩
  · exact ⟨rfl, hrecord⟩

theorem Attempts.step {record : TcpRelayRecord} {n : ℕ} (hs : s.Attempts record n)
    {e : TcpRelayJobEvent σ} (hstep : TcpRelayJobStep C I ops s e s') :
    s'.Attempts record (if e.call.isClient then n + 1 else n) := by
  obtain ⟨hrecord, hcount⟩ := hs
  rcases ht : e.thread with _ | source <;> rw [TcpRelayJobStep, ht] at hstep
  · obtain ⟨sock, hc, -, hcall, rfl | rfl⟩ | ⟨retry, record', hc, hload, hcall⟩ |
      ⟨stmt, stmts, s₁, hc, hexec, rfl⟩ := tcpRelayHandler_cases hstep <;> rw [hc] at hcount
    · rw [hcall]
      exact ⟨hrecord, by simp [hcount, TcpRelayCall.isClient], .inl rfl⟩
    · rw [hcall]
      refine ⟨hrecord, ?_⟩
      simp [hcount, TcpRelayCall.isClient]
    · -- the record is there, so it is the one that the job was made with
      obtain rfl : record' = record := by
        rcases hrecord with hrecord | hrecord <;> rw [hrecord] at hload
        · exact (Option.some.inj hload).symm
        · exact absurd hload (by simp)
      obtain ⟨hcall, rfl⟩ | ⟨hcall, rfl⟩ | ⟨hcall, hlt, rfl⟩ := hcall <;> rw [hcall]
      · refine ⟨hrecord, ?_⟩
        simp only [TcpRelayCall.isClient, if_true]
        omega
      · refine ⟨hrecord, ?_⟩
        simp only [TcpRelayCall.isClient, if_true]
        omega
      · refine ⟨hrecord, ?_⟩
        simp only [TcpRelayCall.isClient, if_true]
        omega
    · obtain ⟨hclient, hsame⟩ := exec_attempts hexec
      rw [hclient]
      exact ⟨hsame.elim (fun h ↦ h ▸ hrecord) .inr, hcount⟩
  · obtain ⟨_, _, _, _, -, -, -, hcall, rfl⟩ | ⟨_, _, _, _, _, -, -, -, -, hcall, rfl⟩ |
      ⟨_, -, -, hcall, rfl⟩ := tcpRelayCopier_cases hstep <;> rw [hcall] <;> exact ⟨hrecord, hcount⟩

theorem attempts_of_run {record : TcpRelayRecord} {client : σ} {es : List (TcpRelayJobEvent σ)}
    (hrun : Run (TcpRelayJobStep C I ops) (tcpRelayJobNew record client) es s) :
    s.Attempts record (es.countP (·.call.isClient)) := by
  refine hrun.invariant (I := fun es s ↦
    s.Attempts record (es.countP (·.call.isClient))) ⟨.inl rfl, rfl⟩ ?_
  intro es s₁ e s₂ ih hstep
  have hnext := ih.step hstep
  rw [List.countP_append, List.countP_singleton]
  split at hnext
  case isTrue h => rwa [if_pos h]
  case isFalse h => rwa [if_neg h]

/-- There have been no more attempts than are allowed, of which there is always one. -/
theorem Attempts.le {record : TcpRelayRecord} {n : ℕ} (hs : s.Attempts record n) :
    (n : ℤ) ≤ max 1 record.maxConnectRetry := by
  obtain ⟨-, hcount⟩ := hs
  split at hcount
  · omega
  · omega
  · exact hcount

/-! ### The life of a job -/

/-- The handler has returned. -/
def Returned (s : TcpRelayJob σ) : Prop := s.handler = .does []

/-- **The life of a job** that has come to `s` by the events `es`. -/
structure LifeCycle (C : Crypto) (I : Inet) (ops : TcpBlockingOps σ) (record : TcpRelayRecord)
    (es : List (TcpRelayJobEvent σ)) (s : TcpRelayJob σ) : Prop where
  /-- no turn uses what is not there, but for an outbound without a socket or a target, the print of
  a target that is `NULL`, and a bogus length -/
  fault : ∀ a t, tcpRelayTurn C I ops a s t = .error .fault ↔ s.Faulty a t
  /-- every socket is used as it allows, and has been closed and freed when the handler returns -/
  life : ∃ life : TcpRelayEnd → SocketLife,
    (∀ e, Run SocketLife.Step (firstLife e) (es.filterMap (·.call.touches e)) (life e)) ∧
      (s.Returned → life inSock = .freed ∧ (life outSock = .absent ∨ life outSock = .freed))
  /-- nothing is left when the handler has returned, and no thread is running -/
  returned : s.Returned → s.record = none ∧ s.target = none ∧ (∀ e, s.sock e = none) ∧
    ∀ e, s.copier e = .idle ∨ s.copier e = .returned
  /-- the attempts to connect are bounded -/
  attempts : (es.countP (·.call.isClient) : ℤ) ≤ max 1 record.maxConnectRetry
  /-- the threads do not wait for each other for good -/
  progress : ∀ a, (∀ t, tcpRelayTurn C I ops a s t = .error .waits) →
    s.Returned ∨ s.Connecting C I a ∨ ∃ source, s.Blocked ops source

theorem Sound.fault_iff (hs : s.Sound h) (hI : InetLaws I) (a : TcpRelayAnswers σ)
    (t : TcpRelayThread) : tcpRelayTurn C I ops a s t = .error .fault ↔ s.Faulty a t := by
  rcases t with _ | source
  · exact (hs.handler_error_iff hI).trans (by simp)
  · exact hs.holds.copier_error_iff.trans (by simp [Faulty])

/-- When the handler has returned, it holds nothing. -/
theorem Sound.done (hs : s.Sound h) (hreturned : s.Returned) : h.Done := by
  have hlawful := hs.lawful
  rw [hreturned] at hlawful
  exact hlawful

/-- A handler that waits is joining a thread, and that one is running. -/
theorem Sound.progress (hs : s.Sound h) (hI : InetLaws I) (a : TcpRelayAnswers σ)
    (hwaits : ∀ t, tcpRelayTurn C I ops a s t = .error .waits) :
    s.Returned ∨ s.Connecting C I a ∨ ∃ source, s.Blocked ops source := by
  obtain ⟨hstop, -⟩ | ⟨-, hreturned | hconnecting | ⟨source, stmts, hc, hcopier⟩⟩ :=
    (hs.handler_error_iff hI).1 (hwaits .handler)
  · exact absurd hstop (by simp)
  · exact .inl hreturned
  · exact .inr (.inl hconnecting)
  · have hlawful := hs.lawful
    rw [hc] at hlawful
    obtain ⟨hidle, -⟩ := hs.holds.running source hlawful.1
    obtain ⟨hstop, -⟩ | ⟨-, hc' | hc' | hblocked⟩ :=
      hs.holds.copier_error_iff.1 (hwaits (.copier source))
    · exact absurd hstop (by simp)
    · exact absurd hc' hidle
    · exact absurd hc' hcopier
    · exact .inr (.inr ⟨source, hblocked⟩)

theorem lifeCycle_of_run (hI : InetLaws I) {record : TcpRelayRecord} {client : σ}
    {es : List (TcpRelayJobEvent σ)}
    (hrun : Run (TcpRelayJobStep C I ops) (tcpRelayJobNew record client) es s) :
    s.LifeCycle C I ops record es := by
  obtain ⟨h, hs, hlives⟩ := lives_of_run hrun
  refine ⟨hs.fault_iff hI, ⟨_, hlives, fun hreturned ↦ ?_⟩, fun hreturned ↦ ?_,
    (attempts_of_run hrun).le, hs.progress hI⟩
  · have hdone := hs.done hreturned
    rw [lives_of_alone hdone.alone, lives_of_alone hdone.alone]
    exact ⟨hdone.inSock, hdone.outSock⟩
  · have hdone := hs.done hreturned
    refine ⟨?_, ?_, fun e ↦ ?_, fun e ↦ ?_⟩
    · simpa [hdone.record] using hs.holds.record
    · simpa [hdone.target] using hs.holds.target
    · have hsock := hs.holds.sock e
      rcases e with _ | _
      · simpa [hdone.inSock, SocketLife.there] using hsock
      · rcases hdone.outSock with hout | hout <;> simpa [hout, SocketLife.there] using hsock
    · rcases hv : h.thread e with _ | _ | _
      · exact .inl (hs.holds.unborn e hv)
      · exact absurd hv (hdone.alone e)
      · exact .inr (hs.holds.joined e hv)

end TcpRelayJob

/-- A job of the relay runs on its own, from where `tcp_relay` has made it. -/
theorem tcpRelayJob_run {ops : TcpBlockingOps σ} {record : TcpRelayRecord}
    {es : List (FamilyEvent ℕ (TcpRelayJob σ) (TcpRelayJobEvent σ))}
    {jobs : ℕ → Option (TcpRelayJob σ)}
    (hrun : Run (TcpRelayStep C I ops record) (fun _ ↦ none) es jobs) {i : ℕ}
    {s : TcpRelayJob σ} (hi : jobs i = some s) :
    ∃ client, es.filterMap (·.joins i) = [tcpRelayJobNew record client] ∧
      Run (TcpRelayJobStep C I ops) (tcpRelayJobNew record client)
        (es.filterMap (·.moves i)) s := by
  have hmember := (hrun.mono fun _ _ _ h ↦ h.1).member i
  rw [hi] at hmember
  obtain ⟨s₀, hjoins, hmoves⟩ := hmember.exists_run
  obtain ⟨_, _, -, hnew⟩ := hrun.exists_step_of_mem (FamilyEvent.mem_of_joins hjoins)
  obtain ⟨client, rfl⟩ := hnew i s₀ rfl
  exact ⟨client, hjoins, hmoves⟩

/-- **The threaded relay**: in every run, with any number of clients and in whatever order their
threads take their turns, every job lives as it should. -/
theorem tcpRelay_lifeCycle (C : Crypto) (hI : InetLaws I) (ops : TcpBlockingOps σ)
    (record : TcpRelayRecord)
    {es : List (FamilyEvent ℕ (TcpRelayJob σ) (TcpRelayJobEvent σ))}
    {jobs : ℕ → Option (TcpRelayJob σ)}
    (hrun : Run (TcpRelayStep C I ops record) (fun _ ↦ none) es jobs) {i : ℕ}
    {s : TcpRelayJob σ} (hi : jobs i = some s) :
    s.LifeCycle C I ops record (es.filterMap (·.moves i)) := by
  obtain ⟨client, -, hjob⟩ := tcpRelayJob_run hrun hi
  exact TcpRelayJob.lifeCycle_of_run hI hjob

/-! ### At a run -/

/-- The turns of some threads of a job, one after the other, with the same answers to all of them:
what has happened, and the job behind it. -/
def tcpRelayTurns (C : Crypto) (I : Inet) (ops : TcpBlockingOps σ) (a : TcpRelayAnswers σ)
    (s : TcpRelayJob σ) :
    List TcpRelayThread → TcpRelayResult (List (TcpRelayJobEvent σ) × TcpRelayJob σ)
  | [] => .ok ([], s)
  | t :: ts => do
    let (call, s) ← tcpRelayTurn C I ops a s t
    let (es, s) ← tcpRelayTurns C I ops a s ts
    .ok (⟨t, a, call⟩ :: es, s)

theorem run_of_tcpRelayTurns {ops : TcpBlockingOps σ} {a : TcpRelayAnswers σ}
    {ts : List TcpRelayThread} {s s' : TcpRelayJob σ} {es : List (TcpRelayJobEvent σ)}
    (h : tcpRelayTurns C I ops a s ts = .ok (es, s')) : Run (TcpRelayJobStep C I ops) s es s' := by
  induction ts generalizing s es with
  | nil =>
    obtain ⟨rfl, rfl⟩ := Prod.mk.inj (Except.ok.inj h)
    exact .nil
  | cons t ts ih =>
    rw [tcpRelayTurns] at h
    rcases hturn : tcpRelayTurn C I ops a s t with _ | ⟨call, s₁⟩ <;>
      simp only [hturn, bind, Except.bind] at h
    · exact absurd h (by simp)
    · rcases hturns : tcpRelayTurns C I ops a s₁ ts with _ | ⟨es', s₂⟩ <;> simp only [hturns] at h
      · exact absurd h (by simp)
      · obtain ⟨rfl, rfl⟩ := Prod.mk.inj (Except.ok.inj h)
        exact (ih hturns).cons hturn

theorem answers_of_tcpRelayTurns {ops : TcpBlockingOps σ} {a : TcpRelayAnswers σ}
    {ts : List TcpRelayThread} {s s' : TcpRelayJob σ} {es : List (TcpRelayJobEvent σ)}
    (h : tcpRelayTurns C I ops a s ts = .ok (es, s')) : ∀ e ∈ es, e.answers = a := by
  induction ts generalizing s es with
  | nil =>
    obtain ⟨rfl, rfl⟩ := Prod.mk.inj (Except.ok.inj h)
    exact List.forall_mem_nil _
  | cons t ts ih =>
    rw [tcpRelayTurns] at h
    rcases hturn : tcpRelayTurn C I ops a s t with _ | ⟨call, s₁⟩ <;>
      simp only [hturn, bind, Except.bind] at h
    · exact absurd h (by simp)
    · rcases hturns : tcpRelayTurns C I ops a s₁ ts with _ | ⟨es', s₂⟩ <;> simp only [hturns] at h
      · exact absurd h (by simp)
      · obtain ⟨rfl, rfl⟩ := Prod.mk.inj (Except.ok.inj h)
        exact List.forall_mem_cons.2 ⟨rfl, ih hturns⟩

/-- A run of the only job of a relay. -/
theorem tcpRelay_run_of_job {ops : TcpBlockingOps σ} {record : TcpRelayRecord} {client : σ}
    {es : List (TcpRelayJobEvent σ)} {s : TcpRelayJob σ}
    (h : Run (TcpRelayJobStep C I ops) (tcpRelayJobNew record client) es s) (i : ℕ) :
    Run (TcpRelayStep C I ops record) (fun _ ↦ none)
      (.join i (tcpRelayJobNew record client) :: es.map (.move i))
      (Function.update (fun _ ↦ none) i (some s)) := by
  induction h with
  | nil =>
    have hjoin : TcpRelayStep C I ops record (fun _ ↦ none)
        (.join i (tcpRelayJobNew record client))
        (Function.update (fun _ ↦ none) i (some (tcpRelayJobNew record client))) :=
      ⟨.join rfl, fun j s' heq ↦ ⟨client, (FamilyEvent.join.inj heq).2.symm⟩⟩
    exact Run.nil.snoc hjoin
  | @snoc es s₁ e s₂ _ hstep ih =>
    have hmove : FamilyStep (TcpRelayJobStep C I ops) (Function.update (fun _ ↦ none) i (some s₁))
        (.move i e) (Function.update (Function.update (fun _ ↦ none) i (some s₁)) i (some s₂)) :=
      .move (Function.update_self ..) hstep
    rw [Function.update_idem] at hmove
    have := ih.snoc ⟨hmove, fun j s' heq ↦ by cases heq⟩
    simpa using this

theorem filterMap_moves_of_job {i : ℕ} {s : TcpRelayJob σ} (es : List (TcpRelayJobEvent σ)) :
    (FamilyEvent.join i s :: es.map (.move i)).filterMap (·.moves i) = es := by
  have hself : (fun e : TcpRelayJobEvent σ ↦
      (FamilyEvent.move i e : FamilyEvent ℕ (TcpRelayJob σ) (TcpRelayJobEvent σ)).moves i) = some :=
    funext fun _ ↦ FamilyEvent.moves_move_self
  rw [List.filterMap_cons_none FamilyEvent.moves_join, List.filterMap_map]
  exact (congrArg (fun f ↦ es.filterMap f) hself).trans List.filterMap_some

theorem filterMap_joins_of_job {i : ℕ} {s : TcpRelayJob σ} (es : List (TcpRelayJobEvent σ)) :
    (FamilyEvent.join i s :: es.map (.move i)).filterMap (·.joins i) = [s] := by
  have hnone : (es.map (FamilyEvent.move i)).filterMap
      (fun e : FamilyEvent ℕ (TcpRelayJob σ) (TcpRelayJobEvent σ) ↦ e.joins i) = [] := by
    simp [List.filterMap_eq_nil_iff]
  rw [List.filterMap_cons_some FamilyEvent.joins_join_self, hnone]

/-- Every address is reached directly. -/
def sampleRecord : TcpRelayRecord := ⟨.native, trivial, tcpRelayDefaultMaxConnectRetry⟩

/-- The client gets connected to a peer that sends nothing. -/
def sampleJobAnswers : TcpRelayAnswers TcpSocket where
  handshake sock := (true, sock)
  target := some ⟨sampleProxy, trivial⟩
  calls := { sampleSocketCalls with getsockaddr _ _ := some (.sin .inet 3133 sampleProxyAddr) }
  answered := []
  client := .native ⟨[.eof], {}⟩

/-- The threads of a job to its end; those that copy take turns. -/
def sampleJobThreads : List TcpRelayThread :=
  [.handler, .handler, .handler, .handler, .handler, .copier inSock, .copier outSock,
    .copier inSock, .copier outSock, .copier inSock, .copier inSock, .handler, .handler, .handler,
    .handler, .handler, .handler]

/-- A client sends a byte; the job lives to its end. -/
theorem tcpRelay_lifeCycle_native :
    ∃ es jobs s, Run (TcpRelayStep openssl sampleInet (tcpBlockingOps openssl) sampleRecord)
        (fun _ ↦ none) es jobs ∧ jobs 0 = some s ∧ s.Returned ∧
      s.LifeCycle openssl sampleInet (tcpBlockingOps openssl) sampleRecord
        (es.filterMap (·.moves 0)) := by
  obtain ⟨es, s, hturns, hreturned⟩ : ∃ es s,
      tcpRelayTurns openssl sampleInet (tcpBlockingOps openssl) sampleJobAnswers
        (tcpRelayJobNew sampleRecord (.native ⟨[.data [7], .eof], {}⟩))
        sampleJobThreads = .ok (es, s) ∧ s.Returned := ⟨_, _, rfl, rfl⟩
  have hrun := tcpRelay_run_of_job (run_of_tcpRelayTurns hturns) 0
  exact ⟨_, _, s, hrun, Function.update_self .., hreturned,
    tcpRelay_lifeCycle openssl inetLaws_sampleInet _ _ hrun (Function.update_self ..)⟩

end Vmecs
