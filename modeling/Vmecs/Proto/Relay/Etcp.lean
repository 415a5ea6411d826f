import Mathlib.Logic.Function.Basic
import Vmecs.Lib.Run
import Vmecs.Proto.Tcp

/-!
# The epoll relay (`proto/relay/etcp.c`)

A relayed pair is two sockets and two records, one for each direction: what is read from the inbound
socket of a record is written to its outbound socket, and the inbound socket of the one record is
the outbound socket of the other. The worker waits for an event and handles the record that comes
with it, so a run of a pair is the sequence of the records handled, with what each handling has
ended in.

`etcpHandle` is the handling of an event of a record that has an outbound socket; its loop
(`etcpPump`) goes on as long as there is something to read, for a number of turns that the
environment decides.
-/

namespace Vmecs

/-- `DEFAULT_BUFFER` of the relay. -/
def etcpDefaultBuffer : ℕ := 8 * 1024

/-- The records of a pair: `conn1` reads from `new_in`, `conn2` from `new_out`. -/
inductive EtcpRelayConn where
  | conn1
  | conn2
  deriving DecidableEq

/-- The field `pair` of a record. -/
def EtcpRelayConn.pair : EtcpRelayConn → EtcpRelayConn
  | conn1 => conn2
  | conn2 => conn1

/-- A relayed pair: the inbound socket of each record, its field `nclosed`, and whether the pair has
been removed. -/
structure EtcpPair (σ : Type) where
  inSock : EtcpRelayConn → σ
  nclosed : EtcpRelayConn → ℕ
  removed : Bool

variable {σ : Type}

/-- `etcp_relay_conn_new` for both records, and `etcp_relay_conn_link`. -/
def etcpPairNew (newIn newOut : σ) : EtcpPair σ where
  inSock
    | .conn1 => newIn
    | .conn2 => newOut
  nclosed _ := 0
  removed := false

namespace EtcpPair

/-- The field `out_sock` of a record: the socket the other one reads from. -/
def outSock (p : EtcpPair σ) (conn : EtcpRelayConn) : σ := p.inSock conn.pair

/-- The pair after the sockets of a record have been used. -/
def setSocks (p : EtcpPair σ) (conn : EtcpRelayConn) (inSock outSock : σ) : EtcpPair σ :=
  { p with inSock := Function.update (Function.update p.inSock conn inSock) conn.pair outSock }

/-- `tcp_socket_close` on the inbound socket of a record. -/
def closeIn (ops : TcpSocketOps σ) (p : EtcpPair σ) (conn : EtcpRelayConn) : EtcpPair σ :=
  { p with inSock := Function.update p.inSock conn (ops.close (p.inSock conn)) }

/-- `conn->nclosed++` and `conn->pair->nclosed++`. -/
def countClosed (p : EtcpPair σ) : EtcpPair σ := { p with nclosed := fun conn ↦ p.nclosed conn + 1 }

end EtcpPair

/-- `etcp_remove_conn`; it also frees the sockets and the records. -/
def etcpRemoveConn (ops : TcpSocketOps σ) (p : EtcpPair σ) (conn : EtcpRelayConn) : EtcpPair σ :=
  if p.nclosed conn = 0 then
    { (p.closeIn ops conn).closeIn ops conn.pair with removed := true }
  else { p with removed := true }

theorem pair_ne (conn : EtcpRelayConn) : conn ≠ conn.pair := by
  cases conn <;> simp [EtcpRelayConn.pair]

@[simp] theorem EtcpRelayConn.pair_pair (conn : EtcpRelayConn) : conn.pair.pair = conn := by
  cases conn <;> rfl

/-- The records of a pair are a record and the one it is paired with. -/
theorem EtcpRelayConn.forall_of_pair {P : EtcpRelayConn → Prop} (conn : EtcpRelayConn)
    (h : P conn) (hpair : P conn.pair) : ∀ c, P c := by
  rcases conn with _ | _ <;> rintro (_ | _) <;> assumption

namespace EtcpPair

@[simp] theorem inSock_setSocks (p : EtcpPair σ) (conn : EtcpRelayConn) (inSock outSock : σ) :
    (p.setSocks conn inSock outSock).inSock conn = inSock := by
  simp [setSocks, pair_ne]

@[simp] theorem inSock_setSocks_pair (p : EtcpPair σ) (conn : EtcpRelayConn) (inSock outSock : σ) :
    (p.setSocks conn inSock outSock).inSock conn.pair = outSock := by
  simp [setSocks]

@[simp] theorem inSock_closeIn (ops : TcpSocketOps σ) (p : EtcpPair σ) (conn : EtcpRelayConn) :
    (p.closeIn ops conn).inSock conn = ops.close (p.inSock conn) := by
  simp [closeIn]

@[simp] theorem inSock_closeIn_pair (ops : TcpSocketOps σ) (p : EtcpPair σ)
    (conn : EtcpRelayConn) : (p.closeIn ops conn.pair).inSock conn = p.inSock conn := by
  simp [closeIn, pair_ne]

end EtcpPair

@[simp] theorem nclosed_etcpRemoveConn (ops : TcpSocketOps σ) (p : EtcpPair σ)
    (conn : EtcpRelayConn) : (etcpRemoveConn ops p conn).nclosed = p.nclosed := by
  rw [etcpRemoveConn]
  split <;> rfl

@[simp] theorem removed_etcpRemoveConn (ops : TcpSocketOps σ) (p : EtcpPair σ)
    (conn : EtcpRelayConn) : (etcpRemoveConn ops p conn).removed = true := by
  rw [etcpRemoveConn]
  split <;> rfl

/-- The loop of `etcp_handle`: the result it ends with, and the sockets. A positive result is that
of a read whose bytes could not be written. -/
def etcpPump (ops : TcpSocketOps σ) : ℕ → σ → σ → Option (ℤ × σ × σ)
  | 0, _, _ => none
  | fuel + 1, inSock, outSock => do
    let (res, buf, inSock) ← ops.tryRead etcpDefaultBuffer inSock
    if res > 0 then
      let (n, outSock) ← ops.write buf outSock
      if n > 0 then etcpPump ops fuel inSock outSock else some (res, inSock, outSock)
    else some (res, inSock, outSock)

/-- **A turn of the loop**: a read, and a write if there was something to read. -/
theorem etcpPump_succ_cases {ops : TcpSocketOps σ} {fuel : ℕ} {inSock outSock : σ} {res : ℤ}
    {inSock' outSock' : σ}
    (h : etcpPump ops (fuel + 1) inSock outSock = some (res, inSock', outSock')) :
    ∃ res₁ buf inSock₁, ops.tryRead etcpDefaultBuffer inSock = some (res₁, buf, inSock₁) ∧
      ((res₁ ≤ 0 ∧ res = res₁ ∧ inSock' = inSock₁ ∧ outSock' = outSock) ∨
        (0 < res₁ ∧ ∃ n outSock₁, ops.write buf outSock = some (n, outSock₁) ∧
          ((res = res₁ ∧ inSock' = inSock₁ ∧ outSock' = outSock₁) ∨
            0 < n ∧ etcpPump ops fuel inSock₁ outSock₁ = some (res, inSock', outSock')))) := by
  rw [etcpPump, Option.bind_eq_bind, Option.bind_eq_some_iff] at h
  obtain ⟨⟨res₁, buf, inSock₁⟩, hread, h⟩ := h
  refine ⟨res₁, buf, inSock₁, hread, ?_⟩
  dsimp only at h
  split at h
  case isTrue hpos =>
    rw [Option.bind_eq_bind, Option.bind_eq_some_iff] at h
    obtain ⟨⟨n, outSock₁⟩, hwrite, h⟩ := h
    refine .inr ⟨hpos, n, outSock₁, hwrite, ?_⟩
    dsimp only at h
    split at h
    case isTrue hn => exact .inr ⟨hn, h⟩
    case isFalse =>
      obtain ⟨rfl, hsocks⟩ := Prod.mk.inj (Option.some.inj h)
      obtain ⟨rfl, rfl⟩ := Prod.mk.inj hsocks
      exact .inl ⟨rfl, rfl, rfl⟩
  case isFalse hpos =>
    obtain ⟨rfl, hsocks⟩ := Prod.mk.inj (Option.some.inj h)
    obtain ⟨rfl, rfl⟩ := Prod.mk.inj hsocks
    exact .inl ⟨Int.not_lt.1 hpos, rfl, rfl, rfl⟩

/-- The turns of a loop that returns: it reads something and writes it, up to a last turn. -/
inductive EtcpPumps (ops : TcpSocketOps σ) : σ → σ → ℤ → σ → σ → Prop where
  /-- there is nothing to read -/
  | nothing {inSock outSock inSock' : σ} {res : ℤ} {buf : Bytes}
    (hread : ops.tryRead etcpDefaultBuffer inSock = some (res, buf, inSock')) (hres : res ≤ 0) :
    EtcpPumps ops inSock outSock res inSock' outSock
  /-- what has been read is not written -/
  | stuck {inSock outSock inSock' outSock' : σ} {res n : ℤ} {buf : Bytes}
    (hread : ops.tryRead etcpDefaultBuffer inSock = some (res, buf, inSock')) (hres : 0 < res)
    (hwrite : ops.write buf outSock = some (n, outSock')) :
    EtcpPumps ops inSock outSock res inSock' outSock'
  /-- it is, and the loop goes on -/
  | turn {inSock outSock inSock₁ outSock₁ inSock' outSock' : σ} {res res₁ n : ℤ} {buf : Bytes}
    (hread : ops.tryRead etcpDefaultBuffer inSock = some (res₁, buf, inSock₁)) (hres : 0 < res₁)
    (hwrite : ops.write buf outSock = some (n, outSock₁)) (hn : 0 < n)
    (h : EtcpPumps ops inSock₁ outSock₁ res inSock' outSock') :
    EtcpPumps ops inSock outSock res inSock' outSock'

/-- **The loop, turn by turn.** What its turns keep, it keeps, by induction on them. -/
theorem etcpPumps_of_eq_some {ops : TcpSocketOps σ} {fuel : ℕ} {inSock outSock : σ} {res : ℤ}
    {inSock' outSock' : σ} (h : etcpPump ops fuel inSock outSock = some (res, inSock', outSock')) :
    EtcpPumps ops inSock outSock res inSock' outSock' := by
  induction fuel generalizing inSock outSock with
  | zero => exact absurd h (by simp [etcpPump])
  | succ fuel ih =>
    obtain ⟨res₁, buf, inSock₁, hread, hturn⟩ := etcpPump_succ_cases h
    obtain ⟨hres, rfl, rfl, rfl⟩ | ⟨hres, n, outSock₁, hwrite, ⟨rfl, rfl, rfl⟩ | ⟨hn, hgo⟩⟩ := hturn
    · exact .nothing hread hres
    · exact .stuck hread hres hwrite
    · exact .turn hread hres hwrite hn (ih hgo)

/-- Successive reads of a socket by the loop: pieces of data, and last a read that gives none. -/
inductive Drains (ops : TcpSocketOps σ) : σ → List Bytes → ℤ → σ → Prop where
  | last {sock sock' : σ} {res : ℤ} {buf : Bytes}
    (hread : ops.tryRead etcpDefaultBuffer sock = some (res, buf, sock')) (hres : res ≤ 0) :
    Drains ops sock [] res sock'
  | piece {sock sock₁ sock' : σ} {res₁ res : ℤ} {buf : Bytes} {bufs : List Bytes}
    (hread : ops.tryRead etcpDefaultBuffer sock = some (res₁, buf, sock₁)) (hres : 0 < res₁)
    (h : Drains ops sock₁ bufs res sock') : Drains ops sock (buf :: bufs) res sock'

/-- Successive writes to a socket, none of which fails. -/
inductive WritesAll (ops : TcpSocketOps σ) : σ → List Bytes → σ → Prop where
  | nil {sock : σ} : WritesAll ops sock [] sock
  | cons {sock sock₁ sock' : σ} {n : ℤ} {buf : Bytes} {bufs : List Bytes}
    (hwrite : ops.write buf sock = some (n, sock₁)) (hn : 0 < n)
    (h : WritesAll ops sock₁ bufs sock') : WritesAll ops sock (buf :: bufs) sock'

/-- **What a loop that ends with nothing to read has done**: it has written every piece it has
read, in order. -/
theorem EtcpPumps.drains {ops : TcpSocketOps σ} {inSock outSock inSock' outSock' : σ} {res : ℤ}
    (h : EtcpPumps ops inSock outSock res inSock' outSock') (hres : res ≤ 0) :
    ∃ bufs, Drains ops inSock bufs res inSock' ∧ WritesAll ops outSock bufs outSock' := by
  induction h with
  | nothing hread hle => exact ⟨[], .last hread hle, .nil⟩
  | stuck _ hpos => exact absurd hres (Int.not_le.2 hpos)
  | @turn _ _ _ _ _ _ _ _ _ buf hread hpos hwrite hn _ ih =>
    obtain ⟨bufs, hdrains, hwrites⟩ := ih hres
    exact ⟨buf :: bufs, .piece hread hpos hdrains, .cons hwrite hn hwrites⟩

/-- And the other way: with a turn for each piece and a last one, the loop does just that. -/
theorem etcpPump_of_drains {ops : TcpSocketOps σ} {inSock outSock inSock' outSock' : σ} {res : ℤ}
    {bufs : List Bytes} (hdrains : Drains ops inSock bufs res inSock')
    (hwrites : WritesAll ops outSock bufs outSock') :
    etcpPump ops (bufs.length + 1) inSock outSock = some (res, inSock', outSock') := by
  induction hdrains generalizing outSock with
  | last hread hle =>
    cases hwrites with
    | nil => simp [etcpPump, hread, Int.not_lt.2 hle]
  | piece hread hpos _ ih =>
    cases hwrites with
    | cons hwrite hn hrest => simpa [etcpPump, hread, hpos, hwrite, hn] using ih hrest

/-- `etcp_handle` for a record of a pair: the result of its loop, and the pair. -/
def etcpHandle (ops : TcpSocketOps σ) (fuel : ℕ) (conn : EtcpRelayConn) (p : EtcpPair σ) :
    Option (ℤ × EtcpPair σ) := do
  let (res, inSock, outSock) ← etcpPump ops fuel (p.inSock conn) (p.outSock conn)
  let p := p.setSocks conn inSock outSock
  if res = 0 then
    let p := (p.closeIn ops conn.pair).countClosed
    some (res, if p.nclosed conn = 2 then etcpRemoveConn ops p conn else p)
  else if res = -2 then some (res, p)
  else some (res, etcpRemoveConn ops p conn)

/-- The number of turns given to the loop does not matter, as long as they are enough. -/
theorem etcpPump_succ {ops : TcpSocketOps σ} {fuel : ℕ} {inSock outSock : σ} {r : ℤ × σ × σ}
    (h : etcpPump ops fuel inSock outSock = some r) :
    etcpPump ops (fuel + 1) inSock outSock = some r := by
  induction fuel generalizing inSock outSock with
  | zero => exact absurd h (by simp [etcpPump])
  | succ fuel ih =>
    rw [etcpPump] at h ⊢
    cases hr : ops.tryRead etcpDefaultBuffer inSock with
    | none => simp [hr] at h
    | some a =>
      obtain ⟨res, buf, inSock'⟩ := a
      simp only [hr, Option.bind_eq_bind, Option.bind_some] at h ⊢
      split at h
      · rw [if_pos ‹_›]
        cases hw : ops.write buf outSock with
        | none => simp [hw] at h
        | some b =>
          simp only [hw, Option.bind_some] at h ⊢
          split at h
          · rw [if_pos ‹_›]
            exact ih h
          · rw [if_neg ‹_›]
            exact h
      · rw [if_neg ‹_›]
        exact h

/-- **What the handling of an event does.** The loop uses the two sockets; at the end of the stream
that is passed on and counted, and the pair removed at the second time; for lack of data nothing
more is done; otherwise the pair is removed. -/
theorem etcpHandle_cases {ops : TcpSocketOps σ} {fuel : ℕ} {conn : EtcpRelayConn}
    {p p' : EtcpPair σ} {res : ℤ} (h : etcpHandle ops fuel conn p = some (res, p')) :
    ∃ inSock outSock,
      etcpPump ops fuel (p.inSock conn) (p.outSock conn) = some (res, inSock, outSock) ∧
      ((res = 0 ∧ ((p.nclosed conn + 1 = 2 ∧ p' = etcpRemoveConn ops
            ((p.setSocks conn inSock outSock).closeIn ops conn.pair).countClosed conn) ∨
          (p.nclosed conn + 1 ≠ 2 ∧
            p' = ((p.setSocks conn inSock outSock).closeIn ops conn.pair).countClosed))) ∨
        (res = -2 ∧ p' = p.setSocks conn inSock outSock) ∨
        (res ≠ 0 ∧ res ≠ -2 ∧ p' = etcpRemoveConn ops (p.setSocks conn inSock outSock) conn)) := by
  rw [etcpHandle, Option.bind_eq_bind, Option.bind_eq_some_iff] at h
  obtain ⟨⟨res', inSock, outSock⟩, hpump, h⟩ := h
  dsimp only at h
  split at h
  case isTrue hres =>
    obtain ⟨rfl, rfl⟩ := Prod.mk.inj (Option.some.inj h)
    refine ⟨inSock, outSock, hpump, .inl ⟨hres, ?_⟩⟩
    split
    case isTrue hn => exact .inl ⟨hn, rfl⟩
    case isFalse hn => exact .inr ⟨hn, rfl⟩
  case isFalse hres =>
    split at h
    case isTrue hres' =>
      obtain ⟨rfl, rfl⟩ := Prod.mk.inj (Option.some.inj h)
      exact ⟨inSock, outSock, hpump, .inr (.inl ⟨hres', rfl⟩)⟩
    case isFalse hres' =>
      obtain ⟨rfl, rfl⟩ := Prod.mk.inj (Option.some.inj h)
      exact ⟨inSock, outSock, hpump, .inr (.inr ⟨hres, hres', rfl⟩)⟩

/-- When the loop has ended for lack of data, or at the end of the stream, the two sockets are as it
has left them, but for the end of the stream. -/
theorem etcpHandle_socks {ops : TcpSocketOps σ} {fuel : ℕ} {conn : EtcpRelayConn}
    {p p' : EtcpPair σ} {res : ℤ} (h : etcpHandle ops fuel conn p = some (res, p'))
    (hres : res = 0 ∨ res = -2) :
    ∃ inSock outSock,
      etcpPump ops fuel (p.inSock conn) (p.outSock conn) = some (res, inSock, outSock) ∧
      p'.inSock conn = inSock ∧
      p'.inSock conn.pair = if res = 0 then ops.close outSock else outSock := by
  obtain ⟨inSock, outSock, hpump, ⟨rfl, ⟨-, rfl⟩ | ⟨-, rfl⟩⟩ | ⟨rfl, rfl⟩ | ⟨h0, h2, -⟩⟩ :=
    etcpHandle_cases h
  · -- the counters are not zero any more, so nothing is closed a second time
    refine ⟨inSock, outSock, hpump, ?_, ?_⟩
    · simp [etcpRemoveConn, EtcpPair.countClosed]
    · simp [etcpRemoveConn, EtcpPair.countClosed]
  · refine ⟨inSock, outSock, hpump, ?_, ?_⟩
    · simp [EtcpPair.countClosed]
    · simp [EtcpPair.countClosed]
  · exact ⟨inSock, outSock, hpump, by simp, by simp⟩
  · exact absurd hres (by simp [h0, h2])

/-- A pair is removed after any other result. -/
theorem res_of_not_removed {ops : TcpSocketOps σ} {fuel : ℕ} {conn : EtcpRelayConn}
    {p p' : EtcpPair σ} {res : ℤ} (h : etcpHandle ops fuel conn p = some (res, p'))
    (hremoved : p'.removed = false) : res = 0 ∨ res = -2 := by
  obtain ⟨inSock, outSock, -, ⟨hres, -⟩ | ⟨hres, -⟩ | ⟨-, -, rfl⟩⟩ := etcpHandle_cases h
  · exact .inl hres
  · exact .inr hres
  · exact absurd hremoved (by simp)

/-! ### Runs of a pair -/

/-- A record was handled, and its loop ended with this result. -/
structure EtcpEvent where
  conn : EtcpRelayConn
  res : ℤ
  deriving DecidableEq

/-- One turn of `etcp_worker` that concerns the pair. A removed pair is freed, and no longer known
to the epoll instance. -/
def EtcpStep (ops : TcpSocketOps σ) (p : EtcpPair σ) (e : EtcpEvent) (p' : EtcpPair σ) : Prop :=
  p.removed = false ∧ ∃ fuel, etcpHandle ops fuel e.conn p = some (e.res, p')

/-- The loop has ended at the end of the stream of the record's inbound socket. -/
def EtcpEvent.IsEnd (e : EtcpEvent) : Prop := e.res = 0

/-- The loop has ended with a failed read, or a failed write. -/
def EtcpEvent.IsFailure (e : EtcpEvent) : Prop := e.res ≠ 0 ∧ e.res ≠ -2

instance (e : EtcpEvent) : Decidable e.IsEnd := inferInstanceAs (Decidable (_ = _))

instance (e : EtcpEvent) : Decidable e.IsFailure := inferInstanceAs (Decidable (_ ∧ _))

/-- **What a step can do** to the counters and to the removal of a pair. -/
theorem etcpStep_cases {ops : TcpSocketOps σ} {p p' : EtcpPair σ} {e : EtcpEvent}
    (h : EtcpStep ops p e p') :
    (e.IsEnd ∧ p'.nclosed = (fun conn ↦ p.nclosed conn + 1) ∧
      (p'.removed = true ↔ p.nclosed e.conn + 1 = 2)) ∨
    (e.res = -2 ∧ p'.nclosed = p.nclosed ∧ p'.removed = false) ∨
    (e.IsFailure ∧ p'.nclosed = p.nclosed ∧ p'.removed = true) := by
  obtain ⟨hremoved, fuel, h⟩ := h
  obtain ⟨inSock, outSock, -, ⟨hres, ⟨hn, rfl⟩ | ⟨hn, rfl⟩⟩ | ⟨hres, rfl⟩ | ⟨hres, hres', rfl⟩⟩ :=
    etcpHandle_cases h
  · exact .inl ⟨hres, nclosed_etcpRemoveConn .., iff_of_true (removed_etcpRemoveConn ..) hn⟩
  · refine .inl ⟨hres, rfl, iff_of_false ?_ hn⟩
    show ¬p.removed = true
    simp [hremoved]
  · exact .inr (.inl ⟨hres, rfl, hremoved⟩)
  · exact .inr (.inr ⟨⟨hres, hres'⟩, nclosed_etcpRemoveConn .., removed_etcpRemoveConn ..⟩)

/-- A step that leaves the pair in place. -/
theorem etcpStep_of_not_removed {ops : TcpSocketOps σ} {p p' : EtcpPair σ} {e : EtcpEvent}
    (h : EtcpStep ops p e p') (hkept : p'.removed = false) :
    (e.res = 0 ∨ e.res = -2) ∧
      p'.nclosed = (fun conn ↦ p.nclosed conn + if e.res = 0 then 1 else 0) ∧
      (e.res = 0 → p.nclosed e.conn + 1 ≠ 2) := by
  obtain ⟨hzero, hn, hr⟩ | ⟨htwo, hn, -⟩ | ⟨-, -, hr⟩ := etcpStep_cases h
  · refine ⟨.inl hzero, by simpa [show e.res = 0 from hzero] using hn, fun _ h2 ↦ ?_⟩
    exact absurd (hkept.symm.trans (hr.2 h2)) (by simp)
  · exact ⟨.inr htwo, by simp [hn, htwo], fun h0 ↦ by omega⟩
  · exact absurd (hkept.symm.trans hr) (by simp)

/-- While a pair is there, an event of one of its records is handled: whatever the loop of the
record does is a step. -/
theorem exists_etcpStep {ops : TcpSocketOps σ} {p : EtcpPair σ} {conn : EtcpRelayConn} {fuel : ℕ}
    {res : ℤ} {inSock outSock : σ} (hremoved : p.removed = false)
    (h : etcpPump ops fuel (p.inSock conn) (p.outSock conn) = some (res, inSock, outSock)) :
    ∃ p', EtcpStep ops p ⟨conn, res⟩ p' ∧ etcpHandle ops fuel conn p = some (res, p') := by
  have hhandle : ∃ p', etcpHandle ops fuel conn p = some (res, p') := by
    rw [etcpHandle, h, Option.bind_eq_bind, Option.bind_some]
    dsimp only
    split
    · exact ⟨_, rfl⟩
    · split <;> exact ⟨_, rfl⟩
  obtain ⟨p', hp'⟩ := hhandle
  exact ⟨p', ⟨hremoved, fuel, hp'⟩, hp'⟩

end Vmecs
