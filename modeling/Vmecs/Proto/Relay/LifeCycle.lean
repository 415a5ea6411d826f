import Vmecs.Proto.Native.Tcp
import Vmecs.Proto.Relay.Worker

/-!
# The life cycle of records and sockets

Two records of the worker's heap hold a relayed pair if they are each other's pair, with the sockets
swapped, and are registered for the descriptors of their inbound sockets (`EtcpHeap.Holds`). The
handling of an event of one of them is the handling of the pair, and leaves everything else as it
was (`etcpHandlePipe_refines`).

In every state that a worker reaches (`EtcpHeap.Sound`), its records are that of the listening
socket and those of such pairs, each registered and no others; and no handling of a registered
record uses or frees a block that is not there (`etcpWorker_soundLifeCycle`).
-/

namespace Vmecs

variable {σ : Type} {α β : Type}

/-! ### Steps of a function -/

namespace EtcpM

variable {x : EtcpM σ α} {w w' : EtcpHeap σ} {a : α}

theorem bind_of_ok (h : x w = .ok (a, w')) (f : α → EtcpM σ β) : (x >>= f) w = f a w' := by
  change (x w >>= fun r ↦ f r.1 r.2) = _
  rw [h]
  rfl

theorem bind_of_error {stop : EtcpStop} (h : x w = .error stop) (f : α → EtcpM σ β) :
    (x >>= f) w = .error stop := by
  change (x w >>= fun r ↦ f r.1 r.2) = _
  rw [h]
  rfl

end EtcpM

open EtcpM

section Steps

variable {w : EtcpHeap σ} {p : ℕ} {c : EtcpConnBlock} {s : TcpEndpoint σ}

theorem etcpLoadConn_of_get (h : w.conns.get p = some c) : etcpLoadConn p w = .ok (c, w) := by
  rw [etcpLoadConn, h]

theorem etcpModifyConn_of_get (h : w.conns.get p = some c) (f : EtcpConnBlock → EtcpConnBlock) :
    etcpModifyConn p f w = .ok ((), { w with conns := w.conns.modify p f }) := by
  rw [etcpModifyConn, h]

theorem tcpLoadSocket_of_get (h : w.socks.get p = some s) : tcpLoadSocket p w = .ok (s, w) := by
  rw [tcpLoadSocket, h]

theorem tcpModifySocket_of_get (h : w.socks.get p = some s) (f : σ → σ) :
    tcpModifySocket p f w = .ok ((), { w with
      socks := w.socks.modify p fun s ↦ { s with sock := f s.sock } }) := by
  rw [tcpModifySocket, h]

theorem tcpSocketFree_of_get (h : w.socks.get p = some s) :
    tcpSocketFree p w = .ok ((), { w with socks := w.socks.free p }) := by
  rw [tcpSocketFree, h]

theorem tcpSocketRevent_of_get (h : w.socks.get p = some s) :
    tcpSocketRevent p w = .ok (s.fd, w) := by
  rw [tcpSocketRevent, bind_of_ok (tcpLoadSocket_of_get h)]
  rfl

theorem etcpRelayConnFree_of_get (h : w.conns.get p = some c) :
    EtcpHeap.etcpRelayConnFree p w = .ok ((), { w with conns := w.conns.free p }) := by
  rw [EtcpHeap.etcpRelayConnFree, h]

end Steps

/-! ### Pairs on the heap -/

/-- Where a pair is: the records, their inbound sockets and the descriptors of these. -/
structure EtcpPairBlocks where
  conn : EtcpRelayConn → ℕ
  sock : EtcpRelayConn → ℕ
  fd : EtcpRelayConn → ℤ

/-- What differs for the two records tells them apart. -/
theorem EtcpRelayConn.injective_of_ne {f : EtcpRelayConn → α} (h : f .conn1 ≠ f .conn2) :
    Function.Injective f := by
  rintro (_ | _) (_ | _) heq
  · rfl
  · exact absurd heq h
  · exact absurd heq.symm h
  · rfl

/-- The two sockets that the calls of a handling connect, if they all succeed: the accepted one as
its handshake leaves it, and the one made by the outbound. -/
def EtcpAnswers.opened (a : EtcpAnswers σ) : Option (TcpEndpoint σ × TcpEndpoint σ) :=
  match a.accept with
  | none => none
  | some newIn =>
    if (a.handshake newIn.sock).1 && a.client.2 then
      some (⟨newIn.fd, (a.handshake newIn.sock).2⟩, a.client.1)
    else none

namespace EtcpHeap

variable {ops : TcpSocketOps σ} {w w' w₁ w₂ w₃ : EtcpHeap σ} {B B' : EtcpPairBlocks}
  {P P' : EtcpPair σ} {k : EtcpRelayConn}

/-- A record of a pair. -/
def block (B : EtcpPairBlocks) (P : EtcpPair σ) (k : EtcpRelayConn) : EtcpConnBlock where
  inFd := B.fd k
  outFd := B.fd k.pair
  inSock := B.sock k
  outSock := some (B.sock k.pair)
  pair := some (B.conn k.pair)
  nclosed := P.nclosed k

/-- The blocks of a pair are there: its two records are each other's pair, and their sockets are
swapped. -/
structure Stored (w : EtcpHeap σ) (B : EtcpPairBlocks) (P : EtcpPair σ) : Prop where
  kept : P.removed = false
  conn_ne : B.conn .conn1 ≠ B.conn .conn2
  sock_ne : B.sock .conn1 ≠ B.sock .conn2
  conns : ∀ k, w.conns.get (B.conn k) = some (block B P k)
  socks : ∀ k, w.socks.get (B.sock k) = some ⟨B.fd k, P.inSock k⟩

/-- **The heap holds a pair**: its blocks are there, and each of its records is registered for the
descriptor of its inbound socket. -/
structure Holds (w : EtcpHeap σ) (B : EtcpPairBlocks) (P : EtcpPair σ) : Prop
    extends Stored w B P where
  epoll : ∀ k, w.epoll (B.fd k) = some (B.conn k)

/-- Nothing of the pair is there any more. -/
structure Dropped (w : EtcpHeap σ) (B : EtcpPairBlocks) : Prop where
  conns : ∀ k, w.conns.get (B.conn k) = none
  socks : ∀ k, w.socks.get (B.sock k) = none
  epoll : ∀ k, w.epoll (B.fd k) = none

/-- All but the pair is as it was. -/
structure Frame (B : EtcpPairBlocks) (w w' : EtcpHeap σ) : Prop where
  conns : ∀ p, (∀ k, p ≠ B.conn k) → w'.conns.get p = w.conns.get p
  socks : ∀ p, (∀ k, p ≠ B.sock k) → w'.socks.get p = w.socks.get p
  epoll : ∀ fd, (∀ k, fd ≠ B.fd k) → w'.epoll fd = w.epoll fd

theorem Frame.trans (h : Frame B w₁ w₂) (h' : Frame B w₂ w₃) : Frame B w₁ w₃ where
  conns p hp := (h'.conns p hp).trans (h.conns p hp)
  socks p hp := (h'.socks p hp).trans (h.socks p hp)
  epoll fd hfd := (h'.epoll fd hfd).trans (h.epoll fd hfd)

/-- The pair has become `P'` where it is, and all else, with what is registered, is as it was. -/
structure Becomes (B : EtcpPairBlocks) (w w' : EtcpHeap σ) (P' : EtcpPair σ) : Prop where
  frame : Frame B w w'
  epoll : w'.epoll = w.epoll
  stored : w'.Stored B P'

theorem Becomes.trans (h : Becomes B w₁ w₂ P) (h' : Becomes B w₂ w₃ P') : Becomes B w₁ w₃ P' where
  frame := h.frame.trans h'.frame
  epoll := h'.epoll.trans h.epoll
  stored := h'.stored

namespace Stored

theorem conn_pair_ne (h : w.Stored B P) (k : EtcpRelayConn) : B.conn k.pair ≠ B.conn k :=
  fun heq ↦ pair_ne k (EtcpRelayConn.injective_of_ne h.conn_ne heq.symm)

theorem sock_pair_ne (h : w.Stored B P) (k : EtcpRelayConn) : B.sock k.pair ≠ B.sock k :=
  fun heq ↦ pair_ne k (EtcpRelayConn.injective_of_ne h.sock_ne heq.symm)

/-- A socket of the pair is used. -/
theorem modifySocket (h : w.Stored B P) (k : EtcpRelayConn) (f : σ → σ) :
    ∃ w', tcpModifySocket (B.sock k) f w = .ok ((), w') ∧
      Becomes B w w' { P with inSock := Function.update P.inSock k (f (P.inSock k)) } := by
  refine ⟨_, tcpModifySocket_of_get (h.socks k) f,
    ⟨fun _ _ ↦ rfl, fun p hp ↦ BlockHeap.get_modify_of_ne (hp k), fun _ _ ↦ rfl⟩, rfl,
    h.kept, h.conn_ne, h.sock_ne, h.conns, ?_⟩
  refine EtcpRelayConn.forall_of_pair k ?_ ?_
  · simp [h.socks k]
  · dsimp only
    rw [BlockHeap.get_modify_of_ne (h.sock_pair_ne k), h.socks k.pair,
      Function.update_of_ne (pair_ne k).symm]

variable (ops) in
theorem close (h : w.Stored B P) (k : EtcpRelayConn) :
    ∃ w', tcpSocketClose ops (B.sock k) w = .ok ((), w') ∧ Becomes B w w' (P.closeIn ops k) :=
  h.modifySocket k ops.close

variable (ops) in
/-- The sockets are read from and written to. -/
theorem pump (h : w.Stored B P) (k : EtcpRelayConn) (fuel : ℕ) :
    match etcpPump ops fuel (P.inSock k) (P.outSock k) with
    | none => etcpPumpSockets ops fuel (B.sock k) (B.sock k.pair) w = .error .waits
    | some (res, i, o) =>
      ∃ w', etcpPumpSockets ops fuel (B.sock k) (B.sock k.pair) w = .ok (res, w') ∧
        Becomes B w w' (P.setSocks k i o) := by
  have hrun : etcpPumpSockets ops fuel (B.sock k) (B.sock k.pair) w =
      (match etcpPump ops fuel (P.inSock k) (P.outSock k) with
        | none => throw .waits
        | some (res, i', o') => do
          tcpModifySocket (B.sock k) fun _ ↦ i'
          tcpModifySocket (B.sock k.pair) fun _ ↦ o'
          return res : EtcpM σ ℤ) w := by
    rw [etcpPumpSockets, bind_of_ok (tcpLoadSocket_of_get (h.socks k)),
      bind_of_ok (tcpLoadSocket_of_get (h.socks k.pair))]
    rfl
  rw [hrun]
  rcases etcpPump ops fuel (P.inSock k) (P.outSock k) with _ | ⟨res, i, o⟩
  · rfl
  obtain ⟨w₁, hi, h₁⟩ := h.modifySocket k fun _ ↦ i
  obtain ⟨w₂, ho, h₂⟩ := h₁.stored.modifySocket k.pair fun _ ↦ o
  refine ⟨w₂, ?_, h₁.trans h₂⟩
  dsimp only
  rw [bind_of_ok hi, bind_of_ok ho]
  rfl

/-- The end of a stream is counted. -/
theorem count (h : w.Stored B P) (k : EtcpRelayConn) (f : EtcpM σ Unit) :
    ∃ w', (do
        etcpModifyConn (B.conn k) fun c ↦ { c with nclosed := c.nclosed + 1 }
        let pair ← etcpNotNull (← etcpLoadConn (B.conn k)).pair
        etcpModifyConn pair fun c ↦ { c with nclosed := c.nclosed + 1 }
        f : EtcpM σ Unit) w = f w' ∧ Becomes B w w' P.countClosed := by
  set w₁ : EtcpHeap σ := { w with
    conns := w.conns.modify (B.conn k) fun c ↦ { c with nclosed := c.nclosed + 1 } } with hw₁
  have hk : w₁.conns.get (B.conn k) = some (block B P.countClosed k) := by
    simp only [hw₁, BlockHeap.get_modify_self, h.conns k]
    rfl
  have hpair : w₁.conns.get (B.conn k.pair) = some (block B P k.pair) := by
    simp only [hw₁, BlockHeap.get_modify_of_ne (h.conn_pair_ne k), h.conns k.pair]
  set w₂ : EtcpHeap σ := { w₁ with
    conns := w₁.conns.modify (B.conn k.pair) fun c ↦ { c with nclosed := c.nclosed + 1 } } with hw₂
  have hnull : etcpNotNull (block B P.countClosed k).pair w₁ = .ok (B.conn k.pair, w₁) :=
    rfl
  refine ⟨w₂, ?_, ⟨fun p hp ↦ ?_, fun _ _ ↦ rfl, fun _ _ ↦ rfl⟩, rfl,
    ⟨h.kept, h.conn_ne, h.sock_ne, ?_, h.socks⟩⟩
  · rw [bind_of_ok (etcpModifyConn_of_get (h.conns k) _), bind_of_ok (etcpLoadConn_of_get hk),
      bind_of_ok hnull, bind_of_ok (etcpModifyConn_of_get hpair _)]
  · exact (BlockHeap.get_modify_of_ne (hp k.pair)).trans (BlockHeap.get_modify_of_ne (hp k))
  · refine EtcpRelayConn.forall_of_pair k ?_ ?_
    · exact (BlockHeap.get_modify_of_ne (h.conn_pair_ne k).symm).trans hk
    · simp only [hw₂, BlockHeap.get_modify_self, hpair]
      rfl

/-- The blocks of the pair are freed, each once. -/
theorem free (h : w.Stored B P) (k : EtcpRelayConn) :
    ∃ w', (do
        tcpSocketFree (B.sock k)
        tcpSocketFree (B.sock k.pair)
        etcpRelayConnFree (B.conn k.pair)
        etcpRelayConnFree (B.conn k) : EtcpM σ Unit) w = .ok ((), w') ∧ Frame B w w' ∧
      w'.epoll = w.epoll ∧ (∀ j, w'.conns.get (B.conn j) = none) ∧
      ∀ j, w'.socks.get (B.sock j) = none := by
  have hsock : (w.socks.free (B.sock k)).get (B.sock k.pair) =
      some ⟨B.fd k.pair, P.inSock k.pair⟩ :=
    (BlockHeap.get_free_of_ne (h.sock_pair_ne k)).trans (h.socks k.pair)
  have hconn : (w.conns.free (B.conn k.pair)).get (B.conn k) = some (block B P k) :=
    (BlockHeap.get_free_of_ne (h.conn_pair_ne k).symm).trans (h.conns k)
  set w₁ : EtcpHeap σ := { w with socks := w.socks.free (B.sock k) } with hw₁
  set w₂ : EtcpHeap σ := { w₁ with socks := w₁.socks.free (B.sock k.pair) } with hw₂
  set w₃ : EtcpHeap σ := { w₂ with conns := w₂.conns.free (B.conn k.pair) } with hw₃
  set w₄ : EtcpHeap σ := { w₃ with conns := w₃.conns.free (B.conn k) } with hw₄
  refine ⟨w₄, ?_, ⟨fun p hp ↦ ?_, fun p hp ↦ ?_, fun _ _ ↦ rfl⟩, rfl, ?_, ?_⟩
  · rw [bind_of_ok (tcpSocketFree_of_get (h.socks k)),
      bind_of_ok (@tcpSocketFree_of_get _ w₁ _ _ hsock),
      bind_of_ok (@etcpRelayConnFree_of_get _ w₂ _ _ (h.conns k.pair)),
      @etcpRelayConnFree_of_get _ w₃ _ _ hconn]
  · exact (BlockHeap.get_free_of_ne (hp k)).trans (BlockHeap.get_free_of_ne (hp k.pair))
  · exact (BlockHeap.get_free_of_ne (hp k.pair)).trans (BlockHeap.get_free_of_ne (hp k))
  · refine EtcpRelayConn.forall_of_pair k BlockHeap.get_free_self ?_
    exact (BlockHeap.get_free_of_ne (h.conn_pair_ne k)).trans BlockHeap.get_free_self
  · refine EtcpRelayConn.forall_of_pair k ?_ BlockHeap.get_free_self
    exact (BlockHeap.get_free_of_ne (h.sock_pair_ne k).symm).trans BlockHeap.get_free_self

/-- The descriptors of the pair are no longer registered. -/
theorem unregister (h : w.Stored B P) (k : EtcpRelayConn) (f : EtcpM σ Unit) :
    ∃ w', (do
        fdEpollDel (B.fd k)
        fdEpollDel (B.fd k.pair)
        f : EtcpM σ Unit) w = f w' ∧ Frame B w w' ∧ (∀ j, w'.epoll (B.fd j) = none) ∧
      w'.Stored B P := by
  set epoll := Function.update (Function.update w.epoll (B.fd k) none) (B.fd k.pair) none with he
  refine ⟨{ w with epoll }, rfl, ⟨fun _ _ ↦ rfl, fun _ _ ↦ rfl, fun fd hfd ↦ ?_⟩,
    ?_, ⟨h.kept, h.conn_ne, h.sock_ne, h.conns, h.socks⟩⟩
  · dsimp only
    rw [he, Function.update_of_ne (hfd k.pair), Function.update_of_ne (hfd k)]
  · refine EtcpRelayConn.forall_of_pair k ?_ (Function.update_self ..)
    by_cases heq : B.fd k = B.fd k.pair
    · simp [he, heq]
    · simp [he, Function.update_of_ne heq]

variable (ops) in
/-- **A pair is removed**, by either of its records. -/
theorem remove (h : w.Stored B P) (k : EtcpRelayConn) :
    ∃ w', EtcpHeap.etcpRemoveConn ops (B.conn k) w = .ok ((), w') ∧ Frame B w w' ∧
      w'.Dropped B := by
  obtain ⟨w₁, hdel, hframe₁, hepoll₁, h₁⟩ := h.unregister k (do
    if P.nclosed k = 0 then do
      tcpSocketClose ops (B.sock k)
      tcpSocketClose ops (B.sock k.pair)
    tcpSocketFree (B.sock k)
    tcpSocketFree (B.sock k.pair)
    etcpRelayConnFree (B.conn k.pair)
    etcpRelayConnFree (B.conn k))
  rw [EtcpHeap.etcpRemoveConn, bind_of_ok (etcpLoadConn_of_get (h.conns k))]
  by_cases hzero : P.nclosed k = 0
  · obtain ⟨w₂, hin, h₂⟩ := h₁.close ops k
    obtain ⟨w₃, hout, h₃⟩ := h₂.stored.close ops k.pair
    have hclosed := h₂.trans h₃
    obtain ⟨w₄, hfree, hframe₄, hepoll₄, hconns, hsocks⟩ := h₃.stored.free k
    refine ⟨w₄, Eq.trans hdel ?_, (hframe₁.trans hclosed.frame).trans hframe₄, hconns, hsocks,
      fun j ↦ ?_⟩
    · dsimp only
      rw [if_pos hzero, bind_of_ok hin, bind_of_ok hout]
      exact hfree
    · rw [hepoll₄, hclosed.epoll, hepoll₁]
  · obtain ⟨w₄, hfree, hframe₄, hepoll₄, hconns, hsocks⟩ := h₁.free k
    refine ⟨w₄, Eq.trans hdel ?_, hframe₁.trans hframe₄, hconns, hsocks, fun j ↦ ?_⟩
    · dsimp only
      rw [if_neg hzero]
      exact hfree
    · rw [hepoll₄, hepoll₁]

end Stored

theorem Holds.of_becomes (h : w.Holds B P) (h' : Becomes B w w' P') : w'.Holds B P' :=
  ⟨h'.stored, fun k ↦ h'.epoll ▸ h.epoll k⟩

variable (ops) in
/-- **The handling of an event on the heap is that of the pair.** The rest of the heap is as it was,
and if the pair is removed then nothing of it is left. -/
theorem etcpHandlePipe_refines (h : w.Holds B P) (k : EtcpRelayConn) (a : EtcpAnswers σ) :
    match Vmecs.etcpHandle ops a.fuel k P with
    | none => EtcpHeap.etcpHandle ops a (B.conn k) w = .error .waits
    | some (_, P') =>
      ∃ w', EtcpHeap.etcpHandle ops a (B.conn k) w = .ok ((), w') ∧ Frame B w w' ∧
        if P'.removed then w'.Dropped B else w'.Holds B P' := by
  have hpump := h.toStored.pump ops k a.fuel
  have hrun : EtcpHeap.etcpHandle ops a (B.conn k) w =
      etcpHandlePipe ops a.fuel (B.conn k) (B.sock k) (B.sock k.pair) w := by
    rw [EtcpHeap.etcpHandle, bind_of_ok (etcpLoadConn_of_get (h.conns k))]
    rfl
  rw [hrun, etcpHandlePipe, Vmecs.etcpHandle]
  generalize etcpPump ops a.fuel (P.inSock k) (P.outSock k) = r at hpump ⊢
  rcases r with _ | ⟨res, i, o⟩
  · exact bind_of_error hpump _
  obtain ⟨w₁, hpump, h₁⟩ := hpump
  rw [bind_of_ok hpump]
  dsimp only [Option.bind_eq_bind, Option.bind_some]
  by_cases hzero : res = 0
  · rw [if_pos hzero, if_pos hzero]
    obtain ⟨w₂, hclose, h₂⟩ := h₁.stored.close ops k.pair
    obtain ⟨w₃, hcount, h₃⟩ := h₂.stored.count k (do
      if (← etcpLoadConn (B.conn k)).nclosed = 2 then EtcpHeap.etcpRemoveConn ops (B.conn k))
    have hcounted := (h₁.trans h₂).trans h₃
    set P₃ := ((P.setSocks k i o).closeIn ops k.pair).countClosed
    rw [bind_of_ok hclose, hcount, bind_of_ok (etcpLoadConn_of_get (h₃.stored.conns k))]
    by_cases htwo : P₃.nclosed k = 2
    · rw [if_pos (show (block B P₃ k).nclosed = 2 from htwo), if_pos htwo]
      obtain ⟨w₄, hremove, hframe, hdropped⟩ := h₃.stored.remove ops k
      exact ⟨w₄, hremove, hcounted.frame.trans hframe, by simpa using hdropped⟩
    · rw [if_neg (show ¬(block B P₃ k).nclosed = 2 from htwo), if_neg htwo]
      refine ⟨w₃, rfl, hcounted.frame, ?_⟩
      rw [h₃.stored.kept]
      exact h.of_becomes hcounted
  · rw [if_neg hzero, if_neg hzero]
    by_cases hagain : res = -2
    · rw [if_pos hagain, if_pos hagain]
      refine ⟨w₁, rfl, h₁.frame, ?_⟩
      rw [h₁.stored.kept]
      exact h.of_becomes h₁
    · rw [if_neg hagain, if_neg hagain]
      obtain ⟨w₂, hremove, hframe, hdropped⟩ := h₁.stored.remove ops k
      exact ⟨w₂, hremove, h₁.frame.trans hframe, by simpa using hdropped⟩

/-! ### New connections -/

/-- The heaps agree on all but a socket. -/
structure Off (p : ℕ) (w w' : EtcpHeap σ) : Prop where
  conns : w'.conns = w.conns
  socks : ∀ q, q ≠ p → w'.socks.get q = w.socks.get q
  epoll : w'.epoll = w.epoll

/-- The heaps have the same blocks. -/
structure Same (w w' : EtcpHeap σ) : Prop where
  conns : w'.conns = w.conns
  socks : ∀ q, w'.socks.get q = w.socks.get q
  epoll : w'.epoll = w.epoll

theorem Off.trans {p : ℕ} (h : Off p w₁ w₂) (h' : Off p w₂ w₃) : Off p w₁ w₃ where
  conns := h'.conns.trans h.conns
  socks q hq := (h'.socks q hq).trans (h.socks q hq)
  epoll := h'.epoll.trans h.epoll

theorem Off.modify (w : EtcpHeap σ) (p : ℕ) (f : TcpEndpoint σ → TcpEndpoint σ) :
    Off p w { w with socks := w.socks.modify p f } :=
  ⟨rfl, fun _ hq ↦ BlockHeap.get_modify_of_ne hq, rfl⟩

theorem Off.alloc (w : EtcpHeap σ) (s : TcpEndpoint σ) :
    Off w.socks.next w { w with socks := w.socks.alloc s } :=
  ⟨rfl, fun _ hq ↦ BlockHeap.get_alloc_of_ne hq, rfl⟩

theorem Same.off {p : ℕ} (h : Same w w') : Off p w w' := ⟨h.conns, fun q _ ↦ h.socks q, h.epoll⟩

variable (ops) in
/-- A new socket is closed and freed: nothing of it is left. -/
theorem discard {s : TcpEndpoint σ} (h : Off w.socks.next w w₁)
    (hs : w₁.socks.get w.socks.next = some s) :
    ∃ w₂ w₃, tcpSocketClose ops w.socks.next w₁ = .ok ((), w₂) ∧
      tcpSocketFree w.socks.next w₂ = .ok ((), w₃) ∧ Same w w₃ := by
  set w₂ : EtcpHeap σ := { w₁ with
    socks := w₁.socks.modify w.socks.next fun s ↦ { s with sock := ops.close s.sock } } with hw₂
  have hs₂ : w₂.socks.get w.socks.next = some { s with sock := ops.close s.sock } := by
    rw [hw₂, BlockHeap.get_modify_self, hs]
    rfl
  have hoff : Off w.socks.next w w₂ := h.trans (Off.modify ..)
  refine ⟨w₂, { w₂ with socks := w₂.socks.free w.socks.next }, tcpModifySocket_of_get hs _,
    tcpSocketFree_of_get hs₂, hoff.conns, fun q ↦ ?_, hoff.epoll⟩
  by_cases hq : q = w.socks.next
  · rw [hq, BlockHeap.get_next, BlockHeap.get_free_self]
  · rw [BlockHeap.get_free_of_ne hq, hoff.socks q hq]

theorem tcpOutboundClient_of_connected {a : EtcpAnswers σ} (h : a.client.2 = true) :
    tcpOutboundClient ops a w =
      .ok (some w.socks.next, { w with socks := w.socks.alloc a.client.1 }) := by
  rw [tcpOutboundClient, h]
  rfl

variable (ops) in
theorem tcpOutboundClient_of_not_connected {a : EtcpAnswers σ} (h : a.client.2 = false) :
    ∃ w', tcpOutboundClient ops a w = .ok (none, w') ∧ Same w w' := by
  have hnew : tcpSocketNew a.client.1 w =
    .ok (w.socks.next, { w with socks := w.socks.alloc a.client.1 }) := rfl
  obtain ⟨w₂, w₃, hclose, hfree, hsame⟩ :=
    discard ops (Off.alloc w a.client.1) BlockHeap.get_alloc_next
  refine ⟨w₃, ?_, hsame⟩
  rw [tcpOutboundClient, bind_of_ok hnew, h, if_neg Bool.false_ne_true, bind_of_ok hclose,
    bind_of_ok hfree]
  rfl

/-- The blocks of a new pair of two sockets, with its records at `m` and `m + 1`. -/
def newBlocks (m p q : ℕ) (inFd outFd : ℤ) : EtcpPairBlocks where
  conn
    | .conn1 => m
    | .conn2 => m + 1
  sock
    | .conn1 => p
    | .conn2 => q
  fd
    | .conn1 => inFd
    | .conn2 => outFd

theorem etcpRelayConnLink_of_get {p q : ℕ} {c d : EtcpConnBlock} (hne : p ≠ q)
    (hp : w.conns.get p = some c) (hq : w.conns.get q = some d) :
    ∃ w', etcpRelayConnLink p q w = .ok ((), w') ∧
      w'.conns.get p = some { c with pair := some q } ∧
      w'.conns.get q = some { d with pair := some p } ∧
      (∀ r, r ≠ p → r ≠ q → w'.conns.get r = w.conns.get r) ∧
      w'.socks = w.socks ∧ w'.epoll = w.epoll := by
  set w₁ : EtcpHeap σ := { w with
    conns := w.conns.modify p fun c ↦ { c with pair := some q } } with hw₁
  have hq₁ : w₁.conns.get q = some d := (BlockHeap.get_modify_of_ne hne.symm).trans hq
  set w₂ : EtcpHeap σ := { w₁ with
    conns := w₁.conns.modify q fun c ↦ { c with pair := some p } } with hw₂
  refine ⟨w₂, ?_, ?_, ?_, fun r hrp hrq ↦ ?_, rfl, rfl⟩
  · rw [etcpRelayConnLink, bind_of_ok (etcpModifyConn_of_get hp _)]
    exact etcpModifyConn_of_get hq₁ _
  · rw [hw₂, BlockHeap.get_modify_of_ne hne, hw₁, BlockHeap.get_modify_self, hp]
    rfl
  · rw [hw₂, BlockHeap.get_modify_self, hq₁]
    rfl
  · rw [hw₂, BlockHeap.get_modify_of_ne hrq, hw₁, BlockHeap.get_modify_of_ne hrp]

/-- **Two connected sockets become a pair**: the records are made, linked and registered. -/
theorem register {p q : ℕ} {s t : TcpEndpoint σ} (hp : w.socks.get p = some s)
    (hq : w.socks.get q = some t) (hne : p ≠ q) (hfd : s.fd ≠ t.fd) :
    ∃ w', (do
        let inFd ← tcpSocketRevent p
        let outFd ← tcpSocketRevent q
        let conn1 ← etcpRelayConnNew inFd outFd p (some q)
        let conn2 ← etcpRelayConnNew outFd inFd q (some p)
        etcpRelayConnLink conn1 conn2
        fdEpollAdd inFd conn1
        fdEpollAdd outFd conn2 : EtcpM σ Unit) w = .ok ((), w') ∧
      Frame (newBlocks w.conns.next p q s.fd t.fd) w w' ∧
      w'.Holds (newBlocks w.conns.next p q s.fd t.fd) (etcpPairNew s.sock t.sock) := by
  set m := w.conns.next with hm
  set w₁ : EtcpHeap σ := { w with conns := w.conns.alloc ⟨s.fd, t.fd, p, some q, none, 0⟩ } with hw₁
  set w₂ : EtcpHeap σ := { w₁ with
    conns := w₁.conns.alloc ⟨t.fd, s.fd, q, some p, none, 0⟩ } with hw₂
  have hnew₁ : etcpRelayConnNew s.fd t.fd p (some q) w = .ok (m, w₁) := rfl
  have hnew₂ : etcpRelayConnNew t.fd s.fd q (some p) w₁ = .ok (m + 1, w₂) := rfl
  have hm₁ : w₂.conns.get m = some ⟨s.fd, t.fd, p, some q, none, 0⟩ :=
    BlockHeap.get_alloc_of_get BlockHeap.get_alloc_next
  have hm₂ : w₂.conns.get (m + 1) = some ⟨t.fd, s.fd, q, some p, none, 0⟩ :=
    @BlockHeap.get_alloc_next _ w₁.conns _
  obtain ⟨w₃, hlink, h₁, h₂, hother, hsocks, hepoll⟩ :=
    etcpRelayConnLink_of_get (Nat.succ_ne_self m).symm hm₁ hm₂
  set epoll := Function.update (Function.update w₃.epoll s.fd (some m)) t.fd (some (m + 1)) with he
  refine ⟨{ w₃ with epoll }, ?_, ⟨fun r hr ↦ ?_, fun _ _ ↦ ?_, fun fd hne' ↦ ?_⟩,
    ⟨rfl, (Nat.succ_ne_self m).symm, hne, ?_, ?_⟩, ?_⟩
  · rw [bind_of_ok (tcpSocketRevent_of_get hp), bind_of_ok (tcpSocketRevent_of_get hq),
      bind_of_ok hnew₁, bind_of_ok hnew₂, bind_of_ok hlink]
    rfl
  · have hr₁ : r ≠ m := hr .conn1
    have hr₂ : r ≠ m + 1 := hr .conn2
    dsimp only
    rw [hother r hr₁ hr₂, hw₂, BlockHeap.get_alloc_of_ne hr₂, hw₁, BlockHeap.get_alloc_of_ne hr₁]
  · dsimp only
    rw [hsocks]
  · have hin : fd ≠ s.fd := hne' .conn1
    have hout : fd ≠ t.fd := hne' .conn2
    dsimp only
    rw [he, Function.update_of_ne hout, Function.update_of_ne hin, hepoll]
  · rintro (_ | _)
    · exact h₁
    · exact h₂
  · rintro (_ | _)
    · exact hsocks ▸ hp
    · exact hsocks ▸ hq
  · rintro (_ | _)
    · exact (Function.update_of_ne hfd ..).trans (Function.update_self ..)
    · exact Function.update_self ..

/-- Nothing of the pair is there yet, and its descriptors are those of no socket. -/
structure Absent (w : EtcpHeap σ) (B : EtcpPairBlocks) : Prop where
  conns : ∀ k, w.conns.get (B.conn k) = none
  socks : ∀ k, w.socks.get (B.sock k) = none
  fds : ∀ k p s, w.socks.get p = some s → s.fd ≠ B.fd k
  fd_ne : B.fd .conn1 ≠ B.fd .conn2

/-- A socket is accepted and its handshake carried out: it is the only new block. -/
theorem accept_handshake {p : ℕ} {s newIn : TcpEndpoint σ} (hs : w.socks.get p = some s)
    {a : EtcpAnswers σ} (ha : a.accept = some newIn) :
    ∃ w₁ w₂, tcpSocketAccept a p w = .ok (some w.socks.next, w₁) ∧
      tcpSocketHandshake a w.socks.next w₁ = .ok ((a.handshake newIn.sock).1, w₂) ∧
      Off w.socks.next w w₂ ∧
      w₂.socks.get w.socks.next = some ⟨newIn.fd, (a.handshake newIn.sock).2⟩ ∧
      w₂.socks.next = w.socks.next + 1 := by
  set w₁ : EtcpHeap σ := { w with socks := w.socks.alloc newIn } with hw₁
  have hnew : w₁.socks.get w.socks.next = some newIn := BlockHeap.get_alloc_next
  set w₂ : EtcpHeap σ := { w₁ with
    socks := w₁.socks.modify w.socks.next fun s ↦ { s with sock := (a.handshake s.sock).2 } }
    with hw₂
  refine ⟨w₁, w₂, ?_, ?_, (Off.alloc w newIn).trans (Off.modify ..), ?_, rfl⟩
  · rw [tcpSocketAccept, bind_of_ok (tcpLoadSocket_of_get hs), ha]
    rfl
  · rw [tcpSocketHandshake, bind_of_ok (tcpLoadSocket_of_get hnew),
      bind_of_ok (tcpModifySocket_of_get hnew _)]
    rfl
  · rw [hw₂, BlockHeap.get_modify_self, hnew]
    rfl

variable (ops) in
/-- **What an event of the listening socket does**: if the calls connect two sockets, a pair of them
is there that was not; otherwise nothing is left, also where it fails halfway. -/
theorem etcpHandleServer_opened {p : ℕ} {s : TcpEndpoint σ} (hs : w.socks.get p = some s)
    {a : EtcpAnswers σ} (ha : a.Valid w) :
    ∃ w', etcpHandleServer ops a p w = .ok ((), w') ∧
      match a.opened with
      | none => Same w w'
      | some (newIn, newOut) =>
        ∃ B, B = newBlocks w.conns.next w.socks.next (w.socks.next + 1) newIn.fd newOut.fd ∧
          w.Absent B ∧ Frame B w w' ∧ w'.Holds B (etcpPairNew newIn.sock newOut.sock) := by
  rcases hacc : a.accept with _ | newIn
  · have haccept : tcpSocketAccept a p w = .ok (none, w) := by
      rw [tcpSocketAccept, bind_of_ok (tcpLoadSocket_of_get hs), hacc]
      rfl
    have hopened : a.opened = none := by rw [EtcpAnswers.opened, hacc]
    refine ⟨w, ?_, ?_⟩
    · rw [etcpHandleServer, bind_of_ok haccept]
      rfl
    · rw [hopened]
      exact ⟨rfl, fun _ ↦ rfl, rfl⟩
  have hopened : a.opened = if (a.handshake newIn.sock).1 && a.client.2 then
      some (⟨newIn.fd, (a.handshake newIn.sock).2⟩, a.client.1) else none := by
    rw [EtcpAnswers.opened, hacc]
  obtain ⟨w₁, w₂, haccept, hshake, hoff, hnew, hnext⟩ := accept_handshake hs hacc
  rw [etcpHandleServer, bind_of_ok haccept, hopened]
  dsimp only
  rw [bind_of_ok hshake]
  generalize (a.handshake newIn.sock).2 = x at hnew ⊢
  rcases (a.handshake newIn.sock).1
  · -- the handshake fails
    obtain ⟨w₃, w₄, hclose, hfree, hsame⟩ := discard ops hoff hnew
    refine ⟨w₄, ?_, hsame⟩
    rw [if_neg Bool.false_ne_true, bind_of_ok hclose, hfree]
  rw [if_pos rfl, bind_of_ok (tcpLoadSocket_of_get hnew)]
  rcases hconnected : a.client.2
  · -- the outbound does not get connected
    obtain ⟨w₃, hclient, hsame⟩ :=
      tcpOutboundClient_of_not_connected ops (w := w₂) hconnected
    obtain ⟨w₄, w₅, hclose, hfree, hsame'⟩ := discard ops (hoff.trans hsame.off)
      ((hsame.socks _).trans hnew)
    refine ⟨w₅, ?_, hsame'⟩
    rw [bind_of_ok hclient]
    dsimp only
    rw [bind_of_ok hclose, hfree]
  · set n := w.socks.next with hn
    set w₃ : EtcpHeap σ := { w₂ with socks := w₂.socks.alloc a.client.1 } with hw₃
    have hclient : tcpOutboundClient ops a w₂ = .ok (some (n + 1), w₃) := by
      rw [tcpOutboundClient_of_connected hconnected, hnext]
    have hin : w₃.socks.get n = some ⟨newIn.fd, x⟩ := BlockHeap.get_alloc_of_get hnew
    have hout : w₃.socks.get (n + 1) = some a.client.1 := by
      rw [hw₃, ← hnext, BlockHeap.get_alloc_next]
    have hconns : w₃.conns = w.conns := hoff.conns
    obtain ⟨w₄, hregister, hframe, hholds⟩ := register hin hout (Nat.succ_ne_self n).symm
      (ha.distinct newIn hacc)
    rw [hconns] at hframe hholds
    refine ⟨w₄, ?_, _, rfl, ⟨?_, ?_, ?_, ha.distinct newIn hacc⟩,
      Frame.trans ⟨fun r _ ↦ by rw [hconns], fun r hr ↦ ?_, fun fd _ ↦ ?_⟩ hframe, hholds⟩
    · rw [bind_of_ok hclient]
      exact hregister
    · rintro (_ | _)
      · exact BlockHeap.get_next
      · exact w.conns.fresh _ (Nat.le_succ _)
    · rintro (_ | _)
      · exact BlockHeap.get_next
      · exact w.socks.fresh _ (Nat.le_succ _)
    · rintro (_ | _)
      · exact ha.accept newIn hacc
      · exact ha.client
    · have hin : r ≠ n := hr .conn1
      have hout : r ≠ w₂.socks.next := hnext ▸ hr .conn2
      exact (BlockHeap.get_alloc_of_ne hout).trans (hoff.socks r hin)
    · exact congrFun hoff.epoll fd

variable (ops) in
/-- Either nothing is left of an event of the listening socket, or a pair is there that was not. -/
theorem etcpHandleServer_cases {p : ℕ} {s : TcpEndpoint σ} (hs : w.socks.get p = some s)
    {a : EtcpAnswers σ} (ha : a.Valid w) :
    ∃ w', etcpHandleServer ops a p w = .ok ((), w') ∧
      (Same w w' ∨ ∃ B newIn newOut, w.Absent B ∧ Frame B w w' ∧
        w'.Holds B (etcpPairNew newIn newOut)) := by
  obtain ⟨w', hserver, hafter⟩ := etcpHandleServer_opened ops hs ha
  refine ⟨w', hserver, ?_⟩
  rcases hopened : a.opened with _ | ⟨newIn, newOut⟩
  · rw [hopened] at hafter
    exact .inl hafter
  · rw [hopened] at hafter
    obtain ⟨B, -, hB, hframe, hnew⟩ := hafter
    exact .inr ⟨B, _, _, hB, hframe, hnew⟩

/-! ### Reachable states -/

/-- **The invariant of a worker.** Every record but the listener's is one of a pair that the heap
holds, a registered pointer is that of a record, every socket is the inbound socket of one record,
and no two sockets have one descriptor. -/
structure Sound (server : TcpEndpoint σ) (w : EtcpHeap σ) : Prop where
  listener : w.conns.get 0 = some ⟨server.fd, -1, 0, none, none, 0⟩
  listening : w.socks.get 0 = some server
  registered : w.epoll server.fd = some 0
  pairs : ∀ p c, w.conns.get p = some c → p = 0 ∨
    ∃ B P k, w.Holds B P ∧ P.nclosed .conn1 = P.nclosed .conn2 ∧ p = B.conn k
  epoll : ∀ fd p, w.epoll fd = some p → ∃ c, w.conns.get p = some c ∧ c.inFd = fd
  socks : ∀ q s, w.socks.get q = some s → ∃ p c, w.conns.get p = some c ∧ c.inSock = q
  owner : ∀ p p' c c', w.conns.get p = some c → w.conns.get p' = some c' →
    c.inSock = c'.inSock → p = p'
  fds : ∀ q q' s s', w.socks.get q = some s → w.socks.get q' = some s' → s.fd = s'.fd → q = q'

/-- Everything else on the heap is apart from a pair, be it there or not. -/
structure Apart (w : EtcpHeap σ) (B : EtcpPairBlocks) : Prop where
  listener : ∀ k, 0 ≠ B.conn k
  fd_ne : B.fd .conn1 ≠ B.fd .conn2
  inside : ∀ k c, w.conns.get (B.conn k) = some c → c.inSock = B.sock k ∧ c.inFd = B.fd k
  outside : ∀ p c, w.conns.get p = some c → (∀ k, p ≠ B.conn k) →
    (∀ k, c.inSock ≠ B.sock k) ∧ (∀ k, c.inFd ≠ B.fd k) ∧ ∀ k, c.pair ≠ some (B.conn k)

/-- What has become of a pair. -/
def Settled (w : EtcpHeap σ) (B : EtcpPairBlocks) : Prop :=
  w.Dropped B ∨ ∃ P, w.Holds B P ∧ P.nclosed .conn1 = P.nclosed .conn2

theorem Frame.conns_cases (h : Frame B w w') {p : ℕ} {c : EtcpConnBlock}
    (hp : w'.conns.get p = some c) :
    (∃ k, p = B.conn k) ∨ (∀ k, p ≠ B.conn k) ∧ w.conns.get p = some c := by
  by_cases hk : ∃ k, p = B.conn k
  · exact .inl hk
  · have hne := not_exists.1 hk
    exact .inr ⟨hne, (h.conns p hne).symm.trans hp⟩

theorem Frame.socks_cases (h : Frame B w w') {q : ℕ} {s : TcpEndpoint σ}
    (hq : w'.socks.get q = some s) :
    (∃ k, q = B.sock k) ∨ (∀ k, q ≠ B.sock k) ∧ w.socks.get q = some s := by
  by_cases hk : ∃ k, q = B.sock k
  · exact .inl hk
  · have hne := not_exists.1 hk
    exact .inr ⟨hne, (h.socks q hne).symm.trans hq⟩

/-- A pair that is apart stays. -/
theorem Frame.holds (h : Frame B w w') (hB' : w.Holds B' P') (hconn : ∀ j k, B'.conn j ≠ B.conn k)
    (hsock : ∀ j k, B'.sock j ≠ B.sock k) (hfd : ∀ j k, B'.fd j ≠ B.fd k) : w'.Holds B' P' where
  kept := hB'.kept
  conn_ne := hB'.conn_ne
  sock_ne := hB'.sock_ne
  conns j := (h.conns _ (hconn j)).trans (hB'.conns j)
  socks j := (h.socks _ (hsock j)).trans (hB'.socks j)
  epoll j := (h.epoll _ (hfd j)).trans (hB'.epoll j)

namespace Settled

variable {k : EtcpRelayConn} {c : EtcpConnBlock} {s : TcpEndpoint σ} {p : ℕ}

theorem conns (h : w.Settled B) (hc : w.conns.get (B.conn k) = some c) :
    ∃ P, w.Holds B P ∧ P.nclosed .conn1 = P.nclosed .conn2 ∧ c = block B P k := by
  obtain h | ⟨P, hP, hn⟩ := h
  · exact absurd ((h.conns k).symm.trans hc) (by simp)
  · exact ⟨P, hP, hn, Option.some.inj (hc.symm.trans (hP.conns k))⟩

theorem socks (h : w.Settled B) (hs : w.socks.get (B.sock k) = some s) :
    ∃ P, w.Holds B P ∧ s.fd = B.fd k := by
  obtain h | ⟨P, hP, -⟩ := h
  · exact absurd ((h.socks k).symm.trans hs) (by simp)
  · obtain rfl := Option.some.inj (hs.symm.trans (hP.socks k))
    exact ⟨P, hP, rfl⟩

theorem epoll (h : w.Settled B) (hp : w.epoll (B.fd k) = some p) :
    ∃ P, w.Holds B P ∧ p = B.conn k := by
  obtain h | ⟨P, hP, -⟩ := h
  · exact absurd ((h.epoll k).symm.trans hp) (by simp)
  · exact ⟨P, hP, Option.some.inj (hp.symm.trans (hP.epoll k))⟩

end Settled

namespace Sound

variable {server : TcpEndpoint σ} {p : ℕ} {c : EtcpConnBlock}

/-- A record is the listener's, or one of a pair that the heap holds. -/
theorem record_cases (h : w.Sound server) (hp : w.conns.get p = some c) :
    p = 0 ∧ c = ⟨server.fd, -1, 0, none, none, 0⟩ ∨
      ∃ B P k, w.Holds B P ∧ P.nclosed .conn1 = P.nclosed .conn2 ∧ p = B.conn k ∧
        c = block B P k := by
  obtain rfl | ⟨B, P, k, hB, hn, rfl⟩ := h.pairs p c hp
  · exact .inl ⟨rfl, Option.some.inj (hp.symm.trans h.listener)⟩
  · exact .inr ⟨B, P, k, hB, hn, rfl, Option.some.inj (hp.symm.trans (hB.conns k))⟩

/-- The inbound socket of a record is there, and the record registered for its descriptor. -/
theorem inbound (h : w.Sound server) (hp : w.conns.get p = some c) :
    ∃ s, w.socks.get c.inSock = some s ∧ s.fd = c.inFd ∧ w.epoll c.inFd = some p := by
  obtain ⟨rfl, rfl⟩ | ⟨B, P, k, hB, -, rfl, rfl⟩ := h.record_cases hp
  · exact ⟨server, h.listening, rfl, h.registered⟩
  · exact ⟨_, hB.socks k, rfl, hB.epoll k⟩

/-- The pair of a record is there, and its pair is the record. -/
theorem mate (h : w.Sound server) (hp : w.conns.get p = some c) {q : ℕ} (hq : c.pair = some q) :
    ∃ d, w.conns.get q = some d ∧ d.pair = some p := by
  obtain ⟨rfl, rfl⟩ | ⟨B, P, k, hB, -, rfl, rfl⟩ := h.record_cases hp
  · exact absurd hq (by simp)
  · obtain rfl := Option.some.inj hq
    exact ⟨_, hB.conns k.pair, by simp [block]⟩

theorem apart_of_holds (h : w.Sound server) (hB : w.Holds B P) : w.Apart B where
  listener k h0 := by
    have heq := Option.some.inj ((h0 ▸ h.listener).symm.trans (hB.conns k))
    exact absurd (congrArg EtcpConnBlock.outSock heq) (by simp [block])
  fd_ne heq := hB.sock_ne (h.fds _ _ _ _ (hB.socks .conn1) (hB.socks .conn2) heq)
  inside k c hc := by
    obtain rfl := Option.some.inj ((hB.conns k).symm.trans hc)
    exact ⟨rfl, rfl⟩
  outside p c hc hp := by
    have hsock : ∀ k, c.inSock ≠ B.sock k := fun k heq ↦ hp k (h.owner _ _ _ _ hc (hB.conns k) heq)
    refine ⟨hsock, fun k heq ↦ ?_, fun k heq ↦ ?_⟩
    · obtain ⟨s, hs, hfd, -⟩ := h.inbound hc
      exact hsock k (h.fds _ _ _ _ hs (hB.socks k) (hfd.trans heq))
    · obtain ⟨d, hd, hpair⟩ := h.mate hc heq
      obtain rfl := Option.some.inj ((hB.conns k).symm.trans hd)
      exact hp k.pair (Option.some.inj hpair).symm

theorem apart_of_absent (h : w.Sound server) (hB : w.Absent B) : w.Apart B where
  listener k h0 := by
    have hnone := hB.conns k
    rw [← h0, h.listener] at hnone
    exact absurd hnone (by simp)
  fd_ne := hB.fd_ne
  inside k c hc := absurd ((hB.conns k).symm.trans hc) (by simp)
  outside p c hc hp := by
    obtain ⟨s, hs, hfd, -⟩ := h.inbound hc
    refine ⟨fun k heq ↦ ?_, fun k heq ↦ hB.fds k _ _ hs (hfd.trans heq), fun k heq ↦ ?_⟩
    · exact absurd ((hB.socks k).symm.trans (heq ▸ hs)) (by simp)
    · obtain ⟨d, hd, -⟩ := h.mate hc heq
      exact absurd ((hB.conns k).symm.trans hd) (by simp)

/-- A record apart from a pair that changes, and its own pair, stay as they are. -/
theorem pairs_of_outside (h : w.Sound server) (hB : w.Apart B) (hframe : Frame B w w')
    (hp : w.conns.get p = some c) (hne : ∀ k, p ≠ B.conn k) : p = 0 ∨
      ∃ B' P' k, w'.Holds B' P' ∧ P'.nclosed .conn1 = P'.nclosed .conn2 ∧ p = B'.conn k := by
  obtain hzero | ⟨B', P', k', hB', hn, rfl⟩ := h.pairs p c hp
  · exact .inl hzero
  obtain rfl := Option.some.inj ((hB'.conns k').symm.trans hp)
  have hconn : ∀ j k, B'.conn j ≠ B.conn k := by
    refine EtcpRelayConn.forall_of_pair k' hne fun k heq ↦ ?_
    exact (hB.outside _ _ hp hne).2.2 k (congrArg some heq)
  have hout : ∀ j, _ := fun j ↦ hB.outside _ _ (hB'.conns j) (hconn j)
  exact .inr ⟨B', P', k', hframe.holds hB' hconn (fun j ↦ (hout j).1) fun j ↦ (hout j).2.1, hn, rfl⟩

/-- The descriptor of a socket apart from a pair is not one of the pair's. -/
theorem fd_ne_of_outside (h : w.Sound server) (hB : w.Apart B) {q : ℕ} {s : TcpEndpoint σ}
    (hq : w.socks.get q = some s) (hne : ∀ k, q ≠ B.sock k) (k : EtcpRelayConn) :
    s.fd ≠ B.fd k := by
  obtain ⟨p, c, hp, rfl⟩ := h.socks q s hq
  have hout : ∀ k, p ≠ B.conn k := fun j hj ↦ hne j (hB.inside j c (hj ▸ hp)).1
  obtain ⟨s', hs', hfd, -⟩ := h.inbound hp
  obtain rfl := Option.some.inj (hq.symm.trans hs')
  exact hfd ▸ (hB.outside p c hp hout).2.1 k

/-- **What a step does to the heap**: a pair comes to be, changes or goes, and all else is as it
was. -/
theorem change (h : w.Sound server) (hB : w.Apart B) (hframe : Frame B w w')
    (hsettled : w'.Settled B) : w'.Sound server := by
  have hlistener := hB.outside 0 _ h.listener hB.listener
  refine ⟨(hframe.conns 0 hB.listener).trans h.listener,
    (hframe.socks 0 hlistener.1).trans h.listening,
    (hframe.epoll _ hlistener.2.1).trans h.registered, fun p c hp ↦ ?_, fun fd p hp ↦ ?_,
    fun q s hq ↦ ?_, fun p p' c c' hp hp' heq ↦ ?_, fun q q' s s' hq hq' heq ↦ ?_⟩
  · obtain ⟨k, rfl⟩ | ⟨hne, hp⟩ := hframe.conns_cases hp
    · obtain ⟨P, hP, hn, -⟩ := hsettled.conns hp
      exact .inr ⟨B, P, k, hP, hn, rfl⟩
    · exact h.pairs_of_outside hB hframe hp hne
  · by_cases hfd : ∃ k, fd = B.fd k
    · obtain ⟨k, rfl⟩ := hfd
      obtain ⟨P, hP, rfl⟩ := hsettled.epoll hp
      exact ⟨_, hP.conns k, rfl⟩
    · have hne := not_exists.1 hfd
      obtain ⟨c, hc, rfl⟩ := h.epoll fd p ((hframe.epoll fd hne).symm.trans hp)
      refine ⟨c, (hframe.conns p fun k hk ↦ ?_).trans hc, rfl⟩
      exact hne k (hB.inside k c (hk ▸ hc)).2
  · obtain ⟨k, rfl⟩ | ⟨hne, hq⟩ := hframe.socks_cases hq
    · obtain ⟨P, hP, -⟩ := hsettled.socks hq
      exact ⟨_, _, hP.conns k, rfl⟩
    · obtain ⟨p, c, hc, rfl⟩ := h.socks q s hq
      refine ⟨p, c, (hframe.conns p fun k hk ↦ ?_).trans hc, rfl⟩
      exact hne k (hB.inside k c (hk ▸ hc)).1
  · obtain ⟨k, rfl⟩ | ⟨hne, hp⟩ := hframe.conns_cases hp <;>
      obtain ⟨k', rfl⟩ | ⟨hne', hp'⟩ := hframe.conns_cases hp'
    · obtain ⟨P, hP, -, rfl⟩ := hsettled.conns hp
      obtain ⟨P', -, -, rfl⟩ := hsettled.conns hp'
      rw [EtcpRelayConn.injective_of_ne hP.sock_ne heq]
    · obtain ⟨P, -, -, rfl⟩ := hsettled.conns hp
      exact absurd heq.symm ((hB.outside p' c' hp' hne').1 k)
    · obtain ⟨P, -, -, rfl⟩ := hsettled.conns hp'
      exact absurd heq ((hB.outside p c hp hne).1 k')
    · exact h.owner p p' c c' hp hp' heq
  · obtain ⟨k, rfl⟩ | ⟨hne, hq⟩ := hframe.socks_cases hq <;>
      obtain ⟨k', rfl⟩ | ⟨hne', hq'⟩ := hframe.socks_cases hq'
    · obtain ⟨-, -, hfd⟩ := hsettled.socks hq
      obtain ⟨-, -, hfd'⟩ := hsettled.socks hq'
      rw [EtcpRelayConn.injective_of_ne hB.fd_ne (hfd.symm.trans (heq.trans hfd'))]
    · obtain ⟨-, -, hfd⟩ := hsettled.socks hq
      exact absurd (heq.symm.trans hfd) (h.fd_ne_of_outside hB hq' hne' k)
    · obtain ⟨-, -, hfd'⟩ := hsettled.socks hq'
      exact absurd (heq.trans hfd') (h.fd_ne_of_outside hB hq hne k')
    · exact h.fds q q' s s' hq hq' heq

theorem of_same (h : w.Sound server) (hsame : Same w w') : w'.Sound server where
  listener := hsame.conns ▸ h.listener
  listening := (hsame.socks 0).trans h.listening
  registered := hsame.epoll ▸ h.registered
  pairs p c hp := by
    obtain hzero | ⟨B, P, k, hB, hn, rfl⟩ := h.pairs p c (hsame.conns ▸ hp)
    · exact .inl hzero
    · refine .inr ⟨B, P, k, ⟨⟨hB.kept, hB.conn_ne, hB.sock_ne, ?_, fun j ↦ ?_⟩, ?_⟩, hn, rfl⟩
      · exact hsame.conns ▸ hB.conns
      · exact (hsame.socks _).trans (hB.socks j)
      · exact hsame.epoll ▸ hB.epoll
  epoll := hsame.conns ▸ hsame.epoll ▸ h.epoll
  socks q s hq := hsame.conns ▸ h.socks q s ((hsame.socks q).symm.trans hq)
  owner := hsame.conns ▸ h.owner
  fds q q' s s' hq hq' :=
    h.fds q q' s s' ((hsame.socks q).symm.trans hq) ((hsame.socks q').symm.trans hq')

theorem start (server : TcpEndpoint σ) : (EtcpHeap.start server).Sound server := by
  have hconns : ∀ p c, (EtcpHeap.start server).conns.get p = some c →
      p = 0 ∧ ⟨server.fd, -1, 0, none, none, 0⟩ = c := fun p c hp ↦ by
    simpa using BlockHeap.get_alloc_eq_some.1 hp
  have hsocks : ∀ q s, (EtcpHeap.start server).socks.get q = some s → q = 0 ∧ server = s :=
    fun q s hq ↦ by simpa using BlockHeap.get_alloc_eq_some.1 hq
  have hlistener : (EtcpHeap.start server).conns.get 0 =
    some ⟨server.fd, -1, 0, none, none, 0⟩ := BlockHeap.get_alloc_next
  have hepoll : (EtcpHeap.start server).epoll =
    Function.update (fun _ ↦ none) server.fd (some 0) := rfl
  have hregistered : (EtcpHeap.start server).epoll server.fd = some 0 := by
    rw [hepoll, Function.update_self]
  refine ⟨hlistener, BlockHeap.get_alloc_next, hregistered, fun p c hp ↦ .inl (hconns p c hp).1,
    fun fd p hp ↦ ?_, fun q s hq ↦ ⟨0, _, hlistener, (hsocks q s hq).1.symm⟩, ?_, ?_⟩
  · by_cases hfd : fd = server.fd
    · obtain rfl := Option.some.inj (hregistered.symm.trans (hfd ▸ hp))
      exact ⟨_, hlistener, hfd.symm⟩
    · rw [hepoll, Function.update_of_ne hfd] at hp
      exact absurd hp (by simp)
  · intro p p' c c' hp hp' _
    rw [(hconns p c hp).1, (hconns p' c' hp').1]
  · intro q q' s s' hq hq' _
    rw [(hsocks q s hq).1, (hsocks q' s' hq').1]

variable (ops) in
/-- **Every handling is sound**: it comes to its end, if its loop does, and keeps the invariant. -/
theorem handle (h : w.Sound server) {fd : ℤ} (hp : w.epoll fd = some p) {a : EtcpAnswers σ}
    (ha : a.Valid w) :
    EtcpHeap.etcpHandle ops a p w = .error .waits ∨
      ∃ w', EtcpHeap.etcpHandle ops a p w = .ok ((), w') ∧ w'.Sound server := by
  obtain ⟨c, hc, -⟩ := h.epoll fd p hp
  obtain rfl | ⟨B, P, k, hB, hn, rfl⟩ := h.pairs p c hc
  · have hrun : EtcpHeap.etcpHandle ops a 0 w = etcpHandleServer ops a 0 w := by
      rw [EtcpHeap.etcpHandle, bind_of_ok (etcpLoadConn_of_get h.listener)]
    obtain ⟨w', hserver, hsame | ⟨B, newIn, newOut, hB, hframe, hnew⟩⟩ :=
      etcpHandleServer_cases ops h.listening ha
    · exact .inr ⟨w', hrun.trans hserver, h.of_same hsame⟩
    · refine .inr ⟨w', hrun.trans hserver, h.change (h.apart_of_absent hB) hframe ?_⟩
      exact .inr ⟨_, hnew, rfl⟩
  · have hrefines := etcpHandlePipe_refines ops hB k a
    rcases hhandle : Vmecs.etcpHandle ops a.fuel k P with _ | ⟨res, P'⟩
    · rw [hhandle] at hrefines
      exact .inl hrefines
    rw [hhandle] at hrefines
    obtain ⟨w', hrun, hframe, hafter⟩ := hrefines
    refine .inr ⟨w', hrun, h.change (h.apart_of_holds hB) hframe ?_⟩
    split at hafter
    · exact .inl hafter
    · have hstep : EtcpStep ops P ⟨k, res⟩ P' := ⟨hB.kept, a.fuel, hhandle⟩
      have hkept := etcpStep_of_not_removed hstep (Bool.not_eq_true _ ▸ ‹_›)
      refine .inr ⟨P', hafter, ?_⟩
      simp only [hkept.2.1, hn]

end Sound

/-- Two records of a live pair: each is the other's pair, the inbound socket of each is the outbound
socket of the other, and both have counted as many ends of streams. -/
structure Linked (w : EtcpHeap σ) (p q : ℕ) (c d : EtcpConnBlock) : Prop where
  records : w.conns.get p = some c ∧ w.conns.get q = some d ∧ p ≠ q
  pair : c.pair = some q ∧ d.pair = some p
  swapped : c.outSock = some d.inSock ∧ d.outSock = some c.inSock
  sockets : (w.socks.get c.inSock).isSome ∧ (w.socks.get d.inSock).isSome ∧ c.inSock ≠ d.inSock
  nclosed : c.nclosed = d.nclosed

/-- The life cycle of the records and sockets of a worker is sound: what is registered is exactly
the listener's record and the two linked records of each live pair, all the records that there are;
no two records have one inbound socket; and whatever an event of a registered record leads to, no
record and no socket is used or freed that has been freed. -/
structure SoundLifeCycle (ops : TcpSocketOps σ) (server : TcpEndpoint σ) (w : EtcpHeap σ) :
    Prop where
  listener : w.conns.get 0 = some ⟨server.fd, -1, 0, none, none, 0⟩ ∧ w.socks.get 0 = some server
  registered : ∀ p, (∃ fd, w.epoll fd = some p) ↔ p = 0 ∨ ∃ q c d, w.Linked p q c d
  records : ∀ p, (∃ fd, w.epoll fd = some p) ↔ ∃ c, w.conns.get p = some c
  once : ∀ fd fd' p, w.epoll fd = some p → w.epoll fd' = some p → fd = fd'
  linked : ∀ p q c, w.conns.get p = some c → c.pair = some q → ∃ d, w.Linked p q c d
  owner : ∀ p p' c c', w.conns.get p = some c → w.conns.get p' = some c' →
    c.inSock = c'.inSock → p = p'
  faultless : ∀ fd p, w.epoll fd = some p → ∀ a : EtcpAnswers σ, a.Valid w →
    EtcpHeap.etcpHandle ops a p w ≠ .error .fault

theorem Holds.linked (h : w.Holds B P) (hn : P.nclosed .conn1 = P.nclosed .conn2)
    (k : EtcpRelayConn) :
    w.Linked (B.conn k) (B.conn k.pair) (block B P k) (block B P k.pair) where
  records := ⟨h.conns k, h.conns k.pair, (h.conn_pair_ne k).symm⟩
  pair := ⟨rfl, by simp [block]⟩
  swapped := ⟨rfl, by simp [block]⟩
  sockets := ⟨by simp [block, h.socks k], by simp [block, h.socks k.pair], (h.sock_pair_ne k).symm⟩
  nclosed := by
    rcases k with _ | _
    · exact hn
    · exact hn.symm

theorem Sound.lifeCycle {server : TcpEndpoint σ} (h : w.Sound server) :
    w.SoundLifeCycle ops server := by
  have hlive : ∀ p c, w.conns.get p = some c → ∃ fd, w.epoll fd = some p := fun p c hp ↦ by
    obtain ⟨s, -, -, hregistered⟩ := h.inbound hp
    exact ⟨_, hregistered⟩
  refine ⟨⟨h.listener, h.listening⟩, fun p ↦ ⟨?_, ?_⟩, fun p ↦ ⟨?_, ?_⟩, fun fd fd' p hp hp' ↦ ?_,
    fun p q c hp hq ↦ ?_, h.owner, fun fd p hp a ha hfault ↦ ?_⟩
  · rintro ⟨fd, hp⟩
    obtain ⟨c, hc, -⟩ := h.epoll fd p hp
    obtain hzero | ⟨B, P, k, hB, hn, rfl⟩ := h.pairs p c hc
    · exact .inl hzero
    · exact .inr ⟨_, _, _, hB.linked hn k⟩
  · rintro (rfl | ⟨q, c, d, hlinked⟩)
    · exact ⟨_, h.registered⟩
    · exact hlive p c hlinked.records.1
  · rintro ⟨fd, hp⟩
    obtain ⟨c, hc, -⟩ := h.epoll fd p hp
    exact ⟨c, hc⟩
  · rintro ⟨c, hc⟩
    exact hlive p c hc
  · obtain ⟨c, hc, rfl⟩ := h.epoll fd p hp
    obtain ⟨c', hc', rfl⟩ := h.epoll fd' p hp'
    rw [Option.some.inj (hc.symm.trans hc')]
  · obtain ⟨rfl, rfl⟩ | ⟨B, P, k, hB, hn, rfl, rfl⟩ := h.record_cases hp
    · exact absurd hq (by simp)
    · obtain rfl := Option.some.inj hq
      exact ⟨_, hB.linked hn k⟩
  · obtain hwaits | ⟨w', hok, -⟩ := h.handle ops hp ha
    · exact absurd (hwaits.symm.trans hfault) (by simp)
    · exact absurd (hok.symm.trans hfault) (by simp)

end EtcpHeap

/-- **In every state that a worker reaches, the life cycle of its records and sockets is sound.** -/
theorem etcpWorker_soundLifeCycle {ops : TcpSocketOps σ} {server : TcpEndpoint σ}
    {es : List (EtcpDispatch σ)} {w : EtcpHeap σ}
    (h : Run (EtcpWorkerStep ops) (EtcpHeap.start server) es w) : w.SoundLifeCycle ops server := by
  refine EtcpHeap.Sound.lifeCycle ?_
  refine h.invariant (I := fun _ w ↦ w.Sound server) (EtcpHeap.Sound.start server) ?_
  rintro es w₁ e w₂ hsound ⟨⟨fd, hfd⟩, ha, hhandle⟩
  obtain hwaits | ⟨w', hok, hsound'⟩ := hsound.handle ops hfd ha
  · exact absurd (hhandle.symm.trans hwaits) (by simp)
  · obtain ⟨-, rfl⟩ := Prod.mk.inj (Except.ok.inj (hhandle.symm.trans hok))
    exact hsound'

/-! ### At a run -/

/-- A listening socket. -/
def sampleListener : TcpEndpoint NativeTcpSocket := ⟨3, [], {}⟩

/-- What the calls return: a socket whose connection fails is accepted, and the outbound gets
connected; the descriptors are these. -/
def sampleAnswers (inFd outFd : ℤ) : EtcpAnswers NativeTcpSocket where
  accept := some ⟨inFd, [.fail], {}⟩
  handshake s := (true, s)
  client := (⟨outFd, [], {}⟩, true)
  fuel := 1

theorem sampleAnswers_valid {w : EtcpHeap NativeTcpSocket} {inFd outFd : ℤ} (hne : inFd ≠ outFd)
    (h : ∀ p < w.socks.next, ∀ s, w.socks.get p = some s → s.fd ≠ inFd ∧ s.fd ≠ outFd) :
    (sampleAnswers inFd outFd).Valid w where
  accept newIn hnew p s hp := by
    obtain rfl := Option.some.inj hnew
    exact (h p (BlockHeap.lt_next_of_get hp) s hp).1
  client p s hp := (h p (BlockHeap.lt_next_of_get hp) s hp).2
  distinct newIn hnew := by
    obtain rfl := Option.some.inj hnew
    exact hne

/-- The heap after an event, if it is handled. -/
def EtcpHeap.after (ops : TcpSocketOps σ) (e : EtcpDispatch σ) (w : EtcpHeap σ) : EtcpHeap σ :=
  match etcpHandle ops e.answers e.ptr w with
  | .ok (_, w') => w'
  | .error _ => w

/-- A pair comes and, at the first event of one of its records, goes: only the listener is left. -/
theorem etcpWorker_soundLifeCycle_sampleListener :
    ∃ w, Run (EtcpWorkerStep nativeTcpSocketOps) (EtcpHeap.start sampleListener)
        [⟨0, sampleAnswers 4 5⟩, ⟨1, sampleAnswers 6 7⟩] w ∧
      w.SoundLifeCycle nativeTcpSocketOps sampleListener ∧ w.epoll 3 = some 0 ∧
      w.epoll 4 = none ∧ w.epoll 5 = none := by
  set w₁ := (EtcpHeap.start sampleListener).after nativeTcpSocketOps ⟨0, sampleAnswers 4 5⟩
  set w₂ := w₁.after nativeTcpSocketOps ⟨1, sampleAnswers 6 7⟩
  have h₁ : Run (EtcpWorkerStep nativeTcpSocketOps) (EtcpHeap.start sampleListener)
      ([] ++ [⟨0, sampleAnswers 4 5⟩]) w₁ :=
    .snoc .nil ⟨⟨3, rfl⟩, sampleAnswers_valid (by decide) fun
      | 0, _, _, rfl => by decide, rfl⟩
  have h₂ : Run (EtcpWorkerStep nativeTcpSocketOps) (EtcpHeap.start sampleListener)
      ([⟨0, sampleAnswers 4 5⟩] ++ [⟨1, sampleAnswers 6 7⟩]) w₂ :=
    .snoc h₁ ⟨⟨4, rfl⟩, sampleAnswers_valid (by decide) fun
      | 0, _, _, rfl => by decide
      | 1, _, _, rfl => by decide
      | 2, _, _, rfl => by decide, rfl⟩
  exact ⟨w₂, h₂, etcpWorker_soundLifeCycle h₂, rfl, rfl, rfl⟩

end Vmecs
