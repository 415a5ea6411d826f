import Mathlib.Data.List.Forall2
import Vmecs.Lib.Family
import Vmecs.Lib.Grows
import Vmecs.Proto.Relay.Forwarding
import Vmecs.Proto.Relay.LifeCycle

/-!
# The worker relays its pairs side by side

A worker with its heap of records and sockets does what a family of relayed pairs does in which
every pair runs on its own (`etcpWorker_refines`): an event of the listening socket is a pair that
joins, if the calls connect two sockets, and an event of any other record is a step of its pair.
A pair is named by where its blocks are; these are never used again, so a pair joins once.

So what is known of the runs of one pair holds of each of the pairs of a worker, whatever is done
with the others in between. `etcpWorker_forwards` is an instance: no data of one connection comes
out of another.
-/

namespace Vmecs

open EtcpM

variable {σ : Type} {α : Type}

/-- Two pairs are where their first and their second records, sockets and descriptors are. -/
instance : DecidableEq EtcpPairBlocks := fun B B' ↦
  decidable_of_iff ((B.conn .conn1 = B'.conn .conn1 ∧ B.conn .conn2 = B'.conn .conn2) ∧
      (B.sock .conn1 = B'.sock .conn1 ∧ B.sock .conn2 = B'.sock .conn2) ∧
      B.fd .conn1 = B'.fd .conn1 ∧ B.fd .conn2 = B'.fd .conn2) <| by
    obtain ⟨conn, sock, fd⟩ := B
    obtain ⟨conn', sock', fd'⟩ := B'
    have hext : ∀ {β : Type} {f g : EtcpRelayConn → β},
        f .conn1 = g .conn1 ∧ f .conn2 = g .conn2 ↔ f = g := fun {β f g} ↦
      ⟨fun h ↦ funext (EtcpRelayConn.forall_of_pair .conn1 h.1 h.2), fun h ↦ h ▸ ⟨rfl, rfl⟩⟩
    simp only [hext, EtcpPairBlocks.mk.injEq]

/-! ### Numbers are given once -/

namespace EtcpHeap

/-- The numbers from which on no block was ever given one. -/
def nexts (w : EtcpHeap σ) : ℕ × ℕ := (w.conns.next, w.socks.next)

section Grows

theorem grows_loadConn (p : ℕ) : Grows nexts (etcpLoadConn p : EtcpM σ EtcpConnBlock) := by
  intro w a w' h
  rw [etcpLoadConn] at h
  split at h
  · cases h
    exact le_rfl
  · cases h

theorem grows_modifyConn (p : ℕ) (f : EtcpConnBlock → EtcpConnBlock) :
    Grows nexts (etcpModifyConn p f : EtcpM σ Unit) := by
  intro w a w' h
  rw [etcpModifyConn] at h
  split at h
  · cases h
    exact le_rfl
  · cases h

theorem grows_connFree (p : ℕ) : Grows nexts (etcpRelayConnFree p : EtcpM σ Unit) := by
  intro w a w' h
  rw [etcpRelayConnFree] at h
  split at h
  · cases h
    exact le_rfl
  · cases h

theorem grows_connNew (inFd outFd : ℤ) (inSock : ℕ) (outSock : Option ℕ) :
    Grows nexts (etcpRelayConnNew inFd outFd inSock outSock : EtcpM σ ℕ) := by
  intro w a w' h
  cases h
  exact Prod.mk_le_mk.2 ⟨Nat.le_succ _, le_rfl⟩

theorem grows_loadSocket (p : ℕ) : Grows nexts (tcpLoadSocket p : EtcpM σ (TcpEndpoint σ)) := by
  intro w a w' h
  rw [tcpLoadSocket] at h
  split at h
  · cases h
    exact le_rfl
  · cases h

theorem grows_modifySocket (p : ℕ) (f : σ → σ) :
    Grows nexts (tcpModifySocket p f : EtcpM σ Unit) := by
  intro w a w' h
  rw [tcpModifySocket] at h
  split at h
  · cases h
    exact le_rfl
  · cases h

theorem grows_socketFree (p : ℕ) : Grows nexts (tcpSocketFree p : EtcpM σ Unit) := by
  intro w a w' h
  rw [tcpSocketFree] at h
  split at h
  · cases h
    exact le_rfl
  · cases h

theorem grows_socketNew (s : TcpEndpoint σ) : Grows nexts (tcpSocketNew s : EtcpM σ ℕ) := by
  intro w a w' h
  cases h
  exact Prod.mk_le_mk.2 ⟨le_rfl, Nat.le_succ _⟩

theorem grows_epollAdd (fd : ℤ) (p : ℕ) : Grows nexts (fdEpollAdd fd p : EtcpM σ Unit) := by
  intro w a w' h
  cases h
  exact le_rfl

theorem grows_epollDel (fd : ℤ) : Grows nexts (fdEpollDel fd : EtcpM σ Unit) := by
  intro w a w' h
  cases h
  exact le_rfl

theorem grows_notNull (p : Option ℕ) : Grows nexts (etcpNotNull p : EtcpM σ ℕ) := by
  rcases p with _ | p
  · exact .throw _
  · exact .pure _

theorem grows_revent (p : ℕ) : Grows nexts (tcpSocketRevent p : EtcpM σ ℤ) :=
  (grows_loadSocket p).bind fun _ ↦ .pure _

variable (ops : TcpSocketOps σ)

theorem grows_pump (fuel p q : ℕ) : Grows nexts (etcpPumpSockets ops fuel p q) := by
  refine (grows_loadSocket p).bind fun i ↦ (grows_loadSocket q).bind fun o ↦ ?_
  rcases etcpPump ops fuel i.sock o.sock with _ | ⟨res, i', o'⟩
  · exact .throw _
  · exact (grows_modifySocket p _).bind fun _ ↦ (grows_modifySocket q _).bind fun _ ↦ .pure _

theorem grows_remove (p : ℕ) : Grows nexts (etcpRemoveConn ops p) := by
  refine (grows_loadConn p).bind fun c ↦ (grows_epollDel _).bind fun _ ↦
    (grows_epollDel _).bind fun _ ↦ (grows_notNull _).bind fun q ↦ ?_
  have hfree {x : EtcpM σ Unit} (hx : Grows nexts x) :
      Grows nexts (do tcpSocketFree c.inSock; tcpSocketFree q; x) :=
    (grows_socketFree _).bind fun _ ↦ (grows_socketFree _).bind fun _ ↦ hx
  have hclose {x : EtcpM σ Unit} (hx : Grows nexts x) :
      Grows nexts (do tcpSocketClose ops c.inSock; tcpSocketClose ops q; x) :=
    (grows_modifySocket _ _).bind fun _ ↦ (grows_modifySocket _ _).bind fun _ ↦ hx
  have hlast : Grows nexts (etcpRelayConnFree p : EtcpM σ Unit) := grows_connFree p
  dsimp only
  rcases c.pair with _ | pair
  · split
    · exact hclose (hfree ((Grows.pure ()).bind fun _ ↦ hlast))
    · exact hfree ((Grows.pure ()).bind fun _ ↦ hlast)
  · split
    · exact hclose (hfree ((grows_connFree pair).bind fun _ ↦ hlast))
    · exact hfree ((grows_connFree pair).bind fun _ ↦ hlast)

theorem grows_outboundClient (a : EtcpAnswers σ) : Grows nexts (tcpOutboundClient ops a) :=
  (grows_socketNew _).bind fun _ ↦ .ite (.pure _) <|
    (grows_modifySocket _ _).bind fun _ ↦ (grows_socketFree _).bind fun _ ↦ .pure _

theorem grows_handlePipe (fuel p i o : ℕ) : Grows nexts (etcpHandlePipe ops fuel p i o) := by
  refine (grows_pump ops fuel i o).bind fun res ↦ .ite ?_ (.ite (.pure _) (grows_remove ops p))
  exact (grows_modifySocket o _).bind fun _ ↦ (grows_modifyConn p _).bind fun _ ↦
    (grows_loadConn p).bind fun _ ↦ (grows_notNull _).bind fun _ ↦
      (grows_modifyConn _ _).bind fun _ ↦ (grows_loadConn p).bind fun _ ↦
        .ite (grows_remove ops p) (.pure _)

theorem grows_handleServer (a : EtcpAnswers σ) (p : ℕ) :
    Grows nexts (etcpHandleServer ops a p) := by
  have haccept : Grows nexts (tcpSocketAccept a p) := by
    refine (grows_loadSocket p).bind fun _ ↦ ?_
    rcases a.accept with _ | s
    · exact .pure _
    · exact (grows_socketNew s).bind fun _ ↦ .pure _
  refine haccept.bind fun newIn ↦ ?_
  rcases newIn with _ | newIn
  · exact .pure _
  have hshake : Grows nexts (tcpSocketHandshake a newIn) :=
    (grows_loadSocket newIn).bind fun _ ↦ (grows_modifySocket newIn _).bind fun _ ↦ .pure _
  have hdiscard : Grows nexts (do
      tcpSocketClose ops newIn
      tcpSocketFree newIn : EtcpM σ Unit) :=
    (grows_modifySocket newIn _).bind fun _ ↦ grows_socketFree newIn
  refine hshake.bind fun _ ↦ .ite ?_ hdiscard
  refine (grows_loadSocket newIn).bind fun _ ↦ (grows_outboundClient ops a).bind fun newOut ↦ ?_
  rcases newOut with _ | newOut
  · exact hdiscard
  · exact (grows_revent newIn).bind fun _ ↦ (grows_revent newOut).bind fun _ ↦
      (grows_connNew _ _ _ _).bind fun _ ↦ (grows_connNew _ _ _ _).bind fun _ ↦
        ((grows_modifyConn _ _).bind fun _ ↦ grows_modifyConn _ _).bind fun _ ↦
          (grows_epollAdd _ _).bind fun _ ↦ grows_epollAdd _ _

/-- No handling makes a number new again. -/
theorem grows_handle (a : EtcpAnswers σ) (p : ℕ) : Grows nexts (EtcpHeap.etcpHandle ops a p) := by
  refine (grows_loadConn p).bind fun c ↦ ?_
  rcases c.outSock with _ | o
  · exact grows_handleServer ops a c.inSock
  · exact grows_handlePipe ops a.fuel p c.inSock o

end Grows

/-! ### The pairs on the heap -/

/-- **The heap is that of a family of pairs.** It holds the pairs that are not removed, nothing is
left of those that are, and there are no records but theirs and that of the listening socket. No two
pairs have a record in common, also when they are removed. -/
structure Represents (w : EtcpHeap σ) (F : EtcpPairBlocks → Option (EtcpPair σ)) : Prop where
  holds : ∀ B P, F B = some P → P.removed = false → w.Holds B P
  gone : ∀ B P, F B = some P → P.removed = true →
    ∀ k, w.conns.get (B.conn k) = none ∧ w.socks.get (B.sock k) = none
  records : ∀ p c, w.conns.get p = some c → p = 0 ∨
    ∃ B P k, F B = some P ∧ P.removed = false ∧ p = B.conn k
  below : ∀ B P, F B = some P → ∀ k, B.conn k < w.conns.next ∧ B.sock k < w.socks.next
  apart : ∀ B B' P P' k k', F B = some P → F B' = some P' → B.conn k = B'.conn k' → B = B'

variable {ops : TcpSocketOps σ} {w w' : EtcpHeap σ} {B B' : EtcpPairBlocks} {P P' : EtcpPair σ}
  {k : EtcpRelayConn} {F : EtcpPairBlocks → Option (EtcpPair σ)} {server : TcpEndpoint σ}

theorem Same.holds (h : Same w w') (hB : w.Holds B P) : w'.Holds B P where
  kept := hB.kept
  conn_ne := hB.conn_ne
  sock_ne := hB.sock_ne
  conns := h.conns ▸ hB.conns
  socks k := (h.socks _).trans (hB.socks k)
  epoll := h.epoll ▸ hB.epoll

namespace Represents

theorem start (server : TcpEndpoint σ) : (EtcpHeap.start server).Represents fun _ ↦ none where
  holds _ _ h := absurd h (by simp)
  gone _ _ h := absurd h (by simp)
  records p c hp := by
    obtain ⟨rfl, -⟩ | habsurd := BlockHeap.get_alloc_eq_some.1 hp
    · exact .inl rfl
    · exact absurd habsurd (by simp)
  below _ _ h := absurd h (by simp)
  apart _ _ _ _ _ _ h := absurd h (by simp)

theorem of_same (h : w.Represents F) (hsame : Same w w') (hnext : w.nexts ≤ w'.nexts) :
    w'.Represents F where
  holds B P hF hP := hsame.holds (h.holds B P hF hP)
  gone B P hF hP k := by
    rw [hsame.conns, hsame.socks]
    exact h.gone B P hF hP k
  records := hsame.conns ▸ h.records
  below B P hF k := by
    obtain ⟨hconn, hsock⟩ := h.below B P hF k
    exact ⟨hconn.trans_le hnext.1, hsock.trans_le hnext.2⟩
  apart := h.apart

/-- A pair apart from one that changes stays as it is. -/
theorem holds_of_ne (h : w.Represents F) (hapart : w.Apart B) (hframe : Frame B w w')
    (hconn : ∀ j k, B'.conn j ≠ B.conn k) (hF : F B' = some P') (hP : P'.removed = false) :
    w'.Holds B' P' := by
  have hB' := h.holds B' P' hF hP
  have hout := fun j ↦ hapart.outside _ _ (hB'.conns j) (hconn j)
  exact hframe.holds hB' hconn (fun j ↦ (hout j).1) fun j ↦ (hout j).2.1

/-- **One pair changes**, or comes to be: what becomes of it, and that all else is as it was. -/
theorem update (h : w.Represents F) (hapart : w.Apart B)
    (hframe : Frame B w w') (hnext : w.nexts ≤ w'.nexts)
    (hconn : ∀ B' P', F B' = some P' → B' ≠ B → ∀ j k, B'.conn j ≠ B.conn k)
    (hsock : ∀ B' P', F B' = some P' → P'.removed = true → B' ≠ B → ∀ j k, B'.sock j ≠ B.sock k)
    (hbelow : ∀ k, B.conn k < w'.conns.next ∧ B.sock k < w'.socks.next)
    (hafter : if P.removed then w'.Dropped B else w'.Holds B P) :
    w'.Represents (Function.update F B (some P)) := by
  have hof : ∀ {B' P'}, Function.update F B (some P) B' = some P' →
      B' = B ∧ P' = P ∨ B' ≠ B ∧ F B' = some P' := fun {B' P'} hF ↦ by
    rcases eq_or_ne B' B with rfl | hne
    · rw [Function.update_self] at hF
      exact .inl ⟨rfl, (Option.some.inj hF).symm⟩
    · rw [Function.update_of_ne hne] at hF
      exact .inr ⟨hne, hF⟩
  refine ⟨fun B' P' hF hP ↦ ?_, fun B' P' hF hP j ↦ ?_, fun p c hp ↦ ?_, fun B' P' hF j ↦ ?_,
    fun B₁ B₂ P₁ P₂ k₁ k₂ h₁ h₂ heq ↦ ?_⟩
  · obtain ⟨rfl, rfl⟩ | ⟨hne, hF⟩ := hof hF
    · rwa [hP, if_neg Bool.false_ne_true] at hafter
    · exact h.holds_of_ne hapart hframe (hconn B' P' hF hne) hF hP
  · obtain ⟨rfl, rfl⟩ | ⟨hne, hF⟩ := hof hF
    · rw [hP, if_pos rfl] at hafter
      exact ⟨hafter.conns j, hafter.socks j⟩
    · obtain ⟨hc, hs⟩ := h.gone B' P' hF hP j
      exact ⟨(hframe.conns _ (hconn B' P' hF hne j)).trans hc,
        (hframe.socks _ (hsock B' P' hF hP hne j)).trans hs⟩
  · obtain ⟨k, rfl⟩ | ⟨hne, hp⟩ := hframe.conns_cases hp
    · rcases hP : P.removed with _ | _
      · exact .inr ⟨B, P, k, Function.update_self .., hP, rfl⟩
      · rw [hP, if_pos rfl] at hafter
        exact absurd ((hafter.conns k).symm.trans hp) (by simp)
    · obtain rfl | ⟨B', P', k', hF, hP, rfl⟩ := h.records p c hp
      · exact .inl rfl
      · have hB' : B' ≠ B := fun heq ↦ hne k' (heq ▸ rfl)
        exact .inr ⟨B', P', k', (Function.update_of_ne hB' ..).trans hF, hP, rfl⟩
  · obtain ⟨rfl, rfl⟩ | ⟨-, hF⟩ := hof hF
    · exact hbelow j
    · obtain ⟨hc, hs⟩ := h.below B' P' hF j
      exact ⟨hc.trans_le hnext.1, hs.trans_le hnext.2⟩
  · obtain ⟨rfl, rfl⟩ | ⟨hne₁, hF₁⟩ := hof h₁ <;> obtain ⟨rfl, rfl⟩ | ⟨hne₂, hF₂⟩ := hof h₂
    · rfl
    · exact absurd heq.symm (hconn B₂ P₂ hF₂ hne₂ k₂ k₁)
    · exact absurd heq (hconn B₁ P₁ hF₁ hne₁ k₁ k₂)
    · exact h.apart B₁ B₂ P₁ P₂ k₁ k₂ hF₁ hF₂ heq

end Represents

end EtcpHeap

/-! ### The worker refines the family -/

/-- What an event of a worker is for its pairs. -/
inductive EtcpDispatch.Means (d : EtcpDispatch σ) :
    FamilyEvent EtcpPairBlocks (EtcpPair σ) EtcpEvent → Prop where
  /-- the listening socket, without a new pair -/
  | idle (hptr : d.ptr = 0) (hopened : d.answers.opened = none) : d.Means .idle
  /-- the listening socket, and a pair of the two sockets that the calls connect -/
  | opened {B : EtcpPairBlocks} {newIn newOut : TcpEndpoint σ} (hptr : d.ptr = 0)
    (hopened : d.answers.opened = some (newIn, newOut)) (hin : B.fd .conn1 = newIn.fd)
    (hout : B.fd .conn2 = newOut.fd) : d.Means (.join B (etcpPairNew newIn.sock newOut.sock))
  /-- a record of a pair -/
  | handled {B : EtcpPairBlocks} {e : EtcpEvent} (hptr : d.ptr = B.conn e.conn) :
    d.Means (.move B e)

namespace EtcpHeap

variable {ops : TcpSocketOps σ} {w w' : EtcpHeap σ} {server : TcpEndpoint σ} {d : EtcpDispatch σ}
  {F : EtcpPairBlocks → Option (EtcpPair σ)} {es : List (EtcpDispatch σ)}
  {fs : List (FamilyEvent EtcpPairBlocks (EtcpPair σ) EtcpEvent)}

/-- A step keeps the invariant of a worker. -/
theorem Sound.step (h : w.Sound server) (hstep : EtcpWorkerStep ops w d w') : w'.Sound server := by
  obtain ⟨⟨fd, hfd⟩, hvalid, hhandle⟩ := hstep
  obtain hwaits | ⟨w₁, hok, hsound⟩ := h.handle ops hfd hvalid
  · exact absurd (hhandle.symm.trans hwaits) (by simp)
  · obtain rfl := (Prod.mk.inj (Except.ok.inj (hok.symm.trans hhandle))).2
    exact hsound

/-- **One turn of the worker** is a step of the family. -/
theorem Represents.step (h : w.Represents F) (hsound : w.Sound server)
    (hstep : EtcpWorkerStep ops w d w') :
    ∃ e F', FamilyStep (EtcpStep ops) F e F' ∧ d.Means e ∧ w'.Represents F' := by
  obtain ⟨⟨fd, hfd⟩, hvalid, hhandle⟩ := hstep
  obtain ⟨c, hc, -⟩ := hsound.epoll fd _ hfd
  have hnext : w.nexts ≤ w'.nexts := grows_handle ops d.answers d.ptr w () w' hhandle
  obtain hptr | ⟨B, P, k, hF, hP, hptr⟩ := h.records _ c hc
  · -- the listening socket
    obtain ⟨w₁, hserver, hafter⟩ := etcpHandleServer_opened ops hsound.listening hvalid
    obtain rfl : w₁ = w' := by
      rw [hptr, EtcpHeap.etcpHandle, bind_of_ok (etcpLoadConn_of_get hsound.listener)] at hhandle
      exact (Prod.mk.inj (Except.ok.inj (hserver.symm.trans hhandle))).2
    rcases hopened : d.answers.opened with _ | ⟨newIn, newOut⟩
    · rw [hopened] at hafter
      exact ⟨.idle, F, .idle, .idle hptr hopened, h.of_same hafter hnext⟩
    · rw [hopened] at hafter
      obtain ⟨B, rfl, habsent, hframe, hnew⟩ := hafter
      set B := newBlocks w.conns.next w.socks.next (w.socks.next + 1) newIn.fd newOut.fd with hB
      have hlt : ∀ B' P', F B' = some P' → ∀ j k, B'.conn j ≠ B.conn k ∧ B'.sock j ≠ B.sock k := by
        intro B' P' hF j
        obtain ⟨hconn, hsock⟩ := h.below B' P' hF j
        rintro (_ | _)
        · exact ⟨Nat.ne_of_lt hconn, Nat.ne_of_lt hsock⟩
        · exact ⟨Nat.ne_of_lt (Nat.lt_succ_of_lt hconn), Nat.ne_of_lt (Nat.lt_succ_of_lt hsock)⟩
      have hF : F B = none := by
        rcases hF : F B with _ | P'
        · rfl
        · exact absurd rfl (hlt B P' hF .conn1 .conn1).1
      refine ⟨.join B _, _, .join hF, .opened hptr hopened rfl rfl,
        h.update (hsound.apart_of_absent habsent) hframe hnext
          (fun B' P' hF' _ j k ↦ (hlt B' P' hF' j k).1)
          (fun B' P' hF' _ _ j k ↦ (hlt B' P' hF' j k).2) (fun k ↦ ⟨?_, ?_⟩) hnew⟩
      · exact BlockHeap.lt_next_of_get (hnew.conns k)
      · exact BlockHeap.lt_next_of_get (hnew.socks k)
  · -- a record of a pair
    have hholds := h.holds B P hF hP
    have hrefines := etcpHandlePipe_refines ops hholds k d.answers
    rw [hptr] at hhandle
    rcases hpair : Vmecs.etcpHandle ops d.answers.fuel k P with _ | ⟨res, P'⟩
    · rw [hpair] at hrefines
      exact absurd (hhandle.symm.trans hrefines) (by simp)
    rw [hpair] at hrefines
    obtain ⟨w₁, hrun, hframe, hafter⟩ := hrefines
    obtain rfl : w₁ = w' := (Prod.mk.inj (Except.ok.inj (hrun.symm.trans hhandle))).2
    have hconn : ∀ B' P', F B' = some P' → B' ≠ B → ∀ j k, B'.conn j ≠ B.conn k :=
      fun B' P' hF' hne j k heq ↦ hne (h.apart B' B P' P j k hF' hF heq)
    refine ⟨.move B ⟨k, res⟩, _, .move hF ⟨hP, _, hpair⟩, .handled hptr,
      h.update (hsound.apart_of_holds hholds) hframe hnext hconn ?_ (fun j ↦ ?_) hafter⟩
    · intro B' P'' hF' hP' _ i j heq
      exact absurd ((h.gone B' P'' hF' hP' i).2.symm.trans (heq ▸ hholds.socks j)) (by simp)
    · obtain ⟨hc, hs⟩ := h.below B P hF j
      exact ⟨hc.trans_le hnext.1, hs.trans_le hnext.2⟩

end EtcpHeap

namespace EtcpHeap

variable {ops : TcpSocketOps σ} {w : EtcpHeap σ} {server : TcpEndpoint σ}
  {es : List (EtcpDispatch σ)}

theorem refines_of_run (h : Run (EtcpWorkerStep ops) (EtcpHeap.start server) es w) :
    w.Sound server ∧ ∃ fs F,
      Run (FamilyStep (EtcpStep ops)) (fun _ : EtcpPairBlocks ↦ none) fs F ∧
        List.Forall₂ EtcpDispatch.Means es fs ∧ w.Represents F := by
  refine h.invariant (I := fun es w ↦ w.Sound server ∧ ∃ fs F,
    Run (FamilyStep (EtcpStep ops)) (fun _ : EtcpPairBlocks ↦ none) fs F ∧
      List.Forall₂ EtcpDispatch.Means es fs ∧ w.Represents F)
    ⟨Sound.start server, [], _, .nil, .nil, .start server⟩ ?_
  rintro es w d w' ⟨hsound, fs, F, hrun, hmeans, hF⟩ hstep
  obtain ⟨e, F', hfamily, hde, hF'⟩ := hF.step hsound hstep
  refine ⟨hsound.step hstep, fs ++ [e], F', hrun.snoc hfamily, ?_, hF'⟩
  exact List.rel_append hmeans (.cons hde .nil)

end EtcpHeap

/-- **The worker refines the family of its pairs.** Every run of a worker is one of a family of
pairs, event by event, and the heap is that of the family. -/
theorem etcpWorker_refines {ops : TcpSocketOps σ} {server : TcpEndpoint σ}
    {es : List (EtcpDispatch σ)} {w : EtcpHeap σ}
    (h : Run (EtcpWorkerStep ops) (EtcpHeap.start server) es w) :
    ∃ fs F, Run (FamilyStep (EtcpStep ops)) (fun _ : EtcpPairBlocks ↦ none) fs F ∧
      List.Forall₂ EtcpDispatch.Means es fs ∧ w.Represents F :=
  (EtcpHeap.refines_of_run h).2

/-! ### A pair among others -/

namespace EtcpHeap

variable {ops : TcpSocketOps σ} {w : EtcpHeap σ} {server : TcpEndpoint σ}
  {es : List (EtcpDispatch σ)} {B : EtcpPairBlocks} {P : EtcpPair σ}

/-- What a worker has done for a pair that is on its heap: it has connected the two sockets, and
the pair has run from there, through the events of its two records and no others. -/
structure History (ops : TcpSocketOps σ) (es : List (EtcpDispatch σ)) (B : EtcpPairBlocks)
    (newIn newOut : TcpEndpoint σ) (es' : List EtcpEvent) (P : EtcpPair σ) : Prop where
  opened : ∃ d ∈ es, d.ptr = 0 ∧ d.answers.opened = some (newIn, newOut)
  run : Run (EtcpStep ops) (etcpPairNew newIn.sock newOut.sock) es' P
  events : es'.map (fun e ↦ B.conn e.conn) =
    (es.map EtcpDispatch.ptr).filter fun p ↦ p = B.conn .conn1 ∨ p = B.conn .conn2

/-- A pair that joins has been opened by an event. -/
theorem exists_opened {fs : List (FamilyEvent EtcpPairBlocks (EtcpPair σ) EtcpEvent)}
    (hmeans : List.Forall₂ EtcpDispatch.Means es fs) (hjoin : .join B P ∈ fs) :
    ∃ d ∈ es, d.Means (.join B P) := by
  induction hmeans with
  | nil => exact absurd hjoin List.not_mem_nil
  | @cons d e es fs hde _ ih =>
    rcases List.mem_cons.1 hjoin with rfl | hjoin
    · exact ⟨d, List.mem_cons_self .., hde⟩
    · obtain ⟨d', hd', hde'⟩ := ih hjoin
      exact ⟨d', List.mem_cons_of_mem _ hd', hde'⟩

/-- The events of a pair are those of its records. -/
theorem moves_eq {fs : List (FamilyEvent EtcpPairBlocks (EtcpPair σ) EtcpEvent)}
    (hmeans : List.Forall₂ EtcpDispatch.Means es fs) (hzero : ∀ k, 0 ≠ B.conn k)
    (hapart : ∀ B' e, .move B' e ∈ fs → B' ≠ B → ∀ j k, B'.conn j ≠ B.conn k) :
    (fs.filterMap (·.moves B)).map (fun e ↦ B.conn e.conn) =
      (es.map EtcpDispatch.ptr).filter fun p ↦ p = B.conn .conn1 ∨ p = B.conn .conn2 := by
  have hnot : ∀ p, (∀ k, p ≠ B.conn k) → ¬(p = B.conn .conn1 ∨ p = B.conn .conn2) :=
    fun p hp h ↦ h.elim (hp .conn1) (hp .conn2)
  induction hmeans with
  | nil => rfl
  | @cons d e es fs hde _ ih =>
    have hrest := ih fun B' e' he' ↦ hapart B' e' (List.mem_cons_of_mem _ he')
    rcases hde with ⟨hptr, -⟩ | ⟨hptr, -, -, -⟩ | @⟨B', e, hptr⟩
    · simpa [List.filterMap_cons, hptr, hnot 0 hzero] using hrest
    · simpa [List.filterMap_cons, hptr, hnot 0 hzero] using hrest
    · rcases eq_or_ne B' B with rfl | hne
      · have hmem : d.ptr = B'.conn .conn1 ∨ d.ptr = B'.conn .conn2 := by
          rcases hconn : e.conn with _ | _ <;> simp [hptr, hconn]
        simpa [List.filterMap_cons, hmem, ← hptr] using hrest
      · have hp := hnot d.ptr fun k ↦ hptr ▸ hapart B' e (List.mem_cons_self ..) hne e.conn k
        simpa [List.filterMap_cons, hp, FamilyEvent.moves_move_of_ne hne] using hrest

/-- **Every record of a worker is the listener's or one of a pair with a history of its own.** -/
theorem exists_history (h : Run (EtcpWorkerStep ops) (EtcpHeap.start server) es w) {p : ℕ}
    {c : EtcpConnBlock} (hp : w.conns.get p = some c) (hne : p ≠ 0) :
    ∃ B P k newIn newOut es', w.Holds B P ∧ p = B.conn k ∧ B.fd .conn1 = newIn.fd ∧
      B.fd .conn2 = newOut.fd ∧ History ops es B newIn newOut es' P := by
  obtain ⟨hsound, fs, F, hrun, hmeans, hF⟩ := refines_of_run h
  obtain rfl | ⟨B, P, k, hB, hP, rfl⟩ := hF.records p c hp
  · exact absurd rfl hne
  have hholds := hF.holds B P hB hP
  have hmember := hrun.member B
  rw [hB] at hmember
  obtain ⟨P₀, hjoins, hmoves⟩ := hmember.exists_run
  obtain ⟨d, hd, hde⟩ := exists_opened hmeans (FamilyEvent.mem_of_joins hjoins)
  rcases hde with _ | @⟨_, newIn, newOut, hptr, hopened, hin, hout⟩ | _
  refine ⟨B, P, k, newIn, newOut, _, hholds, rfl, hin, hout, ⟨d, hd, hptr, hopened⟩, hmoves,
    moves_eq hmeans (hsound.apart_of_holds hholds).listener fun B' e he hne j k heq ↦ ?_⟩
  obtain ⟨P', hB'⟩ := (hrun.member B').exists_of_mem he
  exact hne (hF.apart B' B P' P j k hB' hB heq)

end EtcpHeap

/-- **Each pair of a worker forwards its own data.** Whatever else the worker does in between, each
of its records is that of a pair whose sockets have been connected to each other, and of each
direction of the pair that has not ended: what has left through the one socket is what has been
accepted of the writes for what has been read from the other one, in order, and that is all of it
exactly if each of these writes was accepted whole. -/
theorem etcpWorker_forwards {C : Crypto} (hC : CfbLaws C) {server : TcpEndpoint TcpSocket}
    {es : List (EtcpDispatch TcpSocket)} {w : EtcpHeap TcpSocket}
    (h : Run (EtcpWorkerStep (tcpSocketOps C)) (EtcpHeap.start server) es w)
    (hready : ∀ d ∈ es, ∀ newIn newOut, d.answers.opened = some (newIn, newOut) →
      newIn.sock.Ready ∧ newOut.sock.Ready)
    {p : ℕ} {c : EtcpConnBlock} (hp : w.conns.get p = some c) (hne : p ≠ 0) :
    ∃ B k newIn newOut es' P, p = B.conn k ∧ w.Holds B P.forget ∧
      EtcpHeap.History (tcpSocketOps C) es B newIn newOut es' P.forget ∧
      Run (EtcpStep (tcpSocketOps C).logged) (etcpPairLogged newIn.sock newOut.sock) es' P ∧
      Forwarding C (etcpPairLogged newIn.sock newOut.sock) P ∧
      ForwardsExactly C (etcpPairLogged newIn.sock newOut.sock) P := by
  obtain ⟨B, P, k, newIn, newOut, es', hholds, rfl, -, -, hhistory⟩ :=
    EtcpHeap.exists_history h hp hne
  obtain ⟨d, hd, -, hopened⟩ := hhistory.opened
  obtain ⟨hin, hout⟩ := hready d hd newIn newOut hopened
  obtain ⟨P', hrun, rfl⟩ :=
    exists_run_logged ((forget_etcpPairLogged newIn.sock newOut.sock).symm ▸ hhistory.run)
  have hforwarding := Forwarding.of_run hC hin hout hrun hholds.kept
  exact ⟨B, k, newIn, newOut, es', P', rfl, hholds, hhistory, hrun, hforwarding,
    hforwarding.exactly⟩

/-! ### At a run -/

/-- What the calls return: three bytes have arrived at the accepted socket, and the other one
accepts them. -/
def forwardAnswers (inFd outFd : ℤ) : EtcpAnswers TcpSocket where
  accept := some ⟨inFd, .native ⟨[.data [1, 2, 3], .again], {}⟩⟩
  handshake s := (true, s)
  client := (⟨outFd, .native ⟨[], ⟨[], [.accept 3], false⟩⟩⟩, true)
  fuel := 2

/-- A listening socket. -/
def forwardListener : TcpEndpoint TcpSocket := ⟨3, .native ⟨[], {}⟩⟩

theorem forwardAnswers_valid {w : EtcpHeap TcpSocket} {inFd outFd : ℤ} (hne : inFd ≠ outFd)
    (h : ∀ p < w.socks.next, ∀ s ∈ w.socks.get p, s.fd ≠ inFd ∧ s.fd ≠ outFd) :
    (forwardAnswers inFd outFd).Valid w where
  accept newIn hnew p s hp := by
    obtain rfl := Option.some.inj hnew
    exact (h p (BlockHeap.lt_next_of_get hp) s hp).1
  client p s hp := (h p (BlockHeap.lt_next_of_get hp) s hp).2
  distinct newIn hnew := by
    obtain rfl := Option.some.inj hnew
    exact hne

/-- The heap after two connections have been accepted and an event of the first handled. -/
def forwardHeap : EtcpHeap TcpSocket :=
  [⟨0, forwardAnswers 4 5⟩, ⟨0, forwardAnswers 6 7⟩, ⟨1, forwardAnswers 8 9⟩].foldl
    (fun w d ↦ w.after (tcpSocketOps openssl) d) (EtcpHeap.start forwardListener)

theorem run_forwardHeap :
    Run (EtcpWorkerStep (tcpSocketOps openssl)) (EtcpHeap.start forwardListener)
      [⟨0, forwardAnswers 4 5⟩, ⟨0, forwardAnswers 6 7⟩, ⟨1, forwardAnswers 8 9⟩] forwardHeap := by
  refine Run.cons ⟨⟨3, rfl⟩, forwardAnswers_valid (by decide) ?_, rfl⟩
    (Run.cons ⟨⟨3, rfl⟩, forwardAnswers_valid (by decide) ?_, rfl⟩
      (Run.cons ⟨⟨4, rfl⟩, forwardAnswers_valid (by decide) ?_, rfl⟩ .nil))
  · decide
  · decide
  · decide

/-- Two pairs have joined, and the first of them has taken a step. -/
theorem etcpWorker_refines_forwardHeap :
    ∃ fs F,
      Run (FamilyStep (EtcpStep (tcpSocketOps openssl))) (fun _ : EtcpPairBlocks ↦ none) fs F ∧
      List.Forall₂ EtcpDispatch.Means
        [⟨0, forwardAnswers 4 5⟩, ⟨0, forwardAnswers 6 7⟩, ⟨1, forwardAnswers 8 9⟩] fs ∧
      forwardHeap.Represents F :=
  etcpWorker_refines run_forwardHeap

theorem ready_of_forwardAnswers {inFd outFd : ℤ} {newIn newOut : TcpEndpoint TcpSocket}
    (h : (forwardAnswers inFd outFd).opened = some (newIn, newOut)) :
    newIn.sock.Ready ∧ newOut.sock.Ready := by
  cases h
  exact ⟨trivial, trivial⟩

/-- The bytes that have arrived at the first pair have left through its own socket. -/
theorem etcpWorker_forwards_forwardHeap :
    (forwardHeap.socks.get 2).map (·.sock.out.sent) = some [1, 2, 3] ∧
    (forwardHeap.socks.get 4).map (·.sock.out.sent) = some [] ∧
    ∃ B k newIn newOut es' P, 1 = B.conn k ∧ forwardHeap.Holds B P.forget ∧
      EtcpHeap.History (tcpSocketOps openssl)
        [⟨0, forwardAnswers 4 5⟩, ⟨0, forwardAnswers 6 7⟩, ⟨1, forwardAnswers 8 9⟩]
        B newIn newOut es' P.forget ∧
      Run (EtcpStep (tcpSocketOps openssl).logged) (etcpPairLogged newIn.sock newOut.sock) es' P ∧
      Forwarding openssl (etcpPairLogged newIn.sock newOut.sock) P ∧
      ForwardsExactly openssl (etcpPairLogged newIn.sock newOut.sock) P := by
  refine ⟨rfl, rfl, ?_⟩
  refine etcpWorker_forwards cfbLaws_openssl run_forwardHeap (fun d hd newIn newOut hopened ↦ ?_)
    (p := 1) rfl Nat.one_ne_zero
  simp only [List.mem_cons, List.not_mem_nil, or_false] at hd
  obtain rfl | rfl | rfl := hd <;> exact ready_of_forwardAnswers hopened

end Vmecs
