import Vmecs.Proto.Relay.Etcp

/-!
# What the relay does with its sockets

A log beside each socket of a pair: what the successful reads have given, and how often the socket
has been closed. The relay runs on sockets with logs as it does on the sockets alone
(`etcpHandle_logged`), so a run with logs is a run (`Run.forget`), and every run has its logs
(`exists_run_logged`).
-/

namespace Vmecs

variable {σ : Type}

/-- A socket, and what has been done with it. -/
structure Logged (σ : Type) where
  sock : σ
  /-- what each successful read has given, in order -/
  read : List Bytes := []
  /-- the number of calls of `tcp_socket_close` -/
  closes : ℕ := 0

/-- The functions of a socket, which keep its log. -/
def TcpSocketOps.logged (ops : TcpSocketOps σ) : TcpSocketOps (Logged σ) where
  tryRead size s := (ops.tryRead size s.sock).map fun (res, buf, sock) ↦
    (res, buf, { s with sock, read := if res > 0 then s.read ++ [buf] else s.read })
  write buf s := (ops.write buf s.sock).map fun (n, sock) ↦ (n, { s with sock })
  close s := { s with sock := ops.close s.sock, closes := s.closes + 1 }

/-- The pair without its logs. -/
def EtcpPair.forget (p : EtcpPair (Logged σ)) : EtcpPair σ :=
  { p with inSock := fun conn ↦ (p.inSock conn).sock }

/-- The pair at its registration, with empty logs. -/
def etcpPairLogged (newIn newOut : σ) : EtcpPair (Logged σ) :=
  etcpPairNew ⟨newIn, [], 0⟩ ⟨newOut, [], 0⟩

theorem forget_etcpPairLogged (newIn newOut : σ) :
    (etcpPairLogged newIn newOut).forget = etcpPairNew newIn newOut := by
  rw [etcpPairLogged, EtcpPair.forget, etcpPairNew, etcpPairNew]
  congr 1
  funext conn
  cases conn <;> rfl

variable (ops : TcpSocketOps σ)

theorem tryRead_logged (size : ℕ) (s : Logged σ) :
    ops.logged.tryRead size s = (ops.tryRead size s.sock).map fun (res, buf, sock) ↦
      (res, buf, { s with sock, read := if res > 0 then s.read ++ [buf] else s.read }) := rfl

theorem write_logged (buf : Bytes) (s : Logged σ) :
    ops.logged.write buf s = (ops.write buf s.sock).map fun (n, sock) ↦ (n, { s with sock }) := rfl

variable {ops} in
/-- A read is one of the socket, with its log. -/
theorem tryRead_logged_eq_some {size : ℕ} {s s' : Logged σ} {res : ℤ} {buf : Bytes}
    (h : ops.logged.tryRead size s = some (res, buf, s')) :
    ∃ sock, ops.tryRead size s.sock = some (res, buf, sock) ∧
      s' = { s with sock, read := if res > 0 then s.read ++ [buf] else s.read } := by
  obtain ⟨⟨res', buf', sock⟩, hread, hr⟩ := Option.map_eq_some_iff.1 h
  obtain ⟨rfl, hbuf⟩ := Prod.mk.inj hr
  obtain ⟨rfl, rfl⟩ := Prod.mk.inj hbuf
  exact ⟨sock, hread, rfl⟩

variable {ops} in
theorem write_logged_eq_some {buf : Bytes} {s s' : Logged σ} {n : ℤ}
    (h : ops.logged.write buf s = some (n, s')) :
    ∃ sock, ops.write buf s.sock = some (n, sock) ∧ s' = { s with sock } := by
  obtain ⟨⟨n', sock⟩, hwrite, hr⟩ := Option.map_eq_some_iff.1 h
  obtain ⟨rfl, rfl⟩ := Prod.mk.inj hr
  exact ⟨sock, hwrite, rfl⟩

/-- The loop, without the logs. -/
theorem etcpPump_logged (fuel : ℕ) (i o : Logged σ) :
    (etcpPump ops.logged fuel i o).map (fun r ↦ (r.1, r.2.1.sock, r.2.2.sock)) =
      etcpPump ops fuel i.sock o.sock := by
  induction fuel generalizing i o with
  | zero => rfl
  | succ fuel ih =>
    rw [etcpPump, etcpPump, tryRead_logged]
    rcases ops.tryRead etcpDefaultBuffer i.sock with _ | ⟨res, buf, i'⟩
    · rfl
    simp only [Option.map_some, Option.bind_eq_bind, Option.bind_some, write_logged]
    by_cases hres : res > 0
    · simp only [hres, if_true]
      rcases ops.write buf o.sock with _ | ⟨n, o'⟩
      · rfl
      simp only [Option.map_some, Option.bind_some]
      by_cases hn : n > 0
      · simp only [hn, if_true]
        exact ih _ _
      · simp only [hn, if_false, Option.map_some]
    · simp only [hres, if_false, Option.map_some]

namespace EtcpPair

variable {ops} (p : EtcpPair (Logged σ)) (conn : EtcpRelayConn)

@[simp] theorem nclosed_forget : p.forget.nclosed = p.nclosed := rfl

theorem forget_setSocks (i o : Logged σ) :
    (p.setSocks conn i o).forget = p.forget.setSocks conn i.sock o.sock := by
  rw [forget, setSocks, setSocks]
  congr 1
  funext c
  rcases conn with _ | _ <;> rcases c with _ | _ <;> rfl

theorem forget_closeIn : (p.closeIn ops.logged conn).forget = p.forget.closeIn ops conn := by
  rw [forget, closeIn, closeIn]
  congr 1
  funext c
  rcases conn with _ | _ <;> rcases c with _ | _ <;> rfl

end EtcpPair

theorem forget_etcpRemoveConn (p : EtcpPair (Logged σ)) (conn : EtcpRelayConn) :
    (etcpRemoveConn ops.logged p conn).forget = etcpRemoveConn ops p.forget conn := by
  rw [etcpRemoveConn, etcpRemoveConn, EtcpPair.nclosed_forget]
  split
  · rw [← EtcpPair.forget_closeIn, ← EtcpPair.forget_closeIn]
    rfl
  · rfl

/-- **The handling of an event**, without the logs. -/
theorem etcpHandle_logged (fuel : ℕ) (conn : EtcpRelayConn) (p : EtcpPair (Logged σ)) :
    (etcpHandle ops.logged fuel conn p).map (fun r ↦ (r.1, r.2.forget)) =
      etcpHandle ops fuel conn p.forget := by
  have hpump := etcpPump_logged ops fuel (p.inSock conn) (p.outSock conn)
  rw [etcpHandle, etcpHandle]
  rw [show p.forget.inSock conn = (p.inSock conn).sock from rfl,
    show p.forget.outSock conn = (p.outSock conn).sock from rfl, ← hpump]
  rcases etcpPump ops.logged fuel (p.inSock conn) (p.outSock conn) with _ | ⟨res, i, o⟩
  · rfl
  simp only [Option.bind_eq_bind, Option.bind_some, Option.map_some, ← EtcpPair.forget_setSocks]
  by_cases hzero : res = 0
  · rw [if_pos hzero, if_pos hzero, Option.map_some, ← EtcpPair.forget_closeIn]
    simp only [EtcpPair.countClosed, EtcpPair.nclosed_forget]
    by_cases hn : ((p.setSocks conn i o).closeIn ops.logged conn.pair).nclosed conn + 1 = 2
    · simp only [hn, if_true, forget_etcpRemoveConn]
      rfl
    · simp only [hn, if_false]
      rfl
  · rw [if_neg hzero, if_neg hzero]
    split
    · rfl
    · rw [Option.map_some, forget_etcpRemoveConn]

variable {ops} {p p' : EtcpPair (Logged σ)} {e : EtcpEvent}

theorem EtcpStep.forget (h : EtcpStep ops.logged p e p') :
    EtcpStep ops p.forget e p'.forget := by
  obtain ⟨hremoved, fuel, hhandle⟩ := h
  refine ⟨hremoved, fuel, ?_⟩
  rw [← etcpHandle_logged, hhandle]
  rfl

theorem exists_etcpStep_logged {q : EtcpPair σ} (h : EtcpStep ops p.forget e q) :
    ∃ p', EtcpStep ops.logged p e p' ∧ p'.forget = q := by
  obtain ⟨hremoved, fuel, hhandle⟩ := h
  rw [← etcpHandle_logged] at hhandle
  obtain ⟨⟨res, p'⟩, hp', hr⟩ := Option.map_eq_some_iff.1 hhandle
  obtain ⟨rfl, rfl⟩ := Prod.mk.inj hr
  exact ⟨p', ⟨hremoved, fuel, hp'⟩, rfl⟩

/-- A run with logs is a run. -/
theorem Run.forget {es : List EtcpEvent} (h : Run (EtcpStep ops.logged) p es p') :
    Run (EtcpStep ops) p.forget es p'.forget := by
  induction h with
  | nil => exact .nil
  | snoc _ he ih => exact .snoc ih he.forget

/-- Every run has its logs. -/
theorem exists_run_logged {es : List EtcpEvent} {q : EtcpPair σ}
    (h : Run (EtcpStep ops) p.forget es q) :
    ∃ p', Run (EtcpStep ops.logged) p es p' ∧ p'.forget = q := by
  induction h with
  | nil => exact ⟨p, .nil, rfl⟩
  | snoc _ he ih =>
    obtain ⟨p₁, hrun, rfl⟩ := ih
    obtain ⟨p₂, hstep, rfl⟩ := exists_etcpStep_logged he
    exact ⟨p₂, .snoc hrun hstep, rfl⟩

end Vmecs
