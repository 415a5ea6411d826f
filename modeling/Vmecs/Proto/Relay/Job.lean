import Vmecs.Lib.Family
import Vmecs.Proto.Relay.Outbound
import Vmecs.Proto.Relay.Tcp

/-!
# The jobs of the threaded relay (`proto/relay/tcp.c`)

The relay starts a thread for each connection that it accepts, the handler of a job. When the job is
connected, its handler starts two more, the reader and the writer, and waits for both. A turn of a
thread is one call on the sockets; the turns of the threads of a job come in any order, and so do
those of different jobs.

The straight-line parts of the handler are lists of statements, so what is left of one is a state of
the handler. The record of the job, its sockets and the target are blocks that may be gone, and a
turn that uses one which is not there is a fault, as is a write of more than the buffer of the
thread holds, and a call of an outbound that fails an assertion or dereferences `NULL`.
-/

namespace Vmecs

variable {σ : Type}

/-! ### The program -/

/-- The fields `in_sock` and `out_sock` of a job. -/
inductive TcpRelayEnd where
  | inSock
  | outSock
  deriving DecidableEq

/-- The socket of the other peer. -/
def TcpRelayEnd.other : TcpRelayEnd → TcpRelayEnd
  | inSock => outSock
  | outSock => inSock

/-- The statements of `_tcp_relay_handler` behind its handshake and its loop. A copying thread is
named after the socket that it reads. -/
inductive TcpRelayStmt where
  /-- `print_target` -/
  | printTarget
  /-- `tcp_socket_close` -/
  | close (e : TcpRelayEnd)
  /-- `tcp_socket_free` -/
  | free (e : TcpRelayEnd)
  /-- `target_id_free` -/
  | targetFree
  /-- `_tcp_relay_job_free` -/
  | jobFree
  /-- `thread_new` -/
  | threadNew (source : TcpRelayEnd)
  /-- `thread_join` -/
  | threadJoin (source : TcpRelayEnd)

open TcpRelayEnd TcpRelayStmt

/-- Behind a handshake that has failed. -/
def tcpRelayRefused : List TcpRelayStmt := [close inSock, free inSock, jobFree]

/-- Behind the last attempt to connect. -/
def tcpRelayGaveUp : List TcpRelayStmt :=
  [printTarget, close inSock, free inSock, targetFree, jobFree]

/-- Behind the loop: `reader` reads `out_sock`, `writer` reads `in_sock`. -/
def tcpRelayConnected : List TcpRelayStmt :=
  [printTarget, threadNew outSock, threadNew inSock, threadJoin outSock, threadJoin inSock,
    free inSock, free outSock, targetFree, jobFree]

/-- Where a handler is. -/
inductive TcpRelayHandler where
  | handshake
  /-- the loop, with the variable `retry` -/
  | connect (retry : ℤ)
  | does (stmts : List TcpRelayStmt)

/-- Where `_tcp_relay_reader` or `_tcp_relay_writer` is. -/
inductive TcpRelayCopier where
  /-- not started -/
  | idle
  | read
  /-- with what has been read, and its length as a `size_t` -/
  | write (buf : Bytes) (nRead : ℕ)
  | close
  | returned
  deriving DecidableEq

/-- A target that the relay has been asked for: a host name has a length of one byte. -/
abbrev ShortTarget := { target : TargetId // target.Short }

/-- `tcp_relay_job_t`, but for its sockets. -/
structure TcpRelayRecord where
  outbound : TcpOutbound
  usable : outbound.Usable
  /-- the `max_connect_retry` of its `config` -/
  maxConnectRetry : ℤ

/-- A job and its threads: the blocks that they share, the variable `target` of the handler and
where each of them is. A block is nothing when it has been freed; the target is nothing before it is
assigned, too, and may be `NULL`. -/
structure TcpRelayJob (σ : Type) where
  record : Option TcpRelayRecord
  sock : TcpRelayEnd → Option σ
  target : Option (Option ShortTarget)
  handler : TcpRelayHandler
  copier : TcpRelayEnd → TcpRelayCopier

/-- `TCP_RELAY_DEFAULT_MAX_CONNECT_RETRY`. -/
def tcpRelayDefaultMaxConnectRetry : ℤ := 5

/-- A job as `tcp_relay` makes it of a `client`. -/
def tcpRelayJobNew (record : TcpRelayRecord) (client : σ) : TcpRelayJob σ where
  record := some record
  sock
    | inSock => some client
    | outSock => none
  target := none
  handler := .handshake
  copier _ := .idle

/-- A job that has got connected. -/
def tcpRelayJobConnected (record : TcpRelayRecord) (target : Option ShortTarget)
    (socks : TcpRelayEnd → σ) : TcpRelayJob σ where
  record := some record
  sock e := some (socks e)
  target := some target
  handler := .does tcpRelayConnected
  copier _ := .idle

/-! ### Turns -/

/-- The functions of a socket that the threads call. -/
structure TcpBlockingOps (σ : Type) where
  read : ℕ → σ → Option (ℤ × Bytes × σ)
  write : Bytes → σ → Option (ℤ × σ)
  close : σ → σ

/-- The functions of a socket, by its kind. -/
def tcpBlockingOps (C : Crypto) : TcpBlockingOps TcpSocket where
  read := tcpSocketRead C
  write := (tcpSocketOps C).write
  close := (tcpSocketOps C).close

/-- What the calls of a handler are answered. -/
structure TcpRelayAnswers (σ : Type) where
  /-- `tcp_socket_handshake`: whether it succeeds, and what it makes of the socket -/
  handshake : σ → Bool × σ
  /-- `tcp_socket_target` -/
  target : Option ShortTarget
  /-- what `tcp_outbound_client` is answered by the calls it makes, and by the other side -/
  calls : SocketCalls
  answered : Reads
  /-- the socket that it returns if it succeeds -/
  client : σ

/-- `tcp_outbound_client`, as the handler calls it: whether a socket is returned. -/
def tcpRelayClient (C : Crypto) (I : Inet) (a : TcpRelayAnswers σ) (record : TcpRelayRecord)
    (target : Option ShortTarget) : Outcome Bool :=
  (TcpOutbound.client I a.calls C record.outbound (target.map (·.1)) a.answered {}).2

/-- The threads of a job. -/
inductive TcpRelayThread where
  | handler
  | copier (source : TcpRelayEnd)

/-- What a turn has called, and what a read or a write has returned. -/
inductive TcpRelayCall where
  | handshake
  | client (connected : Bool)
  | read (source : TcpRelayEnd) (nRead : ℤ) (buf : Bytes)
  | write (sink : TcpRelayEnd) (buf : Bytes) (nWrite : ℤ)
  | close (e : TcpRelayEnd)
  | free (e : TcpRelayEnd)
  | other

/-- Why there is no turn: it would use a block that is not there, or the thread waits, has not
started or has returned. -/
inductive TcpRelayStop where
  | fault
  | waits
  deriving DecidableEq

/-- The result of a turn. -/
abbrev TcpRelayResult (α : Type) := Except TcpRelayStop α

namespace TcpRelayJob

/-- `*job`. -/
def loadRecord (s : TcpRelayJob σ) : TcpRelayResult TcpRelayRecord :=
  match s.record with
  | some record => .ok record
  | none => .error .fault

/-- The variable `target`, which may be `NULL`. -/
def loadTarget (s : TcpRelayJob σ) : TcpRelayResult (Option ShortTarget) :=
  match s.target with
  | some target => .ok target
  | none => .error .fault

theorem loadRecord_eq_ok {s : TcpRelayJob σ} {record : TcpRelayRecord}
    (h : s.loadRecord = .ok record) : s.record = some record := by
  rw [loadRecord] at h
  split at h
  case h_1 hrecord => rw [hrecord, Except.ok.inj h]
  case h_2 => exact absurd h (by simp)

/-- `job->in_sock` or `job->out_sock`, which is dereferenced. -/
def loadSock (s : TcpRelayJob σ) (e : TcpRelayEnd) : TcpRelayResult σ := do
  let _ ← s.loadRecord
  match s.sock e with
  | some sock => .ok sock
  | none => .error .fault

theorem loadSock_eq_ok {s : TcpRelayJob σ} {e : TcpRelayEnd} {sock : σ}
    (h : s.loadSock e = .ok sock) : s.sock e = some sock := by
  rw [loadSock] at h
  rcases hrecord : s.loadRecord with _ | _ <;> rw [hrecord] at h
  · exact absurd h (by simp [bind, Except.bind])
  · simp only [bind, Except.bind] at h
    split at h
    case h_1 hsock => rw [hsock, Except.ok.inj h]
    case h_2 => exact absurd h (by simp)

/-- A socket is changed, or freed. -/
def setSock (s : TcpRelayJob σ) (e : TcpRelayEnd) (sock : Option σ) : TcpRelayJob σ :=
  { s with sock := Function.update s.sock e sock }

/-- A copying thread goes on. -/
def setCopier (s : TcpRelayJob σ) (source : TcpRelayEnd) (c : TcpRelayCopier) : TcpRelayJob σ :=
  { s with copier := Function.update s.copier source c }

variable {s : TcpRelayJob σ} {e e' : TcpRelayEnd} {sock : Option σ} {c : TcpRelayCopier}

@[simp] theorem record_setSock : (s.setSock e sock).record = s.record := rfl

@[simp] theorem target_setSock : (s.setSock e sock).target = s.target := rfl

@[simp] theorem handler_setSock : (s.setSock e sock).handler = s.handler := rfl

@[simp] theorem copier_setSock : (s.setSock e sock).copier = s.copier := rfl

@[simp] theorem sock_setSock_self : (s.setSock e sock).sock e = sock := Function.update_self ..

theorem sock_setSock_of_ne (hne : e' ≠ e) : (s.setSock e sock).sock e' = s.sock e' :=
  Function.update_of_ne hne ..

@[simp] theorem record_setCopier : (s.setCopier e c).record = s.record := rfl

@[simp] theorem target_setCopier : (s.setCopier e c).target = s.target := rfl

@[simp] theorem handler_setCopier : (s.setCopier e c).handler = s.handler := rfl

@[simp] theorem sock_setCopier : (s.setCopier e c).sock = s.sock := rfl

@[simp] theorem copier_setCopier_self : (s.setCopier e c).copier e = c := Function.update_self ..

theorem copier_setCopier_of_ne (hne : e' ≠ e) : (s.setCopier e c).copier e' = s.copier e' :=
  Function.update_of_ne hne ..

end TcpRelayJob

/-- A statement of the handler. -/
def tcpRelayExec (ops : TcpBlockingOps σ) (s : TcpRelayJob σ) :
    TcpRelayStmt → TcpRelayResult (TcpRelayCall × TcpRelayJob σ)
  | printTarget =>
    match s.target with
    | some (some _) => .ok (.other, s)
    | _ => .error .fault
  | close e => do
    let sock ← s.loadSock e
    .ok (.close e, s.setSock e (some (ops.close sock)))
  | free e => do
    let _ ← s.loadSock e
    .ok (.free e, s.setSock e none)
  | targetFree =>
    match s.target with
    | some _ => .ok (.other, { s with target := none })
    | none => .error .fault
  | jobFree => do
    let _ ← s.loadRecord
    .ok (.other, { s with record := none })
  | threadNew source => .ok (.other, s.setCopier source .read)
  | threadJoin source =>
    match s.copier source with
    | .returned => .ok (.other, s)
    | _ => .error .waits

/-- What a statement can do to the sockets and the threads. -/
theorem tcpRelayExec_cases {ops : TcpBlockingOps σ} {stmt : TcpRelayStmt} {s s' : TcpRelayJob σ}
    {call : TcpRelayCall} (h : tcpRelayExec ops s stmt = .ok (call, s')) :
    (∃ e sock, stmt = close e ∧ call = .close e ∧
      s' = s.setSock e (some (ops.close sock))) ∨
    (∃ e, stmt = free e ∧ call = .free e ∧ s' = s.setSock e none) ∨
    (∃ source, stmt = threadNew source ∧ call = .other ∧ s' = s.setCopier source .read) ∨
    (call = .other ∧ s'.sock = s.sock ∧ s'.copier = s.copier ∧
      (s'.record = s.record ∨ s'.record = none)) := by
  rcases stmt with _ | e | e | _ | _ | source | source <;> rw [tcpRelayExec] at h
  · split at h
    · obtain ⟨rfl, rfl⟩ := Prod.mk.inj (Except.ok.inj h)
      exact .inr (.inr (.inr ⟨rfl, rfl, rfl, .inl rfl⟩))
    · exact absurd h (by simp)
  · rcases hsock : s.loadSock e with _ | sock <;> rw [hsock] at h
    · exact absurd h (by simp [bind, Except.bind])
    · obtain ⟨rfl, rfl⟩ := Prod.mk.inj (Except.ok.inj h)
      exact .inl ⟨e, sock, rfl, rfl, rfl⟩
  · rcases hsock : s.loadSock e with _ | sock <;> rw [hsock] at h
    · exact absurd h (by simp [bind, Except.bind])
    · obtain ⟨rfl, rfl⟩ := Prod.mk.inj (Except.ok.inj h)
      exact .inr (.inl ⟨e, rfl, rfl, rfl⟩)
  · split at h
    · obtain ⟨rfl, rfl⟩ := Prod.mk.inj (Except.ok.inj h)
      exact .inr (.inr (.inr ⟨rfl, rfl, rfl, .inl rfl⟩))
    · exact absurd h (by simp)
  · rcases hrecord : s.loadRecord with _ | _ <;> rw [hrecord] at h
    · exact absurd h (by simp [bind, Except.bind])
    · obtain ⟨rfl, rfl⟩ := Prod.mk.inj (Except.ok.inj h)
      exact .inr (.inr (.inr ⟨rfl, rfl, rfl, .inr rfl⟩))
  · obtain ⟨rfl, rfl⟩ := Prod.mk.inj (Except.ok.inj h)
    exact .inr (.inr (.inl ⟨source, rfl, rfl, rfl⟩))
  · split at h
    · obtain ⟨rfl, rfl⟩ := Prod.mk.inj (Except.ok.inj h)
      exact .inr (.inr (.inr ⟨rfl, rfl, rfl, .inl rfl⟩))
    · exact absurd h (by simp)

/-- `_tcp_relay_handler`, from one call to the next. -/
def tcpRelayHandler (C : Crypto) (I : Inet) (ops : TcpBlockingOps σ) (a : TcpRelayAnswers σ)
    (s : TcpRelayJob σ) : TcpRelayResult (TcpRelayCall × TcpRelayJob σ) :=
  match s.handler with
  | .handshake => do
    let sock ← s.loadSock inSock
    let s := s.setSock inSock (some (a.handshake sock).2)
    if (a.handshake sock).1 then
      .ok (.handshake, { s with target := some a.target, handler := .connect 0 })
    else .ok (.handshake, { s with handler := .does tcpRelayRefused })
  | .connect retry => do
    let record ← s.loadRecord
    let target ← s.loadTarget
    match tcpRelayClient C I a record target with
    | .abort => .error .fault
    | .wait _ => .error .waits
    | .done true _ =>
      .ok (.client true,
        { s.setSock outSock (some a.client) with handler := .does tcpRelayConnected })
    | .done false _ =>
      if record.maxConnectRetry ≤ retry + 1 then
        .ok (.client false, { s with handler := .does tcpRelayGaveUp })
      else .ok (.client false, { s with handler := .connect (retry + 1) })
  | .does [] => .error .waits
  | .does (stmt :: stmts) => do
    let (call, s) ← tcpRelayExec ops s stmt
    .ok (call, { s with handler := .does stmts })

/-- What a turn of a handler can be. -/
theorem tcpRelayHandler_cases {C : Crypto} {I : Inet} {ops : TcpBlockingOps σ}
    {a : TcpRelayAnswers σ} {s s' : TcpRelayJob σ} {call : TcpRelayCall}
    (h : tcpRelayHandler C I ops a s = .ok (call, s')) :
    (∃ sock, s.handler = .handshake ∧ s.loadSock inSock = .ok sock ∧ call = .handshake ∧
      (s' = { s.setSock inSock (some (a.handshake sock).2) with
              target := some a.target, handler := .connect 0 } ∨
        s' = { s.setSock inSock (some (a.handshake sock).2) with
              handler := .does tcpRelayRefused })) ∨
    (∃ retry record, s.handler = .connect retry ∧ s.record = some record ∧
      ((call = .client true ∧
          s' = { s.setSock outSock (some a.client) with handler := .does tcpRelayConnected }) ∨
        (call = .client false ∧ s' = { s with handler := .does tcpRelayGaveUp }) ∨
        (call = .client false ∧ retry + 1 < record.maxConnectRetry ∧
          s' = { s with handler := .connect (retry + 1) }))) ∨
    ∃ stmt stmts s₁, s.handler = .does (stmt :: stmts) ∧ tcpRelayExec ops s stmt = .ok (call, s₁) ∧
      s' = { s₁ with handler := .does stmts } := by
  rw [tcpRelayHandler] at h
  rcases hc : s.handler with _ | retry | _ | ⟨stmt, stmts⟩ <;> rw [hc] at h
  · rcases hsock : s.loadSock inSock with _ | sock <;> rw [hsock] at h
    · exact absurd h (by simp [bind, Except.bind])
    · simp only [bind, Except.bind] at h
      split at h <;> obtain ⟨rfl, rfl⟩ := Prod.mk.inj (Except.ok.inj h)
      · exact .inl ⟨sock, rfl, rfl, rfl, .inl rfl⟩
      · exact .inl ⟨sock, rfl, rfl, rfl, .inr rfl⟩
  · rcases hrecord : s.loadRecord with _ | record <;> rw [hrecord] at h
    · exact absurd h (by simp [bind, Except.bind])
    rcases htarget : s.loadTarget with _ | target <;> simp only [htarget, bind, Except.bind] at h
    · exact absurd h (by simp)
    refine .inr (.inl ⟨retry, record, rfl, TcpRelayJob.loadRecord_eq_ok hrecord, ?_⟩)
    rcases hclient : tcpRelayClient C I a record target with ⟨_ | _, rest⟩ | want | _ <;>
      simp only [hclient] at h
    · split at h
      case isTrue =>
        obtain ⟨rfl, rfl⟩ := Prod.mk.inj (Except.ok.inj h)
        exact .inr (.inl ⟨rfl, rfl⟩)
      case isFalse hlt =>
        obtain ⟨rfl, rfl⟩ := Prod.mk.inj (Except.ok.inj h)
        exact .inr (.inr ⟨rfl, not_le.1 hlt, rfl⟩)
    · obtain ⟨rfl, rfl⟩ := Prod.mk.inj (Except.ok.inj h)
      exact .inl ⟨rfl, rfl⟩
    · exact absurd h (by simp)
    · exact absurd h (by simp)
  · exact absurd h (by simp)
  · rcases hexec : tcpRelayExec ops s stmt with _ | ⟨call₁, s₁⟩ <;>
      simp only [bind, Except.bind, hexec] at h
    · exact absurd h (by simp)
    · obtain ⟨rfl, rfl⟩ := Prod.mk.inj (Except.ok.inj h)
      exact .inr (.inr ⟨stmt, stmts, s₁, rfl, hexec, rfl⟩)

/-- Where a copying thread goes on behind a read: `n_read` and `buf` are what was read. -/
def TcpRelayCopier.afterRead (nRead : ℤ) (buf : Bytes) : TcpRelayCopier :=
  if nRead ≠ 0 ∧ nRead ≠ -1 then .write buf (nRead % 2 ^ 64).toNat else .close

/-- Where it goes on behind a write that returns `n_write`. -/
def TcpRelayCopier.afterWrite (nWrite : ℤ) : TcpRelayCopier :=
  if nWrite ≠ 0 ∧ nWrite ≠ -1 then .read else .close

theorem TcpRelayCopier.afterRead_ne (nRead : ℤ) (buf : Bytes) :
    afterRead nRead buf ≠ .idle ∧ afterRead nRead buf ≠ .returned := by
  rw [afterRead]
  split <;> simp

theorem TcpRelayCopier.afterWrite_ne (nWrite : ℤ) :
    afterWrite nWrite ≠ .idle ∧ afterWrite nWrite ≠ .returned := by
  rw [afterWrite]
  split <;> simp

/-- `_tcp_relay_reader` and `_tcp_relay_writer`, from one call to the next. With a length beyond its
buffer, a thread writes what is not there. -/
def tcpRelayCopier (ops : TcpBlockingOps σ) (source : TcpRelayEnd) (s : TcpRelayJob σ) :
    TcpRelayResult (TcpRelayCall × TcpRelayJob σ) :=
  match s.copier source with
  | .idle => .error .waits
  | .read => do
    let sock ← s.loadSock source
    match ops.read tcpRelaySizeofBuf sock with
    | none => .error .waits
    | some (nRead, buf, sock) =>
      .ok (.read source nRead buf,
        (s.setSock source (some sock)).setCopier source (.afterRead nRead buf))
  | .write buf nRead => do
    let sock ← s.loadSock source.other
    if nRead ≤ tcpRelayDefaultBuffer then
      match ops.write buf sock with
      | none => .error .waits
      | some (nWrite, sock) =>
        .ok (.write source.other buf nWrite,
          (s.setSock source.other (some sock)).setCopier source (.afterWrite nWrite))
    else .error .fault
  | .close => do
    let sock ← s.loadSock source.other
    .ok (.close source.other,
      (s.setSock source.other (some (ops.close sock))).setCopier source .returned)
  | .returned => .error .waits

/-- What a turn of a copying thread can be. -/
theorem tcpRelayCopier_cases {ops : TcpBlockingOps σ} {source : TcpRelayEnd} {s s' : TcpRelayJob σ}
    {call : TcpRelayCall} (h : tcpRelayCopier ops source s = .ok (call, s')) :
    (∃ sock nRead buf sock', s.copier source = .read ∧ s.loadSock source = .ok sock ∧
      ops.read tcpRelaySizeofBuf sock = some (nRead, buf, sock') ∧
      call = .read source nRead buf ∧
      s' = (s.setSock source (some sock')).setCopier source (.afterRead nRead buf)) ∨
    (∃ buf nRead sink nWrite sink', s.copier source = .write buf nRead ∧
      nRead ≤ tcpRelayDefaultBuffer ∧ s.loadSock source.other = .ok sink ∧
      ops.write buf sink = some (nWrite, sink') ∧
      call = .write source.other buf nWrite ∧
      s' = (s.setSock source.other (some sink')).setCopier source (.afterWrite nWrite)) ∨
    ∃ sink, s.copier source = .close ∧ s.loadSock source.other = .ok sink ∧
      call = .close source.other ∧
      s' = (s.setSock source.other (some (ops.close sink))).setCopier source .returned := by
  rw [tcpRelayCopier] at h
  rcases hc : s.copier source with _ | _ | ⟨buf, nRead⟩ | _ | _ <;> rw [hc] at h
  · exact absurd h (by simp)
  · rcases hsock : s.loadSock source with _ | sock <;> rw [hsock] at h
    · exact absurd h (by simp [bind, Except.bind])
    · rcases hread : ops.read tcpRelaySizeofBuf sock with _ | ⟨nRead, buf, sock'⟩ <;>
        simp only [bind, Except.bind, hread] at h
      · exact absurd h (by simp)
      · obtain ⟨rfl, rfl⟩ := Prod.mk.inj (Except.ok.inj h)
        exact .inl ⟨sock, nRead, buf, sock', rfl, rfl, hread, rfl, rfl⟩
  · rcases hsink : s.loadSock source.other with _ | sink <;> rw [hsink] at h
    · exact absurd h (by simp [bind, Except.bind])
    · rcases hwrite : ops.write buf sink with _ | ⟨nWrite, sink'⟩ <;>
        simp only [bind, Except.bind, hwrite] at h <;> split at h
      · exact absurd h (by simp)
      · exact absurd h (by simp)
      case isTrue hle =>
        obtain ⟨rfl, rfl⟩ := Prod.mk.inj (Except.ok.inj h)
        exact .inr (.inl ⟨buf, nRead, sink, nWrite, sink', rfl, hle, rfl, hwrite, rfl, rfl⟩)
      · exact absurd h (by simp)
  · rcases hsink : s.loadSock source.other with _ | sink <;> rw [hsink] at h
    · exact absurd h (by simp [bind, Except.bind])
    · obtain ⟨rfl, rfl⟩ := Prod.mk.inj (Except.ok.inj h)
      exact .inr (.inr ⟨sink, rfl, rfl, rfl, rfl⟩)
  · exact absurd h (by simp)

/-- A turn of a thread of a job. -/
def tcpRelayTurn (C : Crypto) (I : Inet) (ops : TcpBlockingOps σ) (a : TcpRelayAnswers σ)
    (s : TcpRelayJob σ) : TcpRelayThread → TcpRelayResult (TcpRelayCall × TcpRelayJob σ)
  | .handler => tcpRelayHandler C I ops a s
  | .copier source => tcpRelayCopier ops source s

/-- A turn that was taken: by which thread, with which answers, and what it has called. -/
structure TcpRelayJobEvent (σ : Type) where
  thread : TcpRelayThread
  answers : TcpRelayAnswers σ
  call : TcpRelayCall

/-- A step of a job. -/
def TcpRelayJobStep (C : Crypto) (I : Inet) (ops : TcpBlockingOps σ) (s : TcpRelayJob σ)
    (e : TcpRelayJobEvent σ) (s' : TcpRelayJob σ) : Prop :=
  tcpRelayTurn C I ops e.answers s e.thread = .ok (e.call, s')

/-- A step of `tcp_relay` and of the threads it has started: nobody is accepted, a new job is made
for a client, or a thread of a job takes a turn. Jobs are named by their addresses. -/
def TcpRelayStep (C : Crypto) (I : Inet) (ops : TcpBlockingOps σ) (record : TcpRelayRecord)
    (jobs : ℕ → Option (TcpRelayJob σ))
    (e : FamilyEvent ℕ (TcpRelayJob σ) (TcpRelayJobEvent σ)) (jobs' : ℕ → Option (TcpRelayJob σ)) :
    Prop :=
  FamilyStep (TcpRelayJobStep C I ops) jobs e jobs' ∧
    ∀ i s, e = .join i s → ∃ client, s = tcpRelayJobNew record client

end Vmecs
