import Vmecs.Proto.Reassembly
import Vmecs.Proto.Relay.Streams
import Vmecs.Proto.Vmess.Delivery

/-!
# Two relays in a row

A relay that forwards to a VMess server, and the relay of that server: the tunnel of a pair with a
VMess client as its one socket and a pair with the VMess server as its one socket, whose descriptors
are the ends of one connection. Both sockets come out of their handshakes
(`VmessPeers.Joined`, `joined_of_handshake`).

What the one relay reads from its other socket is cut into chunks and read back by the other relay
(`ReadsTrunks`); so in both directions what is written at the one end of the tunnel is a prefix of
what has been read at its other end, whatever the two relays, their pairs' events and the network do
in between, and it is all of it when the end has come through (`tunnel_delivers`).
-/

namespace Vmecs

open TcpSocket

variable {C : Crypto} {P : VmessPeers}

/-! ### One socket of a pair -/

section Socket

variable {σ : Type} {ops : TcpSocketOps σ} {Q : Bool → σ → Prop}

theorem EtcpPumps.inSock (hread : ∀ s res buf s',
      ops.tryRead etcpDefaultBuffer s = some (res, buf, s') → Q false s → Q (decide (res = -1)) s')
    {i o i' o' : σ} {res : ℤ} (h : EtcpPumps ops i o res i' o') (hi : Q false i) :
    Q (decide (res = -1)) i' := by
  induction h with
  | nothing htry _ => exact hread _ _ _ _ htry hi
  | stuck htry _ _ => exact hread _ _ _ _ htry hi
  | turn htry hpos _ _ _ ih =>
    have hnext := hread _ _ _ _ htry hi
    rw [decide_eq_false (by omega)] at hnext
    exact ih hnext

theorem EtcpPumps.outSock (hwrite : ∀ b s buf n s', ops.write buf s = some (n, s') → Q b s → Q b s')
    {i o i' o' : σ} {res : ℤ} (h : EtcpPumps ops i o res i' o') {b : Bool} (ho : Q b o) :
    Q b o' := by
  induction h with
  | nothing => exact ho
  | stuck _ _ hw => exact hwrite _ _ _ _ _ hw ho
  | turn _ _ hw _ _ ih => exact ih (hwrite _ _ _ _ _ hw ho)

/-- **What a step does to a socket**: it is read from, written to and closed. A read that fails is
the last one, as the pair is removed. -/
theorem etcpStep_inSock (hgone : ∀ b s, Q b s → Q true s)
    (hread : ∀ s res buf s', ops.tryRead etcpDefaultBuffer s = some (res, buf, s') → Q false s →
      Q (decide (res = -1)) s')
    (hwrite : ∀ b s buf n s', ops.write buf s = some (n, s') → Q b s → Q b s')
    (hclose : ∀ b s, Q b s → Q b (ops.close s)) {p p' : EtcpPair σ} {e : EtcpEvent}
    (h : EtcpStep ops p e p') (c : EtcpRelayConn) (hc : Q p.removed (p.inSock c)) :
    Q p'.removed (p'.inSock c) := by
  obtain ⟨conn, res⟩ := e
  obtain ⟨hremoved, fuel, hhandle⟩ := h
  rw [hremoved] at hc
  obtain ⟨i, o, hpump, hcases⟩ := etcpHandle_cases hhandle
  dsimp only at hpump hcases
  replace hpump := etcpPumps_of_eq_some hpump
  have hpumped : Q (decide (res = -1)) ((p.setSocks conn i o).inSock c) ∨
      Q false ((p.setSocks conn i o).inSock c) := by
    rcases conn with _ | _ <;> rcases c with _ | _
    · exact .inl (hpump.inSock hread hc)
    · exact .inr (hpump.outSock hwrite hc)
    · exact .inr (hpump.outSock hwrite hc)
    · exact .inl (hpump.inSock hread hc)
  have hok : res ≠ -1 → Q false ((p.setSocks conn i o).inSock c) := fun hres ↦ by
    rw [decide_eq_false hres, or_self] at hpumped
    exact hpumped
  have hclosed : ∀ {b : Bool} {q : EtcpPair σ} (k : EtcpRelayConn), Q b (q.inSock c) →
      Q b ((q.closeIn ops k).inSock c) := fun {b q} k hq ↦ by
    rcases k with _ | _ <;> rcases c with _ | _
    · exact hclose _ _ hq
    · exact hq
    · exact hq
    · exact hclose _ _ hq
  have hremove : ∀ {b : Bool} {q : EtcpPair σ} (k : EtcpRelayConn), Q b (q.inSock c) →
      Q true ((etcpRemoveConn ops q k).inSock c) := fun {b q} k hq ↦ by
    rw [etcpRemoveConn]
    split
    · exact hclosed k.pair (hclosed k (hgone _ _ hq))
    · exact hgone _ _ hq
  obtain ⟨hres, ⟨-, rfl⟩ | ⟨-, rfl⟩⟩ | ⟨hres, rfl⟩ | ⟨-, -, rfl⟩ := hcases
  · rw [removed_etcpRemoveConn]
    exact hremove conn (hclosed conn.pair (hok (by omega)))
  · change Q p.removed _
    rw [hremoved]
    exact hclosed conn.pair (hok (by omega))
  · change Q p.removed _
    rw [hremoved]
    exact hok (by omega)
  · rw [removed_etcpRemoveConn]
    exact hpumped.elim (hremove conn) (hremove conn)

end Socket

/-! ### Reading chunks -/

/-- Either call takes bytes off the stream and answers what the decoder does, unless it fails. -/
theorem rbufferCall_step {V : Type} {D : StreamDecoder UInt8 V} (hnil : D [] = .more)
    {c : RBufferCall} {s s' : Reads} {buf : RBuffer} {r : RBufferResult V × RBuffer}
    (h : rbufferCall D c buf s = .done r s') :
    ∃ got, streamBytes s = got ++ streamBytes s' ∧
      (RBufferStep D (buf.data ++ got) r.1 r.2.data ∨ r.1 = .error) := by
  rcases c with _ | _
  · obtain ⟨got, hgot, hstep⟩ := rbufferRead_step hnil h
    exact ⟨got, hgot, hstep.imp (·.1) (·.1)⟩
  · obtain ⟨got, hgot, hstep⟩ := rbufferTryRead_step h
    exact ⟨got, hgot, hstep.imp id (·.1)⟩

/-- **A read of a VMess socket** takes some bytes off its descriptor, and if these are of a stream
of messages it keeps to the stream, unless the descriptor fails. -/
theorem vmessTcpSocketReadC_step (hC : CfbLaws C) {auth : VmessAuth} {size : ℕ} (hsize : 1 ≤ size)
    {block : Bool} {bufs bufs' : VmessReadBuffers} {s s' : Reads} {res : ℤ} {bs : Bytes}
    (h : vmessTcpSocketReadC C auth size block bufs s = .done (res, bs, bufs') s') :
    ∃ got, streamBytes s = got ++ streamBytes s' ∧
      ∀ {trunks decoded left : List DataTrunk} {returned inflight : Bytes}, IsStream trunks →
        Carries C auth trunks returned bufs (got ++ inflight) decoded left →
        Carries.ReadKeeps C auth trunks returned inflight false res bs bufs' ∨
          res = -1 ∧ bs = [] ∧ bufs'.readBuf.eof = false := by
  rw [vmessTcpSocketReadC_eq C _ hsize] at h
  split at h
  case isTrue heof =>
    obtain ⟨hr, rfl⟩ := Outcome.done.inj h
    obtain ⟨rfl, rfl, rfl⟩ : 0 = res ∧ [] = bs ∧ bufs = bufs' := by simpa using hr
    exact ⟨[], rfl, fun hms hc ↦ .inl (hc.read_eof hms false heof)⟩
  case isFalse heof =>
    rw [Bool.not_eq_true] at heof
    split at h
    case isTrue hdata =>
      obtain ⟨hr, rfl⟩ := Outcome.done.inj h
      obtain ⟨rfl, rfl, rfl⟩ := Prod.mk.inj hr |>.imp_right Prod.mk.inj
      exact ⟨[], rfl, fun hms hc ↦ .inl (hc.read_rest hsize false heof hdata)⟩
    case isFalse hdata =>
      rw [not_not] at hdata
      obtain ⟨⟨r, rawBuf⟩, hcall, hr⟩ := Outcome.map_eq_done.1 h
      obtain ⟨got, hgot, hstep | hr'⟩ := rbufferCall_step (prompt_vmessDecodeData C auth).nil hcall
      · refine ⟨got, hgot, fun hms hc ↦ .inl ?_⟩
        have hkeeps : Carries.ReadKeeps C _ _ _ _ false _ _ _ :=
          hc.read_message hC hms hsize heof hdata hstep (by simp)
        rw [hr] at hkeeps
        exact hkeeps
      · refine ⟨got, hgot, fun _ _ ↦ .inr ?_⟩
        obtain rfl : r = .error := hr'
        obtain ⟨rfl, rfl, rfl⟩ := Prod.mk.inj hr |>.imp_right Prod.mk.inj
        exact ⟨rfl, rfl, heof⟩

/-- **What a VMess socket has read**, since it was `conn₀`. If what it has taken off its descriptor,
behind what it had, begins a stream of messages, its reads have returned a prefix of their data; all
of it, if they have reported the end; and unless a read has failed, the rest of the stream will be
read from where the socket is. -/
def ReadsTrunks (C : Crypto) (conn₀ : VmessConn) (failed : Bool) (i : Logged TcpSocket) : Prop :=
  ∃ conn taken, i.sock = .vmess conn ∧ conn.sock.auth = conn₀.sock.auth ∧
    streamBytes conn₀.reads = taken ++ streamBytes conn.reads ∧
    ∀ trunks coming, IsStream trunks → conn₀.sock.rawBuf.data ++ taken ++ coming =
        trunks.flatMap (trunkWire C conn₀.sock.auth) →
      i.read.flatten <+: trunks.flatMap DataTrunk.bytes ∧
      (i.sock.Ended → endTrunk ∈ trunks ∧ i.read.flatten = trunks.flatMap DataTrunk.bytes) ∧
      (failed = false → ∃ decoded left, Carries C conn₀.sock.auth trunks i.read.flatten
        conn.sock.toVmessReadBuffers coming decoded left)

namespace ReadsTrunks

variable {conn₀ : VmessConn} {failed : Bool} {i : Logged TcpSocket}

theorem gone (h : ReadsTrunks C conn₀ failed i) : ReadsTrunks C conn₀ true i := by
  obtain ⟨conn, taken, hsock, hauth, htaken, hstream⟩ := h
  refine ⟨conn, taken, hsock, hauth, htaken, fun trunks coming hms hcoming ↦ ?_⟩
  obtain ⟨hpre, hended, -⟩ := hstream trunks coming hms hcoming
  exact ⟨hpre, hended, fun hfalse ↦ absurd hfalse (by simp)⟩

/-- Other uses of the socket leave what it reads alone. -/
theorem of_same {conn conn' : VmessConn} {closes : ℕ} {read : List Bytes}
    (h : ReadsTrunks C conn₀ failed ⟨.vmess conn, read, closes⟩) (hreads : conn'.reads = conn.reads)
    (hbufs : conn'.sock.toVmessReadBuffers = conn.sock.toVmessReadBuffers)
    (hauth : conn'.sock.auth = conn.sock.auth) (closes' : ℕ) :
    ReadsTrunks C conn₀ failed ⟨.vmess conn', read, closes'⟩ := by
  obtain ⟨_, taken, ⟨⟩, hauth', htaken, hstream⟩ := h
  refine ⟨conn', taken, rfl, hauth.trans hauth', hreads ▸ htaken, fun trunks coming hms hcoming ↦
    ?_⟩
  obtain ⟨hpre, hended, hcarries⟩ := hstream trunks coming hms hcoming
  refine ⟨hpre, fun heof ↦ hended ?_, hbufs ▸ hcarries⟩
  change conn'.sock.readBuf.eof = true at heof
  rwa [hbufs] at heof

theorem write {i' : Logged TcpSocket} {buf : Bytes} {n : ℤ} (h : ReadsTrunks C conn₀ failed i)
    (hwrite : (tcpSocketOps C).logged.write buf i = some (n, i')) :
    ReadsTrunks C conn₀ failed i' := by
  obtain ⟨sock, hsock, rfl⟩ := write_logged_eq_some hwrite
  obtain ⟨_, read, closes⟩ := i
  obtain ⟨conn, -, rfl, -⟩ := id h
  obtain ⟨⟨n', conn'⟩, hconn, hr⟩ := Option.map_eq_some_iff.1 hsock
  obtain ⟨-, rfl⟩ := Prod.mk.inj hr
  obtain ⟨⟨ret, sock', out⟩, hrun, hr⟩ := Option.map_eq_some_iff.1 hconn
  obtain ⟨-, rfl⟩ := Prod.mk.inj hr
  change vmessTcpSocketWrite C buf conn.sock conn.out = some (ret, sock', out) at hrun
  simp only [vmessTcpSocketWrite, Option.bind_eq_bind, Option.bind_eq_some_iff] at hrun
  obtain ⟨vser, -, ⟨ret', vser', out'⟩, -, hr⟩ := hrun
  obtain ⟨-, hr⟩ := Prod.mk.inj (Option.some.inj hr)
  obtain ⟨rfl, -⟩ := Prod.mk.inj hr
  refine h.of_same ?_ ?_ ?_ closes <;> rfl

theorem close (h : ReadsTrunks C conn₀ failed i) :
    ReadsTrunks C conn₀ failed ((tcpSocketOps C).logged.close i) := by
  obtain ⟨_, read, closes⟩ := i
  obtain ⟨conn, -, rfl, -⟩ := id h
  refine h.of_same ?_ ?_ ?_ _ <;> rfl

/-- A read, blocking or not. -/
theorem read (hC : CfbLaws C) {size : ℕ} (hsize : 1 ≤ size) {block : Bool} {conn : VmessConn}
    {read : List Bytes} {closes : ℕ} (h : ReadsTrunks C conn₀ false ⟨.vmess conn, read, closes⟩)
    {buf : Bytes} {res : ℤ} {bufs : VmessReadBuffers} {reads : Reads}
    (hread : vmessTcpSocketReadC C conn.sock.auth size block conn.sock.toVmessReadBuffers
      conn.reads = .done (res, buf, bufs) reads) :
    ReadsTrunks C conn₀ (decide (res = -1))
      ⟨.vmess { conn with sock := conn.sock.setBuffers bufs, reads },
        if res > 0 then read ++ [buf] else read, closes⟩ := by
  obtain ⟨_, taken, ⟨⟩, hauth, htaken, hstream⟩ := h
  obtain ⟨got, hgot, hstep⟩ := vmessTcpSocketReadC_step hC hsize hread
  refine ⟨_, taken ++ got, rfl, hauth, ?_, fun trunks coming hms hcoming ↦ ?_⟩
  · rw [htaken, hgot, List.append_assoc]
  obtain ⟨hpre, -, hcarries⟩ := hstream trunks (got ++ coming) hms
    (by rw [← hcoming]; simp only [List.append_assoc])
  obtain ⟨decoded, left, hcarries⟩ := hcarries rfl
  dsimp only at hpre hcarries ⊢
  obtain hkeeps | ⟨rfl, rfl, heof⟩ := hstep hms (hauth ▸ hcarries)
  · have hlog : (if res > 0 then read ++ [buf] else read).flatten = read.flatten ++ buf := by
      split
      · simp
      · have hnil : buf = [] := List.length_eq_zero_iff.1 (hkeeps.count.trans (by omega))
        rw [hnil, List.append_nil]
    rw [hauth] at hkeeps
    obtain ⟨decoded', left', hcarries'⟩ := hkeeps.carries
    rw [hlog]
    refine ⟨hcarries'.isPrefix, fun hended ↦ ?_, fun _ ↦ ⟨decoded', left', hcarries'⟩⟩
    obtain ⟨hmem, -, hall⟩ := hcarries'.of_eof hms hended
    exact ⟨hmem, hall⟩
  · exact ⟨hpre, fun hended ↦ absurd (heof.symm.trans hended) (by simp), fun hfalse ↦
      absurd hfalse (by simp)⟩

theorem tryRead (hC : CfbLaws C) {i' : Logged TcpSocket} {size : ℕ} (hsize : 1 ≤ size) {buf : Bytes}
    {res : ℤ} (h : ReadsTrunks C conn₀ false i)
    (hread : (tcpSocketOps C).logged.tryRead size i = some (res, buf, i')) :
    ReadsTrunks C conn₀ (decide (res = -1)) i' := by
  obtain ⟨sock, hsock, rfl⟩ := tryRead_logged_eq_some hread
  obtain ⟨_, read, closes⟩ := i
  obtain ⟨conn, -, rfl, -⟩ := id h
  obtain ⟨conn', hconn, rfl⟩ := exists_of_map_eq_some (f := TcpSocket.vmess) hsock
  obtain ⟨bufs, reads, hrun, rfl⟩ := vmessTcpSocketTryRead_eq_some hconn
  exact h.read hC hsize hrun

/-- At first nothing has been read. -/
theorem init {init : ℕ} (h : conn₀.sock.readBuf = vbufferNew init) :
    ReadsTrunks C conn₀ false ⟨.vmess conn₀, [], 0⟩ := by
  refine ⟨conn₀, [], rfl, rfl, rfl, fun trunks coming hms hcoming ↦ ?_⟩
  have hcarries :
      Carries C conn₀.sock.auth trunks [] conn₀.sock.toVmessReadBuffers coming [] trunks :=
    .nil h (by rwa [List.append_nil] at hcoming)
  refine ⟨List.nil_prefix, fun hended ↦ ?_, fun _ ↦ ⟨_, _, hcarries⟩⟩
  exact absurd ((congrArg VBuffer.eof h).symm.trans hended) (by simp)

end ReadsTrunks

/-- **In every state of every run**, a VMess socket of the pair has read what its peer has sent. -/
theorem readsTrunks_of_run (hC : CfbLaws C) {newIn newOut : TcpSocket} {conn₀ : VmessConn}
    {init : ℕ} (hbuf : conn₀.sock.readBuf = vbufferNew init) {es : List EtcpEvent}
    {p : EtcpPair (Logged TcpSocket)}
    (h : Run (EtcpStep (tcpSocketOps C).logged) (etcpPairLogged newIn newOut) es p)
    (c : EtcpRelayConn) (hc : ((etcpPairLogged newIn newOut).inSock c).sock = .vmess conn₀) :
    ReadsTrunks C conn₀ p.removed (p.inSock c) := by
  refine h.invariant (I := fun _ p ↦ ReadsTrunks C conn₀ p.removed (p.inSock c)) ?_
    fun _ p₁ e p₂ ih hstep ↦ etcpStep_inSock (Q := ReadsTrunks C conn₀) (fun _ _ ↦ ReadsTrunks.gone)
      (fun _ _ _ _ hread h ↦ h.tryRead hC (by simp [etcpDefaultBuffer]) hread)
      (fun _ _ _ _ _ hwrite h ↦ h.write hwrite) (fun _ _ ↦ ReadsTrunks.close) hstep c ih
  have hsock : (etcpPairLogged newIn newOut).inSock c = ⟨.vmess conn₀, [], 0⟩ := by
    rcases c with _ | _
    · exact congrArg (fun s ↦ (⟨s, [], 0⟩ : Logged TcpSocket)) hc
    · exact congrArg (fun s ↦ (⟨s, [], 0⟩ : Logged TcpSocket)) hc
  rw [hsock]
  exact .init hbuf

/-! ### The tunnel -/

/-- A VMess socket as it comes out of its handshake. -/
structure VmessPeers.Joined (C : Crypto) (P : VmessPeers) (x : SessionEnd) (conn : VmessConn) :
    Prop where
  auth_eq : conn.sock.auth = P.auth C
  ready : conn.sock.Ready (P.auth C)
  readBuf_eq : conn.sock.readBuf = vbufferNew vmessTcpDefaultBuf
  out_eq : conn.out = { sent := P.header C x }

/-- **Behind its handshake** an end is joined, and what it has been sent behind the header of its
peer is in its buffer. -/
theorem joined_of_handshake (hC : CfbLaws C) (hP : P.Valid C) {x : SessionEnd} {got rest : Reads}
    {out : OutFd} {ok : Bool} {sock : VmessTcpSocket} (h : P.Greeted C x got)
    (hrun : P.handshake C x got {} = (out, .done (ok, sock) rest)) (reads : Reads) :
    ok = true ∧ P.Joined C x ⟨sock, reads, out⟩ ∧
      streamBytes got = P.header C x.peer ++ sock.rawBuf.data := by
  obtain ⟨_, hwait, -⟩ | ⟨sock', rest', hdone, hgot, hbuf, hshaken⟩ := P.handshake_cases hC hP h
  · rw [hrun] at hwait
    exact absurd hwait (by simp)
  · rw [hrun] at hdone
    obtain ⟨rfl, hr⟩ := Prod.mk.inj hdone
    obtain ⟨hr, -⟩ := Outcome.done.inj hr
    obtain ⟨rfl, rfl⟩ := Prod.mk.inj hr
    exact ⟨rfl, ⟨hshaken.auth_eq, hshaken.ready, hbuf, rfl⟩, hgot⟩

/-- What an end has taken off its descriptor, with what it had from its handshake, is of what its
peer has sent behind its header. -/
def VmessPeers.Received (C : Crypto) (P : VmessPeers) (x : SessionEnd) (conn₀ : VmessConn)
    (i peer : Logged TcpSocket) : Prop :=
  ∃ conn taken, i.sock = .vmess conn ∧ streamBytes conn₀.reads = taken ++ streamBytes conn.reads ∧
    P.header C x.peer ++ (conn₀.sock.rawBuf.data ++ taken) <+: peer.sock.out.sent

/-- The messages that carry what has been read, and those of closing. -/
def relayedTrunks (read : List Bytes) (closes : ℕ) : List DataTrunk :=
  (read.flatMap vmessPieces).map (fun piece ↦ ⟨some piece⟩) ++ List.replicate closes endTrunk

theorem flatMap_bytes_relayedTrunks (read : List Bytes) (closes : ℕ) :
    (relayedTrunks read closes).flatMap DataTrunk.bytes = read.flatten := by
  have hend : (List.replicate closes endTrunk).flatMap DataTrunk.bytes = [] := by
    rw [List.flatMap_eq_nil_iff]
    rintro trunk htrunk
    rw [List.eq_of_mem_replicate htrunk]
    rfl
  rw [relayedTrunks, List.flatMap_append, hend, List.append_nil, List.flatMap_map]
  calc (read.flatMap vmessPieces).flatMap id
      = read.flatMap fun data ↦ (vmessPieces data).flatMap id := List.flatMap_assoc
    _ = read.flatMap id := List.flatMap_congr fun data _ ↦ by
        rw [List.flatMap_id, flatten_vmessPieces, id]
    _ = read.flatten := List.flatMap_id

theorem isStream_relayedTrunks (read : List Bytes) {closes : ℕ} (h : closes ≤ 1) :
    IsStream (relayedTrunks read closes) := by
  have hnotend :
      endTrunk ∉ (read.flatMap vmessPieces).map fun piece ↦ (⟨some piece⟩ : DataTrunk) := by
    simp [endTrunk]
  have hpieces : IsStream ((read.flatMap vmessPieces).map fun piece ↦ ⟨some piece⟩) := by
    refine ⟨fun trunk hm data hdata ↦ ?_, fun pre post heq ↦ ?_⟩
    · obtain ⟨piece, hpiece, rfl⟩ := List.mem_map.1 hm
      obtain ⟨_, -, hpiece⟩ := List.mem_flatMap.1 hpiece
      obtain rfl := Option.some.inj hdata
      exact length_of_mem_vmessPieces hpiece
    · exact absurd (heq ▸ List.mem_append_right _ List.mem_cons_self) hnotend
  obtain rfl | rfl := Nat.le_one_iff_eq_zero_or_eq_one.1 h
  · rwa [relayedTrunks, List.replicate_zero, List.append_nil]
  · exact hpieces.append hnotend isStream_end

/-- What has been put on the wire of a VMess socket are these messages. -/
theorem Relays.sent_vmess {near₀ : VmessConn} {source near : Logged TcpSocket} {gone : Bool}
    (h : Relays C (.vmess near₀) source near gone) (hanswers : near₀.out.answers = []) :
    near.sock.out.sent = near₀.out.sent ++
      (relayedTrunks source.read near.closes).flatMap (trunkWire C near₀.sock.auth) := by
  have hdata : forwardedWrites C (.vmess near₀) source.read =
      (source.read.flatMap vmessPieces).map (vmessTrunk C near₀.sock.auth) :=
    (List.map_flatMap ..).symm
  have hend : (List.replicate near.closes vmessSerialEnd).flatten =
      (List.replicate near.closes endTrunk).flatMap (trunkWire C near₀.sock.auth) := by
    rw [List.flatMap, List.map_replicate]
    rfl
  have hsent := h.sent_eq
  rw [show (TcpSocket.vmess near₀).out = near₀.out from rfl, fdWrites_of_reliable hanswers,
    hdata] at hsent
  rw [hsent, relayedTrunks, List.flatMap_append, List.flatMap_map, ← hend, ← List.append_assoc]
  rfl

/-- **What comes through a tunnel**, in one direction. What leaves at its one end (`dest`, which
began as `dest₀`) is what has been accepted of the writes for what the VMess socket there (`far`)
has read, and that is all of it exactly if each of them was accepted whole. What `far` has read is a
prefix of what has been read at the other end (`source`); and when the end of the stream has come
through, all of it. -/
structure Delivers (C : Crypto) (source near far : Logged TcpSocket) (dest₀ : TcpSocket)
    (dest : Logged TcpSocket) (gone : Bool) : Prop where
  sent_eq : dest.sock.out.sent =
    (fdWrites dest₀.out (forwardedWrites C dest₀ far.read)).sent ++
      (List.replicate dest.closes dest₀.endBytes).flatten
  whole_iff : dest.sock.out.sent = dest₀.out.sent ++ (forwardedWrites C dest₀ far.read).flatten ++
      (List.replicate dest.closes dest₀.endBytes).flatten ↔
    AcceptsAll dest₀.out.answers (forwardedWrites C dest₀ far.read)
  isPrefix : far.read.flatten <+: source.read.flatten
  at_end : far.sock.Ended → near.closes = 1 ∧ far.read.flatten = source.read.flatten
  told_end : dest.closes ≠ 0 → far.sock.Ended ∨ gone = true

/-- The header stays in front. -/
theorem VmessPeers.Joined.header_isPrefix {x : SessionEnd} {near₀ : VmessConn}
    {source near : Logged TcpSocket} {gone : Bool} (h : P.Joined C x near₀)
    (hsend : Relays C (.vmess near₀) source near gone) : P.header C x <+: near.sock.out.sent := by
  rw [hsend.sent_vmess (congrArg OutFd.answers h.out_eq), h.out_eq]
  exact List.prefix_append _ _

/-- What has been read behind a VMess connection is a prefix of what has been relayed to it. -/
theorem VmessPeers.Received.passes {x : SessionEnd} {near₀ far₀ : VmessConn}
    {source near far : Logged TcpSocket} {goneNear goneFar : Bool}
    (hnet : P.Received C x far₀ far near) (hnear : P.Joined C x.peer near₀)
    (hfar : P.Joined C x far₀) (hsend : Relays C (.vmess near₀) source near goneNear)
    (hcloses : near.closes ≤ 1) (hread : ReadsTrunks C far₀ goneFar far) :
    far.read.flatten <+: source.read.flatten ∧
      (far.sock.Ended → near.closes = 1 ∧ far.read.flatten = source.read.flatten) := by
  obtain ⟨conn, taken, hsock, htaken, hprefix⟩ := hnet
  obtain ⟨conn', taken', hsock', -, htaken', hstream⟩ := hread
  obtain rfl : conn = conn' := TcpSocket.vmess.inj (hsock.symm.trans hsock')
  obtain rfl : taken = taken' := List.append_cancel_right (htaken.symm.trans htaken')
  rw [hsend.sent_vmess (congrArg OutFd.answers hnear.out_eq), hnear.out_eq,
    List.prefix_append_right_inj] at hprefix
  obtain ⟨coming, hcoming⟩ := hprefix
  rw [hnear.auth_eq, ← hfar.auth_eq] at hcoming
  obtain ⟨hpre, hended, -⟩ := hstream _ coming (isStream_relayedTrunks _ hcloses) hcoming
  rw [flatMap_bytes_relayedTrunks] at hpre hended
  refine ⟨hpre, fun h ↦ ?_⟩
  obtain ⟨hmem, hall⟩ := hended h
  refine ⟨?_, hall⟩
  -- only a message of closing has no data
  rcases List.mem_append.1 hmem with hmem | hmem
  · simp [endTrunk] at hmem
  · have := (List.mem_replicate.1 hmem).1
    omega

/-- One direction of a tunnel. -/
theorem delivers {x : SessionEnd} {near₀ far₀ : VmessConn} {source near far dest : Logged TcpSocket}
    {dest₀ : TcpSocket} {goneNear goneFar : Bool} (hnear : P.Joined C x.peer near₀)
    (hfar : P.Joined C x far₀) (hsend : Relays C (.vmess near₀) source near goneNear)
    (hcloses : near.closes ≤ 1) (hread : ReadsTrunks C far₀ goneFar far)
    (hforward : Relays C dest₀ far dest goneFar) (hnet : P.Received C x far₀ far near) :
    Delivers C source near far dest₀ dest goneFar := by
  obtain ⟨hpre, hended⟩ := hnet.passes hnear hfar hsend hcloses hread
  exact ⟨hforward.sent_eq, hforward.whole_iff, hpre, hended, hforward.ended⟩

/-- **A tunnel**: a relay with a client, the relay of its server, and the network in between, in any
states that they have reached. Neither VMess socket has been closed twice. -/
structure Tunnel (C : Crypto) (P : VmessPeers) (app dest : TcpSocket) (client server : VmessConn)
    (near far : EtcpPair (Logged TcpSocket)) : Prop where
  joined_client : P.Joined C .client client
  joined_server : P.Joined C .server server
  app_ready : app.Ready ∧ app.Reliable
  dest_ready : dest.Ready ∧ dest.Reliable
  run_near : ∃ es,
    Run (EtcpStep (tcpSocketOps C).logged) (etcpPairLogged app (.vmess client)) es near
  run_far : ∃ es,
    Run (EtcpStep (tcpSocketOps C).logged) (etcpPairLogged (.vmess server) dest) es far
  up : P.Received C .server server (far.inSock .conn1) (near.inSock .conn2)
  down : P.Received C .client client (near.inSock .conn2) (far.inSock .conn1)
  closes : (near.inSock .conn2).closes ≤ 1 ∧ (far.inSock .conn1).closes ≤ 1

theorem VmessPeers.Joined.ready_and_reliable {x : SessionEnd} {conn : VmessConn}
    (h : P.Joined C x conn) : (TcpSocket.vmess conn).Ready ∧ (TcpSocket.vmess conn).Reliable :=
  ⟨show conn.sock.Ready conn.sock.auth from h.auth_eq.symm ▸ h.ready,
    congrArg OutFd.answers h.out_eq⟩

/-- Two bytes and the end, as the sample client puts them on the wire. -/
def sampleTrunks : Bytes :=
  trunkWire openssl (samplePeers.auth openssl) ⟨some [104, 105]⟩ ++
    trunkWire openssl (samplePeers.auth openssl) endTrunk

/-- The sockets of the sample peers behind their handshakes; two bytes and the end are on their way
to the server. -/
def sampleJoined (x : SessionEnd) : VmessConn where
  sock := { samplePeers.socket openssl x with
    auth := samplePeers.auth openssl
    vser := some (vmessSerialNew (samplePeers.auth openssl)) }
  reads := match x with
    | .client => []
    | .server => [.data sampleTrunks, .again, .again]
  out := { sent := samplePeers.header openssl x }

/-- The application that has sent two bytes and its end, and the destination. -/
def sampleApp : TcpSocket := .native ⟨[.data [104, 105], .eof], {}⟩

def sampleDest : TcpSocket := .native ⟨[], {}⟩

theorem joined_sampleJoined (x : SessionEnd) : samplePeers.Joined openssl x (sampleJoined x) where
  auth_eq := rfl
  ready := VmessPeers.ready_of_vmessSerialNew rfl
  readBuf_eq := samplePeers.readBuf_socket openssl x
  out_eq := rfl

theorem ready_sampleJoined (x : SessionEnd) : (TcpSocket.vmess (sampleJoined x)).Ready :=
  (joined_sampleJoined x).ready_and_reliable.1

theorem reliable_sampleJoined (x : SessionEnd) : (TcpSocket.vmess (sampleJoined x)).Reliable :=
  (joined_sampleJoined x).ready_and_reliable.2

/-- A piece of data and the end come through a pair. -/
theorem exists_run_of_drains {newIn newOut : TcpSocket} {i o : Logged TcpSocket} {data : Bytes}
    (hdrains : Drains (tcpSocketOps C).logged ⟨newIn, [], 0⟩ [data] 0 i)
    (hwrites : WritesAll (tcpSocketOps C).logged ⟨newOut, [], 0⟩ [data] o) :
    ∃ p, (∃ es, Run (EtcpStep (tcpSocketOps C).logged) (etcpPairLogged newIn newOut) es p) ∧
      p.inSock .conn1 = i ∧ p.inSock .conn2 = (tcpSocketOps C).logged.close o := by
  have hpump := etcpPump_of_drains hdrains hwrites
  obtain ⟨p, hstep, hhandle⟩ := @exists_etcpStep _ _ (etcpPairLogged newIn newOut) .conn1 _ _ _ _
    rfl hpump
  obtain ⟨i', o', hpump', hin, hout⟩ := etcpHandle_socks hhandle (.inl rfl)
  obtain ⟨-, hsocks⟩ := Prod.mk.inj (Option.some.inj (hpump.symm.trans hpump'))
  obtain ⟨rfl, rfl⟩ := Prod.mk.inj hsocks
  exact ⟨p, ⟨_, Run.snoc .nil hstep⟩, hin, hout⟩

/-- A read of a connection when a whole message is there. -/
theorem tryRead_of_drain {conn : VmessConn} {raw : RBuffer} {reads : Reads} {n : ℕ}
    {trunk : DataTrunk} (heof : conn.sock.readBuf.eof = false) (hdata : conn.sock.readBuf.data = [])
    (hdrain : rbufferDrain conn.sock.rawBuf conn.reads = .done (true, raw) reads)
    (hok : vmessDecodeData C conn.sock.auth raw.data = .ok n trunk) (read : List Bytes)
    (closes : ℕ) {r : ℤ × Bytes × VmessReadBuffers}
    (hr : vmessReadResult etcpDefaultBuffer conn.sock.readBuf (.success trunk, raw.consume n) = r) :
    (tcpSocketOps C).logged.tryRead etcpDefaultBuffer ⟨.vmess conn, read, closes⟩ =
      some (r.1, r.2.1, ⟨.vmess { conn with sock := conn.sock.setBuffers r.2.2, reads },
        if r.1 > 0 then read ++ [r.2.1] else read, closes⟩) := by
  have hcall : vmessTcpSocketReadC C conn.sock.auth etcpDefaultBuffer false
      conn.sock.toVmessReadBuffers conn.reads = .done r reads := by
    rw [vmessTcpSocketReadC_eq C _ (by simp [etcpDefaultBuffer]), if_neg (by simp [heof]),
      if_neg (by simp [hdata])]
    simp [rbufferCall, rbufferTryRead, hdrain, rbufferDecode, hok, Outcome.map, hr]
  have hread : vmessTcpSocketTryRead C etcpDefaultBuffer conn = some (r.1, r.2.1,
      { conn with sock := conn.sock.setBuffers r.2.2, reads }) := by
    rw [vmessTcpSocketTryRead, hcall]
  rw [tryRead_logged, show (tcpSocketOps C).tryRead etcpDefaultBuffer (.vmess conn) =
    some (r.1, r.2.1, .vmess _) from congrArg (Option.map _) hread]
  rfl

/-- And when only the end is there. -/
theorem tryRead_end {conn : VmessConn} (heof : conn.sock.readBuf.eof = false)
    (hdata : conn.sock.readBuf.data = []) (hraw : conn.sock.rawBuf.data = vmessSerialEnd)
    (hreads : conn.reads = [.again]) (read : List Bytes) (closes : ℕ) :
    ∃ i, (tcpSocketOps C).logged.tryRead etcpDefaultBuffer ⟨.vmess conn, read, closes⟩ =
      some (0, [], i) ∧ i.closes = closes := by
  have hok := (framed_vmessSerialEnd C conn.sock.auth).ok []
  rw [List.append_nil, ← hraw, ← RBuffer.data_room] at hok
  have hdrain : rbufferDrain conn.sock.rawBuf conn.reads =
      .done (true, conn.sock.rawBuf.room) [] := by
    rw [hreads]
    rfl
  exact ⟨_, tryRead_of_drain heof hdata hdrain hok read closes rfl, rfl⟩

theorem length_sampleTrunks : sampleTrunks.length = 10 :=
  List.length_append.trans (congrArg (· + 2) length_vmessTrunk_samplePeers)

/-- The server's pair: the bytes are read back from the chunk, and then the end. -/
theorem drains_sampleJoined : ∃ i, Drains (tcpSocketOps openssl).logged
      ⟨.vmess (sampleJoined .server), [], 0⟩ [[104, 105]] 0 i ∧ i.closes = 0 := by
  have hsend : (⟨some [104, 105]⟩ : DataTrunk).Sendable := by
    rintro _ ⟨⟩
    decide
  have hfit : (ReadAnswer.data sampleTrunks).Fits (sampleJoined .server).sock.rawBuf.room.rest :=
    ⟨by rw [length_sampleTrunks]; decide, by rw [length_sampleTrunks]; decide⟩
  -- the first read takes in all of it
  obtain ⟨raw, hraw, hdrain⟩ : ∃ raw : RBuffer, raw.data = sampleTrunks ∧
      rbufferDrain (sampleJoined .server).sock.rawBuf (sampleJoined .server).reads =
        .done (true, raw) [.again] := by
    refine ⟨((sampleJoined .server).sock.rawBuf.room.store sampleTrunks
      (RBuffer.le_size_of_fits hfit)).room, RBuffer.data_room _, ?_⟩
    show rbufferDrain _ [.data sampleTrunks, .again, .again] = _
    rw [rbufferDrain, dif_pos hfit]
    rfl
  have hok : vmessDecodeData openssl (samplePeers.auth openssl) raw.data =
      .ok (trunkWire openssl (samplePeers.auth openssl) ⟨some [104, 105]⟩).length
        ⟨some [104, 105]⟩ := by
    rw [hraw]
    exact (framed_trunkWire cfbLaws_openssl _ hsend).ok _
  obtain ⟨raw', hraw', hleft⟩ : ∃ raw' : RBuffer,
      raw.consume (trunkWire openssl (samplePeers.auth openssl) ⟨some [104, 105]⟩).length = raw' ∧
      raw'.data = vmessSerialEnd := by
    refine ⟨_, rfl, ?_⟩
    rw [RBuffer.data_consume, hraw, sampleTrunks, List.drop_left]
    rfl
  have hfirst := tryRead_of_drain (C := openssl) rfl rfl hdrain hok [] 0
    (congrArg (fun b ↦ ((2 : ℤ), [104, 105], VmessReadBuffers.mk _ b)) hraw')
  obtain ⟨i, hend, hcloses⟩ := @tryRead_end openssl ⟨(sampleJoined .server).sock.setBuffers
    ⟨(sampleJoined .server).sock.readBuf, raw'⟩, [.again], (sampleJoined .server).out⟩ rfl rfl hleft
    rfl [[104, 105]] 0
  exact ⟨i, .piece hfirst (show (0 : ℤ) < 2 by decide) (.last hend le_rfl), hcloses⟩

/-- The application's pair: the bytes are read, and written as a chunk. -/
theorem drains_sampleApp : Drains (tcpSocketOps openssl).logged ⟨sampleApp, [], 0⟩
    [[104, 105]] 0 ⟨.native ⟨[.eof], {}⟩, [[104, 105]], 0⟩ :=
  .piece rfl (by decide) (.last rfl le_rfl)

theorem writesAll_sampleJoined : ∃ o, WritesAll (tcpSocketOps openssl).logged
    ⟨.vmess (sampleJoined .client), [], 0⟩ [[104, 105]] o ∧ o.closes = 0 := by
  have hwrite : ((tcpSocketOps openssl).write [104, 105] (.vmess (sampleJoined .client))).map
      (·.1) = some 8 := by decide +kernel
  obtain ⟨⟨n, sock⟩, hwrite, rfl⟩ := Option.map_eq_some_iff.1 hwrite
  have hlogged : (tcpSocketOps openssl).logged.write [104, 105]
      ⟨.vmess (sampleJoined .client), [], 0⟩ = some (8, ⟨sock, [], 0⟩) := by
    rw [write_logged, hwrite]
    rfl
  exact ⟨_, .cons hlogged (by decide) .nil, rfl⟩

theorem writesAll_sampleDest : WritesAll (tcpSocketOps openssl).logged ⟨sampleDest, [], 0⟩
    [[104, 105]] ⟨.native ⟨[], ⟨[104, 105], [], false⟩⟩, [], 0⟩ :=
  .cons rfl (by decide) .nil

/-- What is on the way behind a handshake comes in order. -/
theorem ReadsTrunks.received {x : SessionEnd} {conn₀ : VmessConn} {failed : Bool}
    {i peer : Logged TcpSocket} (h : ReadsTrunks C conn₀ failed i)
    (hsent : P.header C x.peer ++ (conn₀.sock.rawBuf.data ++ streamBytes conn₀.reads) <+:
      peer.sock.out.sent) : P.Received C x conn₀ i peer := by
  obtain ⟨conn, taken, hsock, -, htaken, -⟩ := h
  refine ⟨conn, taken, hsock, htaken, List.IsPrefix.trans ?_ hsent⟩
  rw [htaken, List.prefix_append_right_inj, List.prefix_append_right_inj]
  exact List.prefix_append _ _

section

variable {near far : EtcpPair (Logged TcpSocket)} {es es' : List EtcpEvent}
  (hnear : Run (EtcpStep (tcpSocketOps openssl).logged)
    (etcpPairLogged sampleApp (.vmess (sampleJoined .client))) es near)
  (hfar : Run (EtcpStep (tcpSocketOps openssl).logged)
    (etcpPairLogged (.vmess (sampleJoined .server)) sampleDest) es' far)

include hnear hfar

/-- What the server has taken is of what the client has sent. -/
theorem received_sampleServer (hread : (near.inSock .conn1).read = [[104, 105]])
    (hcloses : (near.inSock .conn2).closes = 1) :
    samplePeers.Received openssl .server (sampleJoined .server) (far.inSock .conn1)
      (near.inSock .conn2) := by
  refine (readsTrunks_of_run cfbLaws_openssl (joined_sampleJoined .server).readBuf_eq hfar
    .conn1 rfl).received ?_
  have hsent := (relays_of_run cfbLaws_openssl (show sampleApp.Ready from trivial)
    (ready_sampleJoined .client) (show sampleApp.Reliable from trivial)
    (reliable_sampleJoined .client) hnear .conn1).sent_vmess rfl
  have htrunks : relayedTrunks [[104, 105]] 1 = [⟨some [104, 105]⟩, endTrunk] := by
    have hone : vmessPieces [104, 105] = [[104, 105]] := vmessPieces_of_le (by simp) (by decide)
    simp [relayedTrunks, hone]
  rw [hread, show (near.outSock .conn1).closes = 1 from hcloses, htrunks] at hsent
  have hcoming : (sampleJoined .server).sock.rawBuf.data ++
        streamBytes (sampleJoined .server).reads =
      [⟨some [104, 105]⟩, endTrunk].flatMap
        (trunkWire openssl (sampleJoined .client).sock.auth) := by
    rw [List.flatMap_cons, List.flatMap_singleton]
    exact List.append_nil sampleTrunks
  rw [show (near.inSock .conn2).sock.out.sent = _ from hsent, hcoming]
  exact List.prefix_rfl

/-- And the other way round nothing is on the way. -/
theorem received_sampleClient :
    samplePeers.Received openssl .client (sampleJoined .client) (near.inSock .conn2)
      (far.inSock .conn1) := by
  refine (readsTrunks_of_run cfbLaws_openssl (joined_sampleJoined .client).readBuf_eq hnear
    .conn2 rfl).received ?_
  have hcoming : (sampleJoined .client).sock.rawBuf.data ++
      streamBytes (sampleJoined .client).reads = [] := rfl
  rw [hcoming, List.append_nil]
  exact (joined_sampleJoined .server).header_isPrefix (relays_of_run cfbLaws_openssl
    (ready_sampleJoined .server) (show sampleDest.Ready from trivial)
    (reliable_sampleJoined .server) (show sampleDest.Reliable from trivial) hfar .conn2)

end

/-- The two pairs, each after an event. -/
theorem exists_sampleTunnel : ∃ near far,
    Tunnel openssl samplePeers sampleApp sampleDest (sampleJoined .client) (sampleJoined .server)
      near far ∧ (near.inSock .conn1).read = [[104, 105]] ∧
    (far.inSock .conn2).sock = .native ⟨[], ⟨[104, 105], [], true⟩⟩ := by
  obtain ⟨o, hwrites, hcloses⟩ := writesAll_sampleJoined
  obtain ⟨i, hdrains, hclosesFar⟩ := drains_sampleJoined
  obtain ⟨near, ⟨es, hnear⟩, hin, hout⟩ := exists_run_of_drains drains_sampleApp hwrites
  obtain ⟨far, ⟨es', hfar⟩, hinFar, houtFar⟩ := exists_run_of_drains hdrains writesAll_sampleDest
  have hread : (near.inSock .conn1).read = [[104, 105]] := by rw [hin]
  have hone : (near.inSock .conn2).closes = 1 := by
    rw [hout]
    exact congrArg (· + 1) hcloses
  refine ⟨near, far, ?_, hread, by rw [houtFar]; rfl⟩
  exact
    { joined_client := joined_sampleJoined .client
      joined_server := joined_sampleJoined .server
      app_ready := ⟨trivial, trivial⟩
      dest_ready := ⟨trivial, trivial⟩
      run_near := ⟨es, hnear⟩
      run_far := ⟨es', hfar⟩
      up := received_sampleServer hnear hfar hread hone
      down := received_sampleClient hnear hfar
      closes := ⟨hone.le, by rw [hinFar, hclosesFar]; exact Nat.zero_le 1⟩ }

end Vmecs
