import Mathlib.Data.List.Chain
import Vmecs.Proto.Relay.Copying

/-!
# Relays in a row

Any number of relays, each with a pair whose one socket is connected to a socket of the next one's
pair (`Row`). A connection carries bytes as they are, or in the chunks of VMess (`Wired`); in both
cases what has been read behind it is a prefix of what has been read before it, and all of that once
the end of the stream has come through (`Wired.passes`).

So, by induction on the relays, what leaves the row at either end is a prefix of what has come in at
the other one, in any states that the relays have reached; and with the end of the stream all of it
has come through, if no relay on the way has given its pair up before (`row_delivers`).
-/

namespace Vmecs

open TcpSocket

variable {C : Crypto}

/-! ### What a pair has read -/

/-- What a read of a descriptor takes off the stream. -/
theorem fdTryRead_takes {want : ℕ} {s s' : Reads} {a : ReadAnswer}
    (h : fdTryRead want s = .done a s') : streamBytes s = a.bytes ++ streamBytes s' := by
  match s with
  | .data bs :: s =>
    rw [fdTryRead] at h
    split at h
    case isTrue =>
      obtain ⟨rfl, rfl⟩ := Outcome.done.inj h
      rfl
    case isFalse => exact absurd h (by simp)
  | .eof :: s =>
    obtain ⟨rfl, rfl⟩ := Outcome.done.inj h
    rfl
  | .again :: s =>
    obtain ⟨rfl, rfl⟩ := Outcome.done.inj h
    rfl
  | .fail :: s =>
    obtain ⟨rfl, rfl⟩ := Outcome.done.inj h
    rfl

namespace TcpSocket

/-- The reading side of a socket whose bytes are those of its descriptor. -/
def plain : TcpSocket → Option Reads
  | native sock => some sock.reads
  | socks conn => some conn.reads
  | vmess _ => none

theorem reliable_of_answers {sock : TcpSocket} (h : sock.out.answers = []) : sock.Reliable := by
  rcases sock with _ | _ | conn
  · trivial
  · trivial
  · exact h

end TcpSocket

/-- What a socket that carries plain bytes has read, since its descriptor was to read `reads₀`. -/
def ReadsPlain (reads₀ : Reads) (i : Logged TcpSocket) : Prop :=
  ∃ reads, i.sock.plain = some reads ∧ streamBytes reads₀ = i.read.flatten ++ streamBytes reads

namespace ReadsPlain

variable {reads₀ : Reads} {i i' : Logged TcpSocket}

theorem tryRead (h : ReadsPlain reads₀ i) {size : ℕ} {res : ℤ} {buf : Bytes} (hsize : 1 ≤ size)
    (hread : (tcpSocketOps C).logged.tryRead size i = some (res, buf, i')) :
    ReadsPlain reads₀ i' := by
  obtain ⟨reads, hplain, hstream⟩ := h
  obtain ⟨sock, hsock, rfl⟩ := tryRead_logged_eq_some hread
  have hlen := (tryRead_tcpSocketOps hsize hsock).length_buf
  have htaken : ∃ reads', sock.plain = some reads' ∧
      streamBytes reads = buf ++ streamBytes reads' := by
    obtain ⟨s, s', hs, rfl, htry⟩ | ⟨s, s', hs, rfl, htry⟩ | ⟨s, s', hs, -, -⟩ :=
      tryRead_tcpSocketOps_cases hsock
    · rw [hs] at hplain
      obtain rfl := Option.some.inj hplain
      rw [nativeTcpSocketTryRead] at htry
      split at htry
      case h_1 hdone =>
        obtain ⟨-, hr⟩ := Prod.mk.inj (Option.some.inj htry)
        obtain ⟨rfl, rfl⟩ := Prod.mk.inj hr
        exact ⟨_, rfl, fdTryRead_takes hdone⟩
      case h_2 => exact absurd htry (by simp)
    · rw [hs] at hplain
      obtain rfl := Option.some.inj hplain
      dsimp only [socksTcpSocketOps, socksTcpSocketTryRead] at htry
      split at htry
      case h_1 hdone =>
        obtain ⟨-, hr⟩ := Prod.mk.inj (Option.some.inj htry)
        obtain ⟨rfl, rfl⟩ := Prod.mk.inj hr
        exact ⟨_, rfl, fdTryRead_takes hdone⟩
      case h_2 => exact absurd htry (by simp)
    · rw [hs] at hplain
      exact absurd hplain (by simp [plain])
  obtain ⟨reads', hplain', htaken⟩ := htaken
  refine ⟨reads', hplain', ?_⟩
  dsimp only
  rw [hstream, htaken, SocketUsed.flatten_read hlen, List.append_assoc]

/-- Writing leaves the reading side alone. -/
theorem write (h : ReadsPlain reads₀ i) {buf : Bytes} {n : ℤ}
    (hwrite : (tcpSocketOps C).logged.write buf i = some (n, i')) : ReadsPlain reads₀ i' := by
  obtain ⟨reads, hplain, hstream⟩ := h
  obtain ⟨sock, hsock, rfl⟩ := write_logged_eq_some hwrite
  refine ⟨reads, ?_, hstream⟩
  rcases i with ⟨s | s | s, read, closes⟩
  · obtain ⟨-, rfl⟩ := Prod.mk.inj (Option.some.inj hsock)
    exact hplain
  · obtain ⟨-, rfl⟩ := Prod.mk.inj (Option.some.inj hsock)
    exact hplain
  · exact absurd hplain (by simp [plain])

/-- And so does closing. -/
theorem close (h : ReadsPlain reads₀ i) : ReadsPlain reads₀ ((tcpSocketOps C).logged.close i) := by
  obtain ⟨reads, hplain, hstream⟩ := h
  refine ⟨reads, ?_, hstream⟩
  rcases i with ⟨s | s | s, read, closes⟩
  · exact hplain
  · exact hplain
  · exact absurd hplain (by simp [plain])

end ReadsPlain

/-! ### The relays -/

/-- A relay in a row: the two sockets that one of its pairs was made of, and the pair. -/
structure RowRelay where
  newIn : TcpSocket
  newOut : TcpSocket
  pair : EtcpPair (Logged TcpSocket)

/-- The inbound socket of a record, as it was at first. -/
def RowRelay.new (r : RowRelay) : EtcpRelayConn → TcpSocket
  | .conn1 => r.newIn
  | .conn2 => r.newOut

/-- The pair has been made of established sockets, of which the descriptors accept what is written,
and is in a state that it can have reached. -/
structure RowRelay.Runs (C : Crypto) (r : RowRelay) : Prop where
  ready : ∀ c, (r.new c).Ready
  answers : ∀ c, (r.new c).out.answers = []
  not_shut : ∀ c, (r.new c).out.shut = false
  run : ∃ es, Run (EtcpStep (tcpSocketOps C).logged) (etcpPairLogged r.newIn r.newOut) es r.pair

/-- The pair has not been given up before the end of this stream. -/
def RowRelay.Intact (c : EtcpRelayConn) (r : RowRelay) : Prop :=
  r.pair.removed = true → (r.pair.inSock c).sock.Ended

namespace RowRelay.Runs

variable {r : RowRelay} (h : r.Runs C)

include h

theorem relays (hC : CfbLaws C) (c : EtcpRelayConn) :
    Relays C (r.new c.pair) (r.pair.inSock c) (r.pair.inSock c.pair) r.pair.removed := by
  obtain ⟨es, hrun⟩ := h.run
  have hrelays := relays_of_run hC (h.ready .conn1) (h.ready .conn2)
    (reliable_of_answers (h.answers .conn1)) (reliable_of_answers (h.answers .conn2)) hrun c
  rcases c with _ | _
  · exact hrelays
  · exact hrelays

theorem readsPlain (c : EtcpRelayConn) {reads : Reads} (hplain : (r.new c).plain = some reads) :
    ReadsPlain reads (r.pair.inSock c) := by
  obtain ⟨es, hrun⟩ := h.run
  refine hrun.invariant (I := fun _ p ↦ ReadsPlain reads (p.inSock c)) ?_
    fun _ p₁ e p₂ ih hstep ↦ etcpStep_inSock (Q := fun _ ↦ ReadsPlain reads) (fun _ _ ↦ id)
      (fun _ _ _ _ hread h ↦ h.tryRead (by simp [etcpDefaultBuffer]) hread)
      (fun _ _ _ _ _ hwrite h ↦ h.write hwrite) (fun _ _ ↦ ReadsPlain.close) hstep c ih
  rcases c with _ | _
  · exact ⟨reads, hplain, rfl⟩
  · exact ⟨reads, hplain, rfl⟩

theorem readsTrunks (hC : CfbLaws C) (c : EtcpRelayConn) {conn : VmessConn} {init : ℕ}
    (hnew : r.new c = .vmess conn) (hbuf : conn.sock.readBuf = vbufferNew init) :
    ReadsTrunks C conn r.pair.removed (r.pair.inSock c) := by
  obtain ⟨es, hrun⟩ := h.run
  refine readsTrunks_of_run hC hbuf hrun c ?_
  rcases c with _ | _
  · exact hnew
  · exact hnew

end RowRelay.Runs

/-! ### The connections -/

/-- A connection between two relays, in one direction: `near` is the socket of the one, which began
as `near₀`, and `far` the socket of the other. What has been taken off the descriptor of `far` is of
what has been sent through `near` behind its handshake; and without VMess its end comes when `near`
has been shut, behind all that has been sent. -/
inductive Wired (C : Crypto) (near₀ far₀ : TcpSocket) (near far : Logged TcpSocket) : Prop where
  | plain {reads₀ reads : Reads} {taken : Bytes} (hnear₀ : near₀.plain.isSome)
      (hfar₀ : far₀.plain = some reads₀) (hfar : far.sock.plain = some reads)
      (htaken : streamBytes reads₀ = taken ++ streamBytes reads)
      (hsent : near₀.out.sent ++ taken <+: near.sock.out.sent)
      (hend : AtEof reads → near.sock.out.shut = true ∧
        near₀.out.sent ++ taken = near.sock.out.sent) : Wired C near₀ far₀ near far
  | vmess {P : VmessPeers} {x : SessionEnd} {nearConn farConn : VmessConn}
      (hnear₀ : near₀ = .vmess nearConn) (hfar₀ : far₀ = .vmess farConn)
      (hnear : P.Joined C x.peer nearConn) (hfar : P.Joined C x farConn)
      (hnet : P.Received C x farConn far near) (hcloses : near.closes ≤ 1) :
      Wired C near₀ far₀ near far

section

variable {near₀ : TcpSocket} {source near far : Logged TcpSocket} {gone : Bool}

/-- The data as they are: the writes of a socket that carries plain bytes, and its end. -/
theorem sent_of_plain (hplain : near₀.plain.isSome) (hanswers : near₀.out.answers = [])
    (h : Relays C near₀ source near gone) :
    near.sock.out.sent = near₀.out.sent ++ source.read.flatten := by
  have hwrites : forwardedWrites C near₀ source.read = source.read ∧ near₀.endBytes = [] := by
    rcases near₀ with s | s | s
    · exact ⟨List.flatMap_singleton' _, rfl⟩
    · exact ⟨List.flatMap_singleton' _, rfl⟩
    · exact absurd hplain (by simp [TcpSocket.plain])
  rw [h.sent_eq, hwrites.1, hwrites.2, fdWrites_of_reliable hanswers]
  simp

/-- A socket that has not been closed has not been shut. -/
theorem closes_ne_zero_of_shut (hanswers : near₀.out.answers = []) (hshut : near₀.out.shut = false)
    (h : Relays C near₀ source near gone) (hnear : near.sock.out.shut = true) :
    near.closes ≠ 0 := by
  intro hzero
  rw [h.out_eq hzero, fdWrites_of_reliable hanswers, hshut] at hnear
  exact absurd hnear (by simp)

theorem ended_iff_of_plain {sock : TcpSocket} {reads : Reads} (h : sock.plain = some reads) :
    sock.Ended ↔ AtEof reads := by
  rcases sock with s | s | s
  · obtain rfl := Option.some.inj h
    rfl
  · obtain rfl := Option.some.inj h
    rfl
  · exact absurd h (by simp [TcpSocket.plain])

end

/-- What `r` relays in a direction is read by `next`. -/
def RowRelay.Feeds (C : Crypto) (c : EtcpRelayConn) (r next : RowRelay) : Prop :=
  Wired C (r.new c.pair) (next.new c) (r.pair.inSock c.pair) (next.pair.inSock c)

/-- **One connection**: what is read at `next` has been read at `r`, and when its end has come, all
of it. -/
theorem RowRelay.Feeds.passes (hC : CfbLaws C) {r next : RowRelay} (hr : r.Runs C)
    (hnext : next.Runs C) {c : EtcpRelayConn} (h : r.Feeds C c next) :
    (next.pair.inSock c).read.flatten <+: (r.pair.inSock c).read.flatten ∧
      ((next.pair.inSock c).sock.Ended → r.Intact c → (r.pair.inSock c).sock.Ended ∧
        (next.pair.inSock c).read.flatten = (r.pair.inSock c).read.flatten) := by
  have hrelays := hr.relays hC c
  -- the end is told behind the end, or when the pair is given up
  have hended (hcloses : (r.pair.inSock c.pair).closes ≠ 0) (hintact : r.Intact c) :
      (r.pair.inSock c).sock.Ended :=
    (hrelays.ended hcloses).elim id hintact
  rcases h with
    @⟨reads₀, reads, taken, hnear₀, hfar₀, hfar, htaken, hsent, hend⟩ |
    @⟨P, x, nearConn, farConn, hnear₀, hfar₀, hnear, hfar, hnet, hcloses⟩
  · obtain ⟨reads', hplain, hread⟩ := hnext.readsPlain c hfar₀
    obtain rfl := Option.some.inj (hplain.symm.trans hfar)
    obtain rfl := List.append_cancel_right (htaken.symm.trans hread)
    rw [sent_of_plain hnear₀ (hr.answers _) hrelays] at hsent hend
    refine ⟨(List.prefix_append_right_inj _).1 hsent, fun heof hintact ↦ ?_⟩
    obtain ⟨hshut, hall⟩ := hend ((ended_iff_of_plain hfar).1 heof)
    exact ⟨hended (closes_ne_zero_of_shut (hr.answers _) (hr.not_shut _) hrelays hshut) hintact,
      List.append_cancel_left hall⟩
  · rw [hnear₀] at hrelays
    obtain ⟨hpre, hall⟩ :=
      hnet.passes hnear hfar hrelays hcloses (hnext.readsTrunks hC c hfar₀ hfar.readBuf_eq)
    refine ⟨hpre, fun heof hintact ↦ ?_⟩
    obtain ⟨hone, hall⟩ := hall heof
    exact ⟨hended (by omega) hintact, hall⟩

/-- **A row**: each relay is connected to the next, in both directions. -/
structure Row (C : Crypto) (rows : List RowRelay) : Prop where
  runs : ∀ r ∈ rows, r.Runs C
  wired : rows.IsChain fun r next ↦ r.Feeds C .conn1 next ∧ next.Feeds C .conn2 r

/-- **What comes through a row**, in one direction: what leaves it at its end is what the last relay
has read, a prefix of what the first has; and when the end of the stream has come through, and no
relay has given its pair up before, all of it. -/
structure Through (C : Crypto) (c : EtcpRelayConn) (rows : List RowRelay) (first last : RowRelay) :
    Prop where
  sent_eq : (last.pair.inSock c.pair).sock.out.sent = (last.new c.pair).out.sent ++
    (forwardedWrites C (last.new c.pair) (last.pair.inSock c).read).flatten ++
    (List.replicate (last.pair.inSock c.pair).closes (last.new c.pair).endBytes).flatten
  isPrefix : (last.pair.inSock c).read.flatten <+: (first.pair.inSock c).read.flatten
  at_end : (last.pair.inSock c).sock.Ended → (∀ r ∈ rows, r.Intact c) →
    (∀ r ∈ rows, (r.pair.inSock c).sock.Ended) ∧
      (last.pair.inSock c).read.flatten = (first.pair.inSock c).read.flatten

/-- By induction on the relays: one connection after the other. -/
theorem through_of_isChain (hC : CfbLaws C) {c : EtcpRelayConn} {first : RowRelay}
    {rows : List RowRelay} (hruns : ∀ r ∈ first :: rows, r.Runs C)
    (hchain : (first :: rows).IsChain (RowRelay.Feeds C c)) :
    Through C c (first :: rows) first ((first :: rows).getLast (List.cons_ne_nil _ _)) := by
  induction rows generalizing first with
  | nil =>
    have hfirst := hruns first List.mem_cons_self
    refine ⟨?_, List.prefix_rfl, fun hended _ ↦ ⟨by simpa using hended, rfl⟩⟩
    rw [List.getLast_singleton, (hfirst.relays hC c).sent_eq,
      fdWrites_of_reliable (hfirst.answers _)]
  | cons next rows ih =>
    obtain ⟨hfeeds, hrest⟩ := List.isChain_cons_cons.1 hchain
    obtain ⟨hsent, hpre, hend⟩ := ih (fun r hr ↦ hruns r (List.mem_cons_of_mem _ hr)) hrest
    obtain ⟨hpre₁, hend₁⟩ := hfeeds.passes hC (hruns first List.mem_cons_self)
      (hruns next (List.mem_cons_of_mem _ List.mem_cons_self))
    rw [List.getLast_cons_cons]
    refine ⟨hsent, hpre.trans hpre₁, fun hended hintact ↦ ?_⟩
    obtain ⟨hall, heq⟩ := hend hended fun r hr ↦ hintact r (List.mem_cons_of_mem _ hr)
    obtain ⟨hfirst, heq₁⟩ := hend₁ (hall next List.mem_cons_self) (hintact first List.mem_cons_self)
    exact ⟨List.forall_mem_cons.2 ⟨hfirst, hall⟩, heq.trans heq₁⟩

/-- Of three relays the first two have a tunnel between them, and all that has been sent into it has
come out of the last one. -/
theorem exists_sampleRow : ∃ near far last,
    Row openssl [⟨sampleApp, .vmess (sampleJoined .client), near⟩,
      ⟨.vmess (sampleJoined .server), sampleDest, far⟩, ⟨sampleApp, sampleDest, last⟩] ∧
    (near.inSock .conn1).read = [[104, 105]] ∧
    (last.inSock .conn2).sock.out = ⟨[104, 105], [], true⟩ := by
  obtain ⟨near, far, htunnel, hread, hfarOut⟩ := exists_sampleTunnel
  obtain ⟨last, hlast, hin, hout⟩ := exists_run_of_drains drains_sampleApp writesAll_sampleDest
  refine ⟨near, far, last, ⟨fun r hr ↦ ?_, ?_⟩, hread, by rw [hout]; rfl⟩
  · simp only [List.mem_cons, List.not_mem_nil, or_false] at hr
    rcases hr with rfl | rfl | rfl
    · refine ⟨?_, ?_, ?_, htunnel.run_near⟩
      · rintro (_ | _)
        · trivial
        · exact ready_sampleJoined .client
      · rintro (_ | _) <;> rfl
      · rintro (_ | _) <;> rfl
    · refine ⟨?_, ?_, ?_, htunnel.run_far⟩
      · rintro (_ | _)
        · exact ready_sampleJoined .server
        · trivial
      · rintro (_ | _) <;> rfl
      · rintro (_ | _) <;> rfl
    · refine ⟨?_, ?_, ?_, hlast⟩
      · rintro (_ | _) <;> trivial
      · rintro (_ | _) <;> rfl
      · rintro (_ | _) <;> rfl
  · refine .cons_cons ⟨?_, ?_⟩ (.cons_cons ⟨?_, ?_⟩ (.singleton _))
    · exact .vmess rfl rfl htunnel.joined_client htunnel.joined_server htunnel.up htunnel.closes.1
    · exact .vmess rfl rfl htunnel.joined_server htunnel.joined_client htunnel.down htunnel.closes.2
    · have hfar : (last.inSock .conn1).sock.plain = some [.eof] := by
        rw [hin]
        rfl
      have hsent : (far.inSock .conn2).sock.out = ⟨[104, 105], [], true⟩ := by
        rw [hfarOut]
        rfl
      refine @Wired.plain _ _ _ _ _ [.data [104, 105], .eof] [.eof] [104, 105] rfl rfl hfar rfl ?_
        fun _ ↦ ?_
      · exact ⟨[], (congrArg OutFd.sent hsent).symm⟩
      · exact ⟨congrArg OutFd.shut hsent, (congrArg OutFd.sent hsent).symm⟩
    · have hfar : (far.inSock .conn2).sock.plain = some [] := by
        rw [hfarOut]
        rfl
      exact @Wired.plain _ _ _ _ _ [] [] [] rfl rfl hfar rfl ⟨_, rfl⟩ fun h ↦
        absurd h (by simp [AtEof])

end Vmecs
