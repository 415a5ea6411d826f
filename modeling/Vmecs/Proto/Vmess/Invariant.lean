import Vmecs.Proto.Vmess.Peers

/-!
# The invariant of a session

It says of each end what it has sent (`Outgoing`: its header, and then the messages of its writes,
in chunks) and what it has received of its peer's stream (`Incoming`: what has been returned, what
is in its two buffers, what the call in progress has been given and what is on its way, in this
order). Every step keeps it (`SessionInv.step`), whatever the transport makes of the segments and
whatever calls the two ends make.
-/

namespace Vmecs

open StreamDecoder

/-! ### The invariant -/

theorem peer_peer (x : SessionEnd) : x.peer.peer = x := by
  cases x <;> rfl

theorem eq_or_eq_peer (x y : SessionEnd) : y = x ∨ y = x.peer := by
  cases x <;> cases y <;> simp [SessionEnd.peer]

theorem peer_ne (x : SessionEnd) : x.peer ≠ x := by
  cases x <;> simp [SessionEnd.peer]

/-- **What an end has sent**: its header, once it is out, and then its messages. -/
structure Outgoing (C : Crypto) (P : VmessPeers) (es : List SessionEvent) (x : SessionEnd)
    (party : VmessParty) : Prop where
  reliable : (party.out C P x).answers = []
  stream : IsStream (sentBy es x)
  shut_iff : (party.out C P x).shut = true ↔ endTrunk ∈ sentBy es x
  sent_eq : (party.out C P x).sent =
      P.header C x ++ (sentBy es x).flatMap (trunkWire C (P.auth C)) ∨
    (party.out C P x).sent = [] ∧ ∃ got, party = .handshaking got
  handshaking : ∀ got, party = .handshaking got → sentBy es x = []
  established : ∀ sock out call, party = .established sock out call → P.Shaken C x sock

/-- The answers that a call in progress has had from its peer. -/
structure Served {α : Type} (f : Reads → Outcome α) (got : Reads) (taken : Bytes)
    (peer : OutFd) : Prop where
  asked : Asked f got
  no_fail : .fail ∉ got
  eof : .eof ∈ got → peer.shut = true ∧ taken = peer.sent

/-- **What an end has received**, and what is on its way to it. -/
inductive Incoming (C : Crypto) (P : VmessPeers) (es : List SessionEvent) (x : SessionEnd)
    (taken : Bytes) (peer : OutFd) : VmessParty → Prop where
  | handshaking {got : Reads} {inflight : Bytes} (hsent : peer.sent = taken ++ inflight)
      (hserved : Served (fun s ↦ (P.handshake C x s {}).2) got taken peer)
      (htaken : taken = streamBytes got) (hret : returnedTo es x = []) :
      Incoming C P es x taken peer (.handshaking got)
  | established {sock : VmessTcpSocket} {out : OutFd} {call : Option ReadCall} {inflight : Bytes}
      (hsent : peer.sent = taken ++ inflight) (hheader : P.header C x.peer <+: taken)
      (hcall : ∀ c ∈ call, 1 ≤ c.size ∧ Served (c.run C sock) c.got taken peer)
      (hcarries : ∃ decoded left, Carries C (P.auth C) (sentBy es x.peer) (returnedTo es x)
        sock.toVmessReadBuffers (streamBytes (readAnswers call) ++ inflight) decoded left) :
      Incoming C P es x taken peer (.established sock out call)

/-- **The invariant of a session**, for the stream that an end sends and the one that it receives.
-/
def SessionInv (C : Crypto) (P : VmessPeers) (es : List SessionEvent) (s : Session) : Prop :=
  ∀ x, Outgoing C P es x (s.party x) ∧
    Incoming C P es x (s.taken x) (s.out C P x.peer) (s.party x)

section

variable {C : Crypto} {P : VmessPeers} {es : List SessionEvent} {x : SessionEnd}

/-! ### Answers -/

theorem streamBytes_append_of_eof {s : Reads} (h : .eof ∈ s) (s' : Reads) :
    streamBytes (s ++ s') = streamBytes s := by
  induction s with
  | nil => exact absurd h List.not_mem_nil
  | cons a s ih =>
    cases a with
    | eof => rfl
    | data bs =>
      rw [List.cons_append, streamBytes_data, streamBytes_data, ih (by simpa using h)]
    | again => exact ih (by simpa using h)
    | fail => exact ih (by simpa using h)

/-- The bytes of an answer come off what is on its way. -/
theorem CanAnswer.inflight {taken inflight : Bytes} {peer : OutFd} {a : ReadAnswer}
    (h : CanAnswer taken peer a) (hsent : peer.sent = taken ++ inflight) :
    ∃ inflight', inflight = a.bytes ++ inflight' := by
  cases a with
  | data bs =>
    obtain ⟨t, ht⟩ : taken ++ bs <+: peer.sent := h
    rw [hsent, List.append_assoc] at ht
    exact ⟨t, (List.append_cancel_left ht).symm⟩
  | eof => exact ⟨inflight, rfl⟩
  | again => exact ⟨inflight, rfl⟩
  | fail => exact ⟨inflight, rfl⟩

/-- One more answer. -/
theorem Served.answer {α : Type} {f : Reads → Outcome α} {got : Reads} {taken : Bytes}
    {peer : OutFd} {want : ℕ} {a : ReadAnswer} (h : Served f got taken peer)
    (hw : f got = .wait want) (hfit : a.Fits want) (hcan : CanAnswer taken peer a) :
    Served f (got ++ [a]) (taken ++ a.bytes) peer ∧
      streamBytes (got ++ [a]) = streamBytes got ++ a.bytes := by
  -- behind the end of the stream there are no bytes
  have hnil : .eof ∈ got → a.bytes = [] := fun hm ↦ by
    cases a with
    | data bs =>
      obtain ⟨t, ht⟩ : taken ++ bs <+: peer.sent := hcan
      rw [← (h.eof hm).2] at ht
      have hlen := congrArg List.length ht
      have hpos : 0 < bs.length := hfit.1
      simp only [List.length_append] at hlen
      omega
    | eof => rfl
    | again => rfl
    | fail => rfl
  refine ⟨⟨h.asked.snoc hw hfit, ?_, ?_⟩, ?_⟩
  · rw [List.mem_append, List.mem_singleton, not_or]
    refine ⟨h.no_fail, ?_⟩
    rintro rfl
    exact hcan
  · intro hm
    rcases List.mem_append.1 hm with hm | hm
    · obtain ⟨hshut, htaken⟩ := h.eof hm
      exact ⟨hshut, by rw [hnil hm, List.append_nil, htaken]⟩
    · obtain rfl := List.mem_singleton.1 hm
      refine ⟨hcan.1, ?_⟩
      show taken ++ [] = peer.sent
      rw [List.append_nil, hcan.2]
  · by_cases hm : .eof ∈ got
    · rw [streamBytes_append_of_eof hm, hnil hm, List.append_nil]
    · exact streamBytes_concat hm a

/-! ### In the handshake -/

theorem header_pos (hC : CfbLaws C) (hP : P.Valid C) (x : SessionEnd) :
    0 < (P.header C x).length := by
  cases x with
  | client => exact (P.framed_request hC hP).pos
  | server => exact (framed_responseHeader hC (P.auth C)).pos

/-- An end that has sent anything but its header has sent its header. -/
theorem Outgoing.header_isPrefix {party : VmessParty} (h : Outgoing C P es x party)
    (hne : sentBy es x ≠ [] ∨ (party.out C P x).sent ≠ []) :
    (party.out C P x).sent =
      P.header C x ++ (sentBy es x).flatMap (trunkWire C (P.auth C)) := by
  rcases h.sent_eq with heq | ⟨hnil, got, hgot⟩
  · exact heq
  · rcases hne with hne | hne
    · exact absurd (h.handshaking got hgot) hne
    · exact absurd hnil hne

/-- An end that is in its handshake has been given some of the header of its peer, or more. -/
theorem Outgoing.greeted {party : VmessParty} {got : Reads} {taken inflight : Bytes}
    (h : Outgoing C P es x.peer party)
    (hsent : (party.out C P x.peer).sent = taken ++ inflight)
    (hserved : Served (fun s ↦ (P.handshake C x s {}).2) got taken (party.out C P x.peer))
    (htaken : taken = streamBytes got) : P.Greeted C x got where
  asked := hserved.asked
  no_fail := hserved.no_fail
  isPrefix := by
    rw [← htaken]
    by_cases hnil : (party.out C P x.peer).sent = []
    · rw [hnil, eq_comm, List.append_eq_nil_iff] at hsent
      exact ⟨[], hsent.1 ▸ List.nil_prefix⟩
    · exact ⟨_, h.header_isPrefix (.inr hnil) ▸ hsent ▸ List.prefix_append _ _⟩
  eof hm := by
    obtain ⟨hshut, heq⟩ := hserved.eof hm
    have hmem := h.shut_iff.1 hshut
    rw [← htaken, heq, h.header_isPrefix (.inl (List.ne_nil_of_mem hmem)), List.length_append]
    exact Nat.le_add_right _ _

/-- An end that is in its handshake has sent its header, or nothing yet. -/
theorem outgoing_handshaking (hC : CfbLaws C) (hP : P.Valid C) {got : Reads}
    (h : P.Greeted C x got) (hnil : sentBy es x = []) :
    Outgoing C P es x (.handshaking got) := by
  have hout : ((VmessParty.handshaking got).out C P x).answers = [] ∧
      ((VmessParty.handshaking got).out C P x).shut = false ∧
      (((VmessParty.handshaking got).out C P x).sent = P.header C x ∨
        ((VmessParty.handshaking got).out C P x).sent = []) := by
    rw [VmessParty.out]
    obtain ⟨want, hrun, -⟩ | ⟨sock, rest, hrun, -⟩ := P.handshake_cases hC hP h
    · rw [hrun]
      refine ⟨rfl, rfl, ?_⟩
      cases x with
      | client => exact .inl rfl
      | server => exact .inr rfl
    · rw [hrun]
      exact ⟨rfl, rfl, .inl rfl⟩
  obtain ⟨hanswers, hshut, hsent⟩ := hout
  refine ⟨hanswers, ⟨?_, ?_⟩, ?_, ?_, fun _ _ ↦ hnil, fun sock out call hp ↦ ?_⟩
  · rw [hnil]
    exact fun trunk hm ↦ absurd hm List.not_mem_nil
  · rw [hnil]
    exact fun pre post heq ↦ absurd heq (by simp)
  · rw [hshut, hnil]
    simp
  · rw [hnil, List.flatMap_nil, List.append_nil]
    exact hsent.imp_right fun hs ↦ ⟨hs, got, rfl⟩
  · exact absurd hp (by simp)

/-! ### What a step leaves alone -/

/-- An end has sent nothing more. -/
theorem Outgoing.congr {es' : List SessionEvent} {party : VmessParty}
    (h : Outgoing C P es x party) (hsent : sentBy es' x = sentBy es x) :
    Outgoing C P es' x party := by
  refine ⟨h.reliable, ?_, ?_, ?_, ?_, h.established⟩ <;> rw [hsent]
  · exact h.stream
  · exact h.shut_iff
  · exact h.sent_eq
  · exact h.handshaking

/-- After its handshake an end has sent its header. -/
theorem Outgoing.sent_of_established {sock : VmessTcpSocket} {out : OutFd} {call : Option ReadCall}
    (h : Outgoing C P es x (.established sock out call)) :
    out.sent = P.header C x ++ (sentBy es x).flatMap (trunkWire C (P.auth C)) := by
  rcases h.sent_eq with heq | ⟨-, got, hgot⟩
  · exact heq
  · exact absurd hgot (by simp)

theorem outgoing_established {sock : VmessTcpSocket} {out : OutFd} {call : Option ReadCall}
    (hanswers : out.answers = []) (hstream : IsStream (sentBy es x))
    (hshut : out.shut = true ↔ endTrunk ∈ sentBy es x)
    (hsent : out.sent = P.header C x ++ (sentBy es x).flatMap (trunkWire C (P.auth C)))
    (hshaken : P.Shaken C x sock) : Outgoing C P es x (.established sock out call) where
  reliable := hanswers
  stream := hstream
  shut_iff := hshut
  sent_eq := .inl hsent
  handshaking got hp := absurd hp (by simp)
  established sock' out' call' hp := by
    obtain ⟨rfl, -, -⟩ := VmessParty.established.inj hp
    exact hshaken

/-- A read does not change what an end has sent. -/
theorem Outgoing.read {es' : List SessionEvent} {sock sock' : VmessTcpSocket} {out : OutFd}
    {call call' : Option ReadCall} (h : Outgoing C P es x (.established sock out call))
    (hsent : sentBy es' x = sentBy es x) (hshaken : P.Shaken C x sock') :
    Outgoing C P es' x (.established sock' out call') :=
  outgoing_established h.reliable (h.congr hsent).stream (h.congr hsent).shut_iff
    (h.congr hsent).sent_of_established hshaken

/-- Nothing has happened to an end or to the stream it receives. -/
theorem Incoming.congr {es' : List SessionEvent} {taken : Bytes} {peer : OutFd}
    {party : VmessParty} (h : Incoming C P es x taken peer party)
    (hret : returnedTo es' x = returnedTo es x) (hsent : sentBy es' x.peer = sentBy es x.peer) :
    Incoming C P es' x taken peer party := by
  cases h with
  | handshaking hs hserved htaken hr => exact .handshaking hs hserved htaken (hret.trans hr)
  | established hs hheader hcall hcarries =>
    refine .established hs hheader hcall ?_
    rw [hret, hsent]
    exact hcarries

/-- The answers so far stay what they were when the peer, which is still open, goes on. -/
theorem Served.send {α : Type} {f : Reads → Outcome α} {got : Reads} {taken : Bytes}
    {peer peer' : OutFd} (h : Served f got taken peer) (hopen : peer.shut = false) :
    Served f got taken peer' where
  asked := h.asked
  no_fail := h.no_fail
  eof hm := absurd (hopen.symm.trans (h.eof hm).1) (by simp)

/-- The peer sends messages. -/
theorem Incoming.send {es' : List SessionEvent} {taken : Bytes} {peer peer' : OutFd}
    {party : VmessParty} (h : Incoming C P es x taken peer party) (hopen : peer.shut = false)
    (hret : returnedTo es' x = returnedTo es x) {more : List DataTrunk}
    (hmore : sentBy es' x.peer = sentBy es x.peer ++ more)
    (hsent' : peer'.sent = peer.sent ++ more.flatMap (trunkWire C (P.auth C))) :
    Incoming C P es' x taken peer' party := by
  cases h with
  | @handshaking got inflight hs hserved htaken hr =>
    have hs' : peer'.sent = taken ++ (inflight ++ more.flatMap (trunkWire C (P.auth C))) := by
      rw [hsent', hs, List.append_assoc]
    exact .handshaking hs' (hserved.send hopen) htaken (hret.trans hr)
  | @established sock out call inflight hs hheader hcall hcarries =>
    have hs' : peer'.sent = taken ++ (inflight ++ more.flatMap (trunkWire C (P.auth C))) := by
      rw [hsent', hs, List.append_assoc]
    refine .established hs' hheader (fun c hc ↦ ⟨(hcall c hc).1, (hcall c hc).2.send hopen⟩) ?_
    obtain ⟨decoded, left, hcarries⟩ := hcarries
    refine ⟨decoded, left ++ more, ?_⟩
    rw [hret, hmore, ← List.append_assoc]
    exact hcarries.send more

theorem SessionInv.peer_incoming {s : Session} (h : SessionInv C P es s) (x : SessionEnd) :
    Incoming C P es x.peer (s.taken x.peer) (s.out C P x) (s.party x.peer) := by
  have := (h x.peer).2
  rwa [peer_peer] at this

/-- A step of one end: what it sends and receives, and what its peer receives. -/
theorem SessionInv.update {s : Session} (h : SessionInv C P es s) {e : SessionEvent}
    (he : e.side = x) {party : VmessParty} {taken : Bytes}
    (hout : Outgoing C P (es ++ [e]) x party)
    (hin : Incoming C P (es ++ [e]) x taken (s.out C P x.peer) party)
    (hpeer : Incoming C P (es ++ [e]) x.peer (s.taken x.peer) (party.out C P x) (s.party x.peer)) :
    SessionInv C P (es ++ [e])
      ⟨Function.update s.party x party, Function.update s.taken x taken⟩ := by
  have hne : e.side ≠ x.peer := fun heq ↦ peer_ne x (heq.symm.trans he)
  intro y
  rcases eq_or_eq_peer x y with rfl | rfl
  · simp only [Session.out, Function.update_self, Function.update_of_ne (peer_ne y)]
    exact ⟨hout, hin⟩
  · simp only [Session.out, peer_peer, Function.update_self, Function.update_of_ne (peer_ne x)]
    exact ⟨(h x.peer).1.congr (sentBy_concat_of_ne hne), hpeer⟩

/-- The same, when the end takes nothing off its stream. -/
theorem SessionInv.setParty {s : Session} (h : SessionInv C P es s) {e : SessionEvent}
    (he : e.side = x) {party : VmessParty} (hout : Outgoing C P (es ++ [e]) x party)
    (hin : Incoming C P (es ++ [e]) x (s.taken x) (s.out C P x.peer) party)
    (hpeer : Incoming C P (es ++ [e]) x.peer (s.taken x.peer) (party.out C P x) (s.party x.peer)) :
    SessionInv C P (es ++ [e]) (s.setParty x party) := by
  have hupdate := h.update he hout hin hpeer
  rwa [Function.update_eq_self] at hupdate

/-- The peer of an end that sends nothing. -/
theorem SessionInv.peer_same {s : Session} (h : SessionInv C P es s) {e : SessionEvent}
    (he : e.side = x) {party : VmessParty} (hsame : party.out C P x = s.out C P x)
    (hsent : sentBy (es ++ [e]) x = sentBy es x) :
    Incoming C P (es ++ [e]) x.peer (s.taken x.peer) (party.out C P x) (s.party x.peer) := by
  have hne : e.side ≠ x.peer := fun heq ↦ peer_ne x (heq.symm.trans he)
  rw [hsame]
  refine (h.peer_incoming x).congr (returnedTo_concat_of_ne hne) ?_
  rw [peer_peer, hsent]

/-- The peer of an end that sends messages. -/
theorem SessionInv.peer_send {s : Session} (h : SessionInv C P es s) {e : SessionEvent}
    (he : e.side = x) {party : VmessParty} (hopen : (s.out C P x).shut = false)
    (hsent : (party.out C P x).sent =
      (s.out C P x).sent ++ (e.sent x).flatMap (trunkWire C (P.auth C))) :
    Incoming C P (es ++ [e]) x.peer (s.taken x.peer) (party.out C P x) (s.party x.peer) := by
  have hne : e.side ≠ x.peer := fun heq ↦ peer_ne x (heq.symm.trans he)
  refine (h.peer_incoming x).send hopen (returnedTo_concat_of_ne hne) ?_ hsent
  rw [peer_peer, sentBy_concat]

/-! ### The steps -/

/-- The header of an end comes out while its peer is still waiting for it. -/
theorem Incoming.greet (hC : CfbLaws C) (hP : P.Valid C) {taken : Bytes} {party : VmessParty}
    (h : Incoming C P es x taken {} party) :
    Incoming C P es x taken { sent := P.header C x.peer } party := by
  cases h with
  | @handshaking got inflight hs hserved htaken hr =>
    obtain ⟨rfl, -⟩ := List.append_eq_nil_iff.1 hs.symm
    exact .handshaking rfl (hserved.send rfl) htaken hr
  | @established sock out call inflight hs hheader hcall hcarries =>
    obtain ⟨rfl, -⟩ := List.append_eq_nil_iff.1 hs.symm
    have hpos := header_pos hC hP x.peer
    rw [List.prefix_nil.1 hheader] at hpos
    exact absurd hpos (by simp)

theorem SessionInv.answer_handshaking (hC : CfbLaws C) (hP : P.Valid C) {s : Session}
    (h : SessionInv C P es s) {got : Reads} {want : ℕ} {a : ReadAnswer}
    (hp : s.party x = .handshaking got) (hw : (P.handshake C x got {}).2 = .wait want)
    (hfit : a.Fits want) (hcan : CanAnswer (s.taken x) (s.out C P x.peer) a) :
    SessionInv C P (es ++ [.answer x a])
      ⟨Function.update s.party x (.handshaking (got ++ [a])),
        Function.update s.taken x (s.taken x ++ a.bytes)⟩ := by
  have hsentBy : sentBy (es ++ [.answer x a]) x = sentBy es x := sentBy_concat_of_nil rfl
  have hin := (h x).2
  rw [hp] at hin
  cases hin with
  | @handshaking _ inflight hsent hserved htaken hret =>
    obtain ⟨hserved', hbytes⟩ := hserved.answer hw hfit hcan
    obtain ⟨inflight', rfl⟩ := hcan.inflight hsent
    have hsent' : (s.out C P x.peer).sent = s.taken x ++ a.bytes ++ inflight' := by
      rw [hsent, List.append_assoc]
    have htaken' : s.taken x ++ a.bytes = streamBytes (got ++ [a]) := by rw [hbytes, htaken]
    have hgreeted := (h x.peer).1.greeted hsent hserved htaken
    have hgreeted' := (h x.peer).1.greeted hsent' hserved' htaken'
    have hnil : sentBy (es ++ [.answer x a]) x = [] := hsentBy.trans ((h x).1.handshaking got hp)
    have hret' : returnedTo (es ++ [.answer x a]) x = [] :=
      (returnedTo_concat_of_nil rfl).trans hret
    refine h.update (x := x) rfl (outgoing_handshaking hC hP hgreeted' hnil)
      (.handshaking hsent' hserved' htaken' hret') ?_
    -- only a server that has now received all of the request sends anything
    have hold : s.out C P x = { sent := P.sentFirst C x } := by
      rw [Session.out, hp, VmessParty.out]
      obtain ⟨_, hrun, -⟩ | ⟨_, _, hrun, -⟩ := P.handshake_cases hC hP hgreeted
      · rw [hrun]
      · rw [hrun] at hw
        exact absurd hw (by simp)
    obtain ⟨_, hrun, -⟩ | ⟨_, _, hrun, -⟩ := P.handshake_cases hC hP hgreeted'
    · refine h.peer_same (x := x) rfl ?_ hsentBy
      rw [hold, VmessParty.out, hrun]
    · have hnew : (VmessParty.handshaking (got ++ [a])).out C P x = { sent := P.header C x } := by
        rw [VmessParty.out, hrun]
      cases x with
      | client => exact h.peer_same (x := .client) rfl (hnew.trans hold.symm) hsentBy
      | server =>
        rw [hnew]
        have hpeer : Incoming C P (es ++ [.answer .server a]) .client (s.taken .client)
            (s.out C P .server) (s.party .client) := h.peer_same (x := .server) rfl rfl hsentBy
        rw [hold] at hpeer
        exact hpeer.greet hC hP

theorem SessionInv.answer_reading {s : Session} (h : SessionInv C P es s) {sock : VmessTcpSocket}
    {out : OutFd} {call : ReadCall} {want : ℕ} {a : ReadAnswer}
    (hp : s.party x = .established sock out (some call))
    (hw : call.run C sock call.got = .wait want) (hfit : a.Fits want)
    (hcan : CanAnswer (s.taken x) (s.out C P x.peer) a) :
    SessionInv C P (es ++ [.answer x a])
      ⟨Function.update s.party x
          (.established sock out (some { call with got := call.got ++ [a] })),
        Function.update s.taken x (s.taken x ++ a.bytes)⟩ := by
  have hsentBy : sentBy (es ++ [.answer x a]) x = sentBy es x := sentBy_concat_of_nil rfl
  obtain ⟨hout, hin⟩ := h x
  rw [hp] at hout hin
  have hsame : (VmessParty.established sock out
      (some { call with got := call.got ++ [a] })).out C P x = s.out C P x := by
    rw [Session.out, hp]
    rfl
  cases hin with
  | @established _ _ _ inflight hsent hheader hcall hcarries =>
    obtain ⟨hsize, hserved⟩ := hcall call rfl
    obtain ⟨hserved', hbytes⟩ := hserved.answer hw hfit hcan
    obtain ⟨inflight', rfl⟩ := hcan.inflight hsent
    have hsent' : (s.out C P x.peer).sent = s.taken x ++ a.bytes ++ inflight' := by
      rw [hsent, List.append_assoc]
    refine h.update (x := x) rfl (hout.read hsentBy (hout.established _ _ _ rfl)) ?_
      (h.peer_same (x := x) rfl hsame hsentBy)
    refine .established hsent' (hheader.trans (List.prefix_append _ _)) (fun c hc ↦ ?_) ?_
    · obtain rfl := Option.some.inj hc
      exact ⟨hsize, hserved'⟩
    · have hpeer : (SessionEvent.answer x a).side ≠ x.peer := (peer_ne x).symm
      have hret : returnedTo (es ++ [.answer x a]) x = returnedTo es x :=
        returnedTo_concat_of_nil rfl
      rw [sentBy_concat_of_ne hpeer, hret]
      show ∃ decoded left,
        Carries C _ _ _ _ (streamBytes (call.got ++ [a]) ++ inflight') decoded left
      rw [hbytes, List.append_assoc]
      exact hcarries

theorem SessionInv.handshook (hC : CfbLaws C) (hP : P.Valid C) {s : Session}
    (h : SessionInv C P es s) {got rest : Reads} {out : OutFd} {ok : Bool} {sock : VmessTcpSocket}
    (hp : s.party x = .handshaking got)
    (hrun : P.handshake C x got {} = (out, .done (ok, sock) rest)) :
    ok = true ∧ SessionInv C P (es ++ [.handshook x ok])
      (s.setParty x (if ok then .established sock out none else .failed out)) := by
  have hsentBy : sentBy (es ++ [.handshook x ok]) x = sentBy es x := sentBy_concat_of_nil rfl
  obtain ⟨hout, hin⟩ := h x
  rw [hp] at hout hin
  have hnil := hout.handshaking got rfl
  cases hin with
  | @handshaking _ inflight hsent hserved htaken hret =>
    have hgreeted := (h x.peer).1.greeted hsent hserved htaken
    obtain ⟨_, hrun', -⟩ | ⟨sock', rest', hrun', hgot, hbuf, hshaken⟩ :=
      P.handshake_cases hC hP hgreeted
    · rw [hrun] at hrun'
      exact absurd hrun' (by simp)
    · rw [hrun] at hrun'
      obtain ⟨rfl, hdone⟩ := Prod.mk.inj hrun'
      obtain ⟨hr, -⟩ := Outcome.done.inj hdone
      obtain ⟨rfl, rfl⟩ := Prod.mk.inj hr
      refine ⟨rfl, ?_⟩
      rw [if_pos rfl]
      have hold : s.out C P x = { sent := P.header C x } := by
        rw [Session.out, hp, VmessParty.out, hrun]
      -- the peer has sent its header, since some of it has been taken
      have hpeer := (h x.peer).1.header_isPrefix <| .inr <| by
        change (s.out C P x.peer).sent ≠ []
        rw [hsent, htaken, hgot, List.append_assoc]
        exact fun hnil ↦ absurd (header_pos hC hP x.peer)
          (by rw [(List.append_eq_nil_iff.1 hnil).1]; simp)
      change (s.out C P x.peer).sent = _ at hpeer
      refine h.setParty (x := x) rfl ?_ ?_ (h.peer_same (x := x) rfl hold.symm hsentBy)
      · refine outgoing_established rfl ?_ ?_ ?_ hshaken <;> rw [hsentBy, hnil]
        · exact hnil ▸ hout.stream
        · simp
        · simp
      · have hnoread : (SessionEvent.handshook x true).side ≠ x.peer := (peer_ne x).symm
        refine .established hsent ?_ (fun c hc ↦ absurd hc (by simp)) ⟨[], sentBy es x.peer, ?_⟩
        · rw [htaken, hgot]
          exact List.prefix_append _ _
        · rw [sentBy_concat_of_ne hnoread, returnedTo_concat_of_nil rfl, hret]
          refine .nil hbuf ?_
          rw [hsent, htaken, hgot, List.append_assoc] at hpeer
          exact List.append_cancel_left hpeer

theorem SessionInv.readCalled {s : Session} (h : SessionInv C P es s) {sock : VmessTcpSocket}
    {out : OutFd} {size : ℕ} (block : Bool) (hp : s.party x = .established sock out none)
    (hsize : 1 ≤ size) :
    SessionInv C P (es ++ [.readCalled x size block])
      (s.setParty x (.established sock out (some ⟨size, block, []⟩))) := by
  have hsentBy : sentBy (es ++ [.readCalled x size block]) x = sentBy es x :=
    sentBy_concat_of_nil rfl
  obtain ⟨hout, hin⟩ := h x
  rw [hp] at hout hin
  have hsame : (VmessParty.established sock out (some ⟨size, block, []⟩)).out C P x =
      s.out C P x := by
    rw [Session.out, hp]
    rfl
  refine h.setParty (x := x) rfl (hout.read hsentBy (hout.established _ _ _ rfl)) ?_
    (h.peer_same (x := x) rfl hsame hsentBy)
  cases hin with
  | established hsent hheader hcall hcarries =>
    have hpeer : (SessionEvent.readCalled x size block).side ≠ x.peer := (peer_ne x).symm
    have hret : returnedTo (es ++ [.readCalled x size block]) x = returnedTo es x :=
      returnedTo_concat_of_nil rfl
    refine .established hsent hheader (fun c hc ↦ ?_) ?_
    · obtain rfl := Option.some.inj hc
      exact ⟨hsize, .nil, List.not_mem_nil, fun hm ↦ absurd hm List.not_mem_nil⟩
    · rw [sentBy_concat_of_ne hpeer, hret]
      exact hcarries

/-- What a read that returns has kept. -/
theorem SessionInv.readKeeps (hC : CfbLaws C) {s : Session} (h : SessionInv C P es s)
    {sock : VmessTcpSocket} {out : OutFd} {call : ReadCall} {res : ℤ} {bs : Bytes}
    {bufs : VmessReadBuffers} {rest : Reads}
    (hp : s.party x = .established sock out (some call))
    (hrun : call.run C sock call.got = .done (res, bs, bufs) rest) :
    ∃ inflight, (s.out C P x.peer).sent = s.taken x ++ inflight ∧
      P.header C x.peer <+: s.taken x ∧
      Carries.ReadKeeps C (P.auth C) (sentBy es x.peer) (returnedTo es x) inflight call.block res bs
        bufs := by
  obtain ⟨hout, hin⟩ := h x
  rw [hp] at hout hin
  have hauth : sock.auth = P.auth C := (hout.established _ _ _ rfl).auth_eq
  cases hin with
  | @established _ _ _ inflight hsent hheader hcall hcarries =>
    obtain ⟨hsize, hserved⟩ := hcall call rfl
    obtain ⟨decoded, left, hcarries⟩ := hcarries
    have hasked : Asked (vmessTcpSocketReadC C sock.auth call.size call.block
      sock.toVmessReadBuffers) call.got := hserved.asked
    rw [ReadCall.run, hauth] at hrun
    rw [hauth] at hasked
    refine ⟨inflight, hsent, hheader, hcarries.read hC (h x.peer).1.stream hsize hserved.no_fail ?_
      hasked hrun⟩
    intro hm
    obtain ⟨hshut, htaken⟩ := hserved.eof hm
    rw [← htaken, List.self_eq_append_right] at hsent
    exact ⟨hsent, (h x.peer).1.shut_iff.1 hshut⟩

theorem SessionInv.readReturned (hC : CfbLaws C) {s : Session} (h : SessionInv C P es s)
    {sock : VmessTcpSocket} {out : OutFd} {call : ReadCall} {res : ℤ} {bs : Bytes}
    {bufs : VmessReadBuffers} {rest : Reads}
    (hp : s.party x = .established sock out (some call))
    (hrun : call.run C sock call.got = .done (res, bs, bufs) rest) :
    SessionInv C P (es ++ [.readReturned x call.block res bs])
      (s.setParty x (.established (sock.setBuffers bufs) out none)) := by
  have hsentBy : sentBy (es ++ [.readReturned x call.block res bs]) x = sentBy es x :=
    sentBy_concat_of_nil rfl
  have hout := (h x).1
  rw [hp] at hout
  obtain ⟨hauth, hready, htarget⟩ := hout.established _ _ _ rfl
  have hsame : (VmessParty.established (sock.setBuffers bufs) out none).out C P x =
      s.out C P x := by
    rw [Session.out, hp]
    rfl
  obtain ⟨inflight, hsent, hheader, hkeeps⟩ := h.readKeeps hC hp hrun
  refine h.setParty (x := x) rfl (hout.read hsentBy ⟨hauth, hready, htarget⟩) ?_
    (h.peer_same (x := x) rfl hsame hsentBy)
  have hpeer : (SessionEvent.readReturned x call.block res bs).side ≠ x.peer := (peer_ne x).symm
  have hret : returnedTo (es ++ [.readReturned x call.block res bs]) x = returnedTo es x ++ bs := by
    rw [returnedTo_concat, SessionEvent.returned, if_pos rfl]
  refine .established hsent hheader (fun c hc ↦ absurd hc (by simp)) ?_
  rw [sentBy_concat_of_ne hpeer, hret]
  exact hkeeps.carries

/-- Messages behind others, none of which is the end. -/
theorem IsStream.append {trunks more : List DataTrunk} (h : IsStream trunks)
    (hend : endTrunk ∉ trunks) (hmore : IsStream more) : IsStream (trunks ++ more) where
  sendable trunk hm := by
    rcases List.mem_append.1 hm with hm | hm
    · exact h.sendable trunk hm
    · exact hmore.sendable trunk hm
  end_last pre post heq := by
    obtain ⟨t, rfl, hmore'⟩ | ⟨t, rfl, heq'⟩ := List.append_eq_append_iff.1 heq
    · exact hmore.end_last t post hmore'
    · cases t with
      | nil => exact hmore.end_last [] post heq'.symm
      | cons a t =>
        obtain ⟨rfl, -⟩ := List.cons.inj heq'
        exact absurd (List.mem_append_right _ List.mem_cons_self) hend

theorem isStream_pieces (bs : Bytes) :
    IsStream ((vmessPieces bs).map fun piece ↦ ⟨some piece⟩) where
  sendable trunk hm data hdata := by
    obtain ⟨piece, hpiece, rfl⟩ := List.mem_map.1 hm
    obtain rfl := Option.some.inj hdata
    exact length_of_mem_vmessPieces hpiece
  end_last pre post heq := by
    have hmem : endTrunk ∈ (vmessPieces bs).map fun piece ↦ (⟨some piece⟩ : DataTrunk) := by
      rw [heq]
      exact List.mem_append_right _ List.mem_cons_self
    simp [endTrunk] at hmem

theorem isStream_end : IsStream [endTrunk] where
  sendable trunk hm data hdata := by
    obtain rfl := List.mem_singleton.1 hm
    exact absurd hdata (by simp [endTrunk])
  end_last pre post heq := by
    cases pre with
    | nil => exact ((List.cons.inj heq).2).symm
    | cons a pre => exact absurd (List.cons.inj heq).2 (by simp)

/-- **An end sends messages**, by writing or by closing. -/
theorem SessionInv.send {s : Session} (h : SessionInv C P es s) {e : SessionEvent}
    (he : e.side = x) {sock sock' : VmessTcpSocket} {out out' : OutFd} {call : Option ReadCall}
    (hp : s.party x = .established sock out call) (hopen : out.shut = false)
    (hbufs : sock'.toVmessReadBuffers = sock.toVmessReadBuffers) (hshaken : P.Shaken C x sock')
    (hmore : IsStream (e.sent x)) (hanswers : out'.answers = [])
    (hsent' : out'.sent = out.sent ++ (e.sent x).flatMap (trunkWire C (P.auth C)))
    (hshut' : out'.shut = true ↔ endTrunk ∈ e.sent x) (hret : e.returned x = []) :
    SessionInv C P (es ++ [e]) (s.setParty x (.established sock' out' call)) := by
  obtain ⟨hout, hin⟩ := h x
  rw [hp] at hout hin
  have hold : s.out C P x = out := by
    rw [Session.out, hp]
    rfl
  have hend : endTrunk ∉ sentBy es x := fun hm ↦
    absurd (hopen.symm.trans (hout.shut_iff.2 hm)) (by simp)
  refine h.setParty he ?_ ?_ (h.peer_send he (hold ▸ hopen) (hold ▸ hsent'))
  · refine outgoing_established hanswers ?_ ?_ ?_ hshaken <;> rw [sentBy_concat]
    · exact hout.stream.append hend hmore
    · rw [hshut', List.mem_append, or_iff_right hend]
    · rw [hsent', hout.sent_of_established, List.flatMap_append, List.append_assoc]
  · cases hin with
    | established hsent hheader hcall hcarries =>
      have hpeer : e.side ≠ x.peer := fun heq ↦ peer_ne x (heq.symm.trans he)
      have hauth : sock'.auth = sock.auth :=
        hshaken.auth_eq.trans (hout.established _ _ _ rfl).auth_eq.symm
      have hrun (c : ReadCall) : c.run C sock' = c.run C sock := by
        funext got
        rw [ReadCall.run, ReadCall.run, hauth, hbufs]
      refine .established hsent hheader (fun c hc ↦ ?_) ?_
      · rw [hrun c]
        exact hcall c hc
      · rw [sentBy_concat_of_ne hpeer, returnedTo_concat, hret, List.append_nil, hbufs]
        exact hcarries

theorem SessionInv.wrote (hC : CfbLaws C) {s : Session} (h : SessionInv C P es s)
    {sock sock' : VmessTcpSocket} {out out' : OutFd} {call : Option ReadCall} {bs : Bytes} {ret : ℤ}
    (hp : s.party x = .established sock out call) (hopen : out.shut = false) (hbs : bs ≠ [])
    (hrun : vmessTcpSocketWrite C bs sock out = some (ret, sock', out')) :
    SessionInv C P (es ++ [.wrote x bs]) (s.setParty x (.established sock' out' call)) := by
  have hout := (h x).1
  rw [hp] at hout
  have hanswers : out.answers = [] := hout.reliable
  obtain ⟨hauth, hready, htarget⟩ := hout.established _ _ _ rfl
  obtain ⟨ret', vser', hrun', -, hready'⟩ := vmessTcpSocketWrite_reliable hC hready hanswers hbs
  rw [hrun] at hrun'
  obtain ⟨-, hr⟩ := Prod.mk.inj (Option.some.inj hrun')
  obtain ⟨rfl, rfl⟩ := Prod.mk.inj hr
  have hsentBy : (SessionEvent.wrote x bs).sent x =
      (vmessPieces bs).map fun piece ↦ ⟨some piece⟩ := by
    rw [SessionEvent.sent, if_pos rfl]
  refine h.send (x := x) rfl hp hopen rfl ⟨hauth, hready', htarget⟩ ?_ hanswers ?_ ?_ rfl
  · rw [hsentBy]
    exact isStream_pieces bs
  · rw [hsentBy, List.flatMap_map]
    rfl
  · rw [hsentBy]
    refine iff_of_false ?_ (by simp [endTrunk])
    show ¬out.shut = true
    simp [hopen]

theorem SessionInv.closed {s : Session} (h : SessionInv C P es s) {sock : VmessTcpSocket}
    {out : OutFd} {call : Option ReadCall} (hp : s.party x = .established sock out call)
    (hopen : out.shut = false) :
    SessionInv C P (es ++ [.closed x])
      (s.setParty x (.established sock (vmessTcpSocketClose out) call)) := by
  have hout := (h x).1
  rw [hp] at hout
  have hanswers : out.answers = [] := hout.reliable
  have hsentBy : (SessionEvent.closed x).sent x = [endTrunk] := by
    rw [SessionEvent.sent, if_pos rfl]
  have hclose : vmessTcpSocketClose out =
      { out with sent := out.sent ++ vmessSerialEnd, shut := true } := by
    rw [vmessTcpSocketClose, fdWrite_of_reliable hanswers]
    rfl
  refine h.send (x := x) rfl hp hopen rfl (hout.established _ _ _ rfl) ?_ ?_ ?_ ?_ rfl
  · rw [hsentBy]
    exact isStream_end
  · rw [hclose]
    exact hanswers
  · rw [hsentBy, hclose]
    simp [trunkWire, endTrunk]
  · rw [hsentBy, hclose]
    simp

theorem greeted_nil (C : Crypto) (P : VmessPeers) (x : SessionEnd) : P.Greeted C x [] :=
  ⟨.nil, List.not_mem_nil, ⟨[], List.nil_prefix⟩, fun hm ↦ absurd hm List.not_mem_nil⟩

/-- At the beginning nothing has happened. -/
theorem sessionInv_start (hC : CfbLaws C) (hP : P.Valid C) : SessionInv C P [] sessionStart := by
  intro x
  refine ⟨outgoing_handshaking hC hP (greeted_nil C P x) rfl, ?_⟩
  exact .handshaking (List.nil_append _).symm
    ⟨.nil, List.not_mem_nil, fun hm ↦ absurd hm List.not_mem_nil⟩ rfl rfl

/-- **Every step keeps the invariant.** -/
theorem SessionInv.step (hC : CfbLaws C) (hP : P.Valid C) {s s' : Session} {e : SessionEvent}
    (h : SessionInv C P es s) (hstep : SessionStep C P s e s') : SessionInv C P (es ++ [e]) s' := by
  cases hstep with
  | @answer x want a hw hfit hcan =>
    match hp : s.party x with
    | .handshaking got =>
      rw [hp] at hw
      exact h.answer_handshaking hC hP hp hw hfit hcan
    | .established sock out (some call) =>
      rw [hp] at hw
      exact h.answer_reading hp hw hfit hcan
    | .established sock out none =>
      rw [hp] at hw
      exact absurd hw id
    | .failed out =>
      rw [hp] at hw
      exact absurd hw id
  | handshook hp hrun => exact (h.handshook hC hP hp hrun).2
  | readCalled block hp hsize => exact h.readCalled block hp hsize
  | readReturned hp hrun => exact h.readReturned hC hp hrun
  | wrote hp hopen hbs hrun => exact h.wrote hC hp hopen hbs hrun
  | closed hp hopen => exact h.closed hp hopen

end

end Vmecs
