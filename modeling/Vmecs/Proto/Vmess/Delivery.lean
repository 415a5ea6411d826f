import Vmecs.Proto.Vmess.Invariant

/-!
# A session delivers the stream

* `SessionInv.good` — no handshake fails, no read returns an error, no blocking read gives up, and
  the end of the stream is reported behind all of it;
* `vmess_deliversStream` — and what has been returned is a prefix of what has been written, in every
  run; a handshake returns, and nothing that has arrived is kept back.
-/

namespace Vmecs

section

variable {C : Crypto} {P : VmessPeers} {es : List SessionEvent} {x : SessionEnd}

/-! ### What is observed -/

/-- What an event must be like behind the events `es`: a handshake succeeds; a read gives as many
bytes as it says, does not fail, gives up only if it does not block, and reports the end of the
stream only when the peer has closed it and all of it has been returned. -/
def SessionEvent.Good (es : List SessionEvent) : SessionEvent → Prop
  | handshook _ ok => ok = true
  | readReturned x block res bs =>
    bs.length = res.toNat ∧ res ≠ -1 ∧ (block = true → res ≠ -2) ∧
      (res = 0 → HasClosed es x.peer ∧ returnedTo es x = writtenBy es x.peer)
  | _ => True

/-- **The session delivers the stream.** -/
structure DeliversStream (C : Crypto) (P : VmessPeers) (es : List SessionEvent)
    (s : Session) : Prop where
  /-- every event is as it must be -/
  good : Run.Forall SessionEvent.Good es
  /-- when nothing is on its way any more, both handshakes return, with success -/
  handshakes_return : (∀ x, s.Arrived C P x) → ∀ x got, s.party x = .handshaking got →
    ∃ sock out rest, P.handshake C x got {} = (out, .done (true, sock) rest)
  /-- and as long as something is, a call that waits can be given a byte of it -/
  can_answer : ∀ x want, (s.party x).Waits C P x want → ¬s.Arrived C P x →
    ∃ b, CanAnswer (s.taken x) (s.out C P x.peer) (.data [b]) ∧ (ReadAnswer.data [b]).Fits want
  /-- a blocking read that waits, when nothing is on its way, waits behind all that was written -/
  nothing_lost : ∀ x sock out call want, s.party x = .established sock out (some call) →
    call.block = true → call.run C sock call.got = .wait want → s.Arrived C P x →
    returnedTo es x = writtenBy es x.peer
  /-- a write returns -/
  write_returns : ∀ x sock out call bs, s.party x = .established sock out call → bs ≠ [] →
    ∃ r, vmessTcpSocketWrite C bs sock out = some r
  /-- the server is told the target of the client -/
  same_target : ∀ sock out call, s.party .server = .established sock out call →
    sock.addr = some P.target
  /-- both ends have the same key, iv and nonce -/
  same_auth : ∀ sock out call sock' out' call', s.party .client = .established sock out call →
    s.party .server = .established sock' out' call' → sock'.auth = sock.auth
  /-- what has been returned at one end is a prefix of what has been written at the other -/
  isPrefix : ∀ x, returnedTo es x <+: writtenBy es x.peer

theorem SessionInv.good (hC : CfbLaws C) (hP : P.Valid C) {s s' : Session} {e : SessionEvent}
    (h : SessionInv C P es s) (hstep : SessionStep C P s e s') : e.Good es := by
  cases hstep with
  | handshook hp hrun => exact (h.handshook hC hP hp hrun).1
  | @readReturned x sock out call res bs bufs rest hp hrun =>
    obtain ⟨inflight, -, -, hkeeps⟩ := h.readKeeps hC hp hrun
    refine ⟨hkeeps.count, hkeeps.no_error, hkeeps.no_giving_up, fun hres ↦ ?_⟩
    obtain ⟨hmem, hall⟩ := hkeeps.at_end hres
    have hbs : bs = [] := List.length_eq_zero_iff.1 (by rw [hkeeps.count, hres]; rfl)
    rw [hbs, List.append_nil, flatMap_bytes_sentBy] at hall
    exact ⟨endTrunk_mem_sentBy.1 hmem, hall⟩
  | _ => trivial

/-- A handshake to which something is sent, and nothing is on its way, has all of its header. -/
theorem SessionInv.returns (hC : CfbLaws C) (hP : P.Valid C) {s : Session}
    (h : SessionInv C P es s) {got : Reads} (hp : s.party x = .handshaking got)
    (harrived : s.Arrived C P x) (hne : (s.out C P x.peer).sent ≠ []) :
    ∃ sock rest,
      P.handshake C x got {} = ({ sent := P.header C x }, .done (true, sock) rest) := by
  have hin := (h x).2
  rw [hp] at hin
  cases hin with
  | handshaking hsent hserved htaken _ =>
    have hgreeted := (h x.peer).1.greeted hsent hserved htaken
    obtain ⟨_, -, hlt⟩ | ⟨sock, rest, hrun, -⟩ := P.handshake_cases hC hP hgreeted
    · have hheader := (h x.peer).1.header_isPrefix (.inr hne)
      change (s.out C P x.peer).sent = _ at hheader
      rw [← htaken, harrived, hheader, List.length_append] at hlt
      exact absurd hlt (by omega)
    · exact ⟨sock, rest, hrun⟩

/-- Behind its handshake an end has sent its header. -/
theorem SessionInv.established_sent (hC : CfbLaws C) (hP : P.Valid C) {s : Session}
    (h : SessionInv C P es s) {sock : VmessTcpSocket} {out : OutFd} {call : Option ReadCall}
    (hp : s.party x = .established sock out call) : (s.out C P x).sent ≠ [] := by
  have hout := (h x).1
  rw [hp] at hout
  rw [Session.out, hp]
  show out.sent ≠ []
  rw [hout.sent_of_established]
  exact fun hnil ↦
    List.ne_nil_of_length_pos (header_pos hC hP x) (List.append_eq_nil_iff.1 hnil).1

/-- The client sends its request at once. -/
theorem SessionInv.client_sent (hC : CfbLaws C) (hP : P.Valid C) {s : Session}
    (h : SessionInv C P es s) : (s.out C P .client).sent ≠ [] := by
  have hpos := header_pos hC hP .client
  have hin := (h .client).2
  cases hp : s.party .client with
  | handshaking got =>
    rw [hp] at hin
    cases hin with
    | handshaking hsent hserved htaken _ =>
      have hgreeted := (h SessionEnd.client.peer).1.greeted hsent hserved htaken
      rw [Session.out, hp, VmessParty.out]
      obtain ⟨_, hrun, -⟩ | ⟨_, _, hrun, -⟩ := P.handshake_cases hC hP hgreeted <;> rw [hrun] <;>
        exact List.ne_nil_of_length_pos hpos
  | established => exact h.established_sent hC hP hp
  | failed out =>
    rw [hp] at hin
    cases hin

/-- With nothing on its way the server has sent its response, or more. -/
theorem SessionInv.server_sent (hC : CfbLaws C) (hP : P.Valid C) {s : Session}
    (h : SessionInv C P es s) (harrived : s.Arrived C P .server) :
    (s.out C P .server).sent ≠ [] := by
  have hin := (h .server).2
  cases hp : s.party .server with
  | handshaking got =>
    obtain ⟨_, _, hrun⟩ := h.returns hC hP hp harrived (h.client_sent hC hP)
    rw [Session.out, hp, VmessParty.out, hrun]
    exact List.ne_nil_of_length_pos (header_pos hC hP .server)
  | established => exact h.established_sent hC hP hp
  | failed out =>
    rw [hp] at hin
    cases hin

/-- A call that waits asks for something. -/
theorem VmessParty.Waits.pos {party : VmessParty} {want : ℕ} (h : party.Waits C P x want)
    (hsize : ∀ sock out call, party = .established sock out (some call) → 1 ≤ call.size) :
    0 < want := by
  match party with
  | .handshaking got =>
    change (P.handshake C x got {}).2 = .wait want at h
    cases x with
    | client =>
      rw [VmessPeers.handshake_client] at h
      exact (rbufferCall_wait (c := .read) (rbufferRead_of_client_wait (P.socket C .client)
        (P.requestHeader_eq_header C) h)).1
    | server =>
      rw [VmessPeers.handshake_server] at h
      exact (rbufferCall_wait (c := .read)
        (rbufferRead_of_server_wait (P.socket C .server) P.clock h)).1
  | .established sock out (some call) =>
    change vmessTcpSocketReadC C sock.auth call.size call.block sock.toVmessReadBuffers call.got =
      .wait want at h
    rw [vmessTcpSocketReadC_eq C sock.auth (hsize sock out call rfl)] at h
    split at h
    · exact absurd h (by simp)
    · split at h
      · exact absurd h (by simp)
      · exact (rbufferCall_wait (Outcome.map_eq_wait.1 h)).1

theorem Incoming.exists_inflight {taken : Bytes} {peer : OutFd} {party : VmessParty}
    (h : Incoming C P es x taken peer party) : ∃ inflight, peer.sent = taken ++ inflight := by
  cases h with
  | handshaking hsent => exact ⟨_, hsent⟩
  | established hsent => exact ⟨_, hsent⟩

theorem Incoming.isPrefix {taken : Bytes} {peer : OutFd} {party : VmessParty}
    (h : Incoming C P es x taken peer party) : returnedTo es x <+: writtenBy es x.peer := by
  cases h with
  | handshaking _ _ _ hret => exact hret ▸ List.nil_prefix
  | established _ _ _ hcarries =>
    obtain ⟨decoded, left, hcarries⟩ := hcarries
    have hpre := hcarries.isPrefix
    rwa [flatMap_bytes_sentBy] at hpre

theorem SessionInv.can_answer {s : Session} (h : SessionInv C P es s) {want : ℕ}
    (hw : (s.party x).Waits C P x want) (hnot : ¬s.Arrived C P x) :
    ∃ b, CanAnswer (s.taken x) (s.out C P x.peer) (.data [b]) ∧
      (ReadAnswer.data [b]).Fits want := by
  obtain ⟨-, hin⟩ := h x
  obtain ⟨inflight, hsent⟩ := hin.exists_inflight
  have hsize : ∀ sock out call, s.party x = .established sock out (some call) → 1 ≤ call.size := by
    intro sock out call hp
    rw [hp] at hin
    cases hin with
    | established _ _ hcall _ => exact (hcall call rfl).1
  cases inflight with
  | nil => exact absurd (hsent.trans (List.append_nil _)).symm hnot
  | cons b inflight =>
    refine ⟨b, ?_, Nat.one_pos, hw.pos hsize⟩
    show s.taken x ++ [b] <+: _
    rw [hsent]
    exact ⟨inflight, by rw [List.append_assoc, List.singleton_append]⟩

/-- A blocking read that waits has decoded all that it was given. -/
theorem SessionInv.nothing_lost (hC : CfbLaws C) {s : Session} (h : SessionInv C P es s)
    {sock : VmessTcpSocket} {out : OutFd} {call : ReadCall} {want : ℕ}
    (hp : s.party x = .established sock out (some call)) (hblock : call.block = true)
    (hw : call.run C sock call.got = .wait want) (harrived : s.Arrived C P x) :
    returnedTo es x = writtenBy es x.peer := by
  obtain ⟨hout, hin⟩ := h x
  rw [hp] at hout hin
  have hauth : sock.auth = P.auth C := (hout.established _ _ _ rfl).auth_eq
  cases hin with
  | @established _ _ _ inflight hsent hheader hcall hcarries =>
    obtain ⟨hsize, hserved⟩ := hcall call rfl
    obtain ⟨decoded, left, hcarries⟩ := hcarries
    have hnil : inflight = [] := by rwa [← harrived, List.self_eq_append_right] at hsent
    have hrun (got : Reads) : call.run C sock got = _ :=
      vmessTcpSocketReadC_eq C sock.auth hsize call.block sock.toVmessReadBuffers got
    rw [hblock, hauth] at hrun
    have hopen : sock.readBuf.eof = false := by
      by_contra heof
      rw [hrun, if_pos (by simpa using heof)] at hw
      exact absurd hw (by simp)
    have hdata : sock.readBuf.data = [] := by
      by_contra hdata
      rw [hrun, if_neg (by simp [hopen]), if_pos hdata] at hw
      exact absurd hw (by simp)
    simp only [hopen, hdata, Bool.false_eq_true, if_false, ne_eq, not_true_eq_false,
      if_true] at hrun
    have hasked := hserved.asked.mono fun got want hw ↦
      Outcome.map_eq_wait.1 ((hrun got).symm.trans hw)
    have hmore := decode_eq_more_of_wait (prompt_vmessDecodeData C (P.auth C)).nil hasked
      (Outcome.map_eq_wait.1 ((hrun call.got).symm.trans hw))
    have hstep : RBufferStep (vmessDecodeData C (P.auth C))
        (sock.rawBuf.data ++ streamBytes call.got) .incomplete _ := ⟨hmore, rfl⟩
    obtain ⟨-, -, hleft⟩ | ⟨_, _, habsurd, -⟩ := hcarries.decode hC (h x.peer).1.stream hstep
    · have hall := hcarries.returned_eq
      rw [hdata, List.append_nil] at hall
      rw [hall, ← flatMap_bytes_sentBy, hcarries.split, hleft hnil, List.append_nil]
    · exact absurd habsurd (by simp)

/-- A socket that is ready can be written to. -/
theorem SessionInv.write_returns (hC : CfbLaws C) {s : Session} (h : SessionInv C P es s)
    {sock : VmessTcpSocket} {out : OutFd} {call : Option ReadCall} {bs : Bytes}
    (hp : s.party x = .established sock out call) (hbs : bs ≠ []) :
    ∃ r, vmessTcpSocketWrite C bs sock out = some r := by
  have hout := (h x).1
  rw [hp] at hout
  have hanswers : out.answers = [] := hout.reliable
  obtain ⟨ret, vser, hrun, -⟩ :=
    vmessTcpSocketWrite_reliable hC (hout.established _ _ _ rfl).ready hanswers hbs
  exact ⟨_, hrun⟩

/-- **A VMess session delivers the stream**, in both directions, in every run. -/
theorem vmess_deliversStream (hC : CfbLaws C) (hP : P.Valid C) {s : Session}
    (hrun : Run (SessionStep C P) sessionStart es s) : DeliversStream C P es s := by
  obtain ⟨hinv, hgood⟩ : SessionInv C P es s ∧ Run.Forall SessionEvent.Good es := by
    refine hrun.invariant (I := fun es s ↦ SessionInv C P es s ∧ Run.Forall SessionEvent.Good es)
      ⟨sessionInv_start hC hP, .nil⟩ fun es s e s' ih hstep ↦ ?_
    exact ⟨ih.1.step hC hP hstep, ih.2.snoc (ih.1.good hC hP hstep)⟩
  refine ⟨hgood, fun harrived x got hp ↦ ?_, fun x want ↦ hinv.can_answer,
    fun x sock out call want ↦ hinv.nothing_lost hC, fun x sock out call bs ↦ hinv.write_returns hC,
    fun sock out call hp ↦ ?_, fun sock out call sock' out' call' hp hp' ↦ ?_,
    fun x ↦ (hinv x).2.isPrefix⟩
  · have hne : (s.out C P x.peer).sent ≠ [] := by
      cases x with
      | client => exact hinv.server_sent hC hP (harrived .server)
      | server => exact hinv.client_sent hC hP
    obtain ⟨sock, rest, hdone⟩ := hinv.returns hC hP hp (harrived x) hne
    exact ⟨sock, _, rest, hdone⟩
  · exact ((hinv .server).1.established _ _ _ hp).target_eq rfl
  · exact ((hinv .server).1.established _ _ _ hp').auth_eq.trans
      ((hinv .client).1.established _ _ _ hp).auth_eq.symm

/-! ### A run that delivers -/

/-- A message that comes in one segment is read into an empty buffer with room for it. -/
theorem rbufferRead_segment {V : Type} {D : StreamDecoder UInt8 V} {m : Bytes} {v : V}
    (h : D.Framed m v) {buf : RBuffer} (hbuf : buf.data = []) (hfit : m.length ≤ buf.size) :
    rbufferRead D buf [] = .wait buf.size ∧
      ∃ buf', rbufferRead D buf [.data m] = .done (.success v, buf') [] := by
  have hread (s : Reads) : rbufferRead D buf s = rbufferReadMore D buf s := by
    rw [rbufferRead, if_pos (by rw [hbuf]; rfl)]
  have hrest : buf.room.rest = buf.size := by
    rw [RBuffer.room_of_nil hbuf, RBuffer.rest, hbuf]
    rfl
  have hfits : (ReadAnswer.data m).Fits buf.room.rest := by
    rw [hrest]
    exact ⟨h.pos, hfit⟩
  have hok : D (buf.room.store m (RBuffer.le_size_of_fits hfits)).data = .ok m.length v := by
    rw [RBuffer.data_store, RBuffer.data_room, hbuf, List.nil_append]
    simpa using h.ok []
  refine ⟨by rw [hread, rbufferReadMore, hrest], ?_⟩
  rw [hread, rbufferReadMore, dif_pos hfits, rbufferDecode, hok]
  exact ⟨_, rfl⟩

/-- So is a chunk. -/
theorem vmessTcpSocketReadC_segment (hC : CfbLaws C) (auth : VmessAuth)
    {bufs : VmessReadBuffers} (hread : bufs.readBuf = vbufferNew vmessTcpDefaultBuf)
    (hraw : bufs.rawBuf.data = []) {data : Bytes} (hdata : data ≠ [])
    (hlen : data.length ≤ vmessTcpDefaultBuf)
    (hfit : (vmessTrunk C auth data).length ≤ bufs.rawBuf.size) :
    vmessTcpSocketReadC C auth vmessTcpDefaultBuf true bufs [] = .wait bufs.rawBuf.size ∧
      ∃ bufs', vmessTcpSocketReadC C auth vmessTcpDefaultBuf true bufs
        [.data (vmessTrunk C auth data)] = .done ((data.length : ℤ), data, bufs') [] := by
  have hmax : vmessTcpDefaultBuf ≤ vmessMaxPayload := by decide
  obtain ⟨hwait, buf', hdone⟩ :=
    rbufferRead_segment (framed_vmessTrunk hC auth (hlen.trans hmax)) hraw hfit
  have heof : bufs.readBuf.eof = false := by rw [hread, eof_vbufferNew]
  have hempty : bufs.readBuf.data = [] := by rw [hread, data_vbufferNew]
  have hcall (s : Reads) : vmessTcpSocketReadC C auth vmessTcpDefaultBuf true bufs s =
      (rbufferRead (vmessDecodeData C auth) bufs.rawBuf s).map
        (vmessReadResult vmessTcpDefaultBuf bufs.readBuf) := by
    rw [vmessTcpSocketReadC_eq C auth (by decide)]
    simp [heof, hempty, rbufferCall]
  obtain ⟨readBuf', -, -, hresult⟩ := vmessReadResult_of_ne_nil vmessTcpDefaultBuf heof hempty
    (show (⟨some data⟩ : DataTrunk).bytes ≠ [] from hdata) buf'
  refine ⟨by rw [hcall, hwait]; rfl, ⟨readBuf', buf'⟩, ?_⟩
  rw [hcall, hdone, Outcome.map, hresult]
  have htake : (⟨some data⟩ : DataTrunk).bytes.take vmessTcpDefaultBuf = data :=
    List.take_of_length_le hlen
  rw [htake]

/-- The header of its peer comes in one segment, and the handshake of an end returns. -/
theorem exists_run_handshook (hC : CfbLaws C) (hP : P.Valid C) {s : Session}
    (hrun : Run (SessionStep C P) sessionStart es s) (hp : s.party x = .handshaking [])
    (htaken : s.taken x = []) (hout : (s.out C P x.peer).sent = P.header C x.peer)
    (hfit : (P.header C x.peer).length ≤ vmessTcpDefaultBuf) :
    ∃ s' sock, Run (SessionStep C P) sessionStart
        (es ++ [.answer x (.data (P.header C x.peer))] ++ [.handshook x true]) s' ∧
      s'.party x = .established sock { sent := P.header C x } none ∧
      s'.party x.peer = s.party x.peer ∧ s'.taken x = P.header C x.peer ∧
      s'.taken x.peer = s.taken x.peer ∧ P.Shaken C x sock ∧
      sock.readBuf = vbufferNew vmessTcpDefaultBuf ∧ sock.rawBuf.data = [] ∧
      vmessTcpDefaultBuf ≤ sock.rawBuf.size := by
  obtain ⟨sock, _, hshake, hraw, hsize, hread, hshaken⟩ :=
    P.handshake_segment hC hP x [] (by rwa [List.append_nil])
  rw [List.append_nil] at hshake
  have hwaits : (s.party x).Waits C P x vmessTcpDefaultBuf := by
    rw [hp]
    exact P.handshake_nil C x
  have hcan : CanAnswer (s.taken x) (s.out C P x.peer) (.data (P.header C x.peer)) := by
    rw [CanAnswer, htaken, hout]
    exact List.prefix_rfl
  have h₁ := hrun.snoc (.answer (a := .data (P.header C x.peer)) hwaits
    ⟨P.header_pos hC hP x.peer, hfit⟩ hcan)
  have hgiven : Function.update s.party x ((s.party x).give (.data (P.header C x.peer))) x =
      .handshaking [.data (P.header C x.peer)] := by
    rw [Function.update_self, hp]
    rfl
  have hne : x.peer ≠ x := by cases x <;> decide
  refine ⟨_, sock, h₁.snoc (.handshook hgiven hshake), Function.update_self .., ?_, ?_, ?_, hshaken,
    hread, hraw, hsize⟩
  · exact (Function.update_of_ne hne ..).trans (Function.update_of_ne hne ..)
  · refine (Function.update_self ..).trans ?_
    rw [htaken]
    rfl
  · exact Function.update_of_ne hne ..

/-- An end writes a chunk, which comes in one segment, and its peer reads it. -/
theorem exists_run_chunk (hC : CfbLaws C) {s : Session}
    (hrun : Run (SessionStep C P) sessionStart es s) {near far : VmessTcpSocket}
    (hnear : s.party x.peer = .established near { sent := P.header C x.peer } none)
    (hfar : s.party x = .established far { sent := P.header C x } none)
    (htaken : s.taken x = P.header C x.peer) (hready : near.Ready (P.auth C))
    (hauth : far.auth = P.auth C) (hread : far.readBuf = vbufferNew vmessTcpDefaultBuf)
    (hraw : far.rawBuf.data = []) {data : Bytes} (hdata : data ≠ [])
    (hlen : data.length ≤ vmessTcpDefaultBuf)
    (hfit : (vmessTrunk C (P.auth C) data).length ≤ far.rawBuf.size) :
    ∃ s', Run (SessionStep C P) sessionStart (es ++ [.wrote x.peer data] ++
      [.readCalled x vmessTcpDefaultBuf true] ++
      [.answer x (.data (vmessTrunk C (P.auth C) data))] ++
      [.readReturned x true data.length data]) s' := by
  obtain ⟨ret, vser, hwrite, -⟩ := vmessTcpSocketWrite_reliable hC hready
    (show ({ sent := P.header C x.peer } : OutFd).answers = [] from rfl) hdata
  have hpieces : (vmessPieces data).flatMap (vmessTrunk C (P.auth C)) =
      vmessTrunk C (P.auth C) data := by
    rw [vmessPieces_of_le hdata (hlen.trans (by decide)), List.flatMap_singleton]
  obtain ⟨hwait, bufs, hdone⟩ :=
    vmessTcpSocketReadC_segment hC (P.auth C) hread hraw hdata hlen hfit
  have hne : x.peer ≠ x := by cases x <;> decide
  have h₁ := hrun.snoc (.wrote hnear rfl hdata hwrite)
  set s₁ := s.setParty x.peer _ with hs₁
  have hparty₁ : s₁.party x = .established far { sent := P.header C x } none :=
    (Function.update_of_ne hne.symm ..).trans hfar
  have hout₁ : (s₁.out C P x.peer).sent = P.header C x.peer ++ vmessTrunk C (P.auth C) data := by
    have hparty : s₁.party x.peer = .established _ _ none := Function.update_self ..
    rw [Session.out, hparty, ← hpieces]
    rfl
  have htaken₁ : s₁.taken x = P.header C x.peer := htaken
  clear_value s₁
  have h₂ := h₁.snoc (.readCalled true hparty₁ (show 1 ≤ vmessTcpDefaultBuf by decide))
  set s₂ := s₁.setParty x _ with hs₂
  have hparty₂ : s₂.party x =
      .established far { sent := P.header C x } (some ⟨vmessTcpDefaultBuf, true, []⟩) :=
    Function.update_self ..
  have hcan : CanAnswer (s₂.taken x) (s₂.out C P x.peer)
      (.data (vmessTrunk C (P.auth C) data)) := by
    have hout₂ : s₂.out C P x.peer = s₁.out C P x.peer := by
      have hparty : s₂.party x.peer = s₁.party x.peer := Function.update_of_ne hne ..
      rw [Session.out, hparty, Session.out]
    rw [CanAnswer, hout₂, hout₁, show s₂.taken x = _ from htaken₁]
  clear_value s₂
  have hwaits : (s₂.party x).Waits C P x far.rawBuf.size := by
    rw [hparty₂]
    show vmessTcpSocketReadC C far.auth _ _ _ _ = _
    rw [hauth]
    exact hwait
  have h₃ := h₂.snoc (.answer (a := .data (vmessTrunk C (P.auth C) data)) hwaits
    ⟨length_vmessTrunk_pos C _ data, hfit⟩ hcan)
  have hgiven :
      Function.update s₂.party x ((s₂.party x).give (.data (vmessTrunk C (P.auth C) data))) x =
        .established far { sent := P.header C x } (some ⟨vmessTcpDefaultBuf, true,
        [.data (vmessTrunk C (P.auth C) data)]⟩) := by
    rw [Function.update_self, hparty₂]
    rfl
  have hreturns : ReadCall.run C far ⟨vmessTcpDefaultBuf, true,
      [.data (vmessTrunk C (P.auth C) data)]⟩ [.data (vmessTrunk C (P.auth C) data)] =
        .done ((data.length : ℤ), data, bufs) [] := by
    rw [ReadCall.run, hauth]
    exact hdone
  exact ⟨_, h₃.snoc (.readReturned hgiven hreturns)⟩

end

/-! ### At one run -/

/-- A client and a server for the examples of this development. -/
def samplePeers : VmessPeers where
  userId := sampleUserId
  genTime := 1600000000
  target := sampleRequest.target
  proxy := sampleRequest.target
  rand _ := 0
  clock _ := sampleClock
  uninit _ := ⟨sampleUserId, sampleUserId, 0, 0⟩

theorem inWindow_sampleClock : sampleClock.InWindow 1600000000 := ⟨by decide, by decide⟩

theorem valid_samplePeers : samplePeers.Valid openssl where
  in_window _ := inWindow_sampleClock
  first _ := firstWithCode_sampleClock openssl
  short := trivial
  padding := by decide

theorem length_header_samplePeers : (samplePeers.header openssl .client).length = 65 := by
  have hheader := samplePeers.requestHeader_eq_header openssl
  rw [requestHeader_eq cfbLaws_openssl samplePeers.rand (samplePeers.auth openssl)
    (show (vmessClientRequest samplePeers.target).opt = 1 from rfl), Option.some_inj] at hheader
  have hpadding : randomIn 0 (vmessConfigNew samplePeers.userId).pMax (samplePeers.rand 0) = 0 := by
    decide
  have hwire : (vmessClientRequest samplePeers.target).target.addr.wire.length = 4 := rfl
  rw [← hheader, List.length_append, (vmessGenValidationCode _ _ _).2, cfbLaws_openssl.length_enc,
    withChecksum, List.length_append, (be32 _).2, hpadding, vmessCmdPlain, List.length_append,
    length_paddingBytes, vmessCmdHead]
  simp only [List.length_append, List.length_cons, List.length_nil, hwire, (be16 _).2,
    (VmessAuth.iv _).2, (VmessAuth.key _).2]

theorem length_responseHeader_samplePeers : (samplePeers.header openssl .server).length = 4 :=
  cfbLaws_openssl.length_enc _ _ _

/-- The chunk of two bytes. -/
theorem length_vmessTrunk_samplePeers :
    (vmessTrunk openssl (samplePeers.auth openssl) [104, 105]).length = 8 := by
  rw [vmessTrunk, List.length_append, (be16 _).2, cfbLaws_openssl.length_enc,
    length_vmessTrunkPlain]
  rfl

/-- The headers arrive and both handshakes return; the client writes two bytes, and the server reads
them. -/
theorem vmess_deliversStream_samplePeers :
    ∃ es s, Run (SessionStep openssl samplePeers) sessionStart es s ∧
      writtenBy es .client = [104, 105] ∧ returnedTo es .server = [104, 105] ∧
      DeliversStream openssl samplePeers es s := by
  have hclient : (samplePeers.header openssl .client).length ≤ vmessTcpDefaultBuf := by
    rw [length_header_samplePeers]
    decide
  have hserver : (samplePeers.header openssl .server).length ≤ vmessTcpDefaultBuf := by
    rw [length_responseHeader_samplePeers]
    decide
  have hsent : ((sessionStart.out openssl samplePeers .client)).sent =
      samplePeers.header openssl .client := by
    show (samplePeers.handshake openssl .client [] {}).1.sent = _
    obtain ⟨_, hrun, -⟩ | ⟨_, _, hrun, -⟩ := samplePeers.client_handshake_cases cfbLaws_openssl
      (greeted_nil openssl samplePeers .client) <;> rw [hrun]
  obtain ⟨s₁, server, h₁, hp, hother, htaken, htaken', hshaken, hread, hraw, hsize⟩ :=
    exists_run_handshook (x := .server) cfbLaws_openssl valid_samplePeers .nil rfl rfl hsent hclient
  have hout₁ : (s₁.out openssl samplePeers .server).sent = samplePeers.header openssl .server := by
    rw [Session.out, hp]
    rfl
  obtain ⟨s₂, client, h₂, hp', hother', -, htaken'', hshaken', -⟩ :=
    exists_run_handshook (x := .client) cfbLaws_openssl valid_samplePeers h₁ hother htaken' hout₁
      hserver
  have hfit : (vmessTrunk openssl (samplePeers.auth openssl) [104, 105]).length ≤
      server.rawBuf.size := by
    rw [length_vmessTrunk_samplePeers]
    exact le_trans (by decide) hsize
  obtain ⟨s₃, h₃⟩ := exists_run_chunk (x := .server) cfbLaws_openssl h₂ hp' (hother'.trans hp)
    (htaken''.trans htaken) hshaken'.ready hshaken.auth_eq hread hraw
    (show ([104, 105] : Bytes) ≠ [] by simp) (by decide) hfit
  exact ⟨_, s₃, h₃, rfl, rfl, vmess_deliversStream cfbLaws_openssl valid_samplePeers h₃⟩

end Vmecs
