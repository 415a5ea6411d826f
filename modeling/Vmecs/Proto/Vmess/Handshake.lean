import Vmecs.Proto.Vmess.HeaderRoundTrip
import Vmecs.Proto.Vmess.Tcp
import Vmecs.Proto.Waiting

/-!
# The VMess handshake

Either part of the handshake is one `rbuffer_read` with a write before or after it
(`vmessServerHandshake_eq`, `vmessClientHandshake_eq`). Between a client and a server of this code
the message read is a header that the other one has written, and that the decoder finds whatever
follows it and whenever it is called (`framed_vmessRequestDecoder`, `framed_responseHeader`). So a
handshake that has been given some of the stream of its peer either waits for the rest of the
header, or succeeds and leaves in `raw_buf` what is behind it (`rbufferRead_header`).
-/

namespace Vmecs

open StreamDecoder

/-- The header that `vmess_serial_response` leaves in a fresh serializer. -/
def responseHeader (C : Crypto) (auth : VmessAuth) : Bytes :=
  C.aes128CfbEnc auth.key auth.iv [auth.nonce, 1, 0, 0]

/-! ### One read and one write -/

/-- With nothing but a header to send, the loop sends it, whatever becomes of the write. -/
theorem vmessHandshakeFlush_header (C : Crypto) (auth : VmessAuth) (header : Bytes) (s : Reads)
    (out : OutFd) :
    vmessHandshakeFlush C { vmessSerialNew auth with header := some header } s out =
      ((fdWrite out header).2, .done (vmessSerialNew auth) s) := by
  simp [vmessHandshakeFlush, vmessFlushFuel, vmessSerialNew, vmessFlush, vmessSerialDigest]

theorem vmessSerialResponse_new (C : Crypto) (auth : VmessAuth) :
    vmessSerialResponse C (vmessSerialNew auth) ⟨1⟩ =
      some { vmessSerialNew auth with header := some (responseHeader C auth) } := rfl

/-- **The server's part**: read the request, then write the response. -/
theorem vmessServerHandshake_eq (C : Crypto) (sock : VmessTcpSocket)
    (clock : ℕ → Clock sock.config) (s : Reads) (out : OutFd) :
    vmessServerHandshake C sock clock s out =
      match rbufferRead (vmessRequestDecoder C sock.config clock) sock.rawBuf s with
      | .wait want => (out, .wait want)
      | .abort => (out, .abort)
      | .done (.success (req, auth), rawBuf) s' =>
        ((fdWrite out (responseHeader C auth)).2,
          .done (true, { sock with
            rawBuf, auth, vser := some (vmessSerialNew auth), addr := some req.target }) s')
      | .done (.error, rawBuf) s' => (out, .done (false, { sock with rawBuf }) s')
      | .done (.incomplete, rawBuf) s' => (out, .done (false, { sock with rawBuf }) s') := by
  rw [vmessServerHandshake, FdProc.read_bind_apply]
  match rbufferRead (vmessRequestDecoder C sock.config clock) sock.rawBuf s with
  | .wait want => rfl
  | .abort => rfl
  | .done (.error, rawBuf) s' => rfl
  | .done (.incomplete, rawBuf) s' => rfl
  | .done (.success (req, auth), rawBuf) s' =>
    dsimp only
    rw [vmessSerialResponse_new]
    dsimp only
    rw [FdProc.bind_apply, vmessHandshakeFlush_header]
    rfl

theorem vmessServerHandshake_of_wait {C : Crypto} (sock : VmessTcpSocket)
    (clock : ℕ → Clock sock.config) {s : Reads} {want : ℕ}
    (h : rbufferRead (vmessRequestDecoder C sock.config clock) sock.rawBuf s = .wait want)
    (out : OutFd) : vmessServerHandshake C sock clock s out = (out, .wait want) := by
  rw [vmessServerHandshake_eq, h]

theorem vmessServerHandshake_of_success {C : Crypto} (sock : VmessTcpSocket)
    (clock : ℕ → Clock sock.config) {s rest : Reads} {req : VmessRequest} {auth : VmessAuth}
    {rawBuf : RBuffer}
    (h : rbufferRead (vmessRequestDecoder C sock.config clock) sock.rawBuf s =
      .done (.success (req, auth), rawBuf) rest) (out : OutFd) :
    vmessServerHandshake C sock clock s out =
      ((fdWrite out (responseHeader C auth)).2,
        .done (true, { sock with
          rawBuf, auth, vser := some (vmessSerialNew auth), addr := some req.target }) rest) := by
  rw [vmessServerHandshake_eq, h]

/-- The server waits when its read does. -/
theorem rbufferRead_of_server_wait {C : Crypto} (sock : VmessTcpSocket)
    (clock : ℕ → Clock sock.config) {s : Reads} {out : OutFd} {want : ℕ}
    (h : (vmessServerHandshake C sock clock s out).2 = .wait want) :
    rbufferRead (vmessRequestDecoder C sock.config clock) sock.rawBuf s = .wait want := by
  rw [vmessServerHandshake_eq] at h
  match hr : rbufferRead (vmessRequestDecoder C sock.config clock) sock.rawBuf s with
  | .wait want' => simpa [hr] using h
  | .abort => simp [hr] at h
  | .done (.success (req, auth), rawBuf) s' => simp [hr] at h
  | .done (.error, rawBuf) s' => simp [hr] at h
  | .done (.incomplete, rawBuf) s' => simp [hr] at h

/-- A server that succeeds has read a request. -/
theorem vmessServerHandshake_success {C : Crypto} (sock : VmessTcpSocket)
    (clock : ℕ → Clock sock.config) {s rest : Reads} {out out' : OutFd} {sock' : VmessTcpSocket}
    (h : vmessServerHandshake C sock clock s out = (out', .done (true, sock') rest)) :
    ∃ req, rbufferRead (vmessRequestDecoder C sock.config clock) sock.rawBuf s =
        .done (.success (req, sock'.auth), sock'.rawBuf) rest ∧ sock'.readBuf = sock.readBuf := by
  rw [vmessServerHandshake_eq] at h
  match hr : rbufferRead (vmessRequestDecoder C sock.config clock) sock.rawBuf s with
  | .wait want => simp [hr] at h
  | .abort => simp [hr] at h
  | .done (.error, rawBuf) s' => simp [hr] at h
  | .done (.incomplete, rawBuf) s' => simp [hr] at h
  | .done (.success (req, auth), rawBuf) s' =>
    simp only [hr] at h
    obtain ⟨hr', rfl⟩ := Outcome.done.inj (Prod.mk.inj h).2
    obtain ⟨-, rfl⟩ := Prod.mk.inj hr'
    exact ⟨req, rfl, rfl⟩

/-- **The client's part**: write the request, then read the response. -/
theorem vmessClientHandshake_eq (C : Crypto) (rand : ℕ → Rand) (sock : VmessTcpSocket)
    (target : TargetId) {header : Bytes}
    (hheader : requestHeader C rand sock.config sock.auth (vmessClientRequest target) = some header)
    (s : Reads) (out : OutFd) :
    vmessClientHandshake C rand sock target s out =
      match rbufferRead (vmessDecodeResponse C sock.auth) sock.rawBuf s with
      | .wait want => ((fdWrite out header).2, .wait want)
      | .abort => ((fdWrite out header).2, .abort)
      | .done (.success _, rawBuf) s' =>
        ((fdWrite out header).2,
          .done (true, { sock with rawBuf, vser := some (vmessSerialNew sock.auth) }) s')
      | .done (.error, rawBuf) s' =>
        ((fdWrite out header).2, .done (false, { sock with rawBuf }) s')
      | .done (.incomplete, rawBuf) s' =>
        ((fdWrite out header).2, .done (false, { sock with rawBuf }) s') := by
  have hvser : vmessSerialRequest C rand (vmessSerialNew sock.auth) sock.config
      (vmessClientRequest target) =
        some { vmessSerialNew sock.auth with header := some header } := by
    have hopt : (vmessClientRequest target).opt = 1 := rfl
    rw [requestHeader, vmessSerialRequest, if_pos hopt, Option.bind_some] at hheader
    rw [vmessSerialRequest, if_pos hopt, ← hheader]
    rfl
  rw [vmessClientHandshake, hvser]
  dsimp only
  rw [FdProc.bind_apply, vmessHandshakeFlush_header]
  dsimp only
  rw [FdProc.read_bind_apply]
  rcases rbufferRead (vmessDecodeResponse C sock.auth) sock.rawBuf s with
    ⟨⟨_ | _ | _, rawBuf⟩, s'⟩ | want | _
  · rfl
  · rfl
  · rfl
  · rfl
  · rfl

theorem vmessClientHandshake_of_wait {C : Crypto} {rand : ℕ → Rand} (sock : VmessTcpSocket)
    {target : TargetId} {header : Bytes}
    (hheader : requestHeader C rand sock.config sock.auth (vmessClientRequest target) = some header)
    {s : Reads} {want : ℕ}
    (h : rbufferRead (vmessDecodeResponse C sock.auth) sock.rawBuf s = .wait want) (out : OutFd) :
    vmessClientHandshake C rand sock target s out = ((fdWrite out header).2, .wait want) := by
  rw [vmessClientHandshake_eq C rand sock target hheader, h]

theorem vmessClientHandshake_of_success {C : Crypto} {rand : ℕ → Rand} (sock : VmessTcpSocket)
    {target : TargetId} {header : Bytes}
    (hheader : requestHeader C rand sock.config sock.auth (vmessClientRequest target) = some header)
    {s rest : Reads} {resp : VmessResponse} {rawBuf : RBuffer}
    (h : rbufferRead (vmessDecodeResponse C sock.auth) sock.rawBuf s =
      .done (.success resp, rawBuf) rest) (out : OutFd) :
    vmessClientHandshake C rand sock target s out =
      ((fdWrite out header).2,
        .done (true, { sock with rawBuf, vser := some (vmessSerialNew sock.auth) }) rest) := by
  rw [vmessClientHandshake_eq C rand sock target hheader, h]

/-- The client waits when its read does. -/
theorem rbufferRead_of_client_wait {C : Crypto} {rand : ℕ → Rand} (sock : VmessTcpSocket)
    {target : TargetId} {header : Bytes}
    (hheader : requestHeader C rand sock.config sock.auth (vmessClientRequest target) = some header)
    {s : Reads} {out : OutFd} {want : ℕ}
    (h : (vmessClientHandshake C rand sock target s out).2 = .wait want) :
    rbufferRead (vmessDecodeResponse C sock.auth) sock.rawBuf s = .wait want := by
  rw [vmessClientHandshake_eq C rand sock target hheader] at h
  match hr : rbufferRead (vmessDecodeResponse C sock.auth) sock.rawBuf s with
  | .wait want' => simpa [hr] using h
  | .abort => simp [hr] at h
  | .done (.success _, rawBuf) s' => simp [hr] at h
  | .done (.error, rawBuf) s' => simp [hr] at h
  | .done (.incomplete, rawBuf) s' => simp [hr] at h

/-- A client always has a header to send. -/
theorem exists_requestHeader (C : Crypto) (rand : ℕ → Rand) (config : VmessConfig)
    (auth : VmessAuth) (target : TargetId) :
    ∃ header, requestHeader C rand config auth (vmessClientRequest target) = some header := by
  have hopt : (vmessClientRequest target).opt = 1 := rfl
  rw [requestHeader, vmessSerialRequest, if_pos hopt]
  exact ⟨_, rfl⟩

/-- A client that succeeds has read a response. -/
theorem vmessClientHandshake_success {C : Crypto} {rand : ℕ → Rand} (sock : VmessTcpSocket)
    {target : TargetId} {s rest : Reads} {out out' : OutFd} {sock' : VmessTcpSocket}
    (h : vmessClientHandshake C rand sock target s out = (out', .done (true, sock') rest)) :
    ∃ resp, rbufferRead (vmessDecodeResponse C sock.auth) sock.rawBuf s =
        .done (.success resp, sock'.rawBuf) rest ∧
      sock'.auth = sock.auth ∧ sock'.readBuf = sock.readBuf := by
  obtain ⟨header, hheader⟩ := exists_requestHeader C rand sock.config sock.auth target
  rw [vmessClientHandshake_eq C rand sock target hheader] at h
  match hr : rbufferRead (vmessDecodeResponse C sock.auth) sock.rawBuf s with
  | .wait want => simp [hr] at h
  | .abort => simp [hr] at h
  | .done (.error, rawBuf) s' => simp [hr] at h
  | .done (.incomplete, rawBuf) s' => simp [hr] at h
  | .done (.success resp, rawBuf) s' =>
    simp only [hr] at h
    obtain ⟨hr', rfl⟩ := Outcome.done.inj (Prod.mk.inj h).2
    obtain ⟨-, rfl⟩ := Prod.mk.inj hr'
    exact ⟨resp, rfl, rfl, rfl⟩

/-! ### Headers and their decoders -/

/-- The response comes back. -/
theorem framed_responseHeader {C : Crypto} (hC : CfbLaws C) (auth : VmessAuth) :
    (vmessDecodeResponse C auth).Framed (responseHeader C auth) ⟨1⟩ := by
  have hlen : (responseHeader C auth).length = 4 := hC.length_enc _ _ _
  have hparse : (vmessDecodeResponse C auth).Parses (responseHeader C auth ++ []) ⟨1⟩ := by
    have hdec : C.aes128CfbDec auth.key auth.iv (responseHeader C auth) = [auth.nonce, 1, 0, 0] :=
      hC.dec_enc _ _ _
    refine Parses.take_bind ⟨responseHeader C auth, hlen⟩ ?_
    dsimp only
    rw [hdec]
    simpa using Parses.pure (⟨1⟩ : VmessResponse)
  rw [List.append_nil] at hparse
  exact hparse.framed (prompt_vmessDecodeResponse C auth).toStreaming

/-- A header that comes back at every time comes back when the time goes by as it is read. -/
theorem framed_vmessRequestDecoder {C : Crypto} (hC : CfbDecLaws C) {config : VmessConfig}
    {clock : ℕ → Clock config} {header : Bytes} {v : VmessRequest × VmessAuth}
    (h : ∀ k, (vmessDecodeRequest C config (clock k)).Parses header v) :
    (vmessRequestDecoder C config clock).Framed header v where
  pos := ((h 0).framed (prompt_vmessDecodeRequest hC config (clock 0)).toStreaming).pos
  more x hx hlt :=
    ((h x.length).framed (prompt_vmessDecodeRequest hC config _).toStreaming).more x hx hlt
  ok y := h _ y

theorem vmessRequestDecoder_nil (C : Crypto) (config : VmessConfig) (clock : ℕ → Clock config) :
    vmessRequestDecoder C config clock [] = .more := rfl

/-- **Reading a header.** A call that has been given the first bytes of a stream that begins with a
header waits for the rest of it, or succeeds and leaves in the buffer what is behind it. -/
theorem rbufferRead_header {V : Type} {D : StreamDecoder UInt8 V} {header stream : Bytes} {v : V}
    (hD : D.Framed header v) {buf : RBuffer} (hbuf : buf.data = []) {got : Reads}
    (hs : .fail ∉ got) (ha : Asked (rbufferRead D buf) got)
    (hgot : streamBytes got <+: header ++ stream)
    (heof : .eof ∈ got → header.length ≤ (streamBytes got).length) :
    (∃ want, rbufferRead D buf got = .wait want ∧ (streamBytes got).length < header.length) ∨
      ∃ rawBuf rest, rbufferRead D buf got = .done (.success v, rawBuf) rest ∧
        streamBytes got = header ++ rawBuf.data := by
  have hnil : D [] = .more := hD.more [] List.nil_prefix hD.pos
  have hx := hD.of_isPrefix hgot
  match h : rbufferRead D buf got with
  | .abort => exact absurd h (rbufferRead_ne_abort buf got)
  | .wait want =>
    have hmore := decode_eq_more_of_wait hnil ha h
    rw [hbuf, List.nil_append, hx] at hmore
    refine .inl ⟨want, rfl, ?_⟩
    by_contra hge
    rw [if_neg hge] at hmore
    exact absurd hmore (by simp)
  | .done (r, rawBuf) rest =>
    obtain ⟨hstep, hinc⟩ := rbufferCall_of_asked (c := .read) hnil hs ha h
    rw [hbuf, List.nil_append] at hstep
    by_cases hlt : (streamBytes got).length < header.length
    · rw [if_pos hlt] at hx
      cases r with
      | success w => exact absurd (hx.symm.trans hstep.choose_spec.1) (by simp)
      | error => exact absurd (hx.symm.trans hstep.1) (by simp)
      | incomplete => exact absurd (heof (hinc rfl rfl)) (Nat.not_le.2 hlt)
    · rw [if_neg hlt] at hx
      cases r with
      | success w =>
        obtain ⟨n, hn, hleft⟩ := hstep
        obtain ⟨rfl, rfl⟩ := Decode.ok.inj (hx.symm.trans hn)
        have hpre : header <+: streamBytes got :=
          List.prefix_of_prefix_length_le (List.prefix_append header stream) hgot (by omega)
        refine .inr ⟨rawBuf, rest, rfl, ?_⟩
        rw [show rawBuf.data = _ from hleft, List.prefix_iff_eq_append.1 hpre]
      | error => exact absurd (hx.symm.trans hstep.1) (by simp)
      | incomplete => exact absurd (hx.symm.trans hstep.1) (by simp)

/-! ### The message of a handshake -/

/-- The message that a handshake reads, with the secrets that its socket has afterwards. -/
def vmessHandshakeMessage (C : Crypto) (sock : VmessTcpSocket) (clock : ℕ → Clock sock.config) :
    Option TargetId → StreamDecoder UInt8 VmessAuth
  | none => vmessRequestDecoder C sock.config clock >>= fun v ↦ pure v.2
  | some _ => vmessDecodeResponse C sock.auth >>= fun _ ↦ pure sock.auth

/-- **What a handshake that succeeds has read**: the first answers that complete its message. What
they bring behind it stays in `raw_buf`. -/
theorem vmessTcpSocketHandshakeC_completed {C : Crypto} {rand : ℕ → Rand} (sock : VmessTcpSocket)
    (clock : ℕ → Clock sock.config) {target : Option TargetId} {reads rest : Reads}
    {out out' : OutFd} {sock' : VmessTcpSocket} (hraw : sock.rawBuf.data = [])
    (h : vmessTcpSocketHandshakeC C rand sock clock target reads out =
      (out', .done (true, sock') rest)) :
    ∃ used n, reads = used ++ rest ∧
      Completed (vmessHandshakeMessage C sock clock target) [] used n sock'.auth ∧
      sock'.rawBuf.data = (streamBytes used).drop n ∧ sock'.readBuf = sock.readBuf := by
  cases target with
  | none =>
    obtain ⟨req, hread, hbuf⟩ := vmessServerHandshake_success sock clock h
    obtain ⟨used, n, hused, hcomp, hleft⟩ :=
      rbufferRead_completed (vmessRequestDecoder_nil C sock.config clock) hread
    rw [hraw] at hcomp hleft
    exact ⟨used, n, hused, hcomp.bind_pure, hleft, hbuf⟩
  | some target =>
    obtain ⟨resp, hread, hauth, hbuf⟩ := vmessClientHandshake_success sock h
    obtain ⟨used, n, hused, hcomp, hleft⟩ :=
      rbufferRead_completed (prompt_vmessDecodeResponse C sock.auth).nil hread
    rw [hraw] at hcomp hleft
    rw [hauth]
    exact ⟨used, n, hused, hcomp.bind_pure (f := fun _ ↦ sock.auth), hleft, hbuf⟩

/-- It has doubled the capacity of `raw_buf`, if it has changed it. -/
theorem doubled_of_vmessTcpSocketHandshakeC {C : Crypto} {rand : ℕ → Rand} (sock : VmessTcpSocket)
    (clock : ℕ → Clock sock.config) {target : Option TargetId} {reads rest : Reads}
    {out out' : OutFd} {sock' : VmessTcpSocket}
    (h : vmessTcpSocketHandshakeC C rand sock clock target reads out =
      (out', .done (true, sock') rest)) : Doubled sock.rawBuf sock'.rawBuf := by
  cases target with
  | none =>
    obtain ⟨req, hread, -⟩ := vmessServerHandshake_success sock clock h
    exact doubled_of_rbufferCall (c := .read) hread
  | some target =>
    obtain ⟨resp, hread, -⟩ := vmessClientHandshake_success sock h
    exact doubled_of_rbufferCall (c := .read) hread

end Vmecs
