import Vmecs.Proto.Vmess.Session

/-!
# The handshake of a session

What a session assumes of its peers (`VmessPeers.Valid`), and what their handshakes then do: on what
the transport has delivered so far, a handshake waits for the rest of the header of its peer, or it
succeeds and keeps what was delivered behind the header (`VmessPeers.handshake_cases`).
-/

namespace Vmecs

open StreamDecoder

/-! ### The assumptions of a session -/

/-- The time is in the window of the clock that `_vmess_lookup_timestamp` goes through. -/
def Clock.InWindow {config : VmessConfig} (clock : Clock config) (t : UInt64) : Prop :=
  clock.now - config.timeDelta ≤ t ∧ t ≤ clock.now + config.timeDelta

/-- A window that a time lies in does not wrap around, as it is only a minute wide. -/
theorem Clock.InWindow.fits_and_near {userId : Data128} {clock : Clock (vmessConfigNew userId)}
    {t : UInt64} (h : clock.InWindow t) : clock.Fits ∧ clock.Near t := by
  have hdelta : (vmessConfigNew userId).timeDelta = 30 := rfl
  have h₁ := UInt64.le_iff_toNat_le.1 h.1
  have h₂ := UInt64.le_iff_toNat_le.1 h.2
  have hnow := clock.now.toNat_lt
  have ht := t.toNat_lt
  rw [UInt64.toNat_sub] at h₁
  rw [UInt64.toNat_add] at h₂
  rw [Clock.Fits, Clock.Near]
  rw [hdelta] at h₁ h₂ ⊢
  have h30 : (30 : UInt64).toNat = 30 := rfl
  rw [h30] at h₁ h₂ ⊢
  omega

namespace VmessPeers

variable {C : Crypto} {P : VmessPeers}

/-- The secrets of a session. -/
def auth (C : Crypto) (P : VmessPeers) : VmessAuth :=
  vmessAuthInit C (vmessConfigNew P.userId) P.genTime

/-- What the stream of an end begins with: the request, or the response. -/
def header (C : Crypto) (P : VmessPeers) : SessionEnd → Bytes
  | .client =>
    (requestHeader C P.rand (vmessConfigNew P.userId) (P.auth C)
      (vmessClientRequest P.target)).getD []
  | .server => responseHeader C (P.auth C)

/-- The time is in the window of the server whenever it looks, no earlier time of the window has the
same validation code, the target fits its length field, and the padding its count. -/
structure Valid (C : Crypto) (P : VmessPeers) : Prop where
  in_window : ∀ k, (P.clock k).InWindow P.genTime
  first : ∀ k, (P.clock k).FirstWithCode C P.genTime
  short : P.target.Short
  padding : randomIn 0 vmessPMax (P.rand 0) ≤ 15

theorem requestHeader_eq_header (C : Crypto) (P : VmessPeers) :
    requestHeader C P.rand (vmessConfigNew P.userId) (P.auth C) (vmessClientRequest P.target) =
      some (P.header C .client) := by
  obtain ⟨header, h⟩ := exists_requestHeader C P.rand (vmessConfigNew P.userId) (P.auth C) P.target
  rw [VmessPeers.header, h, Option.getD_some]

/-- The server finds the request. -/
theorem framed_request (hC : CfbLaws C) (hP : P.Valid C) :
    (vmessRequestDecoder C (vmessConfigNew P.userId) P.clock).Framed (P.header C .client)
      (vmessClientRequest P.target, P.auth C) := by
  refine framed_vmessRequestDecoder hC.toCfbDecLaws fun k ↦ ?_
  obtain ⟨hfits, hnear⟩ := (hP.in_window k).fits_and_near
  obtain ⟨header, hheader, hparse⟩ := headerRoundTrips_of_le hC P.rand 0
    (show (vmessClientRequest P.target).opt = 1 from rfl)
    (show (vmessClientRequest P.target).target.Short from hP.short) hfits hnear (hP.first k)
    hP.padding
  have heq : header = P.header C .client :=
    Option.some.inj (hheader.symm.trans (requestHeader_eq_header C P))
  rwa [heq] at hparse

/-- What an end has sent while it waits in its handshake. -/
def sentFirst (C : Crypto) (P : VmessPeers) : SessionEnd → Bytes
  | .client => P.header C .client
  | .server => []

/-- The answers that a handshake has had, when the stream of the peer begins with its header. -/
structure Greeted (C : Crypto) (P : VmessPeers) (x : SessionEnd) (got : Reads) : Prop where
  asked : Asked (fun s ↦ (P.handshake C x s {}).2) got
  no_fail : .fail ∉ got
  isPrefix : ∃ stream, streamBytes got <+: P.header C x.peer ++ stream
  eof : .eof ∈ got → (P.header C x.peer).length ≤ (streamBytes got).length

/-- A socket after the handshake. -/
structure Shaken (C : Crypto) (P : VmessPeers) (x : SessionEnd) (sock : VmessTcpSocket) : Prop where
  auth_eq : sock.auth = P.auth C
  ready : sock.Ready (P.auth C)
  target_eq : x = .server → sock.addr = some P.target

theorem rawBuf_socket (C : Crypto) (P : VmessPeers) (x : SessionEnd) :
    (P.socket C x).rawBuf.data = [] := by
  cases x <;> rfl

theorem readBuf_socket (C : Crypto) (P : VmessPeers) (x : SessionEnd) :
    (P.socket C x).readBuf = vbufferNew vmessTcpDefaultBuf := by
  cases x <;> rfl

theorem auth_socket_client (C : Crypto) (P : VmessPeers) : (P.socket C .client).auth = P.auth C :=
  rfl

/-- A fresh serializer is ready to be written to. -/
theorem ready_of_vmessSerialNew {sock : VmessTcpSocket} {auth : VmessAuth}
    (h : sock.vser = some (vmessSerialNew auth)) : sock.Ready auth :=
  ⟨_, h, ⟨rfl, rfl, rfl⟩, rfl⟩

theorem handshake_server (C : Crypto) (P : VmessPeers) :
    P.handshake C .server = vmessServerHandshake C (P.socket C .server) P.clock := rfl

theorem handshake_client (C : Crypto) (P : VmessPeers) :
    P.handshake C .client = vmessClientHandshake C P.rand (P.socket C .client) P.target := rfl

theorem fdWrite_new (bs : Bytes) : (fdWrite {} bs).2 = { sent := bs } := rfl

/-- The handshake of the server, on the answers it has had. -/
theorem server_handshake_cases (hC : CfbLaws C) (hP : P.Valid C) {got : Reads}
    (h : P.Greeted C .server got) :
    (∃ want, P.handshake C .server got {} = ({}, .wait want) ∧
      (streamBytes got).length < (P.header C .client).length) ∨
    ∃ sock rest,
      P.handshake C .server got {} = ({ sent := P.header C .server }, .done (true, sock) rest) ∧
      streamBytes got = P.header C .client ++ sock.rawBuf.data ∧
      sock.readBuf = vbufferNew vmessTcpDefaultBuf ∧ P.Shaken C .server sock := by
  obtain ⟨stream, hstream⟩ := h.isPrefix
  have hasked : Asked (rbufferRead (vmessRequestDecoder C (vmessConfigNew P.userId) P.clock)
      (P.socket C .server).rawBuf) got :=
    h.asked.mono fun s want hw ↦ by
      rw [handshake_server] at hw
      exact rbufferRead_of_server_wait (P.socket C .server) P.clock hw
  obtain ⟨want, hr, hlt⟩ | ⟨rawBuf, rest, hr, hgot⟩ := rbufferRead_header (P.framed_request hC hP)
    (P.rawBuf_socket C .server) h.no_fail hasked hstream h.eof
  all_goals rw [handshake_server]
  · exact .inl ⟨want, vmessServerHandshake_of_wait (P.socket C .server) P.clock hr {}, hlt⟩
  · have hrun := vmessServerHandshake_of_success (P.socket C .server) P.clock hr {}
    rw [fdWrite_new] at hrun
    refine .inr ⟨_, rest, hrun, hgot, P.readBuf_socket C .server, ?_⟩
    exact ⟨rfl, ready_of_vmessSerialNew rfl, fun _ ↦ rfl⟩

/-- The handshake of the client, on the answers it has had. -/
theorem client_handshake_cases (hC : CfbLaws C) {got : Reads} (h : P.Greeted C .client got) :
    (∃ want, P.handshake C .client got {} = ({ sent := P.header C .client }, .wait want) ∧
      (streamBytes got).length < (P.header C .server).length) ∨
    ∃ sock rest,
      P.handshake C .client got {} = ({ sent := P.header C .client }, .done (true, sock) rest) ∧
      streamBytes got = P.header C .server ++ sock.rawBuf.data ∧
      sock.readBuf = vbufferNew vmessTcpDefaultBuf ∧ P.Shaken C .client sock := by
  obtain ⟨stream, hstream⟩ := h.isPrefix
  have hheader := P.requestHeader_eq_header C
  have hasked : Asked (rbufferRead (vmessDecodeResponse C (P.auth C))
      (P.socket C .client).rawBuf) got :=
    h.asked.mono fun s want hw ↦ by
      rw [handshake_client] at hw
      exact rbufferRead_of_client_wait (P.socket C .client) hheader hw
  obtain ⟨want, hr, hlt⟩ | ⟨rawBuf, rest, hr, hgot⟩ := rbufferRead_header
    (framed_responseHeader hC (P.auth C)) (P.rawBuf_socket C .client) h.no_fail hasked hstream h.eof
  all_goals rw [handshake_client]
  · have hrun := vmessClientHandshake_of_wait (P.socket C .client) hheader hr {}
    rw [fdWrite_new] at hrun
    exact .inl ⟨want, hrun, hlt⟩
  · have hrun := vmessClientHandshake_of_success (P.socket C .client) hheader hr {}
    rw [fdWrite_new] at hrun
    refine .inr ⟨_, rest, hrun, hgot, P.readBuf_socket C .client, ?_⟩
    exact ⟨P.auth_socket_client C, ready_of_vmessSerialNew rfl, fun hx ↦ absurd hx (by simp)⟩

/-- **A handshake** that has been given some of the stream of its peer waits for the rest of the
header, or succeeds and keeps what is behind it. -/
theorem handshake_cases (hC : CfbLaws C) (hP : P.Valid C) {x : SessionEnd} {got : Reads}
    (h : P.Greeted C x got) :
    (∃ want, P.handshake C x got {} = ({ sent := P.sentFirst C x }, .wait want) ∧
      (streamBytes got).length < (P.header C x.peer).length) ∨
    ∃ sock rest, P.handshake C x got {} = ({ sent := P.header C x }, .done (true, sock) rest) ∧
      streamBytes got = P.header C x.peer ++ sock.rawBuf.data ∧
      sock.readBuf = vbufferNew vmessTcpDefaultBuf ∧ P.Shaken C x sock := by
  cases x with
  | client => exact client_handshake_cases hC h
  | server => exact server_handshake_cases hC hP h

/-- Without an answer it waits. -/
theorem handshake_nil (C : Crypto) (P : VmessPeers) (x : SessionEnd) :
    (P.handshake C x [] {}).2 = .wait vmessTcpDefaultBuf := by
  cases x with
  | server => rfl
  | client =>
    have hread : rbufferRead (vmessDecodeResponse C (P.auth C)) (P.socket C .client).rawBuf [] =
        .wait vmessTcpDefaultBuf := rfl
    rw [P.handshake_client, vmessClientHandshake_of_wait (P.socket C .client)
      (P.requestHeader_eq_header C) hread]

/-- A handshake that succeeds leaves room to read in. -/
theorem doubled_of_handshake {x : SessionEnd} {got rest : Reads} {out : OutFd}
    {sock : VmessTcpSocket} (h : P.handshake C x got {} = (out, .done (true, sock) rest)) :
    Doubled (P.socket C x).rawBuf sock.rawBuf := by
  cases x with
  | client =>
    have hrun : vmessTcpSocketHandshakeC C P.rand (P.socket C .client) P.clock (some P.target) got
        {} = (out, .done (true, sock) rest) := h
    exact doubled_of_vmessTcpSocketHandshakeC _ _ hrun
  | server =>
    have hrun : vmessTcpSocketHandshakeC C P.rand (P.socket C .server) P.clock none got {} =
        (out, .done (true, sock) rest) := h
    exact doubled_of_vmessTcpSocketHandshakeC _ _ hrun

theorem header_pos (hC : CfbLaws C) (hP : P.Valid C) (x : SessionEnd) :
    0 < (P.header C x).length := by
  cases x with
  | client => exact (P.framed_request hC hP).pos
  | server => exact (framed_responseHeader hC (P.auth C)).pos

/-- The header of its peer comes in one segment, with some bytes behind it. -/
theorem handshake_segment (hC : CfbLaws C) (hP : P.Valid C) (x : SessionEnd) (behind : Bytes)
    (hfit : (P.header C x.peer ++ behind).length ≤ vmessTcpDefaultBuf) :
    ∃ sock rest, P.handshake C x [.data (P.header C x.peer ++ behind)] {} =
        ({ sent := P.header C x }, .done (true, sock) rest) ∧
      sock.rawBuf.data = behind ∧ vmessTcpDefaultBuf ≤ sock.rawBuf.size ∧
      sock.readBuf = vbufferNew vmessTcpDefaultBuf ∧ P.Shaken C x sock := by
  have hpos := P.header_pos hC hP x.peer
  have hbytes :
      streamBytes [.data (P.header C x.peer ++ behind)] = P.header C x.peer ++ behind := by
    rw [streamBytes_data, streamBytes_nil, List.append_nil]
  have hgreeted : P.Greeted C x [.data (P.header C x.peer ++ behind)] := by
    have hpos' : 0 < (P.header C x.peer ++ behind).length := by
      rw [List.length_append]
      omega
    refine ⟨.snoc .nil (P.handshake_nil C x) ⟨hpos', hfit⟩, by simp, ⟨behind, ?_⟩, by simp⟩
    rw [hbytes]
  obtain ⟨_, -, hlt⟩ | ⟨sock, rest, hrun, hraw, hread, hshaken⟩ := handshake_cases hC hP hgreeted
  · rw [hbytes, List.length_append] at hlt
    omega
  · rw [hbytes] at hraw
    refine ⟨sock, rest, hrun, (List.append_cancel_left hraw).symm, ?_, hread, hshaken⟩
    obtain ⟨k, hk⟩ := doubled_of_handshake hrun
    have hsize : (P.socket C x).rawBuf.size = vmessTcpDefaultBuf := by cases x <;> rfl
    rw [hk, hsize]
    exact Nat.le_mul_of_pos_right _ (Nat.two_pow_pos k)

end VmessPeers

end Vmecs
