import Vmecs.Proto.Relay.Epoll
import Vmecs.Proto.Vmess.Delivery

/-!
# No complete message is stranded

An edge-triggered epoll does not say that there is still something to be had, and of what a socket
has in its own buffers it knows nothing. So a handler has to take everything: it reads on until
nothing more is there (`etcpPump_drains`), and leaves neither bytes in `read_buf` nor a complete
chunk in `raw_buf` (`Awaited.handled`). With an edge for every arrival this is the invariant of a
relayed pair (`awaited_step`), and no complete message is stranded (`etcp_nothingStranded`) unless

* the handshake has already read it: the segment that completes the header brings a chunk behind it,
  which stays in `raw_buf` when the socket is registered, and epoll has nothing to report
  (`not_nothingStranded_coalesced`);
* it comes behind the end of its stream, where the handler stops.
-/

namespace Vmecs

open StreamDecoder

variable {C : Crypto}

/-- Neither buffer of the socket holds anything that a reader could have. -/
def Drained (C : Crypto) (sock : VmessTcpSocket) : Prop :=
  sock.readBuf.data = [] ∧ ∀ n trunk, vmessDecodeData C sock.auth sock.rawBuf.data ≠ .ok n trunk

/-- **Nothing is stranded**: when no edge is pending, neither socket of a pair that is there holds
decoded bytes or a complete chunk. -/
def NothingStranded (C : Crypto) (r : EpollPair) : Prop :=
  r.pair.removed = false → (∀ conn, (r.fd conn).pending = false) → ∀ conn, Drained C (r.sock conn)

/-! ### What a non-blocking read does -/

/-- A non-blocking read, by its result: on the buffers before and after it, and the bytes that are
there to be read before and after it. -/
inductive TryReads (D : StreamDecoder UInt8 DataTrunk) (bufs bufs' : VmessReadBuffers)
    (bytes bytes' : Bytes) : ℤ → Prop where
  /-- the end was read before -/
  | ended (heof : bufs.readBuf.eof = true) (hbufs : bufs' = bufs) :
      TryReads D bufs bufs' bytes bytes' 0
  /-- bytes of an earlier chunk -/
  | rest {res : ℤ} (hopen : bufs'.readBuf.eof = false) (hraw : bufs'.rawBuf = bufs.rawBuf)
      (hbytes : bytes' = bytes) (hpos : 0 < res) : TryReads D bufs bufs' bytes bytes' res
  /-- a read error, or a chunk that is wrong -/
  | error : TryReads D bufs bufs' bytes bytes' (-1)
  /-- no complete chunk is there -/
  | nothing {got : Bytes} (hopen : bufs.readBuf.eof = false) (hdata : bufs'.readBuf.data = [])
      (hbytes : bytes = got ++ bytes') (hraw : bufs'.rawBuf.data = bufs.rawBuf.data ++ got)
      (hmore : D bufs'.rawBuf.data = .more) : TryReads D bufs bufs' bytes bytes' (-2)
  /-- the end -/
  | ending {got : Bytes} {n : ℕ} {trunk : DataTrunk} (hdata : bufs'.readBuf.data = [])
      (hbytes : bytes = got ++ bytes') (hok : D (bufs.rawBuf.data ++ got) = .ok n trunk)
      (hraw : bufs'.rawBuf.data = (bufs.rawBuf.data ++ got).drop n) (htrunk : trunk.bytes = []) :
      TryReads D bufs bufs' bytes bytes' 0
  /-- a chunk -/
  | trunk {got : Bytes} {n : ℕ} {trunk : DataTrunk} {res : ℤ} (hopen : bufs'.readBuf.eof = false)
      (hbytes : bytes = got ++ bytes') (hok : D (bufs.rawBuf.data ++ got) = .ok n trunk)
      (hraw : bufs'.rawBuf.data = (bufs.rawBuf.data ++ got).drop n) (hpos : 0 < res) :
      TryReads D bufs bufs' bytes bytes' res

/-- **A non-blocking read** is one of these. -/
theorem vmessTcpSocketReadC_tryReads {auth : VmessAuth} {size : ℕ} (hsize : 1 ≤ size)
    {bufs bufs' : VmessReadBuffers} {s s' : Reads} {res : ℤ} {buf : Bytes}
    (h : vmessTcpSocketReadC C auth size false bufs s = .done (res, buf, bufs') s') :
    TryReads (vmessDecodeData C auth) bufs bufs' (streamBytes s) (streamBytes s') res := by
  rw [vmessTcpSocketReadC_eq C auth hsize] at h
  by_cases heof : bufs.readBuf.eof = true
  · rw [if_pos heof] at h
    obtain ⟨hr, rfl⟩ := Outcome.done.inj h
    obtain ⟨rfl, rfl, rfl⟩ : 0 = res ∧ [] = buf ∧ bufs = bufs' := by simpa using hr
    exact .ended heof rfl
  · have hopen : bufs.readBuf.eof = false := by simpa using heof
    by_cases hdata : bufs.readBuf.data = []
    · simp only [hopen, hdata, Bool.false_eq_true, if_false, ne_eq, not_true_eq_false] at h
      obtain ⟨⟨r, rawBuf⟩, hcall, hr⟩ := Outcome.map_eq_done.1 h
      obtain ⟨got, hgot, hstep | ⟨rfl, -⟩⟩ := rbufferTryRead_step hcall
      · cases r with
        | error =>
          obtain ⟨rfl, rfl, rfl⟩ : (-1 : ℤ) = res ∧ [] = buf ∧ ⟨bufs.readBuf, rawBuf⟩ = bufs' := by
            simpa [vmessReadResult] using hr
          exact .error
        | incomplete =>
          obtain ⟨rfl, rfl, rfl⟩ : (-2 : ℤ) = res ∧ [] = buf ∧ ⟨bufs.readBuf, rawBuf⟩ = bufs' := by
            simpa [vmessReadResult] using hr
          obtain ⟨hmore, hleft⟩ := hstep
          exact .nothing hopen hdata hgot hleft (hleft ▸ hmore)
        | success trunk =>
          obtain ⟨n, hok, hleft⟩ := hstep
          by_cases htrunk : trunk.bytes = []
          · obtain ⟨rfl, rfl, rfl⟩ : (0 : ℤ) = res ∧ [] = buf ∧
                ⟨vbufferClose bufs.readBuf, rawBuf⟩ = bufs' := by
              simpa [vmessReadResult, htrunk] using hr
            exact .ending hdata hgot hok hleft htrunk
          · obtain ⟨readBuf', hdata', hopen', hresult⟩ :=
              vmessReadResult_of_ne_nil size hopen hdata htrunk rawBuf
            obtain ⟨rfl, hr'⟩ := Prod.mk.inj (hresult.symm.trans hr)
            obtain ⟨-, rfl⟩ := Prod.mk.inj hr'
            refine .trunk hopen' hgot hok hleft ?_
            have := List.length_pos_iff.2 htrunk
            rw [List.length_take]
            omega
      · obtain ⟨rfl, rfl, rfl⟩ : (-1 : ℤ) = res ∧ [] = buf ∧ ⟨bufs.readBuf, rawBuf⟩ = bufs' := by
          simpa [vmessReadResult] using hr
        exact .error
    · simp only [hopen, hdata, Bool.false_eq_true, if_false, ne_eq, not_false_eq_true,
        if_true] at h
      obtain ⟨hr, rfl⟩ := Outcome.done.inj h
      obtain ⟨rfl, hr'⟩ := Prod.mk.inj hr
      obtain ⟨-, rfl⟩ := Prod.mk.inj hr'
      refine .rest hopen rfl rfl ?_
      have := List.length_pos_iff.2 hdata
      rw [List.length_take]
      omega

/-! ### What a handler does -/

/-- The reading side of a socket is as it was. -/
def SameReader (conn conn' : VmessConn) : Prop :=
  conn'.sock.toVmessReadBuffers = conn.sock.toVmessReadBuffers ∧ conn'.sock.auth = conn.sock.auth

theorem SameReader.trans {conn₁ conn₂ conn₃ : VmessConn} (h : SameReader conn₁ conn₂)
    (h' : SameReader conn₂ conn₃) : SameReader conn₁ conn₃ :=
  ⟨h'.1.trans h.1, h'.2.trans h.2⟩

theorem sameReader_write {conn conn' : VmessConn} {buf : Bytes} {n : ℤ}
    (h : (vmessTcpSocketOps C).write buf conn = some (n, conn')) : SameReader conn conn' := by
  obtain ⟨⟨ret, sock, out⟩, hwrite, h⟩ := Option.map_eq_some_iff.1 h
  obtain ⟨-, rfl⟩ := Prod.mk.inj h
  rw [vmessTcpSocketWrite] at hwrite
  simp only [Option.bind_eq_bind, Option.bind_eq_some_iff] at hwrite
  obtain ⟨vser, -, ⟨ret', vser', out'⟩, -, hret⟩ := hwrite
  obtain ⟨-, hret⟩ := Prod.mk.inj (Option.some.inj hret)
  obtain ⟨rfl, -⟩ := Prod.mk.inj hret
  exact ⟨rfl, rfl⟩

/-- The loop leaves the secrets of the one socket alone, and the reading side of the other. -/
theorem etcpPump_frame {fuel : ℕ} {conn conn' out out' : VmessConn} {res : ℤ}
    (h : etcpPump (vmessTcpSocketOps C) fuel conn out = some (res, conn', out')) :
    conn'.sock.auth = conn.sock.auth ∧ SameReader out out' := by
  replace h := etcpPumps_of_eq_some h
  induction h with
  | nothing hread =>
    obtain ⟨bufs, reads, -, rfl⟩ := vmessTcpSocketTryRead_eq_some hread
    exact ⟨rfl, rfl, rfl⟩
  | stuck hread _ hwrite =>
    obtain ⟨bufs, reads, -, rfl⟩ := vmessTcpSocketTryRead_eq_some hread
    exact ⟨rfl, sameReader_write hwrite⟩
  | turn hread _ hwrite _ _ ih =>
    obtain ⟨bufs, reads, -, rfl⟩ := vmessTcpSocketTryRead_eq_some hread
    exact ⟨ih.1, (sameReader_write hwrite).trans ih.2⟩

/-- A socket that has come to its end is left as it is. -/
theorem etcpPump_closed {fuel : ℕ} {conn conn' out out' : VmessConn} {res : ℤ}
    (heof : conn.sock.readBuf.eof = true)
    (h : etcpPump (vmessTcpSocketOps C) fuel conn out = some (res, conn', out')) :
    SameReader conn conn' := by
  cases fuel with
  | zero => exact absurd h (by simp [etcpPump])
  | succ fuel =>
    obtain ⟨res₁, buf, conn₁, hread, hturn⟩ := etcpPump_succ_cases h
    obtain ⟨bufs, reads, hcall, rfl⟩ := vmessTcpSocketTryRead_eq_some hread
    rw [vmessTcpSocketReadC_eq C _ (by simp [etcpDefaultBuffer]), if_pos heof] at hcall
    obtain ⟨hr, rfl⟩ := Outcome.done.inj hcall
    obtain ⟨rfl, -, rfl⟩ : 0 = res₁ ∧ [] = buf ∧ conn.sock.toVmessReadBuffers = bufs := by
      simpa using hr
    obtain ⟨-, -, rfl, -⟩ | ⟨hpos, -⟩ := hturn
    · exact ⟨rfl, rfl⟩
    · exact absurd hpos (by simp)

/-- **A handler takes everything**: when its loop ends because nothing more is there, or at the end,
it has cut all messages off what it has read. -/
theorem etcpPump_drains {fuel : ℕ} {conn conn' out out' : VmessConn} {res : ℤ}
    (h : etcpPump (vmessTcpSocketOps C) fuel conn out = some (res, conn', out'))
    (hres : res = 0 ∨ res = -2) (hopen : conn.sock.readBuf.eof = false) :
    ∃ got trunks, streamBytes conn.reads = got ++ streamBytes conn'.reads ∧
      Decodes (vmessDecodeData C conn.sock.auth) (conn.sock.rawBuf.data ++ got) trunks
        conn'.sock.rawBuf.data ∧
      conn'.sock.readBuf.data = [] ∧
      (vmessDecodeData C conn.sock.auth conn'.sock.rawBuf.data = .more ∨
        ∃ trunk ∈ trunks, trunk.bytes = []) := by
  have hD := prompt_vmessDecodeData C conn.sock.auth
  induction fuel generalizing conn out with
  | zero => exact absurd h (by simp [etcpPump])
  | succ fuel ih =>
    obtain ⟨res₁, buf, conn₁, hread, hturn⟩ := etcpPump_succ_cases h
    obtain ⟨bufs, reads, hcall, rfl⟩ := vmessTcpSocketTryRead_eq_some hread
    have hgo (hpos : 0 < res₁) : ∃ out₁, etcpPump (vmessTcpSocketOps C) fuel
        { conn with sock := conn.sock.setBuffers bufs, reads } out₁ = some (res, conn', out') := by
      obtain ⟨hle, -⟩ | ⟨-, n, out₁, -, ⟨rfl, -⟩ | ⟨-, hgo⟩⟩ := hturn
      · omega
      · omega
      · exact ⟨out₁, hgo⟩
    have hend (hle : res₁ ≤ 0) :
        res = res₁ ∧ conn' = { conn with sock := conn.sock.setBuffers bufs, reads } := by
      obtain ⟨-, hres, hconn, -⟩ | ⟨hpos, -⟩ := hturn
      · exact ⟨hres, hconn⟩
      · omega
    cases vmessTcpSocketReadC_tryReads (by simp [etcpDefaultBuffer]) hcall with
    | ended heof => exact absurd (hopen.symm.trans heof) (by simp)
    | error =>
      obtain ⟨rfl, -⟩ := hend (by simp)
      omega
    | rest hopen' hraw hbytes hpos =>
      obtain ⟨out₁, hgo⟩ := hgo hpos
      obtain ⟨got, trunks, hgot, hdec, hdata, hlast⟩ := ih hgo hopen' hD
      refine ⟨got, trunks, hbytes.symm.trans hgot, ?_, hdata, hlast⟩
      rw [← hraw]
      exact hdec
    | @nothing got _ hdata hbytes hraw hmore =>
      obtain ⟨-, rfl⟩ := hend (by simp)
      refine ⟨got, [], hbytes, ?_, hdata, .inl hmore⟩
      rw [← hraw]
      exact .nil _
    | @ending got n trunk hdata hbytes hok hraw htrunk =>
      obtain ⟨-, rfl⟩ := hend (by simp)
      refine ⟨got, [trunk], hbytes, ?_, hdata, .inr ⟨trunk, by simp, htrunk⟩⟩
      refine .cons hok ?_
      rw [← hraw]
      exact .nil _
    | @trunk got₁ n trunk _ hopen' hbytes hok hraw hpos =>
      obtain ⟨out₁, hgo⟩ := hgo hpos
      obtain ⟨got, trunks, hgot, hdec, hdata, hlast⟩ := ih hgo hopen' hD
      refine ⟨got₁ ++ got, trunk :: trunks, ?_, ?_, hdata, ?_⟩
      · rw [hbytes, List.append_assoc]
        exact congrArg _ hgot
      · rw [← List.append_assoc]
        refine .cons (hD.ok_append got hok) ?_
        rw [List.drop_append_of_le_length (hD.le hok), ← hraw]
        exact hdec
      · rcases hlast with hmore | ⟨t, ht, hnil⟩
        · exact .inl hmore
        · exact .inr ⟨t, List.mem_cons_of_mem _ ht, hnil⟩

/-! ### When nothing is stranded -/

/-- No segment that completes the message of the handshake brings a complete chunk behind it, unless
there is something for epoll to report anyway. -/
def Registration.NoChunkOverRead (reg : Registration C) : Prop :=
  ∀ used n auth, used <+: reg.reads →
    Completed (vmessHandshakeMessage C reg.sock reg.clock reg.target) [] used n auth →
    (∃ m trunk, vmessDecodeData C auth ((streamBytes used).drop n) = .ok m trunk) → reg.Readable

/-- In these bytes no complete chunk comes behind an empty one, which is read as the end. -/
def EndIsLast (D : StreamDecoder UInt8 DataTrunk) (seen : Bytes) : Prop :=
  ∀ trunks rest, Decodes D seen trunks rest → (∃ trunk ∈ trunks, trunk.bytes = []) →
    ∀ n trunk, D rest ≠ .ok n trunk

/-- In what a handler sees of a stream, no complete chunk comes behind its end. -/
def EndsLast (C : Crypto) (auth : EtcpRelayConn → VmessAuth) (_ : List EpollEvent) :
    EpollEvent → Prop
  | .arrived _ => True
  | .handled conn seen _ => EndIsLast (vmessDecodeData C (auth conn)) seen

/-- **The invariant** of a socket and its descriptor: a socket that is not drained is open, and an
edge is pending for it. -/
structure Awaited (C : Crypto) (auth : VmessAuth) (sock : VmessTcpSocket) (fd : KernelFd) :
    Prop where
  auth_eq : sock.auth = auth
  drained : Drained C sock ∨ (fd.pending = true ∧ sock.readBuf.eof = false)

theorem Drained.of_sameReader {conn conn' : VmessConn} (h : Drained C conn.sock)
    (hsame : SameReader conn conn') : Drained C conn'.sock := by
  rw [Drained, hsame.1, hsame.2]
  exact h

theorem Awaited.of_sameReader {auth : VmessAuth} {conn conn' : VmessConn} {fd : KernelFd}
    (h : Awaited C auth conn.sock fd) (hsame : SameReader conn conn') :
    Awaited C auth conn'.sock fd where
  auth_eq := hsame.2.trans h.auth_eq
  drained := h.drained.imp (fun hd ↦ hd.of_sameReader hsame) fun ⟨hpending, hopen⟩ ↦
    ⟨hpending, by rwa [hsame.1]⟩

/-- An arrival makes an edge. -/
theorem Awaited.arrived {auth : VmessAuth} {sock : VmessTcpSocket} {fd fd' : KernelFd}
    (h : Awaited C auth sock fd) (ha : Arrives fd fd') : Awaited C auth sock fd' where
  auth_eq := h.auth_eq
  drained := h.drained.imp id fun ⟨_, hopen⟩ ↦ ⟨by cases ha <;> rfl, hopen⟩

/-- **A handler leaves its socket drained.** -/
theorem Awaited.handled {auth : VmessAuth} {conn conn' out out' : VmessConn} {fd : KernelFd}
    {fuel : ℕ} {res : ℤ} (h : Awaited C auth conn.sock fd)
    (hlast : EndIsLast (vmessDecodeData C auth) (conn.sock.rawBuf.data ++ streamBytes conn.reads))
    (hpump : etcpPump (vmessTcpSocketOps C) fuel conn out = some (res, conn', out'))
    (hres : res = 0 ∨ res = -2) : Drained C conn'.sock := by
  obtain rfl := h.auth_eq
  have hD := (prompt_vmessDecodeData C conn.sock.auth).toStreaming
  by_cases heof : conn.sock.readBuf.eof = true
  · -- only a drained socket is at its end
    have hd : Drained C conn.sock := by
      rcases h.drained with hd | ⟨-, hopen⟩
      · exact hd
      · exact absurd (hopen.symm.trans heof) (by simp)
    exact hd.of_sameReader (etcpPump_closed heof hpump)
  · have hopen : conn.sock.readBuf.eof = false := by simpa using heof
    obtain ⟨got, trunks, hgot, hdec, hdata, hend⟩ := etcpPump_drains hpump hres hopen
    refine ⟨hdata, fun n trunk hok ↦ ?_⟩
    rw [(etcpPump_frame hpump).1] at hok
    rcases hend with hmore | hend
    · exact absurd (hmore.symm.trans hok) (by simp)
    · rw [hgot, ← List.append_assoc] at hlast
      exact hlast _ _ (hdec.append_right hD _) hend n trunk (hD.ok_append _ hok)

theorem FreshSocket.buffers {sock : VmessTcpSocket} {target : Option TargetId}
    (h : FreshSocket C sock target) :
    sock.readBuf = vbufferNew vmessTcpDefaultBuf ∧ sock.rawBuf = rbufferNew vmessTcpDefaultBuf := by
  cases h <;> exact ⟨rfl, rfl⟩

/-- **At its registration** a socket has in `raw_buf` what its handshake has read too much, which is
no complete chunk unless an edge is pending. -/
theorem Registration.NoChunkOverRead.awaited {reg : Registration C} (h : reg.NoChunkOverRead) :
    Awaited C reg.shaken.auth reg.shaken reg.fd := by
  obtain ⟨hread, hraw⟩ := reg.fresh.buffers
  obtain ⟨used, n, hused, hcomp, hleft, hbuf⟩ :=
    vmessTcpSocketHandshakeC_completed reg.sock reg.clock (by rw [hraw]; rfl) reg.returns
  have hopen : reg.shaken.readBuf.eof = false := by rw [hbuf, hread, eof_vbufferNew]
  refine ⟨rfl, ?_⟩
  by_cases hchunk : ∃ m trunk, vmessDecodeData C reg.shaken.auth ((streamBytes used).drop n) =
      .ok m trunk
  · have hreadable := h used n _ (hused ▸ List.prefix_append _ _) hcomp hchunk
    exact .inr ⟨decide_eq_true hreadable, hopen⟩
  · refine .inl ⟨?_, fun m trunk hok ↦ hchunk ⟨m, trunk, ?_⟩⟩
    · rw [hbuf, hread, data_vbufferNew]
    · rwa [hleft] at hok

/-! ### Every run -/

/-- The secrets of the two sockets of a pair. -/
def EpollPair.auth (r : EpollPair) (conn : EtcpRelayConn) : VmessAuth := (r.sock conn).auth

theorem EtcpRelayConn.eq_or_eq_pair (conn conn' : EtcpRelayConn) :
    conn' = conn ∨ conn' = conn.pair := by
  cases conn <;> cases conn' <;> simp [EtcpRelayConn.pair]

theorem EpollPair.inSock_withReads (r : EpollPair) (conn : EtcpRelayConn) (ans : Reads) :
    (r.withReads conn ans).inSock conn = { r.pair.inSock conn with reads := ans } :=
  Function.update_self ..

theorem EpollPair.outSock_withReads (r : EpollPair) (conn : EtcpRelayConn) (ans : Reads) :
    (r.withReads conn ans).outSock conn = r.pair.inSock conn.pair :=
  Function.update_of_ne (pair_ne conn).symm ..

/-- **A step keeps the invariant**, as long as the pair is there. -/
theorem awaited_step {auth : EtcpRelayConn → VmessAuth} {r r' : EpollPair} {es : List EpollEvent}
    {e : EpollEvent}
    (h : r.pair.removed = false → ∀ conn, Awaited C (auth conn) (r.sock conn) (r.fd conn))
    (hlast : EndsLast C auth es e) (hstep : EpollStep C r e r')
    (hremoved : r'.pair.removed = false) :
    ∀ conn, Awaited C (auth conn) (r'.sock conn) (r'.fd conn) := by
  cases hstep with
  | @arrived conn fd' ha =>
    intro conn'
    have hconn := h hremoved conn'
    by_cases heq : conn' = conn
    · subst heq
      show Awaited C _ _ (Function.update r.fd conn' fd' conn')
      rw [Function.update_self]
      exact hconn.arrived ha
    · show Awaited C _ _ (Function.update r.fd conn fd' conn')
      rw [Function.update_of_ne heq]
      exact hconn
  | @handled conn ans fd' p' res _ _ hhandle =>
    obtain ⟨hthere, fuel, hhandle⟩ := hhandle
    have hres := res_of_not_removed hhandle hremoved
    obtain ⟨inSock, outSock, hpump, hin, hout⟩ := etcpHandle_socks hhandle hres
    rw [r.inSock_withReads, r.outSock_withReads] at hpump
    obtain ⟨hauth, hsame⟩ := etcpPump_frame hpump
    have hself := h hthere conn
    have hother := h hthere conn.pair
    intro conn'
    rcases EtcpRelayConn.eq_or_eq_pair conn conn' with rfl | rfl
    · have hdrained : Drained C (p'.inSock conn').sock := by
        rw [hin]
        refine Awaited.handled (?_ : Awaited C (auth conn') _ (r.fd conn')) ?_ hpump hres
        · exact ⟨hself.auth_eq, hself.drained⟩
        · exact hlast
      refine ⟨?_, .inl hdrained⟩
      show (p'.inSock conn').sock.auth = _
      rw [hin, hauth]
      exact hself.auth_eq
    · have hsame' : SameReader (r.pair.inSock conn.pair) (p'.inSock conn.pair) := by
        rw [hout]
        split
        · exact hsame
        · exact hsame
      show Awaited C _ _ (Function.update r.fd conn fd' conn.pair)
      rw [Function.update_of_ne (pair_ne conn).symm]
      exact hother.of_sameReader hsame'

/-- **Nothing is stranded in any run** of a pair whose handshakes have not read a chunk too much,
and whose streams end with their end. -/
theorem etcp_nothingStranded {inbound outbound : Registration C} (hin : inbound.NoChunkOverRead)
    (hout : outbound.NoChunkOverRead) {es : List EpollEvent} {r : EpollPair}
    (hrun : Run (EpollStep C) (epollPairNew inbound outbound) es r)
    (hlast : Run.Forall (EndsLast C (epollPairNew inbound outbound).auth) es) :
    NothingStranded C r := by
  have hinv : r.pair.removed = false → ∀ conn,
      Awaited C ((epollPairNew inbound outbound).auth conn) (r.sock conn) (r.fd conn) := by
    refine hrun.invariant_of_forall (I := fun _ r ↦ r.pair.removed = false → ∀ conn,
      Awaited C ((epollPairNew inbound outbound).auth conn) (r.sock conn) (r.fd conn))
      hlast ?_ fun es r e r' ih hlast hstep ↦ awaited_step ih hlast hstep
    intro _ conn
    cases conn with
    | conn1 => exact hin.awaited
    | conn2 => exact hout.awaited
  intro hremoved hpending conn
  rcases (hinv hremoved conn).drained with hd | ⟨hp, -⟩
  · exact hd
  · exact absurd ((hpending conn).symm.trans hp) (by simp)

/-! ### At two pairs -/

/-- Nothing is read too much in a segment that is just the message. -/
theorem Registration.noChunkOverRead_of_framed {reg : Registration C} {header : Bytes}
    {auth : VmessAuth}
    (h : (vmessHandshakeMessage C reg.sock reg.clock reg.target).Framed header auth)
    (hreads : reg.reads = [.data header]) : reg.NoChunkOverRead := by
  rintro used n auth' hused hcomp ⟨m, trunk, hchunk⟩
  have hdecode := hcomp.decode
  rw [hreads, List.prefix_cons_iff] at hused
  obtain rfl | ⟨used', rfl, hused'⟩ := hused
  · exact absurd ((h.more [] List.nil_prefix h.pos).symm.trans hdecode) (by simp)
  · obtain rfl := List.prefix_nil.1 hused'
    rw [streamBytes_data, streamBytes_nil] at hdecode hchunk
    obtain ⟨rfl, -⟩ := Decode.ok.inj ((h.ok []).symm.trans hdecode)
    rw [List.append_nil, List.drop_length, (prompt_vmessDecodeData C auth').nil] at hchunk
    exact absurd hchunk (by simp)

/-- A socket whose header has come in one segment with the bytes `behind`, and nothing after that.
-/
theorem VmessPeers.exists_registration {P : VmessPeers} (hC : CfbLaws C) (hP : P.Valid C)
    (x : SessionEnd) (behind : Bytes)
    (hfit : (P.header C x.peer ++ behind).length ≤ vmessTcpDefaultBuf) :
    ∃ reg : Registration C,
      (vmessHandshakeMessage C reg.sock reg.clock reg.target).Framed (P.header C x.peer)
        (P.auth C) ∧
      reg.reads = [.data (P.header C x.peer ++ behind)] ∧ reg.queue = [] ∧ reg.fin = false ∧
      reg.out' = { sent := P.header C x } ∧ P.Shaken C x reg.shaken ∧
      reg.shaken.rawBuf.data = behind ∧ vmessTcpDefaultBuf ≤ reg.shaken.rawBuf.size ∧
      reg.shaken.readBuf = vbufferNew vmessTcpDefaultBuf := by
  obtain ⟨sock, rest, hrun, hraw, hsize, hread, hshaken⟩ := P.handshake_segment hC hP x behind hfit
  cases x with
  | server =>
    exact ⟨⟨P.socket C .server, none, .server _ _, P.rand, P.clock, _, {}, sock, _, rest, hrun, [],
      false⟩, (P.framed_request hC hP).bind_pure _, rfl, rfl, rfl, rfl, hshaken, hraw, hsize, hread⟩
  | client =>
    exact ⟨⟨P.socket C .client, some P.target, .client _ _ _ _ _, P.rand, P.clock, _, {}, sock, _,
      rest, hrun, [], false⟩, (framed_responseHeader hC (P.auth C)).bind_pure _, rfl, rfl, rfl, rfl,
      hshaken, hraw, hsize, hread⟩

/-- A socket with empty buffers, which has not come to its end. -/
structure Fresh (conn : VmessConn) : Prop where
  eof : conn.sock.readBuf.eof = false
  readBuf : conn.sock.readBuf.data = []
  rawBuf : conn.sock.rawBuf.data = []

/-- Such a socket is read from its descriptor. -/
theorem Fresh.readC_eq {conn : VmessConn} (h : Fresh conn) (s : Reads) :
    vmessTcpSocketReadC C conn.sock.auth etcpDefaultBuffer false conn.sock.toVmessReadBuffers s =
      (rbufferTryRead (vmessDecodeData C conn.sock.auth) conn.sock.rawBuf s).map
        (vmessReadResult etcpDefaultBuffer conn.sock.readBuf) := by
  rw [vmessTcpSocketReadC_eq C conn.sock.auth (by decide)]
  simp [h.eof, h.readBuf, rbufferCall]

/-- It waits for an answer. -/
theorem Fresh.tryRead_nil {conn : VmessConn} (h : Fresh conn) (hreads : conn.reads = []) :
    (vmessTcpSocketOps C).tryRead etcpDefaultBuffer conn = none := by
  show vmessTcpSocketTryRead C etcpDefaultBuffer conn = none
  rw [vmessTcpSocketTryRead, h.readC_eq, hreads]
  rfl

/-- When there is nothing, it says so. -/
theorem Fresh.tryRead_again {conn : VmessConn} (h : Fresh conn) (hreads : conn.reads = [.again]) :
    ∃ conn', (vmessTcpSocketOps C).tryRead etcpDefaultBuffer conn = some (-2, [], conn') := by
  have hdec : rbufferDecode (vmessDecodeData C conn.sock.auth) conn.sock.rawBuf.room = none := by
    rw [rbufferDecode_eq_none, RBuffer.data_room, h.rawBuf]
    exact (prompt_vmessDecodeData C conn.sock.auth).nil
  show ∃ conn', vmessTcpSocketTryRead C etcpDefaultBuffer conn = _
  rw [vmessTcpSocketTryRead, h.readC_eq, hreads, rbufferTryRead, rbufferDrain]
  dsimp only
  rw [hdec]
  exact ⟨_, rfl⟩

/-- A segment fits as soon as it is no longer than the buffer. -/
theorem Fresh.fits {conn : VmessConn} (h : Fresh conn) {m : Bytes} (hpos : 0 < m.length)
    (hfit : m.length ≤ conn.sock.rawBuf.size) :
    (ReadAnswer.data m).Fits conn.sock.rawBuf.room.rest := by
  have hrest : conn.sock.rawBuf.room.rest = conn.sock.rawBuf.size := by
    rw [RBuffer.room_of_nil h.rawBuf, RBuffer.rest, h.rawBuf]
    rfl
  exact ⟨hpos, hrest ▸ hfit⟩

/-- Behind a segment, too, it waits for an answer. -/
theorem Fresh.tryRead_data {conn : VmessConn} (h : Fresh conn) {m : Bytes} (hpos : 0 < m.length)
    (hfit : m.length ≤ conn.sock.rawBuf.size) (hreads : conn.reads = [.data m]) :
    (vmessTcpSocketOps C).tryRead etcpDefaultBuffer conn = none := by
  show vmessTcpSocketTryRead C etcpDefaultBuffer conn = none
  rw [vmessTcpSocketTryRead, h.readC_eq, hreads, rbufferTryRead, rbufferDrain,
    dif_pos (h.fits hpos hfit)]
  rfl

/-- A chunk that comes in one segment is read as soon as there is nothing more. -/
theorem Fresh.tryRead_segment (hC : CfbLaws C) {conn : VmessConn} (h : Fresh conn) {data : Bytes}
    (hdata : data ≠ []) (hlen : data.length ≤ etcpDefaultBuffer) {m : Bytes}
    (hm : m = vmessTrunk C conn.sock.auth data) (hfit : m.length ≤ conn.sock.rawBuf.size)
    {s : Reads} (hreads : conn.reads = .data m :: .again :: s) :
    ∃ conn', (vmessTcpSocketOps C).tryRead etcpDefaultBuffer conn =
      some ((data.length : ℤ), data, conn') ∧ Fresh conn' ∧ conn'.reads = s := by
  subst hm
  have hmax : etcpDefaultBuffer ≤ vmessMaxPayload := by decide
  have hframed := framed_vmessTrunk hC conn.sock.auth (hlen.trans hmax)
  have hfits := h.fits hframed.pos hfit
  -- the buffer when the segment is in it, and when the chunk has been taken out again
  set raw := (conn.sock.rawBuf.room.store _ (RBuffer.le_size_of_fits hfits)).room with hraw
  have hok : vmessDecodeData C conn.sock.auth raw.data =
      .ok (vmessTrunk C conn.sock.auth data).length ⟨some data⟩ := by
    rw [hraw, RBuffer.data_room, RBuffer.data_store, RBuffer.data_room, h.rawBuf, List.nil_append]
    simpa using hframed.ok []
  have hleft : (raw.consume (vmessTrunk C conn.sock.auth data).length).data = [] := by
    rw [RBuffer.data_consume, hraw, RBuffer.data_room, RBuffer.data_store, RBuffer.data_room,
      h.rawBuf, List.nil_append, List.drop_length]
  obtain ⟨readBuf', hdata', heof', hresult⟩ := vmessReadResult_of_ne_nil etcpDefaultBuffer h.eof
    h.readBuf (show (⟨some data⟩ : DataTrunk).bytes ≠ [] from hdata)
    (raw.consume (vmessTrunk C conn.sock.auth data).length)
  have htake : (⟨some data⟩ : DataTrunk).bytes.take etcpDefaultBuffer = data :=
    List.take_of_length_le hlen
  have hdrop : (⟨some data⟩ : DataTrunk).bytes.drop etcpDefaultBuffer = [] :=
    List.drop_eq_nil_of_le hlen
  rw [htake] at hresult
  refine ⟨{ conn with
    sock := conn.sock.setBuffers ⟨readBuf', raw.consume (vmessTrunk C conn.sock.auth data).length⟩,
    reads := s }, ?_, ⟨heof', hdata'.trans hdrop, hleft⟩, rfl⟩
  show vmessTcpSocketTryRead C etcpDefaultBuffer conn = _
  rw [vmessTcpSocketTryRead, h.readC_eq, hreads, rbufferTryRead, rbufferDrain, dif_pos hfits,
    rbufferDrain]
  dsimp only
  rw [← hraw, rbufferDecode, hok]
  dsimp only [Option.getD_some, Outcome.map]
  rw [hresult]

/-- The loop waits in its first read. -/
theorem etcpPump_of_wait {σ : Type} {ops : TcpSocketOps σ} {inSock outSock : σ}
    (h : ops.tryRead etcpDefaultBuffer inSock = none) (fuel : ℕ) :
    etcpPump ops fuel inSock outSock = none := by
  cases fuel with
  | zero => rfl
  | succ fuel => simp [etcpPump, h]

/-- And in its second. -/
theorem etcpPump_of_turn {σ : Type} {ops : TcpSocketOps σ} {inSock inSock' outSock outSock' : σ}
    {res n : ℤ} {buf : Bytes}
    (hread : ops.tryRead etcpDefaultBuffer inSock = some (res, buf, inSock')) (hres : 0 < res)
    (hwrite : ops.write buf outSock = some (n, outSock')) (hn : 0 < n)
    (h : ops.tryRead etcpDefaultBuffer inSock' = none) (fuel : ℕ) :
    etcpPump ops fuel inSock outSock = none := by
  cases fuel with
  | zero => rfl
  | succ fuel => simp [etcpPump, hread, hres, hwrite, hn, etcpPump_of_wait h]

/-- The loop on a chunk that comes in one segment: it reads and writes it when it has been answered
twice that there is nothing more, and waits until then. -/
theorem Fresh.etcpPump_segment (hC : CfbLaws C) {conn out out' : VmessConn} (h : Fresh conn)
    {data : Bytes} (hdata : data ≠ []) (hlen : data.length ≤ etcpDefaultBuffer) {m : Bytes}
    (hm : m = vmessTrunk C conn.sock.auth data) (hfit : m.length ≤ conn.sock.rawBuf.size) {n : ℤ}
    (hwrite : (vmessTcpSocketOps C).write data out = some (n, out')) (hn : 0 < n) :
    (∃ conn', etcpPump (vmessTcpSocketOps C) 2
      { conn with reads := [.data m, .again, .again] } out = some (-2, conn', out')) ∧
      ∀ pre, pre <+: [.data m, .again, .again] → pre ≠ [.data m, .again, .again] → ∀ fuel,
        etcpPump (vmessTcpSocketOps C) fuel { conn with reads := pre } out = none := by
  have hpos : (0 : ℤ) < data.length := Int.natCast_pos.2 (List.length_pos_iff.2 hdata)
  have hfresh (s : Reads) : Fresh { conn with reads := s } := ⟨h.eof, h.readBuf, h.rawBuf⟩
  constructor
  · obtain ⟨conn₁, hread₁, hfresh₁, hreads₁⟩ :=
      (hfresh [.data m, .again, .again]).tryRead_segment hC hdata hlen hm hfit rfl
    obtain ⟨conn₂, hread₂⟩ := hfresh₁.tryRead_again (C := C) hreads₁
    exact ⟨conn₂, etcpPump_of_drains (.piece hread₁ hpos (.last hread₂ (by simp)))
      (.cons hwrite hn .nil)⟩
  · intro pre hpre hne fuel
    obtain rfl | ⟨t₁, rfl, ht₁⟩ := List.prefix_cons_iff.1 hpre
    · exact etcpPump_of_wait ((hfresh []).tryRead_nil rfl) fuel
    obtain rfl | ⟨t₂, rfl, ht₂⟩ := List.prefix_cons_iff.1 ht₁
    · exact etcpPump_of_wait
        ((hfresh [.data m]).tryRead_data (hm ▸ length_vmessTrunk_pos C _ data) hfit rfl) fuel
    obtain rfl | ⟨t₃, rfl, ht₃⟩ := List.prefix_cons_iff.1 ht₂
    · obtain ⟨conn₁, hread₁, hfresh₁, hreads₁⟩ :=
        (hfresh [.data m, .again]).tryRead_segment hC hdata hlen hm hfit rfl
      exact etcpPump_of_turn hread₁ hpos hwrite hn (hfresh₁.tryRead_nil hreads₁) fuel
    · obtain rfl := List.prefix_nil.1 ht₃
      exact absurd rfl hne

/-- **A chunk that has arrived is handled**: it is read and written, and then there is nothing more.
-/
theorem exists_epollStep_segment (hC : CfbLaws C) {r : EpollPair} {conn : EtcpRelayConn}
    (hremoved : r.pair.removed = false) (hfresh : Fresh (r.pair.inSock conn)) {auth : VmessAuth}
    (hready : (r.sock conn.pair).Ready auth)
    (hout : (r.pair.inSock conn.pair).out.answers = []) {data : Bytes} (hdata : data ≠ [])
    (hlen : data.length ≤ etcpDefaultBuffer)
    (hfit : (vmessTrunk C (r.sock conn).auth data).length ≤ (r.sock conn).rawBuf.size)
    (hqueue : (r.fd conn).queue = vmessTrunk C (r.sock conn).auth data)
    (hopen : (r.fd conn).fin = false) :
    ∃ r', EpollStep C r (.handled conn (vmessTrunk C (r.sock conn).auth data) (-2)) r' ∧
      r'.pair.removed = false ∧ (r'.fd conn).pending = false ∧
      r'.fd conn.pair = r.fd conn.pair := by
  set m := vmessTrunk C (r.sock conn).auth data with hm
  obtain ⟨n, vser, hrun, hn, -⟩ := vmessTcpSocketWrite_reliable hC hready hout hdata
  obtain ⟨out', hwrite⟩ : ∃ out',
      (vmessTcpSocketOps C).write data (r.pair.inSock conn.pair) = some (n, out') :=
    ⟨_, congrArg (Option.map _) hrun⟩
  obtain ⟨⟨conn₂, hpump⟩, hwaits⟩ :=
    hfresh.etcpPump_segment hC hdata hlen hm hfit hwrite hn
  rw [← r.inSock_withReads, ← r.outSock_withReads conn [.data m, .again, .again]] at hpump
  have hhandle :
      etcpHandle (vmessTcpSocketOps C) 2 conn (r.withReads conn [.data m, .again, .again]) =
        some (-2, (r.withReads conn [.data m, .again, .again]).setSocks conn conn₂ out') := by
    rw [etcpHandle, show etcpPump _ 2 _ _ = _ from hpump]
    rfl
  have hasked : ∀ pre, pre <+: [.data m, .again, .again] → pre ≠ [.data m, .again, .again] →
      ∀ fuel, etcpHandle (vmessTcpSocketOps C) fuel conn (r.withReads conn pre) = none := by
    intro pre hpre hne fuel
    have hnone := hwaits pre hpre hne fuel
    rw [← r.inSock_withReads, ← r.outSock_withReads conn pre] at hnone
    rw [etcpHandle, show etcpPump _ fuel _ _ = _ from hnone]
    rfl
  have hserves : Serves (r.fd conn) [.data m, .again, .again]
      { r.fd conn with queue := [], pending := false } :=
    .data (hqueue.trans (List.append_nil m).symm) (.again rfl hopen (.again rfl hopen (.nil _)))
  have hstep := EpollStep.handled hserves hasked ⟨hremoved, 2, hhandle⟩
  have hseen : (r.sock conn).rawBuf.data ++ streamBytes [.data m, .again, .again] = m := by
    rw [show (r.sock conn).rawBuf.data = [] from hfresh.rawBuf, streamBytes_data,
      streamBytes_again, streamBytes_again, streamBytes_nil, List.append_nil, List.nil_append]
  rw [hseen] at hstep
  refine ⟨_, hstep, hremoved, ?_, Function.update_of_ne (pair_ne conn).symm ..⟩
  show (Function.update r.fd conn _ conn).pending = false
  rw [Function.update_self]

/-- In a chunk there is no end. -/
theorem endIsLast_vmessTrunk (hC : CfbLaws C) (auth : VmessAuth) {data : Bytes} (hdata : data ≠ [])
    (hlen : data.length ≤ vmessMaxPayload) :
    EndIsLast (vmessDecodeData C auth) (vmessTrunk C auth data) := by
  have hok := (framed_vmessTrunk hC auth hlen).ok []
  rw [List.append_nil] at hok
  intro trunks rest hdec hend
  cases hdec with
  | nil => exact absurd hend (by simp)
  | cons h hdec =>
    obtain ⟨rfl, rfl⟩ := Decode.ok.inj (hok.symm.trans h)
    rw [List.drop_length] at hdec
    cases hdec with
    | nil =>
      obtain ⟨trunk, htrunk, hnil⟩ := hend
      obtain rfl := List.mem_singleton.1 htrunk
      exact absurd hnil hdata
    | cons h _ => exact absurd ((prompt_vmessDecodeData C auth).nil.symm.trans h) (by simp)

/-- Both headers come in segments of their own, and then a chunk for the inbound socket, which is
handled. No edge is pending then. -/
theorem etcp_nothingStranded_samplePeers :
    ∃ (inbound outbound : Registration openssl) (r : EpollPair),
      inbound.NoChunkOverRead ∧ outbound.NoChunkOverRead ∧
      Run (EpollStep openssl) (epollPairNew inbound outbound)
        [.arrived .conn1, .handled .conn1
          (vmessTrunk openssl (samplePeers.auth openssl) [104, 105]) (-2)] r ∧
      r.pair.removed = false ∧ (∀ conn, (r.fd conn).pending = false) ∧
      NothingStranded openssl r := by
  have hlen : (samplePeers.header openssl .client ++ []).length ≤ vmessTcpDefaultBuf := by
    rw [List.append_nil, length_header_samplePeers]
    decide
  have hlen' : (samplePeers.header openssl .server ++ []).length ≤ vmessTcpDefaultBuf := by
    rw [List.append_nil, length_responseHeader_samplePeers]
    decide
  obtain ⟨inbound, hmsg, hreads, hqueue, hfin, -, hshaken, hraw, hsize, hread⟩ :=
    samplePeers.exists_registration cfbLaws_openssl valid_samplePeers .server [] hlen
  obtain ⟨outbound, hmsg', hreads', hqueue', hfin', hsent', hshaken', -⟩ :=
    samplePeers.exists_registration cfbLaws_openssl valid_samplePeers .client [] hlen'
  rw [List.append_nil] at hreads hreads'
  have hin := Registration.noChunkOverRead_of_framed hmsg hreads
  have hout := Registration.noChunkOverRead_of_framed hmsg' hreads'
  set m := vmessTrunk openssl (samplePeers.auth openssl) [104, 105] with hm
  have hne : m ≠ [] := List.ne_nil_of_length_pos (length_vmessTrunk_pos _ _ _)
  have harrives : Arrives ((epollPairNew inbound outbound).fd .conn1)
      ⟨inbound.queue ++ m, inbound.fin, true⟩ := .data hfin hne
  have h₁ : Run (EpollStep openssl) (epollPairNew inbound outbound) [.arrived .conn1] _ :=
    .snoc .nil (.arrived harrives)
  set r₁ : EpollPair := { epollPairNew inbound outbound with
    fd := Function.update (epollPairNew inbound outbound).fd .conn1 ⟨_, _, true⟩ } with hr₁
  have hauth : (r₁.sock .conn1).auth = samplePeers.auth openssl := hshaken.auth_eq
  have hfd : (r₁.fd .conn1).queue = m := by
    show inbound.queue ++ m = m
    rw [hqueue, List.nil_append]
  have hother : (r₁.fd .conn2).pending = false := by
    show decide outbound.Readable = false
    simp [Registration.Readable, hqueue', hfin']
  have hfresh : Fresh (r₁.pair.inSock .conn1) := by
    refine ⟨?_, ?_, hraw⟩
    · show inbound.shaken.readBuf.eof = false
      rw [hread, eof_vbufferNew]
    · show inbound.shaken.readBuf.data = []
      rw [hread, data_vbufferNew]
  have hout₁ : (r₁.pair.inSock .conn2).out.answers = [] := by
    show outbound.out'.answers = []
    rw [hsent']
  have hready : (r₁.sock .conn2).Ready (samplePeers.auth openssl) := hshaken'.ready
  have hsize₁ : vmessTcpDefaultBuf ≤ (r₁.sock .conn1).rawBuf.size := hsize
  have hfin₁ : (r₁.fd .conn1).fin = false := hfin
  have hremoved₁ : r₁.pair.removed = false := rfl
  clear_value r₁
  obtain ⟨r₂, hstep, hremoved, hpending, hfd₂⟩ := exists_epollStep_segment cfbLaws_openssl
    hremoved₁ hfresh hready hout₁ (show ([104, 105] : Bytes) ≠ [] by simp) (by decide)
    (by rw [hauth, length_vmessTrunk_samplePeers]; exact le_trans (by decide) hsize₁)
    (by rw [hauth]; exact hfd) hfin₁
  rw [hauth] at hstep
  have h₂ := h₁.snoc hstep
  refine ⟨inbound, outbound, r₂, hin, hout, h₂, hremoved, ?_, etcp_nothingStranded hin hout h₂ ?_⟩
  · rintro (_ | _)
    · exact hpending
    · exact (congrArg KernelFd.pending hfd₂).trans hother
  · refine .snoc (.snoc .nil trivial) ?_
    show EndIsLast (vmessDecodeData openssl inbound.shaken.auth) m
    rw [hshaken.auth_eq]
    exact endIsLast_vmessTrunk cfbLaws_openssl _ (by simp) (by decide)

/-- The response and a chunk come in one segment, and nothing after that: the chunk stays in
`raw_buf`, and no event reports it. -/
theorem not_nothingStranded_coalesced :
    ∃ (inbound outbound : Registration openssl) (r : EpollPair),
      inbound.reads = [.data (samplePeers.header openssl .client)] ∧
      outbound.reads = [.data (samplePeers.header openssl .server ++
        trunkWire openssl (samplePeers.auth openssl) ⟨some [104, 105]⟩)] ∧
      ¬inbound.Readable ∧ ¬outbound.Readable ∧
      Run (EpollStep openssl) (epollPairNew inbound outbound) [] r ∧
      ¬NothingStranded openssl r := by
  set auth := samplePeers.auth openssl with hauth
  have hlen : (samplePeers.header openssl .client).length = 65 := length_header_samplePeers
  have hlen' : (samplePeers.header openssl .server).length = 4 := length_responseHeader_samplePeers
  have htrunk : (trunkWire openssl auth ⟨some [104, 105]⟩).length = 8 :=
    length_vmessTrunk_samplePeers
  have hsendable : (⟨some [104, 105]⟩ : DataTrunk).Sendable := by
    intro data hdata
    obtain rfl := Option.some.inj hdata
    decide
  have hframed := framed_trunkWire cfbLaws_openssl auth hsendable
  obtain ⟨inbound, -, hreads, hqueue, hfin, -⟩ :=
    samplePeers.exists_registration cfbLaws_openssl valid_samplePeers .server []
      (by rw [List.append_nil]; exact hlen.le.trans (by decide))
  have hfit : (samplePeers.header openssl .server ++
      trunkWire openssl auth ⟨some [104, 105]⟩).length ≤ vmessTcpDefaultBuf := by
    rw [List.length_append, htrunk, hlen']
    decide
  obtain ⟨outbound, -, hreads', hqueue', hfin', -, hshaken', hraw', -⟩ :=
    samplePeers.exists_registration cfbLaws_openssl valid_samplePeers .client
      (trunkWire openssl auth ⟨some [104, 105]⟩)
      hfit
  have hidle : ¬inbound.Readable := by simp [Registration.Readable, hqueue, hfin]
  have hidle' : ¬outbound.Readable := by simp [Registration.Readable, hqueue', hfin']
  refine ⟨inbound, outbound, _, by rw [hreads, List.append_nil]; rfl, hreads', hidle, hidle', .nil,
    fun h ↦ ?_⟩
  have hpending (conn : EtcpRelayConn) :
      ((epollPairNew inbound outbound).fd conn).pending = false := by
    cases conn with
    | conn1 => exact decide_eq_false hidle
    | conn2 => exact decide_eq_false hidle'
  obtain ⟨-, hnone⟩ : Drained openssl outbound.shaken := h rfl hpending .conn2
  rw [hshaken'.auth_eq, hraw'] at hnone
  exact hnone _ _ (by simpa using hframed.ok [])

end Vmecs
