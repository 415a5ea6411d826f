import Vmecs.Lib.Incremental
import Vmecs.Proto.Common
import Vmecs.Pub.Serial

/-!
# SOCKS5 messages (`proto/socks/socks5.h`, `proto/socks/socks5.c`)

The four messages of a SOCKS5 handshake: the client's choice of authentication methods, the server's
answer, the request and the response. The encoders are given by the bytes they write; the decoders
are reading programs. A request and a response have the same layout, and their address part is one
program, `socks5DecodeTarget`: of a response only the reply code is kept.
-/

namespace Vmecs

open StreamDecoder

/-- `SOCKS5_VERSION`. -/
def socks5Version : UInt8 := 5

/-- `SOCKS5_AUTH_METHOD_NO_AUTH`. -/
def socks5AuthMethodNoAuth : UInt8 := 0

/-- `SOCKS5_CMD_CONNECT`. -/
def socks5CmdConnect : UInt8 := 1

/-- `SOCKS5_REP_SUCCESS`. -/
def socks5RepSuccess : UInt8 := 0

/-- `SOCKS5_ADDR_TYPE_IPV4`. -/
def socks5AddrTypeIpv4 : UInt8 := 1

/-- `SOCKS5_ADDR_TYPE_DOMAIN`; the numbers differ from those of VMess. -/
def socks5AddrTypeDomain : UInt8 := 3

/-- `SOCKS5_ADDR_TYPE_IPV6`. -/
def socks5AddrTypeIpv6 : UInt8 := 4

/-- `socks5_request_t`. -/
structure Socks5Request where
  target : TargetId
  cmd : UInt8
  deriving DecidableEq

/-- `socks5_response_t`. -/
structure Socks5Response where
  rep : UInt8
  deriving DecidableEq

/-! ### Encoders -/

/-- `socks5_encode_auth_sel`; `len` is a byte, and that many methods are copied. -/
def socks5EncodeAuthSel (supported : Bytes) (len : UInt8) : Bytes :=
  [socks5Version, len] ++ supported.take len.toNat

/-- `socks5_encode_auth_ack`. -/
def socks5EncodeAuthAck (method : UInt8) : Bytes := [socks5Version, method]

/-- The address part of a request. -/
def socks5WriteTarget (ser : Serial) : TargetAddr → Serial
  | .ipv4 addr => serialWrite (serialWriteU8 ser socks5AddrTypeIpv4) addr.1
  | .domain name =>
    let domainLen := UInt8.ofNat name.1.length
    let ser := serialWriteU8 (serialWriteU8 ser socks5AddrTypeDomain) domainLen
    serialWrite ser (name.1.take domainLen.toNat)
  | .ipv6 addr => serialWrite (serialWriteU8 ser socks5AddrTypeIpv6) addr.1

/-- `socks5_encode_request`. -/
def socks5EncodeRequest (req : Socks5Request) : Bytes :=
  let ser := serialInit []
  let ser := serialWriteU8 ser socks5Version
  let ser := serialWriteU8 ser req.cmd
  let ser := serialWriteU8 ser 0
  let ser := socks5WriteTarget ser req.target.addr
  (serialWriteU16 ser (be16 req.target.port)).contents

/-- `socks5_encode_response`: the bound address is always 0.0.0.0 port 0. -/
def socks5EncodeResponse (resp : Socks5Response) : Bytes :=
  let ser := serialInit []
  let ser := serialWriteU8 ser socks5Version
  let ser := serialWriteU8 ser resp.rep
  let ser := serialWriteU8 ser 0
  let ser := serialWriteU8 ser socks5AddrTypeIpv4
  let ser := serialWriteU32 ser (be32 0)
  (serialWriteU16 ser (be16 0)).contents

/-! ### Decoders -/

/-- `socks5_decode_auth_sel`: the methods offered, at least one. -/
def socks5DecodeAuthSel : StreamDecoder UInt8 Bytes := do
  let head ← take 2
  if byteAt head 0 ≠ socks5Version then reject
  else if byteAt head 1 = 0 then reject
  else do
    let methods ← take (byteAt head 1).toNat
    pure methods.1

/-- `socks5_decode_auth_ack`. -/
def socks5DecodeAuthAck : StreamDecoder UInt8 UInt8 := do
  let head ← take 2
  if byteAt head 0 ≠ socks5Version then reject else pure (byteAt head 1)

/-- The address part of a request or a response. -/
def socks5DecodeTarget (addrType : UInt8) : StreamDecoder UInt8 TargetId :=
  if addrType = socks5AddrTypeIpv4 then do
    let ipv4 ← take 4
    let port ← take 2
    pure (targetIdNewIpv4 ipv4 (fromBe16 port))
  else if addrType = socks5AddrTypeDomain then do
    let len ← take 1
    let domain ← take (byteAt len 0).toNat
    let port ← take 2
    pure (targetIdNewDomain domain.1 (fromBe16 port).toUInt64)
  else if addrType = socks5AddrTypeIpv6 then do
    let ipv6 ← take 16
    let port ← take 2
    pure (targetIdNewIpv6 ipv6 (fromBe16 port))
  else reject

/-- `socks5_decode_request`. -/
def socks5DecodeRequest : StreamDecoder UInt8 Socks5Request := do
  let ver ← take 1
  if byteAt ver 0 ≠ socks5Version then reject
  else do
    let cmd ← take 1
    let _resv ← take 1
    let addrType ← take 1
    let target ← socks5DecodeTarget (byteAt addrType 0)
    pure ⟨target, byteAt cmd 0⟩

/-- `socks5_decode_response`: the target read is freed. -/
def socks5DecodeResponse : StreamDecoder UInt8 Socks5Response := do
  let ver ← take 1
  if byteAt ver 0 ≠ socks5Version then reject
  else do
    let rep ← take 1
    let _resv ← take 1
    let addrType ← take 1
    let _target ← socks5DecodeTarget (byteAt addrType 0)
    pure ⟨byteAt rep 0⟩

/-! ### The streaming contract -/

theorem prompt_socks5DecodeAuthSel : socks5DecodeAuthSel.Prompt := by
  refine Incremental.prompt_bind_take (by omega) fun head ↦ ?_
  refine .ite .reject (.ite .reject ?_)
  exact (Incremental.take _).bind fun methods ↦ .pure _

theorem prompt_socks5DecodeAuthAck : socks5DecodeAuthAck.Prompt :=
  Incremental.prompt_bind_take (by omega) fun _ ↦ .ite .reject (.pure _)

theorem incremental_socks5DecodeTarget (addrType : UInt8) :
    (socks5DecodeTarget addrType).Incremental := by
  refine .ite ?ipv4 (.ite ?domain (.ite ?ipv6 .reject))
  case ipv4 =>
    exact (Incremental.take 4).bind fun _ ↦ (Incremental.take 2).bind fun _ ↦ .pure _
  case domain =>
    refine (Incremental.take 1).bind fun len ↦ ?_
    exact (Incremental.take _).bind fun _ ↦ (Incremental.take 2).bind fun _ ↦ .pure _
  case ipv6 =>
    exact (Incremental.take 16).bind fun _ ↦ (Incremental.take 2).bind fun _ ↦ .pure _

theorem prompt_socks5DecodeRequest : socks5DecodeRequest.Prompt := by
  refine Incremental.prompt_bind_take (by omega) fun ver ↦ .ite .reject ?_
  refine (Incremental.take 1).bind fun cmd ↦ (Incremental.take 1).bind fun _ ↦ ?_
  refine (Incremental.take 1).bind fun addrType ↦ ?_
  exact (incremental_socks5DecodeTarget _).bind fun target ↦ .pure _

theorem prompt_socks5DecodeResponse : socks5DecodeResponse.Prompt := by
  refine Incremental.prompt_bind_take (by omega) fun ver ↦ .ite .reject ?_
  refine (Incremental.take 1).bind fun rep ↦ (Incremental.take 1).bind fun _ ↦ ?_
  refine (Incremental.take 1).bind fun addrType ↦ ?_
  exact (incremental_socks5DecodeTarget _).bind fun _ ↦ .pure _

/-! ### The layout of a request -/

/-- An address with its type, as it is in a request: a domain name ends at its first zero byte. -/
inductive Socks5Address : Bytes → TargetAddr → Prop where
  | ipv4 (addr : Block 4) : Socks5Address (1 :: addr.1) (.ipv4 addr)
  | domain {len : UInt8} (name : Block len.toNat) :
      Socks5Address (3 :: len :: name.1) (.domain (cstr name.1))
  | ipv6 (addr : Block 16) : Socks5Address (4 :: addr.1) (.ipv6 addr)

/-- The address of a message fits its length byte. -/
theorem Socks5Address.short {bs : Bytes} {addr : TargetAddr} (h : Socks5Address bs addr)
    (port : UInt16) : TargetId.Short ⟨addr, port⟩ := by
  cases h with
  | ipv4 addr => trivial
  | @domain len name =>
    have hlen : (cstr name.1).1.length ≤ name.1.length :=
      (List.takeWhile_prefix _).length_le
    have hbyte := len.toNat_lt
    show (cstr name.1).1.length ≤ 255
    rw [name.2] at hlen
    omega
  | ipv6 addr => trivial

theorem targetIdNewDomain_toUInt64 (domain : Bytes) (port : UInt16) :
    targetIdNewDomain domain port.toUInt64 = ⟨.domain (cstr domain), port⟩ := by
  rw [targetIdNewDomain, UInt16.toUInt16_toUInt64]

/-- An address is written with its layout, a domain name if it fits its length byte. -/
theorem holds_socks5WriteTarget {ser : Serial} {bs : Bytes} (h : ser.Holds bs)
    {target : TargetId} (hshort : target.Short) :
    ∃ addr, Socks5Address addr target.addr ∧
      (socks5WriteTarget ser target.addr).Holds (bs ++ addr) := by
  obtain ⟨addr, port⟩ := target
  cases addr with
  | ipv4 addr =>
    refine ⟨_, .ipv4 addr, ?_⟩
    have haddr := (h.write [socks5AddrTypeIpv4]).write addr.1
    rwa [List.append_assoc] at haddr
  | domain name =>
    have hlen : (UInt8.ofNat name.1.length).toNat = name.1.length := by
      have : name.1.length ≤ 255 := hshort
      rw [UInt8.toNat_ofNat']
      omega
    have hname := Socks5Address.domain (⟨name.1, hlen.symm⟩ : Block (UInt8.ofNat _).toNat)
    rw [cstr_val] at hname
    refine ⟨_, hname, ?_⟩
    have haddr := ((h.write [socks5AddrTypeDomain]).write [UInt8.ofNat name.1.length]).write
      (name.1.take (UInt8.ofNat name.1.length).toNat)
    have htake : name.1.take (UInt8.ofNat name.1.length).toNat = name.1 := by
      rw [hlen, List.take_length]
    rw [List.append_assoc, List.append_assoc] at haddr
    have hend : bs ++ ([socks5AddrTypeDomain] ++ ([UInt8.ofNat name.1.length] ++
        name.1.take (UInt8.ofNat name.1.length).toNat)) =
        bs ++ (3 :: UInt8.ofNat name.1.length :: name.1) := by
      rw [htake]
      rfl
    rwa [hend] at haddr
  | ipv6 addr =>
    refine ⟨_, .ipv6 addr, ?_⟩
    have haddr := (h.write [socks5AddrTypeIpv6]).write addr.1
    rwa [List.append_assoc] at haddr

/-- **A request is written with the layout it is read with.** -/
theorem socks5EncodeRequest_layout {target : TargetId} (h : target.Short) (cmd : UInt8) :
    ∃ addr, Socks5Address addr target.addr ∧
      socks5EncodeRequest ⟨target, cmd⟩ = [5, cmd, 0] ++ addr ++ (be16 target.port).1 := by
  have hhead := ((holds_serialInit.write [socks5Version]).write [cmd]).write [0]
  obtain ⟨addr, haddr, htarget⟩ := holds_socks5WriteTarget hhead h
  exact ⟨addr, haddr, (htarget.write (be16 target.port).1).2⟩

/-- An address is read with the port behind it. -/
theorem parses_socks5DecodeTarget {addrType : UInt8} {bs : Bytes} {addr : TargetAddr}
    (h : Socks5Address (addrType :: bs) addr) (port : Block 2) :
    (socks5DecodeTarget addrType).Parses (bs ++ port.1) ⟨addr, fromBe16 port⟩ := by
  cases h with
  | ipv4 addr => exact .take_bind addr (.take_pure port _)
  | @domain len name =>
    have hlen : (byteAt (⟨[len], rfl⟩ : Block 1) 0).toNat = len.toNat := rfl
    rw [← targetIdNewDomain_toUInt64]
    refine .take_bind ⟨[len], rfl⟩ ?_
    exact .take_bind name (.take_pure port fun port ↦ targetIdNewDomain name.1 _)
  | ipv6 addr => exact .take_bind addr (.take_pure port _)

/-- And nothing else is read. -/
theorem socks5DecodeTarget_eq_ok {addrType : UInt8} {x : Bytes} {n : ℕ} {target : TargetId}
    (h : socks5DecodeTarget addrType x = .ok n target) :
    ∃ bs addr, ∃ port : Block 2, ∃ rest, x = bs ++ port.1 ++ rest ∧
      Socks5Address (addrType :: bs) addr ∧ target = ⟨addr, fromBe16 port⟩ := by
  rw [socks5DecodeTarget] at h
  split at h
  case isTrue hv4 =>
    obtain ⟨addr, _, _, rfl, h, -⟩ := take_bind_eq_ok.1 h
    obtain ⟨port, rest, _, rfl, h, -⟩ := take_bind_eq_ok.1 h
    obtain ⟨-, rfl⟩ := Decode.ok.inj h
    exact ⟨addr.1, _, port, rest, by rw [List.append_assoc], hv4 ▸ .ipv4 addr, rfl⟩
  case isFalse =>
    split at h
    case isTrue hdom =>
      obtain ⟨len, _, _, rfl, h, -⟩ := take_bind_eq_ok.1 h
      obtain ⟨name, _, _, rfl, h, -⟩ := take_bind_eq_ok.1 h
      obtain ⟨port, rest, _, rfl, h, -⟩ := take_bind_eq_ok.1 h
      obtain ⟨-, rfl⟩ := Decode.ok.inj h
      refine ⟨byteAt len 0 :: name.1, _, port, rest, ?_, hdom ▸ .domain name,
        targetIdNewDomain_toUInt64 _ _⟩
      rw [eq_of_byteAt len rfl, List.append_assoc]
      rfl
    case isFalse =>
      split at h
      case isTrue hv6 =>
        obtain ⟨addr, _, _, rfl, h, -⟩ := take_bind_eq_ok.1 h
        obtain ⟨port, rest, _, rfl, h, -⟩ := take_bind_eq_ok.1 h
        obtain ⟨-, rfl⟩ := Decode.ok.inj h
        exact ⟨addr.1, _, port, rest, by rw [List.append_assoc], hv6 ▸ .ipv6 addr, rfl⟩
      case isFalse => exact absurd h (by simp)

/-- A choice of methods is read. -/
theorem parses_socks5DecodeAuthSel {len : UInt8} (hlen : len ≠ 0) (methods : Block len.toNat) :
    socks5DecodeAuthSel.Parses ([5, len] ++ methods.1) methods.1 := by
  refine .take_bind ⟨[5, len], rfl⟩ ?_
  show (if (5 : UInt8) ≠ 5 then reject else if len = 0 then reject else _).Parses _ _
  rw [if_neg (by simp), if_neg hlen]
  exact .take_pure methods fun methods ↦ methods.1

theorem socks5DecodeAuthSel_eq_ok {x methods : Bytes} {n : ℕ}
    (h : socks5DecodeAuthSel x = .ok n methods) :
    ∃ len : UInt8, len ≠ 0 ∧ methods.length = len.toNat ∧ ∃ rest,
      x = [5, len] ++ methods ++ rest := by
  obtain ⟨head, _, _, rfl, h, -⟩ := take_bind_eq_ok.1 h
  split at h
  case isTrue => exact absurd h (by simp)
  case isFalse hvers =>
    split at h
    case isTrue => exact absurd h (by simp)
    case isFalse hlen =>
      obtain ⟨methods', rest, _, rfl, h, -⟩ := take_bind_eq_ok.1 h
      obtain ⟨-, rfl⟩ := Decode.ok.inj h
      refine ⟨byteAt head 1, hlen, methods'.2, rest, ?_⟩
      rw [eq_of_byteAt_two head (not_not.1 hvers) rfl, List.append_assoc]
      rfl

/-- A request is read. -/
theorem parses_socks5DecodeRequest (cmd resv : UInt8) {bs : Bytes} {addr : TargetAddr}
    (h : Socks5Address bs addr) (port : Block 2) :
    socks5DecodeRequest.Parses ([5, cmd, resv] ++ bs ++ port.1) ⟨⟨addr, fromBe16 port⟩, cmd⟩ := by
  obtain ⟨addrType, bs, rfl⟩ : ∃ addrType bs', bs = addrType :: bs' := by
    cases h <;> exact ⟨_, _, rfl⟩
  rw [List.append_assoc]
  refine .take_bind ⟨[5], rfl⟩ ?_
  show (if (5 : UInt8) ≠ 5 then reject else _).Parses _ _
  rw [if_neg (by simp)]
  refine .take_bind ⟨[cmd], rfl⟩ (.take_bind ⟨[resv], rfl⟩ (.take_bind ⟨[addrType], rfl⟩ ?_))
  exact (parses_socks5DecodeTarget h port).bind_pure fun target ↦ (⟨target, cmd⟩ : Socks5Request)

/-- The request of a client. -/
theorem parses_socks5EncodeRequest {target : TargetId} (h : target.Short) (cmd : UInt8) :
    socks5DecodeRequest.Parses (socks5EncodeRequest ⟨target, cmd⟩) ⟨target, cmd⟩ := by
  obtain ⟨addr, haddr, hreq⟩ := socks5EncodeRequest_layout h cmd
  have hparse := parses_socks5DecodeRequest cmd 0 haddr (be16 target.port)
  rwa [fromBe16_be16, ← hreq] at hparse

theorem socks5DecodeRequest_eq_ok {x : Bytes} {n : ℕ} {req : Socks5Request}
    (h : socks5DecodeRequest x = .ok n req) :
    ∃ resv bs addr, ∃ port : Block 2, ∃ rest, x = [5, req.cmd, resv] ++ bs ++ port.1 ++ rest ∧
      Socks5Address bs addr ∧ req.target = ⟨addr, fromBe16 port⟩ := by
  obtain ⟨ver, _, _, rfl, h, -⟩ := take_bind_eq_ok.1 h
  split at h
  case isTrue => exact absurd h (by simp)
  case isFalse hvers =>
    obtain ⟨cmd, _, _, rfl, h, -⟩ := take_bind_eq_ok.1 h
    obtain ⟨resv, _, _, rfl, h, -⟩ := take_bind_eq_ok.1 h
    obtain ⟨addrType, _, _, rfl, h, -⟩ := take_bind_eq_ok.1 h
    obtain ⟨_, target, _, htarget, h, -⟩ := bind_eq_ok.1 h
    obtain ⟨-, rfl⟩ := Decode.ok.inj h
    obtain ⟨bs, addr, port, rest, rfl, haddr, rfl⟩ := socks5DecodeTarget_eq_ok htarget
    refine ⟨byteAt resv 0, byteAt addrType 0 :: bs, addr, port, rest, ?_, haddr, rfl⟩
    rw [eq_of_byteAt ver (not_not.1 hvers), eq_of_byteAt cmd rfl, eq_of_byteAt resv rfl,
      eq_of_byteAt addrType rfl]
    simp only [List.append_assoc, List.cons_append, List.nil_append]
    rfl

end Vmecs
