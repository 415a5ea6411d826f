import Vmecs.Proto.Vmess.Vmess
import Vmecs.Pub.Random

/-!
# VMess headers, writing (`proto/vmess/request.c`, `proto/vmess/response.c`)

A request header is a validation code, from which the server finds out when it was made, and an
encrypted command. `vmessSerialRequest` builds it in a serial buffer as the source does; what is in
the buffer at the end is the plain list of fields of `vmessCmdPlain` (`vmessSerialRequest_header`).
The results of `rand()` are the sequence `rand`: the first decides the number of padding bytes, the
others are the padding.

A response header is four encrypted bytes.
-/

namespace Vmecs

/-- The address part of the header. -/
def serialWriteTarget (ser : Serial) : TargetAddr → Serial
  | .ipv4 addr => serialWrite ser addr.1
  | .domain name =>
    -- the length is cut to a byte, and that many bytes are written
    let domainLen := UInt8.ofNat name.1.length
    serialWrite (serialWriteU8 ser domainLen) (name.1.take domainLen.toNat)
  | .ipv6 addr => serialWrite ser addr.1

/-- `for (i = 0; i < p; i++) serial_write_u8(&ser, random_in(0, 0xff))`. -/
def serialWritePadding (ser : Serial) (rand : ℕ → Rand) : ℕ → Serial
  | 0 => ser
  | p + 1 =>
    serialWriteU8 (serialWritePadding ser rand p) (UInt8.ofNat (randomIn 0 0xff (rand (p + 1))))

/-- The bytes of the header before the checksum, in a serial buffer. -/
def serialRequestFields (C : Crypto) (rand : ℕ → Rand) (auth : VmessAuth) (config : VmessConfig)
    (req : VmessRequest) : Serial :=
  let p := randomIn 0 config.pMax (rand 0)
  let ser := serialInit []
  let ser := serialWrite ser (vmessGenValidationCode C config.userId auth.genTime).1
  let ser := serialWriteU8 ser (UInt8.ofNat req.vers.toNat)
  let ser := serialWrite ser auth.iv.1
  let ser := serialWrite ser auth.key.1
  let ser := serialWriteU8 ser auth.nonce
  let ser := serialWriteU8 ser req.opt
  let ser := serialWriteU8 ser (UInt8.ofNat (p <<< 4 ||| req.crypt.toNat))
  let ser := serialWriteU8 ser 0
  let ser := serialWriteU8 ser (UInt8.ofNat req.cmd.toNat)
  let ser := serialWriteU16 ser (be16 req.target.port)
  let ser := serialWriteU8 ser req.target.addr.addrType
  let ser := serialWriteTarget ser req.target.addr
  serialWritePadding ser rand p

/-- `vmess_serial_request`; fails on the assertion about the options. The address types are those
of `TargetAddr`, so the other assertion, about them, cannot fail. -/
def vmessSerialRequest (C : Crypto) (rand : ℕ → Rand) (vser : VmessSerial) (config : VmessConfig)
    (req : VmessRequest) : Option VmessSerial :=
  if req.opt = 1 then
    let ser := serialRequestFields C rand vser.auth config req
    let checksum := be32 (cryptoFnv1a (ser.contents.drop 16))
    let ser := serialWriteU32 ser checksum
    let encCmd := C.aes128CfbEnc vser.auth.key vser.auth.iv (ser.contents.drop 16)
    some { vser with
      header := some (memcpyAt ser.contents 16 encCmd)
      crypt := UInt8.ofNat req.crypt.toNat }
  else none

/-- `vmess_serial_response`; fails on the assertion about the options. -/
def vmessSerialResponse (C : Crypto) (vser : VmessSerial) (resp : VmessResponse) :
    Option VmessSerial :=
  if resp.opt = 1 then
    some { vser with
      header := some (C.aes128CfbEnc vser.auth.key vser.auth.iv
        [vser.auth.nonce, resp.opt, 0, 0])
      crypt := vmessCryptAes128Cfb }
  else none

/-! ### The layout -/

/-- The address part of the header, as bytes. -/
def TargetAddr.wire : TargetAddr → Bytes
  | .ipv4 addr => addr.1
  | .domain name =>
    UInt8.ofNat name.1.length :: name.1.take (UInt8.ofNat name.1.length).toNat
  | .ipv6 addr => addr.1

/-- The padding, as bytes. -/
def paddingBytes (rand : ℕ → Rand) (p : ℕ) : Bytes :=
  (List.range p).map fun i ↦ UInt8.ofNat (randomIn 0 0xff (rand (i + 1)))

theorem length_paddingBytes (rand : ℕ → Rand) (p : ℕ) : (paddingBytes rand p).length = p := by
  simp [paddingBytes]

/-- The command before its padding, when `p` padding bytes have been drawn. -/
def vmessCmdHead (p : ℕ) (auth : VmessAuth) (req : VmessRequest) : Bytes :=
  [UInt8.ofNat req.vers.toNat] ++ auth.iv.1 ++ auth.key.1 ++
    [auth.nonce, req.opt, UInt8.ofNat (p <<< 4 ||| req.crypt.toNat), 0,
      UInt8.ofNat req.cmd.toNat] ++ (be16 req.target.port).1 ++
    [req.target.addr.addrType] ++ req.target.addr.wire

/-- The command before its checksum. -/
def vmessCmdPlain (rand : ℕ → Rand) (p : ℕ) (auth : VmessAuth) (req : VmessRequest) : Bytes :=
  vmessCmdHead p auth req ++ paddingBytes rand p

/-- The command with its checksum. -/
def withChecksum (cmd : Bytes) : Bytes := cmd ++ (be32 (cryptoFnv1a cmd)).1

theorem holds_serialWriteTarget {ser : Serial} {bs : Bytes} (h : ser.Holds bs)
    (addr : TargetAddr) : (serialWriteTarget ser addr).Holds (bs ++ addr.wire) := by
  cases addr with
  | ipv4 addr => exact h.write addr.1
  | domain name =>
    have hname := (h.write [UInt8.ofNat name.1.length]).write
      (name.1.take (UInt8.ofNat name.1.length).toNat)
    rwa [List.append_assoc] at hname
  | ipv6 addr => exact h.write addr.1

theorem holds_serialWritePadding {ser : Serial} {bs : Bytes} (h : ser.Holds bs) (rand : ℕ → Rand)
    (p : ℕ) : (serialWritePadding ser rand p).Holds (bs ++ paddingBytes rand p) := by
  induction p with
  | zero => simpa [serialWritePadding, paddingBytes] using h
  | succ p ih =>
    have hbyte := ih.write [UInt8.ofNat (randomIn 0 0xff (rand (p + 1)))]
    rw [List.append_assoc] at hbyte
    rwa [paddingBytes, List.range_succ, List.map_append]

/-- The buffer before the checksum: the validation code, and the fields of the command. -/
theorem holds_serialRequestFields (C : Crypto) (rand : ℕ → Rand) (auth : VmessAuth)
    (config : VmessConfig) (req : VmessRequest) :
    (serialRequestFields C rand auth config req).Holds
      ((vmessGenValidationCode C config.userId auth.genTime).1 ++
        vmessCmdPlain rand (randomIn 0 config.pMax (rand 0)) auth req) := by
  -- one step for each field, in the order of the writes
  have h₁ := holds_serialInit.write (vmessGenValidationCode C config.userId auth.genTime).1
  have h₂ := ((h₁.write [UInt8.ofNat req.vers.toNat]).write auth.iv.1).write auth.key.1
  have h₃ := (((h₂.write [auth.nonce]).write [req.opt]).write
    [UInt8.ofNat (randomIn 0 config.pMax (rand 0) <<< 4 ||| req.crypt.toNat)]).write [0]
  have h₄ := ((h₃.write [UInt8.ofNat req.cmd.toNat]).write (be16 req.target.port).1).write
    [req.target.addr.addrType]
  have h₅ := holds_serialWritePadding (holds_serialWriteTarget h₄ req.target.addr) rand
    (randomIn 0 config.pMax (rand 0))
  rw [vmessCmdPlain, vmessCmdHead]
  simp only [List.nil_append, List.append_assoc, List.cons_append] at h₅ ⊢
  exact h₅

/-- **What is sent as a request**: the validation code, and the command with its checksum,
encrypted. -/
theorem vmessSerialRequest_header {C : Crypto} (hC : CfbLaws C) (rand : ℕ → Rand)
    (vser : VmessSerial) (config : VmessConfig) {req : VmessRequest} (hopt : req.opt = 1) :
    vmessSerialRequest C rand vser config req = some { vser with
      header := some ((vmessGenValidationCode C config.userId vser.auth.genTime).1 ++
        C.aes128CfbEnc vser.auth.key vser.auth.iv
          (withChecksum (vmessCmdPlain rand (randomIn 0 config.pMax (rand 0)) vser.auth req)))
      crypt := UInt8.ofNat req.crypt.toNat } := by
  obtain ⟨happ, hcont⟩ := holds_serialRequestFields C rand vser.auth config req
  have hcode := (vmessGenValidationCode C config.userId vser.auth.genTime).2
  rw [vmessSerialRequest, if_pos hopt]
  simp only [serialWriteU32, contents_serialWrite happ, hcont, List.append_assoc,
    List.drop_left' hcode, memcpyAt, List.take_left' hcode]
  rw [List.drop_eq_nil_of_le, List.append_nil]
  · rfl
  · rw [hC.length_enc, List.length_append, hcode]

end Vmecs
