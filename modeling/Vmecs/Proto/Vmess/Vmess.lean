import Vmecs.Crypto
import Vmecs.Proto.Common
import Vmecs.Pub.Serial

/-!
# VMess messages (`proto/vmess/vmess.h`, `proto/vmess/vmess.c`)

The configuration shared by client and server, what a connection derives from it (`VmessAuth`), and
the serializer that turns what is written to a connection into chunks.

A serializer holds a header not yet sent and a buffer of which the first `bufOfs` bytes have been
sent; that the offset lies inside the buffer is a field. `vmessSerialDigest` is the next piece to
send. With the cipher the code uses for every connection, a piece of the buffer is one chunk
(`vmessTrunk`) of at most `aes128CfbTrunk` bytes (`vmessSerialDigest_aes`).
-/

namespace Vmecs

/-! ### Configuration -/

/-- `VMESS_MAGIC_NO`. -/
def vmessMagicNo : Data128 :=
  ⟨[0xc4, 0x86, 0x19, 0xfe, 0x8f, 0x02, 0x49, 0xe0,
    0xb9, 0xe9, 0xed, 0xf7, 0x63, 0xe1, 0x7e, 0x21], rfl⟩

/-- `VMESS_TIME_DELTA`. -/
def vmessTimeDelta : UInt64 := 30

/-- `VMESS_P_MAX`. -/
def vmessPMax : ℕ := 16

/-- `vmess_config_t`. -/
structure VmessConfig where
  userId : Data128
  magicNo : Data128
  timeDelta : UInt64
  pMax : ℕ

/-- `vmess_config_new`. -/
def vmessConfigNew (userId : Data128) : VmessConfig where
  userId := userId
  magicNo := vmessMagicNo
  timeDelta := vmessTimeDelta
  pMax := vmessPMax

/-! ### What a connection derives from its configuration -/

/-- `vmess_auth_t`. -/
structure VmessAuth where
  key : Data128
  iv : Data128
  genTime : UInt64
  nonce : UInt8

/-- `vmess_gen_key`. -/
def vmessGenKey (C : Crypto) (config : VmessConfig) : Data128 :=
  C.md5 (config.userId.1 ++ config.magicNo.1)

/-- `vmess_gen_iv`. -/
def vmessGenIv (C : Crypto) (time : UInt64) : Data128 :=
  C.md5 ((be64 time).1 ++ (be64 time).1 ++ (be64 time).1 ++ (be64 time).1)

/-- `vmess_auth_init`. -/
def vmessAuthInit (C : Crypto) (config : VmessConfig) (genTime : UInt64) : VmessAuth where
  key := vmessGenKey C config
  iv := vmessGenIv C genTime
  genTime := genTime
  nonce := 0

/-- `vmess_auth_set_nonce`. -/
def vmessAuthSetNonce (auth : VmessAuth) (nonce : UInt8) : VmessAuth := { auth with nonce := nonce }

/-- `vmess_gen_validation_code`. -/
def vmessGenValidationCode (C : Crypto) (userId : Data128) (timestamp : UInt64) : Data128 :=
  C.hmacMd5 userId.1 (be64 timestamp).1

/-! ### Requests and responses -/

/-- `vmess_request_t`, with the widths of its bit-fields. -/
structure VmessRequest where
  target : TargetId
  vers : BitVec 2
  crypt : BitVec 4
  cmd : BitVec 2
  opt : UInt8
  deriving DecidableEq

/-- `vmess_response_t`. -/
structure VmessResponse where
  opt : UInt8
  deriving DecidableEq

/-- `VMESS_CRYPT_AES_128_CFB`. -/
def vmessCryptAes128Cfb : UInt8 := 0

/-- `VMESS_CRYPT_NONE`. -/
def vmessCryptNone : UInt8 := 1

/-- `VMESS_REQ_CMD_TCP`. -/
def vmessReqCmdTcp : BitVec 2 := 1

/-! ### The serializer -/

/-- `vmess_serial_t`. -/
structure VmessSerial where
  auth : VmessAuth
  header : Option Bytes
  buf : Option Bytes
  bufOfs : ℕ
  crypt : UInt8
  bufOfs_le : bufOfs ≤ (buf.getD []).length

/-- `vmess_serial_new`. -/
def vmessSerialNew (auth : VmessAuth) : VmessSerial where
  auth := auth
  header := none
  buf := none
  bufOfs := 0
  crypt := 0
  bufOfs_le := Nat.zero_le _

/-- `vmess_serial_write`. -/
def vmessSerialWrite (vser : VmessSerial) (data : Bytes) : VmessSerial :=
  { vser with
    buf := some (vser.buf.getD [] ++ data)
    bufOfs_le := by
      have := vser.bufOfs_le
      simp only [Option.getD_some, List.length_append]
      omega }

/-- `AES_128_CFB_TRUNK`: `((uint16_t)~0) - 1 - 4`. -/
def aes128CfbTrunk : ℕ := 65535 - 1 - 4

/-- `NO_ENC_TRUNK`: `((uint16_t)~0) - 1`. -/
def noEncTrunk : ℕ := 65535 - 1

/-- The bytes of a `uint16_t` stored as it is, on a little-endian host. -/
def hostU16 (n : UInt16) : Block 2 := ⟨[UInt8.ofNat n.toNat, UInt8.ofNat (n.toNat >>> 8)], rfl⟩

/-- The plaintext of a chunk: a checksum, and the data. -/
def vmessTrunkPlain (data : Bytes) : Bytes := (be32 (cryptoFnv1a data)).1 ++ data

/-- A chunk as the encrypting branch of `vmess_serial_digest` builds it. -/
def vmessTrunk (C : Crypto) (auth : VmessAuth) (data : Bytes) : Bytes :=
  (be16 (UInt16.ofNat (data.length + 4))).1 ++
    C.aes128CfbEnc auth.key auth.iv (vmessTrunkPlain data)

/-- A chunk as the branch without encryption builds it: the length is not in network order. -/
def noEncTrunkBytes (data : Bytes) : Bytes := (hostU16 (UInt16.ofNat (data.length + 4))).1 ++ data

/-- The buffer after `n` more bytes have been digested: freed when all of it has been. -/
def vmessSerialAdvance (vser : VmessSerial) (n : ℕ) : VmessSerial :=
  if h : vser.bufOfs + n < (vser.buf.getD []).length then
    { vser with bufOfs := vser.bufOfs + n, bufOfs_le := h.le }
  else { vser with buf := none, bufOfs := 0, bufOfs_le := Nat.zero_le _ }

/-- `vmess_serial_digest`: the next piece to send, `none` inside when there is none. Nothing at all
is the failure of one of its assertions: an unsupported encryption, or a cipher that does not keep
the length. -/
def vmessSerialDigest (C : Crypto) (vser : VmessSerial) : Option (Option Bytes × VmessSerial) :=
  match vser.header, vser.buf with
  | some header, _ => some (some header, { vser with header := none })
  | none, none => some (none, vser)
  | none, some buf =>
    let remain := buf.drop vser.bufOfs
    if vser.crypt = vmessCryptAes128Cfb then
      let data := remain.take aes128CfbTrunk
      let enc := C.aes128CfbEnc vser.auth.key vser.auth.iv (vmessTrunkPlain data)
      if enc.length = data.length + 4 then
        some (some (vmessTrunk C vser.auth data), vmessSerialAdvance vser data.length)
      else none
    else if vser.crypt = vmessCryptNone then
      let data := remain.take noEncTrunk
      some (some (noEncTrunkBytes data), vmessSerialAdvance vser data.length)
    else none

/-- `vmess_serial_end`. -/
def vmessSerialEnd : Bytes := [0, 0]

/-! ### The serializer of a connection -/

/-- The bytes written and not yet digested. -/
def VmessSerial.remain (vser : VmessSerial) : Bytes := (vser.buf.getD []).drop vser.bufOfs

@[simp] theorem auth_vmessSerialAdvance (vser : VmessSerial) (n : ℕ) :
    (vmessSerialAdvance vser n).auth = vser.auth := by
  unfold vmessSerialAdvance
  split <;> rfl

@[simp] theorem crypt_vmessSerialAdvance (vser : VmessSerial) (n : ℕ) :
    (vmessSerialAdvance vser n).crypt = vser.crypt := by
  unfold vmessSerialAdvance
  split <;> rfl

@[simp] theorem header_vmessSerialAdvance (vser : VmessSerial) (n : ℕ) :
    (vmessSerialAdvance vser n).header = vser.header := by
  unfold vmessSerialAdvance
  split <;> rfl

/-- Digesting takes bytes off the front of what remains. -/
theorem remain_vmessSerialAdvance (vser : VmessSerial) (n : ℕ) :
    (vmessSerialAdvance vser n).remain = vser.remain.drop n := by
  unfold vmessSerialAdvance VmessSerial.remain
  rw [List.drop_drop]
  split
  case isTrue => rfl
  case isFalse h => exact (List.drop_eq_nil_of_le (not_lt.1 h)).symm

/-- The buffer is freed with its last byte. -/
theorem buf_vmessSerialAdvance {vser : VmessSerial} {n : ℕ} (h : vser.remain.length ≤ n) :
    (vmessSerialAdvance vser n).buf = none := by
  have hlen : ¬vser.bufOfs + n < (vser.buf.getD []).length := by
    rw [VmessSerial.remain, List.length_drop] at h
    have := vser.bufOfs_le
    omega
  rw [vmessSerialAdvance, dif_neg hlen]

theorem remain_of_buf_eq_none {vser : VmessSerial} (h : vser.buf = none) : vser.remain = [] := by
  rw [VmessSerial.remain, h]
  exact List.drop_nil

/-- A write appends to what remains. -/
theorem remain_vmessSerialWrite (vser : VmessSerial) (data : Bytes) :
    (vmessSerialWrite vser data).remain = vser.remain ++ data := by
  rw [VmessSerial.remain, VmessSerial.remain, vmessSerialWrite, Option.getD_some,
    List.drop_append_of_le_length vser.bufOfs_le]

/-- The serializer of an established connection: the header is out, and chunks are encrypted. -/
structure VmessSerial.Established (vser : VmessSerial) (auth : VmessAuth) : Prop where
  auth_eq : vser.auth = auth
  header_eq : vser.header = none
  crypt_eq : vser.crypt = vmessCryptAes128Cfb

theorem established_vmessSerialAdvance {vser : VmessSerial} {auth : VmessAuth}
    (h : vser.Established auth) (n : ℕ) : (vmessSerialAdvance vser n).Established auth where
  auth_eq := (auth_vmessSerialAdvance vser n).trans h.auth_eq
  header_eq := (header_vmessSerialAdvance vser n).trans h.header_eq
  crypt_eq := (crypt_vmessSerialAdvance vser n).trans h.crypt_eq

theorem established_vmessSerialWrite {vser : VmessSerial} {auth : VmessAuth}
    (h : vser.Established auth) (data : Bytes) : (vmessSerialWrite vser data).Established auth :=
  ⟨h.auth_eq, h.header_eq, h.crypt_eq⟩

theorem length_vmessTrunkPlain (data : Bytes) :
    (vmessTrunkPlain data).length = data.length + 4 := by
  rw [vmessTrunkPlain, List.length_append, (be32 _).2]
  omega

/-- **The next piece of a connection** is a chunk of the first bytes that remain. -/
theorem vmessSerialDigest_aes {C : Crypto} (hC : CfbLaws C) {vser : VmessSerial} {auth : VmessAuth}
    (h : vser.Established auth) {buf : Bytes} (hbuf : vser.buf = some buf) :
    vmessSerialDigest C vser =
      some (some (vmessTrunk C auth (vser.remain.take aes128CfbTrunk)),
        vmessSerialAdvance vser (vser.remain.take aes128CfbTrunk).length) := by
  have hremain : vser.remain = buf.drop vser.bufOfs := by rw [VmessSerial.remain, hbuf]; rfl
  have henc : (C.aes128CfbEnc auth.key auth.iv
      (vmessTrunkPlain (vser.remain.take aes128CfbTrunk))).length =
        (vser.remain.take aes128CfbTrunk).length + 4 := by
    rw [hC.length_enc, length_vmessTrunkPlain]
  rw [hremain] at henc ⊢
  simp only [vmessSerialDigest, h.header_eq, hbuf, h.crypt_eq, h.auth_eq, if_true]
  rw [if_pos henc]

/-- With nothing in the buffer there is nothing to send. -/
theorem vmessSerialDigest_none (C : Crypto) {vser : VmessSerial} {auth : VmessAuth}
    (h : vser.Established auth) (hbuf : vser.buf = none) :
    vmessSerialDigest C vser = some (none, vser) := by
  simp only [vmessSerialDigest, h.header_eq, hbuf]

end Vmecs
