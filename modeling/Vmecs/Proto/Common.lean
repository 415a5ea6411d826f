import Vmecs.Pub.Socket
import Vmecs.Pub.Text

/-!
# Targets (`proto/common.h`, `proto/common.c`)

A target is an IPv4 address, an IPv6 address or a domain name, with a port. The address type tag and
the union of the source are one inductive type here, so a tag always matches its address.

A target is handed from one protocol to the next as two texts, which `targetIdNode` and
`targetIdPort` write and `targetIdParse` reads. A text does not say what kind of address it is for:
what comes back is the target that the text denotes (`TargetId.denoted`).
-/

namespace Vmecs

/-- `ADDR_TYPE_IPV4`. -/
def addrTypeIpv4 : UInt8 := 1

/-- `ADDR_TYPE_DOMAIN`. -/
def addrTypeDomain : UInt8 := 2

/-- `ADDR_TYPE_IPV6`. -/
def addrTypeIpv6 : UInt8 := 3

/-- The address of a target. -/
inductive TargetAddr where
  | ipv4 (addr : Block 4)
  | domain (name : CString)
  | ipv6 (addr : Block 16)
  deriving DecidableEq

/-- `target_id_t`; the port is in local byte order. -/
structure TargetId where
  addr : TargetAddr
  port : UInt16
  deriving DecidableEq

/-- The field `addr_type`. -/
def TargetAddr.addrType : TargetAddr → UInt8
  | .ipv4 _ => addrTypeIpv4
  | .domain _ => addrTypeDomain
  | .ipv6 _ => addrTypeIpv6

/-- `target_id_new_ipv4`. -/
def targetIdNewIpv4 (addr : Block 4) (port : UInt16) : TargetId := ⟨.ipv4 addr, port⟩

/-- `target_id_new_ipv6`. -/
def targetIdNewIpv6 (addr : Block 16) (port : UInt16) : TargetId := ⟨.ipv6 addr, port⟩

/-- `target_id_new_domain`, of a zero-terminated buffer: the `strdup` stops at the first zero, and
the port, a `uint64_t` here, is cut to 16 bits by `_target_id_new`. -/
def targetIdNewDomain (domain : Bytes) (port : UInt64) : TargetId :=
  ⟨.domain (cstr domain), port.toUInt16⟩

/-- `target_id_resolve`. A domain name goes to `socket_getsockaddr` together with the text of the
port; its answer, from the resolver of the C library, is the parameter `getsockaddr`. -/
def targetIdResolve (getsockaddr : CString → UInt16 → Option SockAddr) (target : TargetId) :
    Option SockAddr :=
  match target.addr with
  | .ipv4 addr => some (socketSockaddrIpv4 addr target.port)
  | .domain name => getsockaddr name target.port
  | .ipv6 addr => some (socketSockaddrIpv6 addr target.port)

/-! ### Targets as text -/

/-- `TARGET_ID_MAX_DOMAIN`. -/
def targetIdMaxDomain : ℕ := 256

/-- `TARGET_ID_MAX_PORT`. -/
def targetIdMaxPort : ℕ := 8

/-- `target_id_node`; the failures are those of its assertions, and writes that do not fit. -/
def targetIdNode (I : Inet) (target : TargetId) {n : ℕ} (buf : Block n) : Option (Block n) :=
  match target.addr with
  | .domain name => strncpy buf name targetIdMaxDomain
  | .ipv4 addr => inetNtop buf (I.ntop4 addr) targetIdMaxDomain
  | .ipv6 addr => inetNtop buf (I.ntop6 addr) targetIdMaxDomain

/-- `target_id_port`. -/
def targetIdPort (target : TargetId) {n : ℕ} (buf : Block n) : Option (Block n) :=
  buf.write (sprintfD target.port.toNat ++ [0])

/-- What `print_target` prints of the address; nothing if the text does not end in the buffer. -/
def printTargetText (I : Inet) (target : TargetId) (buf : Block (targetIdMaxDomain + 1)) :
    Option CString := do
  let buf ← targetIdNode I target buf
  buf.string

/-- `target_id_parse`. The test of `sscanf` is for 0, so a text without a number is refused and one
with nothing but white space is not; then the port is what the variable happens to hold, `unset`.
The port, an `int`, is cut to 16 bits by the constructors. -/
def targetIdParse (I : Inet) (unset : ℤ) (node service : CString) : Option TargetId :=
  let withPort (port : ℤ) : TargetId :=
    match I.pton4 node, I.pton6 node with
    | some ipv4, _ => targetIdNewIpv4 ipv4 (UInt16.ofInt port)
    | none, some ipv6 => targetIdNewIpv6 ipv6 (UInt16.ofInt port)
    | none, none => targetIdNewDomain node.1 (UInt64.ofInt port)
  match sscanfD service with
  | .mismatch => none
  | .stored port => some (withPort port)
  | .eof | .overflow => some (withPort unset)

/-- The address that a text denotes: a name that is not the text of an address denotes itself. -/
def TargetAddr.ofText (I : Inet) (node : CString) : TargetAddr :=
  match I.pton4 node, I.pton6 node with
  | some addr, _ => ipv4 addr
  | none, some addr => ipv6 addr
  | none, none => domain node

/-- The target that the texts of a target denote: its address, unless that is a domain name; a name
that is the text of an address becomes this address. -/
def TargetId.denoted (I : Inet) (target : TargetId) : TargetId :=
  match target.addr with
  | .domain name => ⟨.ofText I name, target.port⟩
  | _ => target

/-- A target that fits the length byte of the wire formats: a domain name has at most 255 bytes. -/
def TargetId.Short (target : TargetId) : Prop :=
  match target.addr with
  | .domain name => name.1.length ≤ 255
  | _ => True

theorem TargetId.Short.denoted {target : TargetId} (h : target.Short) (I : Inet) :
    (target.denoted I).Short := by
  obtain ⟨addr, port⟩ := target
  cases addr with
  | ipv4 addr => trivial
  | ipv6 addr => trivial
  | domain name =>
    show TargetId.Short ⟨.ofText I name, port⟩
    rw [TargetAddr.ofText]
    split
    · trivial
    · trivial
    · exact h

/-- The text of the address, in a buffer that is large enough. -/
theorem string_targetIdNode {I : Inet} (hI : InetLaws I) {target : TargetId}
    (h : target.Short) {n : ℕ} (buf : Block n) (hn : targetIdMaxDomain ≤ n) :
    ∃ buf' node, targetIdNode I target buf = some buf' ∧ buf'.string = some node ∧
      ⟨.ofText I node, target.port⟩ = target.denoted I := by
  obtain ⟨addr, port⟩ := target
  cases addr with
  | ipv4 addr =>
    have hlen : (I.ntop4 addr).1.length < targetIdMaxDomain :=
      (hI.length_ntop4 addr).trans (by decide)
    obtain ⟨buf', hbuf, hstring⟩ := string_inetNtop buf hlen hn
    refine ⟨buf', _, hbuf, hstring, ?_⟩
    rw [TargetAddr.ofText, hI.pton4_ntop4]
    rfl
  | ipv6 addr =>
    have hlen : (I.ntop6 addr).1.length < targetIdMaxDomain :=
      (hI.length_ntop6 addr).trans (by decide)
    obtain ⟨buf', hbuf, hstring⟩ := string_inetNtop buf hlen hn
    refine ⟨buf', _, hbuf, hstring, ?_⟩
    rw [TargetAddr.ofText, hI.pton4_ntop6, hI.pton6_ntop6]
    rfl
  | domain name =>
    have hlen : name.1.length < targetIdMaxDomain := Nat.lt_succ_of_le h
    obtain ⟨buf', hbuf, hstring⟩ := string_strncpy buf hlen hn
    exact ⟨buf', _, hbuf, hstring, rfl⟩

/-- A target that fits is printed. -/
theorem exists_printTargetText {I : Inet} (hI : InetLaws I) {target : TargetId} (h : target.Short)
    (buf : Block (targetIdMaxDomain + 1)) : ∃ node, printTargetText I target buf = some node := by
  obtain ⟨buf', node, hbuf, hnode, -⟩ := string_targetIdNode hI h buf (Nat.le_succ _)
  exact ⟨node, by rw [printTargetText, hbuf, Option.bind_eq_bind, Option.bind_some, hnode]⟩

/-- The text of the port, in a buffer that is large enough. -/
theorem string_targetIdPort (target : TargetId) {n : ℕ} (buf : Block n) (hn : targetIdMaxPort ≤ n) :
    ∃ buf', targetIdPort target buf = some buf' ∧
      buf'.string = some ⟨sprintfD target.port.toNat, zero_notMem_sprintfD _⟩ := by
  refine string_write (s := ⟨sprintfD target.port.toNat, zero_notMem_sprintfD _⟩) rfl ?_
  have hlen := length_sprintfD_le target.port
  rw [targetIdMaxPort] at hn
  rw [List.length_append, List.length_singleton]
  omega

theorem ofInt_toNat_uint16 (n : UInt16) : UInt16.ofInt n.toNat = n := by
  have hn := n.toNat_lt
  apply UInt16.toNat_inj.1
  rw [UInt16.ofInt, UInt16.toNat_ofNat']
  omega

theorem toUInt16_ofInt_toNat (n : UInt16) : (UInt64.ofInt n.toNat).toUInt16 = n := by
  have hn := n.toNat_lt
  apply UInt16.toNat_inj.1
  rw [UInt64.ofInt, UInt64.toNat_toUInt16, UInt64.toNat_ofNat']
  omega

/-- A port that was scanned is the port of the target. -/
theorem targetIdParse_of_stored (I : Inet) (unset : ℤ) (node : CString) {service : CString}
    {port : UInt16} (h : sscanfD service = .stored port.toNat) :
    targetIdParse I unset node service = some ⟨.ofText I node, port⟩ := by
  rw [targetIdParse, h, TargetAddr.ofText]
  dsimp only
  congr 1
  split
  · rw [targetIdNewIpv4, ofInt_toNat_uint16]
  · rw [targetIdNewIpv6, ofInt_toNat_uint16]
  · rw [targetIdNewDomain, toUInt16_ofInt_toNat, cstr_val]

/-- A port that was printed is parsed. -/
theorem targetIdParse_sprintfD (I : Inet) (unset : ℤ) (node : CString) (port : UInt16) :
    targetIdParse I unset node ⟨sprintfD port.toNat, zero_notMem_sprintfD _⟩ =
      some ⟨.ofText I node, port⟩ :=
  targetIdParse_of_stored I unset node (sscanfD_sprintfD (port.toNat_lt.trans (by decide)))

end Vmecs
