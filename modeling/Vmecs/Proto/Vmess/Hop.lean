import Vmecs.Proto.Socks.Socks5
import Vmecs.Proto.Vmess.HeaderRoundTrip
import Vmecs.Proto.Vmess.Tcp

/-!
# A hop from SOCKS5 to VMess

The relay takes the target of a SOCKS5 request, hands it to a VMess socket as two texts, and the
socket parses the texts and puts the target into its request header, where the types of addresses
have other numbers. What arrives is what the target denotes: the target itself, unless its domain
name is the text of an address.

* `connectTarget_vmess` — the handshake of a VMess socket that is connected to a target;
* `target_survives_hop` — from the bytes of the SOCKS5 request to what the VMess server reads.
-/

namespace Vmecs

/-- A target is denoted by its own texts, unless it is a domain name that is the text of an
address. -/
theorem denoted_eq_self {I : Inet} {target : TargetId}
    (h : ∀ name, target.addr = .domain name → I.pton4 name = none ∧ I.pton6 name = none) :
    target.denoted I = target := by
  obtain ⟨addr, port⟩ := target
  cases addr with
  | ipv4 addr => rfl
  | ipv6 addr => rfl
  | domain name =>
    obtain ⟨h4, h6⟩ := h name rfl
    show (⟨.ofText I name, port⟩ : TargetId) = _
    rw [TargetAddr.ofText, h4, h6]

/-- The text of an IPv4 address denotes this address. -/
theorem denoted_of_pton4 {I : Inet} {name : CString} {ipv4 : Block 4}
    (h : I.pton4 name = some ipv4) (port : UInt16) :
    TargetId.denoted I ⟨.domain name, port⟩ = ⟨.ipv4 ipv4, port⟩ := by
  show (⟨.ofText I name, port⟩ : TargetId) = _
  rw [TargetAddr.ofText, h]

/-- The text of an IPv6 address denotes this address. -/
theorem denoted_of_pton6 {I : Inet} {name : CString} {ipv6 : Block 16} (h4 : I.pton4 name = none)
    (h6 : I.pton6 name = some ipv6) (port : UInt16) :
    TargetId.denoted I ⟨.domain name, port⟩ = ⟨.ipv6 ipv6, port⟩ := by
  show (⟨.ofText I name, port⟩ : TargetId) = _
  rw [TargetAddr.ofText, h4, h6]

/-- **A connection to a target**: the handshake is for what the target denotes. -/
theorem connectTarget_vmess {I : Inet} (hI : InetLaws I) {target proxy : TargetId}
    (h : target.Short) (nodeBuf : Block (targetIdMaxDomain + 1))
    (servBuf : Block (targetIdMaxPort + 1)) (C : Crypto) (unset : ℤ) (rand : ℕ → Rand)
    {getsockaddr : CString → UInt16 → Option SockAddr} {socketConnect : SockAddr → Bool}
    {addr : SockAddr} {sock : VmessTcpSocket} (clock : ℕ → Clock sock.config)
    (hproxy : sock.addr = some proxy) (haddr : targetIdResolve getsockaddr proxy = some addr)
    (hconnect : socketConnect addr = true) :
    tcpSocketConnectTarget I
        (vmessTcpSocketConnect C I unset rand getsockaddr socketConnect sock clock)
        target nodeBuf servBuf =
      some (vmessTcpSocketHandshakeC C rand sock clock (some (target.denoted I))) := by
  obtain ⟨node, port, hparse, hcall⟩ := tcpSocketConnectTarget_eq hI h nodeBuf servBuf
  rw [hcall]
  simp only [vmessTcpSocketConnect, hproxy, haddr, hconnect, if_true, hparse]

/-- **The destination survives the hop.** The target of an accepted SOCKS5 request is handed on as
what it denotes, and a VMess server that accepts a header made for that finds that in it. -/
theorem target_survives_hop {C : Crypto} (hC : CfbLaws C) {I : Inet} (hI : InetLaws I)
    {x : Bytes} {n : ℕ} {req : Socks5Request} (hreq : socks5DecodeRequest x = .ok n req)
    (nodeBuf : Block (targetIdMaxDomain + 1)) (servBuf : Block (targetIdMaxPort + 1)) :
    (∀ unset, tcpSocketConnectTarget I (targetIdParse I unset) req.target nodeBuf servBuf =
      some (some (req.target.denoted I))) ∧
    ∀ (userId : Data128) (rand : ℕ → Rand) (clock : Clock (vmessConfigNew userId))
      (genTime : UInt64) (nonce : UInt8) (vreq : VmessRequest) (header y : Bytes) (k : ℕ)
      (r : VmessRequest × VmessAuth),
      vreq.target = req.target.denoted I → clock.Near genTime → clock.FirstWithCode C genTime →
      requestHeader C rand (vmessConfigNew userId)
        (vmessAuthSetNonce (vmessAuthInit C (vmessConfigNew userId) genTime) nonce) vreq =
          some header →
      vmessDecodeRequest C (vmessConfigNew userId) clock (header ++ y) = .ok k r →
      r.1.target = req.target.denoted I := by
  obtain ⟨_, _, addr, port, _, -, haddr, htarget⟩ := socks5DecodeRequest_eq_ok hreq
  have hshort : req.target.Short := htarget ▸ haddr.short _
  constructor
  · intro unset
    obtain ⟨node, port, hparse, hcall⟩ := tcpSocketConnectTarget_eq hI hshort nodeBuf servBuf
    rw [hcall, hparse]
  · intro userId rand clock genTime nonce vreq header y k r hvreq hnear hfirst hheader hok
    have hvshort : vreq.target.Short := hvreq ▸ hshort.denoted I
    rw [vmessDecodeRequest_header_eq_ok hC hvshort hnear hfirst hheader hok, hvreq]

/-! ### At one input -/

/-- The texts of addresses, for the example: two letters for each byte. No name of three letters is
the text of an address. -/
def sampleText (bs : Bytes) : CString :=
  ⟨bs.flatMap fun b ↦ [b / 16 + 65, b % 16 + 65], by
    rw [List.mem_flatMap]
    rintro ⟨b, -, hb⟩
    have hlt := b.toNat_lt
    simp only [List.mem_cons, List.not_mem_nil, or_false, ← UInt8.toNat_inj, UInt8.toNat_add,
      UInt8.toNat_div, UInt8.toNat_mod] at hb
    simp at hb
    omega⟩

/-- The bytes of such a text. -/
def sampleParse : Bytes → Bytes
  | b₁ :: b₂ :: bs => ((b₁ - 65) * 16 + (b₂ - 65)) :: sampleParse bs
  | _ => []

theorem length_sampleText (bs : Bytes) : (sampleText bs).1.length = 2 * bs.length := by
  simp [sampleText, List.length_flatMap, Nat.mul_comm]

theorem sampleParse_sampleText (bs : Bytes) : sampleParse (sampleText bs).1 = bs := by
  have hbyte : ∀ b : UInt8, (b / 16 + 65 - 65) * 16 + (b % 16 + 65 - 65) = b := fun b ↦ by
    have hlt := b.toNat_lt
    apply UInt8.toNat_inj.1
    simp
    omega
  induction bs with
  | nil => rfl
  | cons b bs ih => exact congrArg₂ List.cons (hbyte b) ih

/-- The address of `n` bytes that a text of length `2 * n` stands for. -/
def samplePton (n : ℕ) (s : CString) : Option (Block n) :=
  if h : (sampleParse s.1).length = n ∧ s.1.length = 2 * n then some ⟨_, h.1⟩ else none

def sampleInet : Inet where
  ntop4 addr := sampleText addr.1
  ntop6 addr := sampleText addr.1
  pton4 := samplePton 4
  pton6 := samplePton 16

theorem samplePton_of_length {n : ℕ} {s : CString} (h : s.1.length ≠ 2 * n) :
    samplePton n s = none :=
  dif_neg fun hs ↦ h hs.2

theorem samplePton_sampleText {n : ℕ} (addr : Block n) :
    samplePton n (sampleText addr.1) = some addr := by
  have h : (sampleParse (sampleText addr.1).1).length = n ∧
      (sampleText addr.1).1.length = 2 * n := by
    rw [sampleParse_sampleText, length_sampleText, addr.2]
    exact ⟨rfl, rfl⟩
  rw [samplePton, dif_pos h, Option.some_inj]
  exact Subtype.ext (sampleParse_sampleText addr.1)

theorem inetLaws_sampleInet : InetLaws sampleInet where
  pton4_ntop4 := samplePton_sampleText
  pton6_ntop6 := samplePton_sampleText
  pton4_ntop6 addr := samplePton_of_length <| by
    rw [sampleInet, length_sampleText, addr.2]
    decide
  length_ntop4 addr := by
    rw [sampleInet, length_sampleText, addr.2]
    decide
  length_ntop6 addr := by
    rw [sampleInet, length_sampleText, addr.2]
    decide

/-- A domain name, at port 443. -/
def sampleDomain : TargetId := ⟨.domain ⟨[0x67, 0x6f], by decide⟩, 443⟩

/-- The name crosses the hop, and the header made for it is accepted. -/
theorem target_survives_hop_sampleDomain :
    tcpSocketConnectTarget sampleInet (targetIdParse sampleInet 0) sampleDomain
        ⟨List.replicate 257 0, List.length_replicate⟩ ⟨List.replicate 9 0, rfl⟩ =
      some (some sampleDomain) ∧
      ∃ header k r,
        requestHeader openssl (fun _ ↦ 0) (vmessConfigNew sampleUserId)
          (vmessAuthSetNonce (vmessAuthInit openssl (vmessConfigNew sampleUserId) 1600000000) 5)
          (vmessClientRequest sampleDomain) = some header ∧
        vmessDecodeRequest openssl (vmessConfigNew sampleUserId) sampleClock (header ++ []) =
          .ok k r ∧
        r.1.target = sampleDomain := by
  have hreq : socks5DecodeRequest [5, 1, 0, 3, 2, 0x67, 0x6f, 1, 187] = .ok 9 ⟨sampleDomain, 1⟩ :=
    parses_socks5DecodeRequest 1 0 (.domain ⟨[0x67, 0x6f], rfl⟩) ⟨[1, 187], rfl⟩ []
  have hhop := target_survives_hop cfbLaws_openssl inetLaws_sampleInet hreq
    ⟨List.replicate 257 0, List.length_replicate⟩ ⟨List.replicate 9 0, rfl⟩
  have hdenoted : sampleDomain.denoted sampleInet = sampleDomain := denoted_eq_self fun name h ↦ by
    obtain rfl := TargetAddr.domain.inj h
    dsimp only [sampleInet]
    exact ⟨samplePton_of_length (by decide), samplePton_of_length (by decide)⟩
  dsimp only at hhop
  rw [hdenoted] at hhop
  have hround : HeaderRoundTrips openssl (fun _ ↦ 0) (vmessConfigNew sampleUserId) sampleClock
      (vmessAuthSetNonce (vmessAuthInit openssl (vmessConfigNew sampleUserId) 1600000000) 5)
      (vmessClientRequest sampleDomain) :=
    headerRoundTrips_of_le cfbLaws_openssl _ 5 rfl (show 2 ≤ 255 by decide) (by decide)
      near_sampleClock (firstWithCode_sampleClock openssl) (by decide)
  obtain ⟨header, hheader, hparse⟩ := hround
  refine ⟨hhop.1 0, header, _, _, hheader, hparse [], ?_⟩
  exact hhop.2 sampleUserId (fun _ ↦ 0) sampleClock 1600000000 5 (vmessClientRequest sampleDomain)
    header [] _ _ rfl near_sampleClock (firstWithCode_sampleClock openssl) hheader (hparse [])

end Vmecs
