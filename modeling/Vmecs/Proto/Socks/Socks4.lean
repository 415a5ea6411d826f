import Vmecs.Lib.Incremental
import Vmecs.Proto.Common
import Vmecs.Pub.Serial

/-!
# SOCKS4 messages (`proto/socks/socks4.h`, `proto/socks/socks4.c`)

A request ends with a zero-terminated user name, which the decoder skips: it looks for the
terminator from the ninth byte on (`StreamDecoder.takeThrough`).
-/

namespace Vmecs

open StreamDecoder

/-- `SOCKS4_VERSION`. -/
def socks4Version : UInt8 := 4

/-- `SOCKS4_CMD_CONNECT`. -/
def socks4CmdConnect : UInt8 := 1

/-- `SOCKS4_REP_SUCCESS`. -/
def socks4RepSuccess : UInt8 := 90

/-- `socks4_request_t`. -/
structure Socks4Request where
  target : TargetId
  cmd : UInt8
  deriving DecidableEq

/-- `socks4_response_t`. -/
structure Socks4Response where
  rep : UInt8
  deriving DecidableEq

/-- `socks4_encode_request`; fails on the assertion that the target is an IPv4 address. -/
def socks4EncodeRequest (req : Socks4Request) : Option Bytes :=
  match req.target.addr with
  | .ipv4 addr =>
    some ([socks4Version, req.cmd] ++ (be16 req.target.port).1 ++ addr.1 ++ [0])
  | _ => none

/-- `socks4_encode_response`. -/
def socks4EncodeResponse (resp : Socks4Response) : Bytes := [0, resp.rep, 0, 0, 0, 0, 0, 0]

/-- `socks4_decode_request`: nine bytes at least, of which the last may be the terminator already.
The version is looked at only then. -/
def socks4DecodeRequest : StreamDecoder UInt8 Socks4Request := do
  let head ← take 9
  if byteAt head 0 ≠ socks4Version then reject
  else
    let port := fromBe16 (Block.sub head 2 2 (by omega))
    let req : Socks4Request :=
      ⟨targetIdNewIpv4 (Block.sub head 4 4 (by omega)) port, byteAt head 1⟩
    if byteAt head 8 = 0 then pure req
    else do
      let _userId ← takeThrough (· = 0)
      pure req

/-- `socks4_decode_response`. -/
def socks4DecodeResponse : StreamDecoder UInt8 Socks4Response := do
  let head ← take 8
  if byteAt head 0 ≠ 0 then reject else pure ⟨byteAt head 1⟩

theorem prompt_socks4DecodeRequest : socks4DecodeRequest.Prompt := by
  refine Incremental.prompt_bind_take (by omega) fun head ↦ ?_
  refine .ite .reject (.ite (.pure _) ?_)
  exact (Incremental.takeThrough _).bind fun _ ↦ .pure _

theorem prompt_socks4DecodeResponse : socks4DecodeResponse.Prompt :=
  Incremental.prompt_bind_take (by omega) fun _ ↦ .ite .reject (.pure _)

/-! ### The layout of a request -/

/-- A user name ends at its first zero byte. -/
theorem takeThrough_zero (userId : CString) (y : Bytes) :
    takeThrough (· = 0) (userId.1 ++ [0] ++ y) = .ok (userId.1.length + 1) (userId.1 ++ [0]) := by
  have hidx : (userId.1 ++ [0] ++ y).findIdx (· = 0) = userId.1.length := by
    have hid : userId.1.findIdx (· = 0) = userId.1.length := by
      rw [List.findIdx_eq_length]
      intro b hb
      simpa using fun h : b = 0 ↦ userId.2 (h ▸ hb)
    rw [List.append_assoc, List.findIdx_append, hid, if_neg (lt_irrefl _), List.singleton_append,
      List.findIdx_cons]
    simp
  rw [takeThrough, hidx, if_pos (by simp), List.take_left' (by simp)]

theorem takeThrough_zero_eq_ok {x used : Bytes} {n : ℕ}
    (h : takeThrough (· = 0) x = .ok n used) :
    ∃ userId : CString, ∃ rest, x = userId.1 ++ [0] ++ rest := by
  rw [takeThrough] at h
  split at h
  case isTrue hlt =>
    refine ⟨⟨x.take (x.findIdx (· = 0)), fun hmem ↦ ?_⟩, x.drop (x.findIdx (· = 0) + 1), ?_⟩
    · obtain ⟨i, hi, hget⟩ := List.getElem_of_mem hmem
      rw [List.length_take] at hi
      have hne := List.not_of_lt_findIdx (show i < x.findIdx (· = 0) by omega)
      rw [List.getElem_take] at hget
      simp [hget] at hne
    · have hzero : x[x.findIdx (· = 0)] = 0 := by
        simpa using List.findIdx_getElem (w := hlt)
      have hdrop := List.drop_eq_getElem_cons hlt
      rw [hzero] at hdrop
      rw [List.append_assoc, List.singleton_append, ← hdrop, List.take_append_drop]
  case isFalse => exact absurd h (by simp)

/-- A request is read. -/
theorem parses_socks4DecodeRequest (cmd : UInt8) (port : Block 2) (addr : Block 4)
    (userId : CString) :
    socks4DecodeRequest.Parses ([4, cmd] ++ port.1 ++ addr.1 ++ userId.1 ++ [0])
      ⟨⟨.ipv4 addr, fromBe16 port⟩, cmd⟩ := by
  obtain ⟨port, hport⟩ := port
  obtain ⟨addr, haddr⟩ := addr
  match port, hport, addr, haddr with
  | [p, q], _, [a, b, c, d], _ =>
    obtain ⟨userId, hzero⟩ := userId
    cases userId with
    | nil =>
      refine Parses.take_bind (m := []) ⟨[4, cmd, p, q, a, b, c, d, 0], rfl⟩ ?_
      exact .pure _
    | cons u userId =>
      have hu : u ≠ 0 := fun h ↦ hzero (h ▸ List.mem_cons_self)
      have hid : (0 : UInt8) ∉ userId := fun h ↦ hzero (List.mem_cons_of_mem _ h)
      refine .take_bind ⟨[4, cmd, p, q, a, b, c, d, u], rfl⟩ ?_
      show (if (4 : UInt8) ≠ 4 then reject else if u = 0 then _ else _).Parses _ _
      rw [if_neg (by simp), if_neg hu]
      have hname : (takeThrough (· = 0) : StreamDecoder UInt8 Bytes).Parses (userId ++ [0])
          (userId ++ [0]) := fun y ↦ by
        rw [takeThrough_zero ⟨userId, hid⟩ y]
        simp
      exact hname.bind_pure fun _ ↦ _

/-- The request of a client, whose user has no name. -/
theorem parses_socks4EncodeRequest (cmd : UInt8) (addr : Block 4) (port : UInt16) :
    socks4DecodeRequest.Parses ([socks4Version, cmd] ++ (be16 port).1 ++ addr.1 ++ [0])
      ⟨⟨.ipv4 addr, port⟩, cmd⟩ := by
  have hparse := parses_socks4DecodeRequest cmd (be16 port) addr ⟨[], List.not_mem_nil⟩
  rwa [fromBe16_be16, List.append_nil] at hparse

theorem socks4DecodeRequest_eq_ok {x : Bytes} {n : ℕ} {req : Socks4Request}
    (h : socks4DecodeRequest x = .ok n req) :
    ∃ port : Block 2, ∃ addr : Block 4, ∃ userId : CString, ∃ rest,
      x = [4, req.cmd] ++ port.1 ++ addr.1 ++ userId.1 ++ [0] ++ rest ∧
      req.target = ⟨.ipv4 addr, fromBe16 port⟩ := by
  obtain ⟨⟨head, hhead⟩, rest, _, rfl, h, -⟩ := take_bind_eq_ok.1 h
  match head, hhead with
  | [vers, cmd, p, q, a, b, c, d, u], _ =>
    split at h
    case isTrue => exact absurd h (by simp)
    case isFalse hvers =>
      obtain rfl : vers = 4 := not_not.1 hvers
      split at h
      case isTrue hu =>
        obtain rfl : u = 0 := hu
        obtain ⟨-, rfl⟩ := Decode.ok.inj h
        exact ⟨⟨[p, q], rfl⟩, ⟨[a, b, c, d], rfl⟩, ⟨[], List.not_mem_nil⟩, rest, rfl, rfl⟩
      case isFalse hu =>
        have hu' : (0 : UInt8) ≠ u := fun h ↦ hu h.symm
        obtain ⟨_, _, _, hname, h, -⟩ := bind_eq_ok.1 h
        obtain ⟨-, rfl⟩ := Decode.ok.inj h
        obtain ⟨⟨userId, hid⟩, rest, rfl⟩ := takeThrough_zero_eq_ok hname
        refine ⟨⟨[p, q], rfl⟩, ⟨[a, b, c, d], rfl⟩, ⟨u :: userId, ?_⟩, rest, rfl, rfl⟩
        rw [List.mem_cons, not_or]
        exact ⟨hu', hid⟩

end Vmecs
