import Vmecs.Proto.Relay.Job
import Vmecs.Proto.Relay.Outbound
import Vmecs.Toml.Load

/-!
# The program (`app/vmecs/main.c`)

The configuration is a document with two tables, `inbound` and `outbound`. Each has a protocol, and
the builder of that protocol, which `proto_map` has by its name, looks up what it needs. A builder
says on the standard error what it has not found, and returns nothing; when both have returned
something, the relay runs.

What is said is kept as it is said (`Report`): the format, and the text that stands for its `%s`.
-/

namespace Vmecs

/-! ### What is said -/

/-- A call of `fprintf` to the standard error, or of `perror`. -/
inductive Report where
  | text (format : String)
  /-- with a string of the configuration -/
  | string (format : String) (arg : CString)
  /-- with the message of a `toml_err_t` -/
  | message (format : String) (msg : String)
  | perror (s : String)
  deriving DecidableEq

/-- A function that returns something, or `NULL` when it has said why; nothing at all is a failed
assertion, or an access through `NULL`. -/
abbrev Builder (α : Type) := ExceptT Report Option α

/-! ### Names -/

/-- `"inbound"`. -/
def textInbound : CString := ⟨[0x69, 0x6e, 0x62, 0x6f, 0x75, 0x6e, 0x64], by decide⟩

/-- `"outbound"`. -/
def textOutbound : CString := ⟨[0x6f, 0x75, 0x74, 0x62, 0x6f, 0x75, 0x6e, 0x64], by decide⟩

/-- `"proto"`. -/
def textProto : CString := ⟨[0x70, 0x72, 0x6f, 0x74, 0x6f], by decide⟩

/-- `"local"`. -/
def textLocal : CString := ⟨[0x6c, 0x6f, 0x63, 0x61, 0x6c], by decide⟩

/-- `"proxy"`. -/
def textProxy : CString := ⟨[0x70, 0x72, 0x6f, 0x78, 0x79], by decide⟩

/-- `"port"`. -/
def textPort : CString := ⟨[0x70, 0x6f, 0x72, 0x74], by decide⟩

/-- `"pass"`. -/
def textPass : CString := ⟨[0x70, 0x61, 0x73, 0x73], by decide⟩

/-- `"vmess"`. -/
def textVmess : CString := ⟨[0x76, 0x6d, 0x65, 0x73, 0x73], by decide⟩

/-- `"socks"`. -/
def textSocks : CString := ⟨[0x73, 0x6f, 0x63, 0x6b, 0x73], by decide⟩

/-- `"socks4"`. -/
def textSocks4 : CString := ⟨[0x73, 0x6f, 0x63, 0x6b, 0x73, 0x34], by decide⟩

/-- `"socks5"`. -/
def textSocks5 : CString := ⟨[0x73, 0x6f, 0x63, 0x6b, 0x73, 0x35], by decide⟩

/-- `"dokodemo"`. -/
def textDokodemo : CString := ⟨[0x64, 0x6f, 0x6b, 0x6f, 0x64, 0x65, 0x6d, 0x6f], by decide⟩

/-- `"native"`. -/
def textNative : CString := ⟨[0x6e, 0x61, 0x74, 0x69, 0x76, 0x65], by decide⟩

/-- The query for a name in a table, as in `"inbound.proto"`. -/
def dotted (table name : CString) : CString :=
  ⟨table.1 ++ 0x2e :: name.1, by simp [table.2, name.2]⟩

/-! ### Looking up -/

/-- `config_lookup_string`: the string, if there is one. -/
def configLookupString (conf : Heap) (query : CString) : Option (Option CString) :=
  match tomlLookup conf 0 query with
  | none => none
  | some (.ok (.string str)) => some (some str)
  | some _ => some none

/-- A string that has to be there. -/
def configNeedString (conf : Heap) (query : CString) (undefined : String) : Builder CString :=
  match configLookupString conf query with
  | none => none
  | some none => throw (.text undefined)
  | some (some str) => return str

/-- `load_inbound_param` and `load_outbound_param`; `unset` is what the port in `target_id_parse`
happens to hold. -/
def loadParam (I : Inet) (unset : ℤ) (conf : Heap) (nodeQuery : CString) (nodeUndefined : String)
    (portQuery : CString) (portUndefined unparsed : String) : Builder TargetId := do
  let node ← configNeedString conf nodeQuery nodeUndefined
  let port ← configNeedString conf portQuery portUndefined
  match targetIdParse I unset node port with
  | none => throw (.text unparsed)
  | some target => return target

section

variable (C : Crypto) (I : Inet) (unset : ℤ) (conf : Heap)

/-- `load_inbound_param`. -/
def loadInboundParam : Builder TargetId :=
  loadParam I unset conf (dotted textInbound textLocal) "inbound.local not defined\n"
    (dotted textInbound textPort) "inbound.port not defined\n"
    "failed to parse inbound.local/inbound.port\n"

/-- `load_outbound_param`. -/
def loadOutboundParam : Builder TargetId :=
  loadParam I unset conf (dotted textOutbound textProxy) "outbound.proxy not defined\n"
    (dotted textOutbound textPort) "outbound.port not defined\n"
    "failed to parse outbound.local/outbound.port\n"

/-! ### Builders -/

/-- The configuration of the user with this password: its HMAC under itself. -/
def passwordConfig (pass : CString) : VmessConfig := vmessConfigNew (C.hmacMd5 pass.1 pass.1)

/-- `vmess_inbound_builder`. -/
def vmessInboundBuilder : Builder TcpInbound := do
  let pass ← configNeedString conf (dotted textInbound textPass) "inbound.pass not defined\n"
  let bind ← loadInboundParam I unset conf
  return .vmess (passwordConfig C pass) bind

/-- `vmess_outbound_builder`. -/
def vmessOutboundBuilder : Builder TcpOutbound := do
  let pass ← configNeedString conf (dotted textOutbound textPass) "outbound.pass not defined\n"
  let proxy ← loadOutboundParam I unset conf
  return .vmess (passwordConfig C pass) proxy

/-- `socks_inbound_builder`. -/
def socksInboundBuilder : Builder TcpInbound := do
  let bind ← loadInboundParam I unset conf
  return .socks bind

/-- `socks4_outbound_builder`. -/
def socks4OutboundBuilder : Builder TcpOutbound := do
  let proxy ← loadOutboundParam I unset conf
  return .socks proxy .v4

/-- `socks5_outbound_builder`. -/
def socks5OutboundBuilder : Builder TcpOutbound := do
  let proxy ← loadOutboundParam I unset conf
  return .socks proxy .v5

/-- `dokodemo_inbound_builder`. -/
def dokodemoInboundBuilder : Builder TcpInbound := do
  let bind ← loadInboundParam I unset conf
  return .dokodemo bind

/-- `dokodemo_outbound_builder`. -/
def dokodemoOutboundBuilder : Builder TcpOutbound := do
  let proxy ← loadOutboundParam I unset conf
  return .dokodemo proxy

/-- `native_outbound_builder`. -/
def nativeOutboundBuilder : Builder TcpOutbound := return .native

/-- An entry of `proto_map`. -/
structure ProtoEntry where
  proto : CString
  inBuild : Option (Builder TcpInbound)
  outBuild : Option (Builder TcpOutbound)

/-- `proto_map`; the builders are given the configuration. -/
def protoMap : List ProtoEntry :=
  [⟨textVmess, some (vmessInboundBuilder C I unset conf),
      some (vmessOutboundBuilder C I unset conf)⟩,
    ⟨textSocks, some (socksInboundBuilder I unset conf), none⟩,
    ⟨textSocks4, some (socksInboundBuilder I unset conf),
      some (socks4OutboundBuilder I unset conf)⟩,
    ⟨textSocks5, some (socksInboundBuilder I unset conf),
      some (socks5OutboundBuilder I unset conf)⟩,
    ⟨textDokodemo, some (dokodemoInboundBuilder I unset conf),
      some (dokodemoOutboundBuilder I unset conf)⟩,
    ⟨textNative, none, some nativeOutboundBuilder⟩]

/-! ### Loading -/

/-- What a function has said, and what it returns. -/
abbrev Loaded (α : Type) := List Report × Option α

/-- What a builder has said, and what it returns. -/
def Builder.run {α : Type} (build : Builder α) : Option (Loaded α) :=
  Option.map
    (fun
      | .ok a => ([], some a)
      | .error report => ([report], none)) (ExceptT.run build)

/-- The loop of `load_inbound` and `load_outbound`: behind an entry without a builder it goes on,
and at its end the protocol has not been found. -/
def loadLoop {α : Type} (build : ProtoEntry → Option (Builder α)) (unable notFound : Report)
    (proto : CString) : List ProtoEntry → Option (Loaded α)
  | [] => some ([notFound], none)
  | entry :: entries =>
    if entry.proto = proto then
      match build entry with
      | some build => build.run
      | none =>
        (loadLoop build unable notFound proto entries).map fun (said, res) ↦ (unable :: said, res)
    else loadLoop build unable notFound proto entries

/-- `load_inbound`. -/
def loadInbound : Option (Loaded TcpInbound) :=
  match configLookupString conf (dotted textInbound textProto) with
  | none => none
  | some none => some ([.text "inbound.proto not defined\n"], none)
  | some (some proto) =>
    loadLoop (·.inBuild) (.string "protocol %s cannot be an inbound protocol\n" proto)
      (.string "inbound protocol %s not found\n" proto) proto (protoMap C I unset conf)

/-- `load_outbound`. -/
def loadOutbound : Option (Loaded TcpOutbound) :=
  match configLookupString conf (dotted textOutbound textProto) with
  | none => none
  | some none => some ([.text "outbound.proto not defined\n"], none)
  | some (some proto) =>
    loadLoop (·.outBuild) (.string "protocol %s cannot be an outbound protocol\n" proto)
      (.string "outbound protocol %s not found\n" proto) proto (protoMap C I unset conf)

end

/-! ### `main` -/

/-- What there is at the path of the configuration. -/
inductive ConfigFile where
  | unopened
  /-- less is read than there is to be -/
  | unread
  | read (content : Bytes)

/-- `load_config`. -/
def loadConfig : ConfigFile → Option (Loaded Heap)
  | .unopened => some ([.perror "fopen"], none)
  | .unread => some ([.text "failed to read file\n"], none)
  | .read content =>
    (tomlLoad (cstr content)).map fun
      | .ok conf => ([], some conf)
      | .error err => ([.message "parse error: %s\n" err.msg], none)

/-- How `main` ends, or does not: with what it has said and status 1, or in `tcp_relay_epoll`, with
the retries of the configuration of the relay, the two ends and the number of threads. -/
inductive MainResult where
  | exits (said : List Report)
  | relays (maxConnectRetry : ℤ) (inbound : TcpInbound) (outbound : TcpOutbound) (nthread : ℕ)

/-- `print_help`. -/
def printHelp : Option CString → Report
  | some prog => .string "usage: %s <config>\n" prog
  | none => .message "usage: %s <config>\n" "vmecs"

/-- `main`, of the name of the program, and of the path that is its first argument with what there
is at it; `unsetIn` and `unsetOut` are the uninitialized ports of the inbound and the outbound. -/
def vmecsMain (C : Crypto) (I : Inet) (unsetIn unsetOut : ℤ) (prog : Option CString) :
    Option (CString × ConfigFile) → Option MainResult
  | none => some (.exits [printHelp prog])
  | some (path, file) => do
    let (said, conf) ← loadConfig file
    match conf with
    | none => some (.exits (said ++ [.string "failed to load config file %s\n" path]))
    | some conf =>
      let (saidIn, inbound) ← loadInbound C I unsetIn conf
      let (saidOut, outbound) ← loadOutbound C I unsetOut conf
      match inbound, outbound with
      | some inbound, some outbound =>
        some (.relays tcpRelayDefaultMaxConnectRetry inbound outbound 4)
      | _, _ =>
        some (.exits (saidIn ++ saidOut ++ [.text "failed to load inbound/outbound\n"]))

end Vmecs
