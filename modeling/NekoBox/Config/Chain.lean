import NekoBox.Config.JsonObject

/-!
# Chains of outbounds

`BuildOutbound`, `ResolveChainInternal`, `BuildChain` and `BuildChainInternal`
(`ConfigBuilder.cpp`, lines 753–970 and 1172–1269). The loop of
`BuildChainInternal` appends one object per profile to the outbounds or the
endpoints, and when it comes to the next profile it replaces the last object of
the array used before by one with a detour to the new tag.

The core object of a bean (`BuildCoreObjSingBox`) is data of the profile;
traffic statistics are left out.
-/

namespace NekoBox.Config

open NekoBox.Store

/-- `QString::number` -/
abbrev number (n : ℤ) : String := Int.repr n

def jsonInt (n : ℤ) : Json := .number (.ofInt n)

/-- What the builder reads of a `ProxyEntity` and its bean. -/
structure Profile where
  id : ℤ
  gid : ℤ
  type : String
  serverAddress : String
  /-- `BuildCoreObjSingBox().outbound` -/
  coreObj : JsonObject
  /-- `BuildCoreObjSingBox().error` -/
  coreError : String
  customOutbound : JsonObject
  muxState : ℤ
  enableBrutal : Bool
  brutalSpeed : ℤ
  /-- `network` and `security` of the stream settings -/
  stream : Option (String × String)
  /-- `CustomBean::core` and `CustomBean::config_simple` -/
  core : String
  configSimple : JsonObject
  /-- `WireguardBean` -/
  mtu : ℤ
  transportPacketJunkSize : ℤ
  useSystemInterface : Bool
  /-- `ChainBean::list` -/
  list : List ℤ

/-- `wgBean` (lines 856–861) -/
def Profile.isWg (ent : Profile) : Bool := ent.type = "wireguard" ∨ ent.type = "awg"

/-- `bean->IsEndpoint()` -/
def Profile.isEndpoint (ent : Profile) : Bool := ent.isWg ∨ ent.type = "tailscale"

/-- A group's `landing_proxy_id` and `front_proxy_id`. -/
structure Group where
  landingProxyId : ℤ
  frontProxyId : ℤ

/-- What the chains are built from: `profileManager`, the settings for
    multiplexing, and the system. -/
structure Environment where
  getProfile : ℤ → Option Profile
  getGroup : ℤ → Option Group
  muxConcurrency : ℤ
  muxDefaultOn : Bool
  muxProtocol : String
  muxPadding : Bool
  isAdmin : Bool
  isIpAddress : String → Bool

/-- `BuildConfigStatus`: what the functions here read and write. -/
structure Status where
  error : String
  domainListDNSDirect : List String
  outbounds : List JsonObject
  endpoints : List JsonObject

/-- The array that `lastWasEndpoint` selects. -/
def Status.append (status : Status) (endpoint : Bool) (outbound : JsonObject) : Status :=
  if endpoint then { status with endpoints := status.endpoints ++ [outbound] }
  else { status with outbounds := status.outbounds ++ [outbound] }

/-! ## `BuildOutbound` -/

/-- `needMux` (lines 1222–1247) -/
def needMux (E : Environment) (ent : Profile) (outbound : JsonObject) : Bool :=
  let needMux := (ent.type == "vmess" || ent.type == "trojan" || ent.type == "vless" ||
    ent.type == "shadowsocks") && decide (E.muxConcurrency > 0)
  let needMux := needMux && !ent.stream.any fun (network, security) =>
    network == "grpc" || network == "quic" || network == "anytls" ||
      (network == "http" && security == "tls")
  let needMux :=
    if ent.muxState = 0 then needMux && (E.muxDefaultOn || ent.enableBrutal)
    else if ent.muxState = 1 then true
    else if ent.muxState = 2 then false
    else needMux
  let flowIsEmpty := match outbound.value "flow" with
    | .string flow => flow == ""
    | _ => false
  needMux && !(ent.type == "vless" && !flowIsEmpty)

/-- The object under `multiplex` (lines 1252–1266). -/
def muxObject (E : Environment) (ent : Profile) : JsonObject :=
  [("enabled", .bool true), ("protocol", .string E.muxProtocol), ("padding", .bool E.muxPadding),
    ("max_streams", jsonInt E.muxConcurrency)] ++
  if ent.enableBrutal then
    [("max_connections", jsonInt 1), ("brutal", .object [("enabled", .bool true),
      ("up_mbps", jsonInt ent.brutalSpeed), ("down_mbps", jsonInt ent.brutalSpeed)])]
  else []

/-- The error of `BuildOutbound`, empty if there is none (lines 1182–1201). -/
def outboundError (E : Environment) (forTest : Bool) (ent : Profile) : String :=
  if ent.isWg && !forTest && ent.useSystemInterface && !E.isAdmin then
    "using wireguard system interface requires elevated permissions"
  else if ent.coreObj = [] then "unsupported outbound"
  else ent.coreError

/-- URL tests must not create real system tunnels (lines 1207–1213). -/
def withoutSystemTunnel (outbound : JsonObject) : JsonObject :=
  match outbound.value "type" with
  | .string type =>
    if type = "awg" then outbound.insert "useIntegratedTun" (.bool false)
    else if type = "wireguard" then outbound.insert "system" (.bool false)
    else outbound
  | _ => outbound

def withMux (E : Environment) (ent : Profile) (outbound : JsonObject) : JsonObject :=
  if needMux E ent outbound then outbound.insert "multiplex" (.object (muxObject E ent))
  else outbound

/-- `BuildOutbound` (lines 1172–1269): the object, which stays empty when there is
    an error. -/
def buildOutbound (E : Environment) (forTest : Bool) (ent : Profile) (tag : String) : JsonObject :=
  if outboundError E forTest ent ≠ "" then []
  else
    let outbound := if forTest then withoutSystemTunnel ent.coreObj else ent.coreObj
    withMux E ent (outbound.insert "tag" (.string tag))

/-! ## `BuildChainInternal` -/

/-- `nestedMtu` (lines 863–876), built from the end of the chain. -/
def nestedMtu : List Profile → ℤ → Option ℤ
  | [] => fun _ => none
  | [_] => fun _ => none
  | inner :: carrier :: ents =>
    let mtu := nestedMtu (carrier :: ents)
    if inner.isWg && carrier.isWg then
      let carrierMtu := (mtu carrier.id).getD carrier.mtu
      let s4 := if inner.type = "awg" then inner.transportPacketJunkSize else 0
      let cap := carrierMtu - 32 - s4
      if inner.mtu > cap then fun id => if id = inner.id then some cap else mtu id else mtu
    else mtu

/-- `chainTag` (lines 847–853) -/
def chainTag (chainId routeSuffix : ℤ) : String :=
  if 0 ≤ routeSuffix then "r-" ++ number routeSuffix ++ "-" ++ ("c-" ++ number chainId)
  else "c-" ++ number chainId

/-- `tagOut` (lines 887–898) -/
def tagOut (chainId routeSuffix : ℤ) (index : ℕ) (ent : Profile) : String :=
  if index = 0 then
    if 0 ≤ routeSuffix then chainTag chainId routeSuffix ++ "-" ++ "proxy" else "proxy"
  else chainTag chainId routeSuffix ++ "-" ++ number ent.id ++ "-" ++ number index

/-- `hasV6` -/
def hasV6 (addresses : List Json) : Bool := addresses.any fun address => ':' ∈ address.toString.toList

/-- `toArray()` -/
def toArray : Json → List Json
  | .array l => l
  | _ => []

/-- The MTU of a nested tunnel, and an IPv6 address for its carrier (lines
    920–938). -/
def withNesting (mtu : ℤ → Option ℤ) (previous : Option Profile) (ent : Profile)
    (outbound : JsonObject) : JsonObject :=
  if ent.isWg then
    let outbound := match mtu ent.id with
      | some m => outbound.insert "mtu" (jsonInt m)
      | none => outbound
    let addresses := toArray (outbound.value "address")
    if previous.any Profile.isWg && !hasV6 addresses then
      outbound.insert "address" (.array (addresses ++ [.string "fdfe:dcba:9876::1/128"]))
    else outbound
  else outbound

/-- The object of a profile (lines 914–941), with `custom_outbound` merged into
    it. -/
def hopObject (E : Environment) (forTest : Bool) (mtu : ℤ → Option ℤ) (previous : Option Profile)
    (ent : Profile) (tag : String) : JsonObject :=
  mergeJson ent.customOutbound (withNesting mtu previous ent (buildOutbound E forTest ent tag))

/-- `serverAddress` (lines 944–954) -/
def serverAddressOf (ent : Profile) : String :=
  if ent.type = "custom" ∧ ent.core = "internal" then
    let server := (ent.configSimple.value "server").toString
    if server ≠ "" then server else ent.serverAddress
  else ent.serverAddress

/-- The last object of an array gets a detour (lines 902–908). -/
def patchLast (tag : String) (array : List JsonObject) : List JsonObject :=
  match array.getLast? with
  | none => []
  | some replaced => array.dropLast ++ [replaced.insert "detour" (.string tag)]

def Status.patch (status : Status) (lastWasEndpoint : Bool) (tag : String) : Status :=
  if lastWasEndpoint then { status with endpoints := patchLast tag status.endpoints }
  else { status with outbounds := patchLast tag status.outbounds }

/-- One turn of the loop (lines 878–966), with `lastWasEndpoint`. -/
def chainStep (E : Environment) (forTest : Bool) (chainId routeSuffix : ℤ) (mtu : ℤ → Option ℤ)
    (index : ℕ) (previous : Option Profile) (ent : Profile) (st : Status × Bool) : Status × Bool :=
  let tag := tagOut chainId routeSuffix index ent
  let status := if index > 0 then st.1.patch st.2 tag else st.1
  let error := outboundError E forTest ent
  let serverAddress := serverAddressOf ent
  let status := { status with
    error := if error ≠ "" then error else status.error
    domainListDNSDirect := status.domainListDNSDirect ++
      if !E.isIpAddress serverAddress then [serverAddress] else [] }
  (status.append ent.isEndpoint (hopObject E forTest mtu previous ent tag), ent.isEndpoint)

def chainLoop (E : Environment) (forTest : Bool) (chainId routeSuffix : ℤ) (mtu : ℤ → Option ℤ)
    (index : ℕ) (previous : Option Profile) (ents : List Profile) (st : Status × Bool) :
    Status × Bool :=
  match ents with
  | [] => st
  | ent :: ents =>
    chainLoop E forTest chainId routeSuffix mtu (index + 1) (some ent) ents
      (chainStep E forTest chainId routeSuffix mtu index previous ent st)

/-- `BuildChainInternal` (lines 843–970): `chainTagOut` and the status. -/
def buildChainInternal (E : Environment) (forTest : Bool) (chainId : ℤ) (ents : List Profile)
    (status : Status) (routeSuffix : ℤ) : String × Status :=
  let chainTagOut := match ents with
    | [] => ""
    | ent :: _ => tagOut chainId routeSuffix 0 ent
  (chainTagOut,
    (chainLoop E forTest chainId routeSuffix (nestedMtu ents) 0 none ents (status, false)).1)

/-! ## `BuildChain` -/

/-- The members of a chain (lines 767–783), with the error. -/
def chainMembers (E : Environment) : List ℤ → List Profile × String
  | [] => ([], "")
  | id :: ids =>
    match E.getProfile id with
    | none => chainMembers E ids
    | some profile =>
      if profile.type = "chain" then
        ([profile], "chain in chain is not allowed: " ++ number id)
      else
        let rest := chainMembers E ids
        (profile :: rest.1, rest.2)

/-- `ResolveChainInternal` (lines 753–788) -/
def resolveChainInternal (E : Environment) (ent : Profile) : List Profile × String :=
  if ent.type = "chain" then chainMembers E ent.list.reverse else ([ent], "")

/-- The landing or front proxy of a group (lines 802–810 and 818–827). -/
def resolveProxy (E : Environment) (id : ℤ) (missing : String) : List Profile × String :=
  if 0 ≤ id then
    match E.getProfile id with
    | none => ([], missing)
    | some ent => resolveChainInternal E ent
  else ([], "")

/-- The list `BuildChain` makes (lines 794–827), or its error. -/
def chainList (E : Environment) (ent : Profile) : Except String (List Profile) :=
  match E.getGroup ent.gid with
  | none => .error "This profile is not in any group, your data may be corrupted."
  | some group =>
    let landing := resolveProxy E group.landingProxyId "landing proxy ent not found."
    let main := resolveChainInternal E ent
    let front := resolveProxy E group.frontProxyId "front proxy ent not found."
    if landing.2 ≠ "" then .error landing.2
    else if main.2 ≠ "" then .error main.2
    else if front.2 ≠ "" then .error front.2
    else .ok (landing.1 ++ main.1 ++ front.1)

/-- `BuildChain` (lines 792–841) -/
def buildChain (E : Environment) (forTest : Bool) (chainId : ℤ) (ent : Profile) (status : Status) :
    String × Status :=
  match chainList E ent with
  | .error error => ("", { status with error := error })
  | .ok ents => buildChainInternal E forTest chainId ents status (-1)

end NekoBox.Config
