import NekoBox.Config.Chain
import NekoBox.Config.Routing
import NekoBox.Lib.Loop
import NekoBox.Qt.Strings

/-!
# The configuration

`BuildConfigSingBox` (`ConfigBuilder.cpp`, lines 1411–1915) with the functions it
uses: the game rules (lines 987–1074 and `GameModCatalog.cpp`, lines 162–214),
`BuildTunProcessRules`, `BuildDnsObject` and `BuildTunInbound` (lines 1087–1100,
1273–1409). The result is the part of the configuration whose objects name one
another: outbounds, endpoints, the DNS section, the route section and the TUN
inbound. The other inbounds and the sections `log`, `certificate`, `ntp` and
`experimental` are left out.
-/

namespace NekoBox.Config

open NekoBox.Store NekoBox.Lib

/-! ## Settings -/

/-- A service of the game catalogue. -/
structure GameService where
  id : String
  legacyIds : List String
  rules : List JsonObject

/-- What is read of `dataStore`, its `routing` and the resources. -/
structure Settings where
  adblockEnable : Bool
  spmodeVpn : Bool
  enableTunRouting : Bool
  enableDnsServer : Bool
  enableRedirect : Bool
  fakeDns : Bool
  connectionStatistics : Bool
  routeExcludeAddrs : List String
  dnsServerRules : List String
  dnsV4Resp : String
  dnsV6Resp : String
  coreBoxUnderlyingDns : String
  tunName : String
  tunAddress : String
  tunAddress6 : String
  vpnIpv6 : Bool
  vpnMtu : ℤ
  vpnImplementation : String
  vpnStrictRoute : Bool
  currentRouteId : ℤ
  domainStrategy : String
  outboundDomainStrategy : String
  /-- `sniffing_mode` is not `DISABLE` -/
  sniffing : Bool
  remoteDns : String
  directDns : String
  dnsFinalOutDirect : Bool
  useDnsObject : Bool
  dnsObject : JsonObject
  tunSplitProxy : List String
  tunSplitDirect : List String
  tunSplitBlock : List String
  gameModEnabledServices : List String
  /-- `GameModProfileAssignments().value(id, -1)` -/
  gameModAssignments : String → ℤ
  gameServices : List GameService
  /-- `CaseInsensitiveProcessPathPatterns` -/
  processPathPatterns : List Json → List Json
  /-- `IsPrivateRouteCIDR` -/
  isPrivateRouteCidr : String → Bool
  ruleSets : RuleSetSource
  /-- `profileManager->routes`, in the order of their identifiers -/
  routes : List RoutingChain
  /-- The canonical path of an `ExtraCoreBean` -/
  extraCorePath : Profile → String
  /-- `TailscaleBean::globalDNS` -/
  globalDns : Profile → Bool

/-- `BuildConfigStatus`: what is to be built. No profile stands for a configuration
    that blocks everything. -/
structure Job where
  ent : Option Profile
  forTest : Bool
  chainID : ℤ

def Job.blockAll (job : Job) : Bool := job.ent.isNone

/-! ## The result -/

structure Dns where
  servers : List JsonObject
  rules : List JsonObject
  final : Option String
  independentCache : Bool

/-- The section `route`. -/
structure Route where
  autoDetectInterface : Bool
  findProcess : Bool
  final : Option String
  rules : List JsonObject
  ruleSet : List JsonObject
  defaultDomainResolver : JsonObject

structure CoreConfig where
  outbounds : List JsonObject
  endpoints : List JsonObject
  dns : Dns
  route : Route
  tunInbound : Option JsonObject

/-- The objects in a JSON array. -/
def objectsOf (l : List Json) : List JsonObject :=
  l.filterMap fun v => match v with
    | .object o => some o
    | _ => none

/-- A DNS section given as JSON. -/
def Dns.ofJson (o : JsonObject) : Dns where
  servers := objectsOf (toArray (o.value "servers"))
  rules := objectsOf (toArray (o.value "rules"))
  final := match o.value "final" with
    | .string s => some s
    | _ => none
  independentCache := match o.value "independent_cache" with
    | .bool b => b
    | _ => false

/-! ## `BuildDnsObject` -/

/-- `addr.replace(scheme, "")` -/
def withoutScheme (scheme address : String) : String := Qt.replaceText address scheme ""

/-- The schemes with their types (lines 1303–1327). -/
def dnsSchemes : List (String × String) :=
  [("tcp://", "tcp"), ("tls://", "tls"), ("udp://", "udp"), ("quic://", "quic"),
    ("https://", "https"), ("h3://", "h3")]

/-- The part of a text up to a character. -/
def upTo (c : Char) (s : String) : String := String.ofList (s.toList.takeWhile (· ≠ c))

/-- The part of a text after the last of a character. -/
def afterLast (c : Char) (s : String) : String :=
  String.ofList (s.toList.reverse.takeWhile (· ≠ c)).reverse

/-- The port after the last semicolon, and the address before it (lines
    1329–1340). -/
def splitPort (addr : String) : String × Option ℤ :=
  let rest := afterLast ';' addr
  if ';' ∈ addr.toList then
    match Qt.toInt rest.toList with
    | some port =>
      (String.ofList (addr.toList.take (addr.toList.length - rest.toList.length - 1)), some port)
    | none => (addr, none)
  else (addr, none)

/-- `BuildDnsObject` (lines 1273–1349) -/
def buildDnsObject (address : String) : JsonObject :=
  if startsWith "local" address then [("type", .string "local")]
  else if startsWith "dhcp://" address then
    let ifcName := withoutScheme "dhcp://" address
    [("type", .string "dhcp"), ("interface", .string (if ifcName = "auto" then "" else ifcName))]
  else
    let scheme := dnsSchemes.find? fun s => startsWith s.1 address
    let type := (scheme.map Prod.snd).getD "udp"
    let addr := (scheme.map fun s => withoutScheme s.1 address).getD address
    let hasPath := (type = "https" ∨ type = "h3") ∧ '/' ∈ addr.toList
    let path := if hasPath then afterLast '/' addr else ""
    let addr := if hasPath then upTo '/' addr else addr
    let (addr, port) := splitPort addr
    [("type", .string type), ("server", .string addr)] ++
      (match port with
        | some port => member (port ≠ -1) "server_port" (jsonInt port)
        | none => []) ++
      member (path ≠ "") "path" (.string path)

/-! ## Rules made from settings -/

/-- `QListStr2QJsonArray` -/
def listArray (l : List String) : Json := stringArray (withoutBlanks l)

/-- `BuildTunProcessRules` (lines 1087–1100) -/
def buildTunProcessRules (S : Settings) : List JsonObject :=
  (if S.tunSplitProxy ≠ [] then
    [[("action", .string "route"), ("outbound", .string "proxy"),
      ("process_path", listArray S.tunSplitProxy)]] else []) ++
  (if S.tunSplitDirect ≠ [] then
    [[("action", .string "route"), ("outbound", .string "direct"),
      ("process_path", listArray S.tunSplitDirect)]] else []) ++
  (if S.tunSplitBlock ≠ [] then
    [[("action", .string "reject"), ("process_path", listArray S.tunSplitBlock)]] else [])

/-- The identifier under which a service is enabled. -/
def matchedId (S : Settings) (service : GameService) : Option String :=
  if service.id ∈ S.gameModEnabledServices then some service.id
  else service.legacyIds.find? (· ∈ S.gameModEnabledServices)

/-- A rule of a service (`GameModCatalog.cpp`, lines 190–211). -/
def gameRule (S : Settings) (serviceOutbounds : String → String) (serviceId matchedId : String)
    (rule : JsonObject) : JsonObject :=
  let processNames := toArray (rule.value "process_name")
  let rule : JsonObject :=
    rule.filter fun m => m.1 ≠ "catalog_source" ∧ (processNames ≠ [] → m.1 ≠ "process_name")
  let rule : JsonObject :=
    if processNames ≠ [] then
      rule.insert "process_path_regex" (.array (S.processPathPatterns processNames))
    else rule
  match rule.value "outbound" with
  | .string outbound =>
    if outbound = "proxy" then
      let outbound :=
        if serviceOutbounds serviceId = "" then serviceOutbounds matchedId
        else serviceOutbounds serviceId
      if outbound ≠ "" then rule.insert "outbound" (.string outbound) else rule
    else rule
  | _ => rule

/-- `GameMod::BuildRules` (lines 162–214) -/
def gameRules (S : Settings) (serviceOutbounds : String → String) : List JsonObject :=
  if S.gameModEnabledServices = [] then []
  else S.gameServices.flatMap fun service =>
    match matchedId S service with
    | none => []
    | some id => if id = "" then [] else service.rules.map (gameRule S serviceOutbounds service.id id)

/-- The infrastructure actions stay in front of the game rules. -/
def isInfrastructure (rule : JsonObject) : Bool :=
  (rule.value "action").toString ∈ ["sniff", "resolve", "hijack-dns"]

/-- `PrependGameModRules` (lines 1037–1063) -/
def prependGameModRules (S : Settings) (serviceOutbounds : String → String)
    (routeRules : List JsonObject) : List JsonObject :=
  routeRules.takeWhile isInfrastructure ++ gameRules S serviceOutbounds ++
    routeRules.dropWhile isInfrastructure

def hasProcessSelectors (rules : List JsonObject) : Bool :=
  rules.any fun o =>
    o.contains "process_name" || o.contains "process_path" || o.contains "process_path_regex"

/-! ## `BuildTunInbound` -/

/-- `getTunName` (lines 392–400) -/
def getTunName (S : Settings) : String :=
  let name := (Qt.trimmed S.tunName.toList)
  let name := if name = [] then "Neko TUN".toList else name
  String.ofList ((name.map fun c => if c = ' ' then '_' else c).take 15)

/-- `privateCIDRs` -/
def privateCIDRs : List String :=
  ["10.0.0.0/8", "172.16.0.0/12", "192.168.0.0/16", "127.0.0.0/8", "169.254.0.0/16",
    "224.0.0.0/4", "255.255.255.255/32"]

/-- `route_exclude_address` -/
def routeExcludeAddress (S : Settings) (directIPCIDRs : List String) (routePrivateThroughTun : Bool) :
    List String :=
  let addrs := withoutBlanks S.routeExcludeAddrs
  (if routePrivateThroughTun then addrs.filter (· ∉ privateCIDRs) else addrs) ++
    if S.enableTunRouting then directIPCIDRs else []

/-- `route_exclude_address_set` -/
def routeExcludeAddressSet (S : Settings) (directIPSets : List String) : List String :=
  if S.enableTunRouting then directIPSets else []

/-- `BuildTunInbound` (lines 1351–1409) -/
def buildTunInbound (S : Settings) (directIPSets directIPCIDRs : List String)
    (routePrivateThroughTun : Bool) : JsonObject :=
  let address := if S.tunAddress = "" then "172.19.0.1/24" else S.tunAddress
  let address6 := if S.tunAddress6 = "" then "fdfe:dcba:9876::1/96" else S.tunAddress6
  let sets := routeExcludeAddressSet S directIPSets
  [("tag", .string "tun-in"), ("type", .string "tun"), ("interface_name", .string (getTunName S)),
    ("auto_route", .bool true), ("mtu", jsonInt S.vpnMtu), ("stack", .string S.vpnImplementation),
    ("strict_route", .bool S.vpnStrictRoute),
    ("address", stringArray (address :: if S.vpnIpv6 then [address6] else [])),
    ("route_exclude_address",
      stringArray (routeExcludeAddress S directIPCIDRs routePrivateThroughTun))] ++
  member (sets ≠ []) "route_exclude_address_set" (stringArray sets)

/-- `HasProxyPrivateRoute` (lines 415–430) -/
def hasProxyPrivateRoute (S : Settings) (rules : List RouteRule) : Bool :=
  rules.any fun rule =>
    rule.action = "route" && rule.outboundID ≠ directID && rule.outboundID ≠ blockID &&
      rule.outboundID ≠ dnsOutID && (rule.ipIsPrivate || rule.ipCidr.any S.isPrivateRouteCidr)

/-! ## `BuildConfigSingBox` -/

/-- `GetEnabledRouteChains().first()`: the lowest priority, then the lowest
    identifier. -/
def firstEnabled (routes : List RoutingChain) : Option RoutingChain :=
  ((routes.filter RoutingChain.enabled).mergeSort fun left right =>
    decide (left.priority < right.priority ∨
      (left.priority = right.priority ∧ left.id ≤ right.id))).head?

/-- The routing chain in force (lines 1412–1437). -/
def routeChain (S : Settings) (job : Job) : Option RoutingChain :=
  if job.blockAll then some { defaultChain with defaultOutboundID := blockID }
  else
    match (S.routes.find? fun c => c.id = S.currentRouteId).filter RoutingChain.enabled with
    | some chain => some chain
    | none => firstEnabled S.routes

/-- The items with a prefix, without it. -/
def withPrefix (start : String) (items : List String) : List String :=
  (items.filter (startsWith start)).map fun item => mid item start.length

/-- `RouteRule::get_processPath_direct_rule` -/
def processPathDirectRule (path : String) : RouteRule where
  action := "route"
  outboundID := directID
  processPath := [path]

/-- The rules after the main chain has been built (lines 1481–1494). -/
def chainRules (S : Settings) (ent : Profile) (rules : List RouteRule) : List RouteRule :=
  if ent.type = "extracore" then rules ++ [processPathDirectRule (S.extraCorePath ent)] else rules

/-- The conditions of the direct DNS rule (lines 1495–1525). -/
structure DirectDomains where
  ruleSets : List String := []
  domains : List String := []
  suffixes : List String := []
  keywords : List String := []
  regexes : List String := []
  /-- `needDirectDnsRules` -/
  needed : Bool := false

def directDomains (serverAddresses sites : List String) : DirectDomains where
  ruleSets := withPrefix "ruleset:" sites
  domains := serverAddresses ++ withPrefix "domain:" sites
  suffixes := withPrefix "suffix:" sites
  keywords := withPrefix "keyword:" sites
  regexes := withPrefix "regex:" sites
  needed := serverAddresses ≠ [] ∨ sites ≠ []

/-- Another domain to be resolved directly. -/
def DirectDomains.add (d : DirectDomains) (domain : String) : DirectDomains :=
  { d with domains := d.domains ++ [domain], needed := true }

/-- The rules put in front of the chain (lines 1609–1639 and 1659–1674). -/
def infrastructureRules (S : Settings) : List RouteRule :=
  (if S.sniffing then [{ action := "sniff", inbound := ["mixed-in", "tun-in"] }] else []) ++
  (if S.domainStrategy ≠ "" then
    [{ action := "resolve", strategy := S.domainStrategy, inbound := ["mixed-in", "tun-in"] }]
    else []) ++
  (if S.enableRedirect then
    [{ action := "sniff", sniffOverrideDest := true, inbound := ["hijack"] }] else []) ++
  (if S.enableDnsServer then
    [{ action := "sniff", inbound := ["dns-in"] }, { action := "hijack-dns", inbound := ["dns-in"] }]
    else [])

/-- The state of the loops over outbounds. -/
structure Outbounds where
  status : Status
  outboundMap : OutboundMap
  routeID : ℕ
  direct : DirectDomains
  serviceOutbounds : String → String

section

variable (E : Environment) (S : Settings) (job : Job)

/-- A chain for a profile that a rule or a service names. -/
def buildRouteChain (st : Outbounds) (id : ℤ) (ent : Profile) : Except String Outbounds :=
  let ents := resolveChainInternal E ent
  let error := if ents.2 ≠ "" then ents.2 else st.status.error
  if error ≠ "" then .error error
  else
    let chain := buildChainInternal E job.forTest job.chainID ents.1 st.status st.routeID
    .ok { st with
      status := chain.2
      outboundMap := (id, chain.1) :: st.outboundMap
      routeID := st.routeID + 1
      direct := if !E.isIpAddress ent.serverAddress then st.direct.add ent.serverAddress else st.direct }

/-- One of the outbounds the rules name (lines 1684–1709). -/
def addRuleOutbound (st : Outbounds) (item : ℤ) : Except String Outbounds :=
  if item < 0 then .ok st
  else
    match E.getProfile item with
    | none => .error ("The routing profile is referencing outbounds that no longer " ++
        "exists, consider revising your settings")
    | some ent => buildRouteChain E job st item ent

/-- One of the enabled services (lines 1004–1033). -/
def addGameOutbound (st : Outbounds) (serviceId : String) : Except String Outbounds :=
  let profileId := S.gameModAssignments serviceId
  let assigned := fun st : Outbounds => { st with
    serviceOutbounds := fun id =>
      if id = serviceId then st.outboundMap.tag profileId else st.serviceOutbounds id }
  if profileId < 0 then .ok st
  else if job.ent.any fun ent => ent.id = profileId then
    .ok { st with
      serviceOutbounds := fun id => if id = serviceId then "proxy" else st.serviceOutbounds id }
  else if (st.outboundMap.lookup profileId).isSome then .ok (assigned st)
  else
    match E.getProfile profileId with
    | none => .ok st
    | some ent => (buildRouteChain E job st profileId ent).map assigned

/-- `outboundMap` before the loops. -/
def outboundMapInit : OutboundMap := [(proxyID, "proxy"), (directID, "direct"), (blockID, "block")]

/-- The rule sets of the route section (lines 1743–1764). -/
def neededRuleSets (rules : List RouteRule) (hijackGeoAssets : List String) : List String :=
  hijackGeoAssets.foldl (fun sets s => if s ∈ sets then sets else sets ++ [s])
    (getUsedRuleSets rules)

/-- `hijackGeoAssets` (lines 1727–1731) -/
def hijackGeoAssets : List String :=
  if S.enableDnsServer then withPrefix "ruleset:" S.dnsServerRules else []

/-- The rule sets whose JSON is not empty. -/
def ruleSetArray (names : List String) : List JsonObject :=
  (names.map S.ruleSets.json).filter (· ≠ [])

/-- The route section but for what depends on the kind of configuration (lines
    1646–1765). -/
def buildRoute (rules : List RouteRule) (defaultOutboundID : ℤ) (st : Outbounds) : Route :=
  let resolver := [("server", Json.string "dns-direct"),
    ("strategy", .string S.outboundDomainStrategy)]
  if job.forTest then
    { autoDetectInterface := S.spmodeVpn || job.blockAll
      findProcess := false
      final := none
      rules := []
      ruleSet := []
      defaultDomainResolver := resolver }
  else
    let routeRules := prependGameModRules S st.serviceOutbounds
      (getRouteRules S.ruleSets.name S.adblockEnable st.outboundMap rules)
    let findProcess := S.connectionStatistics ||
      hasProcessSelectors (getRouteRules S.ruleSets.name S.adblockEnable [] rules) ||
      !(buildTunProcessRules S).isEmpty || !S.gameModEnabledServices.isEmpty
    { autoDetectInterface := S.spmodeVpn || job.blockAll
      findProcess := findProcess
      final := some (outboundIDToString defaultOutboundID)
      rules := (if S.spmodeVpn then buildTunProcessRules S else []) ++ routeRules
      ruleSet := ruleSetArray S (neededRuleSets rules (hijackGeoAssets S) ++
        if S.adblockEnable && !job.blockAll then [adblock] else [])
      defaultDomainResolver := resolver }

/-- `dns-remote` (lines 1778–1795) -/
def remoteServers (tagProxy : String) : List JsonObject :=
  match job.ent with
  | none => []
  | some ent =>
    if ent.type = "tailscale" then
      [[("type", .string "tailscale"), ("tag", .string "dns-remote"), ("endpoint", .string "proxy"),
        ("accept_default_resolvers", .bool (S.globalDns ent))]]
    else
      [(((buildDnsObject S.remoteDns).insert "tag" (.string "dns-remote")).insert
        "domain_resolver" (.string "dns-local")).insert "detour" (.string tagProxy)]

/-- `dns-direct` (lines 1797–1801) -/
def directServer : JsonObject :=
  ((buildDnsObject S.directDns).insert "tag" (.string "dns-direct")).insert
    "domain_resolver" (.string "dns-local")

/-- `dns-local` (lines 1887–1892) -/
def localServer : JsonObject :=
  (buildDnsObject (if S.coreBoxUnderlyingDns = "" then "local" else S.coreBoxUnderlyingDns)).insert
    "tag" (.string "dns-local")

/-- `dns-fake` (lines 1862–1868) -/
def fakeServer : JsonObject :=
  [("tag", .string "dns-fake"), ("type", .string "fakeip"), ("inet4_range", .string "198.18.0.0/15"),
    ("inet6_range", .string "fc00::/18")]

def dnsServers (tagProxy : String) : List JsonObject :=
  (if S.dnsFinalOutDirect then directServer S :: remoteServers S job tagProxy
    else remoteServers S job tagProxy ++ [directServer S]) ++
  (if S.fakeDns && !job.blockAll then [fakeServer] else []) ++ [localServer S]

/-- The rule for `localhost` (lines 1810–1826). -/
def localhostRule (queryType answer : String) : JsonObject :=
  [("domain", .string "localhost"), ("action", .string "predefined"),
    ("query_type", .string queryType), ("rcode", .string "NOERROR"), ("answer", .string answer)]

/-- The rule of the DNS server (lines 1829–1853). -/
def hijackRule (queryType answer : String) : JsonObject :=
  [("rule_set", stringArray (hijackGeoAssets S)),
    ("domain", stringArray (withPrefix "domain:" S.dnsServerRules)),
    ("domain_suffix", stringArray (withPrefix "suffix:" S.dnsServerRules)),
    ("domain_regex", stringArray (withPrefix "regex:" S.dnsServerRules)),
    ("query_type", .string queryType), ("action", .string "predefined"),
    ("rcode", .string "NOERROR"), ("answer", .string answer)]

/-- The direct DNS rule (lines 1875–1882). -/
def directDnsRule (direct : DirectDomains) : JsonObject :=
  [("rule_set", stringArray direct.ruleSets), ("domain", stringArray direct.domains),
    ("domain_suffix", stringArray direct.suffixes), ("domain_keyword", stringArray direct.keywords),
    ("domain_regex", stringArray direct.regexes), ("action", .string "route"),
    ("server", .string "dns-direct")]

def dnsRules (direct : DirectDomains) : List JsonObject :=
  [localhostRule "A" "localhost. IN A 127.0.0.1", localhostRule "AAAA" "localhost. IN AAAA ::1"] ++
  (if S.enableDnsServer && !job.forTest && !job.blockAll then
    hijackRule S "A" ("* IN A " ++ S.dnsV4Resp) ::
      if S.dnsV6Resp ≠ "" then [hijackRule S "AAAA" ("* IN AAAA " ++ S.dnsV6Resp)] else []
    else []) ++
  (if S.fakeDns && !job.blockAll then
    [[("query_type", stringArray ["A", "AAAA"]), ("action", .string "route"),
      ("server", .string "dns-fake")]] else []) ++
  (if direct.needed && !job.blockAll then [directDnsRule direct] else [])

/-- The section `dns` (lines 1767–1905). -/
def buildDns (tagProxy : String) (direct : DirectDomains) : Dns :=
  if S.useDnsObject then .ofJson S.dnsObject
  else
    { servers := dnsServers S job tagProxy
      rules := dnsRules S job direct
      final := if S.dnsFinalOutDirect then none else some "dns-remote"
      independentCache := S.fakeDns && !job.blockAll }

/-- `direct` and `block` (lines 1591–1598). -/
def builtinOutbounds : List JsonObject :=
  [[("type", .string "direct"), ("tag", .string "direct")],
    [("type", .string "block"), ("tag", .string "block")]]

/-- The main chain (lines 1473–1480): `tagProxy` and the status. -/
def mainChain : String × Status :=
  match job.ent with
  | none => ("block", ⟨"", [], [], []⟩)
  | some ent => buildChain E job.forTest job.chainID ent ⟨"", [], [], []⟩

/-- The rules of the chain in force (lines 1481–1494). -/
def effectiveRules (chain : RoutingChain) : List RouteRule :=
  match job.ent with
  | none => chain.rules
  | some ent => chainRules S ent chain.rules

/-- What the rules say is direct (lines 1501–1540); nothing when everything is
    blocked. -/
def directSites (chain : RoutingChain) : List String :=
  if job.blockAll then [] else getDirectSites (effectiveRules S job chain)

def directIps (chain : RoutingChain) : List String :=
  if job.blockAll then [] else getDirectIps (effectiveRules S job chain)

/-- The rules of the route section. -/
def routedRules (chain : RoutingChain) : List RouteRule :=
  if job.forTest then effectiveRules S job chain
  else infrastructureRules S ++ effectiveRules S job chain

/-- The TUN inbound (lines 1579–1583). -/
def tunInbound (chain : RoutingChain) : Option JsonObject :=
  if (S.spmodeVpn && !job.forTest) || job.blockAll then
    some (buildTunInbound S (withPrefix "ruleset:" (directIps S job chain))
      (withPrefix "ip:" (directIps S job chain))
      (hasProxyPrivateRoute S (effectiveRules S job chain)))
  else none

/-- The state before the loops over the outbounds. -/
def outboundsInit (chain : RoutingChain) : Outbounds where
  status :=
    let status := (mainChain E job).2
    { status with outbounds := status.outbounds ++ builtinOutbounds }
  outboundMap := outboundMapInit
  routeID := 0
  direct := directDomains (mainChain E job).2.domainListDNSDirect (directSites S job chain)
  serviceOutbounds := fun _ => ""

/-- The loops over the outbounds (lines 1676–1714); a test has none. -/
def buildOutbounds (chain : RoutingChain) : Except String Outbounds :=
  if job.forTest then .ok (outboundsInit E S job chain)
  else do
    let st ← (getUsedOutbounds (routedRules S job chain)).foldlM (addRuleOutbound E job)
      (outboundsInit E S job chain)
    let st ← S.gameModEnabledServices.foldlM (addGameOutbound E S job) st
    if st.status.error ≠ "" then .error st.status.error else .ok st

/-- The configuration, for the outbounds built. -/
def coreConfig (chain : RoutingChain) (st : Outbounds) : CoreConfig where
  outbounds := st.status.outbounds
  endpoints := st.status.endpoints
  dns := buildDns S job (mainChain E job).1 st.direct
  route := buildRoute S job (routedRules S job chain) chain.defaultOutboundID st
  tunInbound := tunInbound S job chain

/-- `BuildConfigSingBox` (lines 1411–1915): the error, or the configuration. -/
def buildConfigSingBox : Except String CoreConfig :=
  match routeChain S job with
  | none => .error ("Routing profile does not exist, try resetting the " ++
      "route profile in Routing Settings")
  | some chain =>
    if (mainChain E job).2.error ≠ "" then .error (mainChain E job).2.error
    else (buildOutbounds E S job chain).map (coreConfig E S job chain)

/-- What an accepted configuration is made of. -/
theorem buildConfigSingBox_ok {config : CoreConfig} (h : buildConfigSingBox E S job = .ok config) :
    ∃ chain st, routeChain S job = some chain ∧ (mainChain E job).2.error = "" ∧
      buildOutbounds E S job chain = .ok st ∧ config = coreConfig E S job chain st := by
  unfold buildConfigSingBox at h
  cases hchain : routeChain S job with
  | none =>
    rw [hchain] at h
    cases h
  | some chain =>
    rw [hchain] at h
    dsimp only at h
    split_ifs at h with herror
    cases hst : buildOutbounds E S job chain with
    | error e =>
      rw [hst] at h
      cases h
    | ok st =>
      rw [hst] at h
      exact ⟨chain, st, rfl, by simpa using herror, hst, (Except.ok.inj h).symm⟩

variable {E S job}

/-- The rules that are added to those of the chain name no rule set and have the
    default outbound. -/
def RouteRule.isAdded (rule : RouteRule) : Prop :=
  rule.outboundID = directID ∧ rule.ruleSet = []

theorem isAdded_infrastructure {rule : RouteRule} (h : rule ∈ infrastructureRules S) :
    rule.isAdded := by
  unfold infrastructureRules at h
  split_ifs at h <;> simp only [List.mem_append, List.mem_cons, List.not_mem_nil, or_false,
    false_or] at h <;> grind [RouteRule.isAdded]

theorem mem_effectiveRules {chain : RoutingChain} {rule : RouteRule}
    (h : rule ∈ effectiveRules S job chain) :
    rule ∈ chain.rules ∨ ∃ path, rule = processPathDirectRule path := by
  unfold effectiveRules at h
  cases hent : job.ent with
  | none =>
    rw [hent] at h
    exact .inl h
  | some ent =>
    rw [hent] at h
    change rule ∈ chainRules S ent chain.rules at h
    unfold chainRules at h
    split_ifs at h
    · rcases List.mem_append.mp h with h | h
      · exact .inl h
      · exact .inr ⟨_, List.mem_singleton.mp h⟩
    · exact .inl h

theorem mem_routedRules {chain : RoutingChain} {rule : RouteRule}
    (h : rule ∈ routedRules S job chain) : rule ∈ chain.rules ∨ rule.isAdded := by
  have heffective (h : rule ∈ effectiveRules S job chain) : rule ∈ chain.rules ∨ rule.isAdded := by
    rcases mem_effectiveRules h with h | ⟨path, rfl⟩
    · exact .inl h
    · exact .inr ⟨rfl, rfl⟩
  unfold routedRules at h
  split_ifs at h
  · exact heffective h
  · rcases List.mem_append.mp h with h | h
    · exact .inr (isAdded_infrastructure h)
    · exact heffective h

theorem addRuleOutbound_builtin {items : List ℤ} (h : ∀ item ∈ items, item < 0) (st : Outbounds) :
    items.foldlM (addRuleOutbound E job) st = .ok st := by
  induction items with
  | nil => rfl
  | cons item items ih =>
    rw [Loop.foldlM_cons_eq_ok]
    refine ⟨st, ?_, ih fun other hother => h other (List.mem_cons_of_mem item hother)⟩
    unfold addRuleOutbound
    rw [if_pos (h item List.mem_cons_self)]

/-- A chain whose rules name no profile is accepted with the outbounds of the main
    chain. -/
theorem buildConfigSingBox_builtin {chain : RoutingChain} (hchain : routeChain S job = some chain)
    (herror : (mainChain E job).2.error = "")
    (hrules : ∀ rule ∈ chain.rules, rule.outboundID < 0) (hservices : S.gameModEnabledServices = []) :
    buildConfigSingBox E S job =
      .ok (coreConfig E S job chain (outboundsInit E S job chain)) := by
  have hused : ∀ item ∈ getUsedOutbounds (routedRules S job chain), item < 0 := by
    intro item hitem
    obtain ⟨rule, hrule, rfl⟩ := List.mem_map.mp hitem
    rcases mem_routedRules hrule with hrule | ⟨hid, -⟩
    · exact hrules rule hrule
    · rw [hid]
      decide
  have hbuilt : buildOutbounds E S job chain = .ok (outboundsInit E S job chain) := by
    unfold buildOutbounds
    split_ifs
    · rfl
    · rw [addRuleOutbound_builtin hused, hservices]
      show (if (mainChain E job).2.error ≠ "" then _ else _) = _
      rw [if_neg (not_not.mpr herror)]
  unfold buildConfigSingBox
  rw [hchain]
  dsimp only
  rw [if_neg (not_not.mpr herror), hbuilt]
  rfl

/-- A SOCKS profile without settings of its own. -/
def socksProfile (id : ℤ) : Profile where
  id := id
  gid := 0
  type := "socks"
  serverAddress := "192.0.2.1"
  coreObj := [("type", .string "socks"), ("server", .string "192.0.2.1")]
  coreError := ""
  customOutbound := []
  muxState := 0
  enableBrutal := false
  brutalSpeed := 0
  stream := none
  core := ""
  configSimple := []
  mtu := 0
  transportPacketJunkSize := 0
  useSystemInterface := false
  list := []

/-- An installation whose profiles are SOCKS profiles of one group. -/
def socksEnvironment : Environment where
  getProfile := fun id => some (socksProfile id)
  getGroup := fun _ => some ⟨-1, -1⟩
  muxConcurrency := 8
  muxDefaultOn := false
  muxProtocol := "smux"
  muxPadding := false
  isAdmin := true
  isIpAddress := fun _ => true

/-- Settings with the TUN in use and one routing chain. -/
def tunSettings (chain : RoutingChain) : Settings where
  adblockEnable := false
  spmodeVpn := true
  enableTunRouting := true
  enableDnsServer := false
  enableRedirect := false
  fakeDns := false
  connectionStatistics := false
  routeExcludeAddrs := []
  dnsServerRules := []
  dnsV4Resp := "127.0.0.1"
  dnsV6Resp := ""
  coreBoxUnderlyingDns := ""
  tunName := ""
  tunAddress := ""
  tunAddress6 := ""
  vpnIpv6 := false
  vpnMtu := 1500
  vpnImplementation := "gvisor"
  vpnStrictRoute := false
  currentRouteId := chain.id
  domainStrategy := ""
  outboundDomainStrategy := ""
  sniffing := false
  remoteDns := "tls://8.8.8.8"
  directDns := "local"
  dnsFinalOutDirect := false
  useDnsObject := false
  dnsObject := []
  tunSplitProxy := []
  tunSplitDirect := []
  tunSplitBlock := []
  gameModEnabledServices := []
  gameModAssignments := fun _ => -1
  gameServices := []
  processPathPatterns := id
  isPrivateRouteCidr := fun _ => false
  ruleSets :=
    { isValid := fun _ => false, fileName := id, hash := fun _ => 0, link := id
      map := fun _ => none }
  routes := [chain]
  extraCorePath := fun _ => ""
  globalDns := fun _ => false

def socksJob : Job := ⟨some (socksProfile 1), false, 0⟩

theorem routeChain_tunSettings {chain : RoutingChain} (h : chain.enabled) :
    routeChain (tunSettings chain) socksJob = some chain := by
  have hfind : ([chain].find? fun c => c.id = chain.id).filter RoutingChain.enabled = some chain := by
    simp [h]
  show (match ([chain].find? fun c => c.id = chain.id).filter RoutingChain.enabled with
    | some chain => some chain
    | none => firstEnabled [chain]) = some chain
  rw [hfind]

/-- The small installation builds every chain whose rules name no profile. -/
theorem buildConfigSingBox_tunSettings {chain : RoutingChain} (h : chain.enabled)
    (hrules : ∀ rule ∈ chain.rules, rule.outboundID < 0) :
    buildConfigSingBox socksEnvironment (tunSettings chain) socksJob =
      .ok (coreConfig socksEnvironment (tunSettings chain) socksJob chain
        (outboundsInit socksEnvironment (tunSettings chain) socksJob chain)) :=
  buildConfigSingBox_builtin (routeChain_tunSettings h) rfl hrules rfl

/-! ## The loops over the outbounds -/

/-- What a turn that builds a chain has done. -/
theorem buildRouteChain_ok {st st' : Outbounds} {id : ℤ} {ent : Profile}
    (h : buildRouteChain E job st id ent = .ok st') :
    (resolveChainInternal E ent).2 = "" ∧ st.status.error = "" ∧
      st'.status = (buildChainInternal E job.forTest job.chainID (resolveChainInternal E ent).1
        st.status st.routeID).2 ∧
      st'.outboundMap = (id, (buildChainInternal E job.forTest job.chainID
        (resolveChainInternal E ent).1 st.status st.routeID).1) :: st.outboundMap ∧
      st'.routeID = st.routeID + 1 ∧ st'.serviceOutbounds = st.serviceOutbounds ∧
      (st'.direct = st.direct ∨ st'.direct = st.direct.add ent.serverAddress) := by
  unfold buildRouteChain at h
  dsimp only at h
  by_cases hresolved : (resolveChainInternal E ent).2 = ""
  · by_cases hstatus : st.status.error = ""
    · rw [if_neg (not_not.mpr hresolved), if_neg (not_not.mpr hstatus)] at h
      obtain rfl := Except.ok.inj h
      refine ⟨hresolved, hstatus, rfl, rfl, rfl, rfl, ?_⟩
      dsimp only
      split_ifs
      · exact .inr rfl
      · exact .inl rfl
    · rw [if_neg (not_not.mpr hresolved), if_pos hstatus] at h
      cases h
  · rw [if_pos hresolved, if_pos hresolved] at h
    cases h

section

variable {P : Outbounds → Prop}
  (built : ∀ st id ent st', 0 ≤ id → E.getProfile id = some ent → P st →
    buildRouteChain E job st id ent = .ok st' → P st')

include built

theorem addRuleOutbound_preserves {st st' : Outbounds} {item : ℤ} (hst : P st)
    (h : addRuleOutbound E job st item = .ok st') : P st' := by
  unfold addRuleOutbound at h
  by_cases hitem : item < 0
  · rw [if_pos hitem] at h
    obtain rfl := Except.ok.inj h
    exact hst
  · rw [if_neg hitem] at h
    cases hent : E.getProfile item with
    | none =>
      rw [hent] at h
      cases h
    | some ent =>
      rw [hent] at h
      exact built st item ent st' (not_lt.mp hitem) hent hst h

variable (assigned : ∀ (st : Outbounds) service tag, P st →
    (tag = "proxy" ∨ ∃ id, st.outboundMap.lookup id = some tag) →
    P { st with
      serviceOutbounds := fun id => if id = service then tag else st.serviceOutbounds id })

include assigned

theorem addGameOutbound_preserves {st st' : Outbounds} {service : String} (hst : P st)
    (h : addGameOutbound E S job st service = .ok st') : P st' := by
  unfold addGameOutbound at h
  dsimp only at h
  by_cases hid : S.gameModAssignments service < 0
  · rw [if_pos hid] at h
    obtain rfl := Except.ok.inj h
    exact hst
  rw [if_neg hid] at h
  by_cases hmain : job.ent.any fun ent => ent.id = S.gameModAssignments service
  · rw [if_pos hmain] at h
    obtain rfl := Except.ok.inj h
    exact assigned st service "proxy" hst (.inl rfl)
  rw [if_neg hmain] at h
  cases hlookup : st.outboundMap.lookup (S.gameModAssignments service) with
  | some tag =>
    rw [if_pos (by rw [hlookup]; rfl)] at h
    obtain rfl := Except.ok.inj h
    rw [OutboundMap.tag, hlookup]
    exact assigned st service tag hst (.inr ⟨_, hlookup⟩)
  | none =>
    rw [if_neg (by rw [hlookup]; decide)] at h
    cases hent : E.getProfile (S.gameModAssignments service) with
    | none =>
      rw [hent] at h
      obtain rfl := Except.ok.inj h
      exact hst
    | some ent =>
      rw [hent] at h
      dsimp only at h
      cases hbuild : buildRouteChain E job st (S.gameModAssignments service) ent with
      | error e =>
        rw [hbuild] at h
        cases h
      | ok st1 =>
        rw [hbuild] at h
        obtain rfl := Except.ok.inj h
        obtain ⟨-, -, -, hmap, -⟩ := buildRouteChain_ok hbuild
        have hnew : st1.outboundMap.lookup (S.gameModAssignments service) =
            some (st1.outboundMap.tag (S.gameModAssignments service)) := by
          rw [OutboundMap.tag, hmap, List.lookup_cons_self]
          rfl
        exact assigned st1 service _ (built st _ ent st1 (not_lt.mp hid) hent hst hbuild)
          (.inr ⟨_, hnew⟩)

/-- What the building of a chain and the naming of a service's outbound preserve
    holds after the loops. -/
theorem buildOutbounds_invariant {chain : RoutingChain} {st : Outbounds}
    (h : buildOutbounds E S job chain = .ok st) (init : P (outboundsInit E S job chain)) : P st := by
  unfold buildOutbounds at h
  by_cases htest : job.forTest
  · rw [if_pos htest] at h
    obtain rfl := Except.ok.inj h
    exact init
  · rw [if_neg htest] at h
    obtain ⟨s1, h1, h⟩ := Loop.bind_eq_ok.mp h
    obtain ⟨s2, h2, h⟩ := Loop.bind_eq_ok.mp h
    split_ifs at h
    obtain rfl := Except.ok.inj h
    have hrules : P s1 := Loop.invariant h1 init fun _ _ _ _ hst hstep =>
      addRuleOutbound_preserves built hst hstep
    exact Loop.invariant h2 hrules fun _ _ _ _ hst hstep =>
      addGameOutbound_preserves built assigned hst hstep

end

end

end NekoBox.Config
