import NekoBox.Config.JsonObject
import NekoBox.Qt.Text

/-!
# Routing chains

`RouteRule` and `RoutingChain` (`RouteEntity.h`, `RouteEntity.cpp`, lines 20–35,
149–227 and 663–764): the JSON of the rules, the outbounds and rule sets they
name, and the lists of what is direct. The names and the JSON of rule sets are in
`ConfigBuilder.cpp`, lines 301–373.
-/

namespace NekoBox.Config

open NekoBox.Store

/-! ## `RouteRule` -/

def proxyID : ℤ := -1
def directID : ℤ := -2
def blockID : ℤ := -3
def dnsOutID : ℤ := -4

/-- `outboundIDToString` -/
def outboundIDToString (id : ℤ) : String :=
  if id = proxyID then "proxy"
  else if id = directID then "direct"
  else if id = blockID then "block"
  else if id = dnsOutID then "dns"
  else "unknown"

/-- `RouteRule`, with the defaults of its fields. -/
structure RouteRule where
  ipVersion : String := ""
  network : String := ""
  protocol : String := ""
  inbound : List String := []
  domain : List String := []
  domainSuffix : List String := []
  domainKeyword : List String := []
  domainRegex : List String := []
  sourceIpCidr : List String := []
  sourceIpIsPrivate : Bool := false
  ipCidr : List String := []
  ipIsPrivate : Bool := false
  sourcePort : List String := []
  sourcePortRange : List String := []
  port : List String := []
  portRange : List String := []
  processName : List String := []
  processPath : List String := []
  processPathRegex : List String := []
  ruleSet : List String := []
  invert : Bool := false
  outboundID : ℤ := directID
  action : String := "route"
  rejectMethod : String := ""
  noDrop : Bool := false
  overrideAddress : String := ""
  overridePort : String := ""
  sniffOverrideDest : Bool := false
  strategy : String := ""

/-- A rule as a chain holds it. -/
structure StoredRule extends RouteRule where
  name : String := ""
  /-- `ruleType`: custom, address, process name, process path -/
  type : ℤ := 0
  /-- `simpleAction`, set for the types that are not custom -/
  simpleAction : ℤ := 0

/-- `RoutingChain` -/
structure RoutingChain where
  id : ℤ := -1
  enabled : Bool := true
  priority : ℤ := 100
  rules : List RouteRule := []
  defaultOutboundID : ℤ := proxyID

/-- `QString::startsWith` -/
def startsWith (start s : String) : Bool := start.toList.isPrefixOf s.toList

/-- `QString::mid` -/
def mid (s : String) (n : ℕ) : String := String.ofList (s.toList.drop n)

/-- `isValidStrArray` -/
def isValidStrArray (arr : List String) : Bool := arr.any fun item => !Qt.isBlank item

def stringArray (l : List String) : Json := .array (l.map .string)

/-- `get_as_array` with `castToNum`. -/
def intArray (l : List String) : Json :=
  .array (l.map fun item => .number (.ofInt ((Qt.toInt item.toList).getD 0)))

/-- A member that is only there under a condition. -/
def member (present : Bool) (key : String) (v : Json) : JsonObject :=
  if present then [(key, v)] else []

/-- The action after it has been fixed (lines 180–184). -/
def RouteRule.fixedAction (rule : RouteRule) : String :=
  if rule.action = "route" then
    if rule.outboundID = blockID then "reject"
    else if rule.outboundID = dnsOutID then "hijack-dns"
    else rule.action
  else rule.action

/-- `get_rule_json(false, false, outboundTag)` (lines 149–227). -/
def RouteRule.getRuleJson (ruleSetName : String → String) (rule : RouteRule)
    (outboundTag : String) : JsonObject :=
  let action := rule.fixedAction
  let overridePort := (Qt.toInt rule.overridePort.toList).getD 0
  let routes := action = "route" ∨ action = "route-options"
  member (rule.ipVersion ≠ "") "ip_version"
      (.number (.ofInt ((Qt.toInt rule.ipVersion.toList).getD 0))) ++
    member (rule.network ≠ "") "network" (.string rule.network) ++
    member (rule.protocol ≠ "") "protocol" (.string rule.protocol) ++
    member (isValidStrArray rule.inbound) "inbound" (stringArray rule.inbound) ++
    member (isValidStrArray rule.domain) "domain" (stringArray rule.domain) ++
    member (isValidStrArray rule.domainSuffix) "domain_suffix" (stringArray rule.domainSuffix) ++
    member (isValidStrArray rule.domainKeyword) "domain_keyword" (stringArray rule.domainKeyword) ++
    member (isValidStrArray rule.domainRegex) "domain_regex" (stringArray rule.domainRegex) ++
    member (isValidStrArray rule.sourceIpCidr) "source_ip_cidr" (stringArray rule.sourceIpCidr) ++
    member rule.sourceIpIsPrivate "source_ip_is_private" (.bool true) ++
    member (isValidStrArray rule.ipCidr) "ip_cidr" (stringArray rule.ipCidr) ++
    member rule.ipIsPrivate "ip_is_private" (.bool true) ++
    member (isValidStrArray rule.sourcePort) "source_port" (intArray rule.sourcePort) ++
    member (isValidStrArray rule.sourcePortRange) "source_port_range"
      (stringArray rule.sourcePortRange) ++
    member (isValidStrArray rule.port) "port" (intArray rule.port) ++
    member (isValidStrArray rule.portRange) "port_range" (stringArray rule.portRange) ++
    member (isValidStrArray rule.processName) "process_name" (stringArray rule.processName) ++
    member (isValidStrArray rule.processPath) "process_path" (stringArray rule.processPath) ++
    member (isValidStrArray rule.processPathRegex) "process_path_regex"
      (stringArray rule.processPathRegex) ++
    member (isValidStrArray rule.ruleSet) "rule_set" (stringArray (rule.ruleSet.map ruleSetName)) ++
    member rule.invert "invert" (.bool true) ++
    [("action", .string action)] ++
    member (action = "reject" ∧ rule.rejectMethod ≠ "") "reject_method" (.string rule.rejectMethod) ++
    member (action = "reject" ∧ rule.noDrop) "no_drop" (.bool true) ++
    member (routes ∧ rule.overrideAddress ≠ "") "override_address" (.string rule.overrideAddress) ++
    member (routes ∧ overridePort > 0) "override_port" (.number (.ofInt overridePort)) ++
    member (action = "route") "outbound"
      (if outboundTag ≠ "" then .string outboundTag else .number (.ofInt rule.outboundID)) ++
    member (action = "sniff" ∧ rule.sniffOverrideDest) "override_destination" (.bool true) ++
    member (action = "resolve" ∧ rule.strategy ≠ "") "strategy" (.string rule.strategy)

/-! ## Rule sets -/

/-- What is known of the text of a rule set: `QUrl`, `qHash` and the catalogue. -/
structure RuleSetSource where
  /-- `QUrl(s).isValid()` -/
  isValid : String → Bool
  /-- `QUrl(s).fileName()` -/
  fileName : String → String
  /-- `qHash(QUrl(s).toEncoded())` -/
  hash : String → ℕ
  /-- `get_jsdelivr_link(QUrl(s).toString())` -/
  link : String → String
  /-- `ruleSetMap` -/
  map : String → Option String

def adblock : String := "nekobox-adblocksingbox"

def adblockUrl : String :=
  "https://raw.githubusercontent.com/217heidai/adblockfilters/main/rules/adblocksingbox.srs"

namespace RuleSetSource

variable (R : RuleSetSource)

/-- The URL of a rule set file. -/
def isFile (s : String) : Bool :=
  R.isValid s && ((R.fileName s).endsWith ".srs" || (R.fileName s).endsWith ".json")

/-- The tag of a rule set named by its URL. -/
def fileTag (s : String) : String :=
  (R.fileName s).replace "." "-" ++ "-" ++ (R.hash s).repr

/-- `get_rule_set_name` (lines 301–312) -/
def name (ruleSet : String) : String := if R.isFile ruleSet then R.fileTag ruleSet else ruleSet

/-- The URL of a rule set named in the catalogue. -/
def catalogueUrl (ruleSet : String) : Option String :=
  match R.map ruleSet with
  | some url => some url
  | none => if ruleSet = adblock then some adblockUrl else none

def remote (tag url : String) : JsonObject :=
  [("type", .string "remote"),
    ("format", .string (if (R.fileName url).endsWith ".srs" then "binary" else "source")),
    ("tag", .string tag), ("url", .string (R.link url))]

/-- `get_rule_set_json` (lines 314–373) -/
def json (ruleSet : String) : JsonObject :=
  if R.isFile ruleSet then R.remote (R.fileTag ruleSet) ruleSet
  else
    match R.catalogueUrl ruleSet with
    | none => []
    | some url => if R.isFile url then R.remote ruleSet url else []

end RuleSetSource

/-! ## `RoutingChain` -/

/-- The rule that rejects what the ad block list holds. -/
def adblockRule : JsonObject :=
  [("action", .string "reject"), ("rule_set", .array [.string adblock])]

/-- `outboundMap`: the tags of outbounds. -/
abbrev OutboundMap := List (ℤ × String)

/-- `outboundMap[id]`, empty if there is none. -/
def OutboundMap.tag (m : OutboundMap) (id : ℤ) : String := (m.lookup id).getD ""

/-- The loop of `get_route_rules` (lines 674–691), with `added_adblock`. -/
def routeRulesFrom (ruleSetName : String → String) (adblockEnable : Bool) (outboundMap : OutboundMap)
    (addedAdblock : Bool) : List RouteRule → List JsonObject
  | [] => if !addedAdblock && adblockEnable then [adblockRule] else []
  | rule :: rules =>
    let ruleJson := rule.getRuleJson ruleSetName (outboundMap.tag rule.outboundID)
    if !addedAdblock && adblockEnable && rule.fixedAction = "route" then
      adblockRule :: ruleJson :: routeRulesFrom ruleSetName adblockEnable outboundMap true rules
    else ruleJson :: routeRulesFrom ruleSetName adblockEnable outboundMap addedAdblock rules

/-- `get_route_rules(false, false, outboundMap)` (lines 663–692). A rule always has
    an action, so its JSON is never empty. -/
def getRouteRules (ruleSetName : String → String) (adblockEnable : Bool) (outboundMap : OutboundMap)
    (rules : List RouteRule) : List JsonObject :=
  routeRulesFrom ruleSetName adblockEnable outboundMap false rules

/-- `GetDefaultChain` (lines 694–706) -/
def defaultChain : RoutingChain where
  priority := 1
  defaultOutboundID := proxyID
  rules := [{ action := "hijack-dns", protocol := "dns" }]

/-- `get_used_outbounds` (lines 708–714) -/
def getUsedOutbounds (rules : List RouteRule) : List ℤ := rules.map RouteRule.outboundID

/-- `get_used_rule_sets` (lines 716–724) -/
def getUsedRuleSets (rules : List RouteRule) : List String := rules.flatMap RouteRule.ruleSet

/-- What a rule contributes to `get_direct_sites`. -/
def directSitesOf (rule : RouteRule) : List String :=
  (rule.ruleSet.filter (startsWith "geosite-")).map ("ruleset:" ++ ·) ++
    rule.domain.map ("domain:" ++ ·) ++ rule.domainSuffix.map ("suffix:" ++ ·) ++
    rule.domainKeyword.map ("keyword:" ++ ·) ++ rule.domainRegex.map ("regex:" ++ ·)

/-- `get_direct_sites` (lines 726–748) -/
def getDirectSites (rules : List RouteRule) : List String :=
  rules.flatMap fun rule => if rule.outboundID = directID then directSitesOf rule else []

/-- What a rule contributes to `get_direct_ips`. -/
def directIpsOf (rule : RouteRule) : List String :=
  (rule.ruleSet.filter (startsWith "geoip-")).map ("ruleset:" ++ ·) ++
    rule.ipCidr.map ("ip:" ++ ·)

/-- `get_direct_ips` (lines 750–764) -/
def getDirectIps (rules : List RouteRule) : List String :=
  rules.flatMap fun rule => if rule.outboundID = directID then directIpsOf rule else []

end NekoBox.Config
