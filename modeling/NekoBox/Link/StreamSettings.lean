import NekoBox.Config.Routing
import NekoBox.Lib.Members
import NekoBox.Link.Fields
import NekoBox.Link.Ini

/-!
# Stream settings

`V2rayStreamSettings` (`V2RayStreamSettings.hpp`, lines 34–179): the transport and
the TLS settings of an outbound (`Bean2CoreObj_box.cpp`, lines 27–285), and how
they are written to a link (`Bean2Link.cpp`, lines 43–95).
-/

namespace NekoBox.Link

open NekoBox.Config NekoBox.Lib NekoBox.Qt NekoBox.Store

def v2rayTransports : Enumeration :=
  ⟨["tcp", "http", "grpc", "quic", "httpupgrade", "ws", "xhttp", "kcp"], 0⟩

def vmessPacketEncodings : Enumeration := ⟨["", "packetaddr", "xudp"], 0⟩

/-- `KCPExtra` -/
structure KCPExtra where
  mtu : ℤ := -1
  tti : ℤ := -1
  uplinkcapacity : ℤ := -1
  downlinkcapacity : ℤ := -1
  congestion : Bool := false
  readbuffersize : ℤ := -1
  writebuffersize : ℤ := -1
  headertype : String := ""
  seed : String := ""

/-- `V2rayStreamSettings` -/
structure V2rayStreamSettings where
  echConfig : String := ""
  enableEch : Bool := false
  queryServerName : String := ""
  network : ℤ := v2rayTransports.valueOf "tcp"
  security : String := ""
  packetEncoding : ℤ := 0
  path : String := ""
  host : String := ""
  method : String := ""
  headers : String := ""
  headerType : String := ""
  sni : String := ""
  alpn : String := ""
  certificate : String := ""
  utlsFingerprint : String := ""
  enableTlsFragment : Bool := false
  tlsFragmentFallbackDelay : String := ""
  enableTlsRecordFragment : Bool := false
  allowInsecure : Bool := false
  wsEarlyDataName : String := ""
  wsEarlyDataLength : ℤ := 0
  xhttpMode : String := "auto"
  xhttpExtra : String := ""
  kcpExtra : KCPExtra := {}
  realityPbk : String := ""
  realitySid : String := ""

/-- What the beans use of the settings and of Qt. -/
structure StreamLibrary extends UrlLibrary where
  /-- `dataStore->utlsFingerprint` -/
  utlsFingerprint : String
  /-- `dataStore->skip_cert` -/
  skipCert : Bool
  /-- `QJsonDocument::fromJson(s.toUtf8()).object()`, sorted by the keys -/
  jsonObject : String → JsonObject
  /-- `QString::fromUtf8(QJsonDocument(o).toJson(QJsonDocument::Compact))` -/
  compactJson : JsonObject → String
  toUpper : String → String

/-- A library for one URL. The objects of XHTTP are left out. -/
def StreamLibrary.ofUrl (known : Url) : StreamLibrary where
  toUrlLibrary := .ofUrl known
  utlsFingerprint := ""
  skipCert := false
  jsonObject _ := []
  compactJson _ := "\x7b\x7d"
  toUpper s := String.ofList (s.toList.map Char.toUpper)

/-- The name of the transport. -/
def V2rayStreamSettings.networkName (s : V2rayStreamSettings) : String :=
  v2rayTransports.nameOf s.network

/-! ## Headers -/

/-- The items read, and what is read of the next one, in reverse. -/
structure HeaderState where
  inQuote : Bool := false
  curr : List Char := []
  list : List String := []

/-- `if (!curr.isEmpty()) { list << curr; curr = ""; }` -/
def HeaderState.flush (st : HeaderState) : HeaderState :=
  if st.curr = [] then st
  else { st with list := st.list ++ [String.ofList st.curr.reverse], curr := [] }

/-- The loop of `GetHeaderPairs`. -/
def HeaderState.step (st : HeaderState) (ch : Char) : HeaderState :=
  if st.inQuote then
    if ch = '"' then ⟨false, [], st.list ++ [String.ofList st.curr.reverse]⟩
    else { st with curr := ch :: st.curr }
  else if ch = '"' then { st with inQuote := true }
  else if ch = ' ' ∨ ch = '=' then st.flush
  else { st with curr := ch :: st.curr }

/-- `res[list[i]] = list[i + 1]`; `none` if there is one item too many. -/
def pairUp : List String → List (String × String) → Option (List (String × String))
  | [], res => some res
  | [_], _ => none
  | key :: value :: list, res => pairUp list (OrderedMap.assign Ini.keyLess key value res)

/-- `GetHeaderPairs`; no pairs if they are not valid. -/
def getHeaderPairs (headers : String) : List (String × String) :=
  (pairUp (headers.toList.foldl HeaderState.step {}).flush.list []).getD []

/-- `QMapString2QJsonObject` -/
def textObject (pairs : List (String × String)) : Json :=
  .object (pairs.map fun p => (p.1, .string p.2))

/-! ## `parseExtraXhttp` -/

/-- `toLower().replace("_", "")` of a key. -/
def extraKey (key : String) : String :=
  String.ofList ((lowerName key).toList.filter fun c => c ≠ '_')

def rangeObject (first last : Json) : Json := .object [("from", first), ("to", last)]

/-- An `int` read of a value. -/
def intValue (v : Json) : Json := jsonInt v.toInt.toInt

/-- `value.toInteger()` -/
def integerValue : Json → Json
  | .number n => jsonInt n.toInteger.toInt
  | _ => jsonInt 0

def boolValue : Json → Json
  | .bool b => .bool b
  | _ => .bool false

def objectValue : Json → Json
  | .object o => .object o
  | _ => .object []

/-- `getXbadoptionRange` (lines 66–82) -/
def getXbadoptionRange : Json → Json
  | .string s =>
    let parts := split '-' s
    let first := parts.headD ""
    rangeObject (jsonInt (intOf first)) (jsonInt (intOf (parts.getD 1 first)))
  | .object o =>
    rangeObject (intValue (JsonObject.value o "from")) (intValue (JsonObject.value o "to"))
  | v => rangeObject (intValue v) (intValue v)

/-- The options that are taken over from an object: the key, the name the option is
    given and how its value is read. Options are put in one after another. -/
def addOptions (options : List (String × String × (Json → Json))) (members : JsonObject)
    (obj : JsonObject) : JsonObject :=
  members.foldl (fun (obj : JsonObject) m =>
    match options.lookup (extraKey m.1) with
    | some (name, read) => obj.insert name (read m.2)
    | none => obj) obj

/-- `getXmux` (lines 27–47) -/
def getXmux (v : Json) : Json :=
  let members := match v with
    | .object o => o
    | _ => []
  .object <| addOptions
    [("maxconcurrency", "max_concurrency", getXbadoptionRange),
      ("maxconnections", "max_connections", getXbadoptionRange),
      ("cmaxreusetimes", "c_max_reuse_times", getXbadoptionRange),
      ("hmaxrequesttimes", "h_max_request_times", getXbadoptionRange),
      ("hmaxreusablesecs", "h_max_reusable_secs", getXbadoptionRange),
      ("hkeepaliveperiod", "h_keep_alive_period", integerValue)] members []

/-- `domainStrategy` (lines 49–64) -/
def domainStrategy : Json → Json
  | .number n => intValue (.number n)
  | v =>
    let strategies := ["preferipv4", "preferipv6", "ipv4only", "ipv6only"]
    jsonInt (((strategies.findIdx? (· = extraKey v.toString)).map fun i => (i : ℤ) + 1).getD 0)

def textValue (v : Json) : Json := .string v.toString

/-- The options of XHTTP (lines 101–159). -/
def xhttpOptions : List (String × String × (Json → Json)) :=
  [("xpaddingbytes", "x_padding_bytes", getXbadoptionRange),
    ("nogrpcheader", "no_grpc_header", boolValue), ("nosseheader", "no_sse_header", boolValue),
    ("scmaxeachpostbytes", "sc_max_each_post_bytes", getXbadoptionRange),
    ("scminpostsintervalms", "sc_min_posts_interval_ms", getXbadoptionRange),
    ("scmaxbufferedposts", "sc_max_buffered_posts", integerValue),
    ("scstreamupserversecs", "sc_stream_up_server_secs", getXbadoptionRange),
    ("domainstrategy", "domain_strategy", domainStrategy), ("headers", "headers", objectValue),
    ("xmux", "xmux", getXmux), ("xpaddingobfsmode", "x_padding_obfs_mode", boolValue),
    ("xpaddingkey", "x_padding_key", textValue),
    ("xpaddingheader", "x_padding_header", textValue),
    ("xpaddingplacement", "x_padding_placement", textValue),
    ("xpaddingmethod", "x_padding_method", textValue),
    ("uplinkhttpmethod", "uplink_http_method", textValue),
    ("sessionplacement", "session_placement", textValue), ("sessionkey", "session_key", textValue),
    ("seqplacement", "seq_placement", textValue), ("seqkey", "seq_key", textValue),
    ("uplinkdataplacement", "uplink_data_placement", textValue),
    ("uplinkdatakey", "uplink_data_key", textValue),
    ("uplinkchunksize", "uplink_chunk_size", textValue), ("server", "server", textValue),
    ("serverport", "server_port", intValue), ("detour", "detour", textValue),
    ("tls", "tls", objectValue)]

/-- `parseExtraXhttp` -/
def parseExtraXhttp (L : StreamLibrary) (transport : JsonObject) (extra : String) : JsonObject :=
  addOptions xhttpOptions (L.jsonObject (replaceText extra "+" "")) transport

/-! ## `BuildStreamSettingsSingBox` -/

/-- The value of `add_non_empty`. -/
def nonEmpty (value : String) : Option Json := if value = "" then none else some (.string value)

/-- A value that is there on a condition. -/
def onlyIf (c : Prop) [Decidable c] (v : Json) : Option Json := if c then some v else none

/-- `QListStr2QJsonArray(s.split(","))` -/
def commaArray (s : String) : Json := stringArray (withoutBlanks (split ',' s))

/-- `parseExtraKCP` (lines 84–94) -/
def KCPExtra.members (extra : KCPExtra) : List (String × Option Json) :=
  [("mtu", onlyIf (0 ≤ extra.mtu) (jsonInt extra.mtu)),
    ("tti", onlyIf (0 ≤ extra.tti) (jsonInt extra.tti)),
    ("uplink_capacity", onlyIf (0 ≤ extra.uplinkcapacity) (jsonInt extra.uplinkcapacity)),
    ("downlink_capacity", onlyIf (0 ≤ extra.downlinkcapacity) (jsonInt extra.downlinkcapacity)),
    ("congestion", onlyIf extra.congestion (.bool true)),
    ("read_buffer_size", onlyIf (0 ≤ extra.readbuffersize) (jsonInt extra.readbuffersize)),
    ("write_buffer_size", onlyIf (0 ≤ extra.writebuffersize) (jsonInt extra.writebuffersize)),
    ("header_type", nonEmpty extra.headertype), ("seed", nonEmpty extra.seed)]

/-! ## Headers and hosts -/

/-- The keys of the pairs are in order. -/
theorem pairwise_pairUp {list : List String} {res res' : List (String × String)}
    (hres : res.Pairwise fun p p' => Ini.keyLess p.1 p'.1 = true)
    (h : pairUp list res = some res') :
    res'.Pairwise fun p p' => Ini.keyLess p.1 p'.1 = true := by
  have htrans : ∀ a b c, Ini.keyLess a b = true → Ini.keyLess b c = true →
      Ini.keyLess a c = true := by
    intro a b c hab hbc
    rw [Ini.keyLess, decide_eq_true_eq] at *
    exact lt_trans hab hbc
  fun_induction pairUp list res with
  | case1 res =>
    obtain rfl := Option.some.inj h
    exact hres
  | case2 => cases h
  | case3 key value list res ih => exact ih (OrderedMap.pairwise_assign htrans hres) h

theorem pairwise_getHeaderPairs (headers : String) :
    (getHeaderPairs headers).Pairwise fun p p' => Ini.keyLess p.1 p'.1 = true := by
  rw [getHeaderPairs]
  cases hpairs : pairUp (headers.toList.foldl HeaderState.step {}).flush.list [] with
  | none => exact List.Pairwise.nil
  | some pairs => exact pairwise_pairUp List.Pairwise.nil hpairs

theorem textObject_inj {pairs pairs' : List (String × String)} :
    textObject pairs = textObject pairs' ↔ pairs = pairs' := by
  constructor
  · intro h
    refine List.map_injective_iff.mpr ?_ (Json.object.inj h)
    rintro ⟨k, v⟩ ⟨k', v'⟩ heq
    simpa using heq
  · exact congrArg textObject

theorem stringArray_inj {l l' : List String} : stringArray l = stringArray l' ↔ l = l' := by
  constructor
  · intro h
    exact List.map_injective_iff.mpr (fun a b => Json.string.inj) (Json.array.inj h)
  · exact congrArg stringArray

/-- A character that is no blank stands in one of the items of a list. -/
theorem exists_mem_commaItems {s : String} {c : Char} (hcomma : c ≠ ',')
    (hspace : isSpace c = false) :
    (∃ item ∈ withoutBlanks (split ',' s), c ∈ item.toList) ↔ c ∈ s.toList := by
  rw [← exists_mem_split hcomma]
  constructor
  · rintro ⟨item, hitem, hc⟩
    exact ⟨item, List.mem_of_mem_filter hitem, hc⟩
  · rintro ⟨item, hitem, hc⟩
    refine ⟨item, List.mem_filter.mpr ⟨hitem, ?_⟩, hc⟩
    simpa using not_isBlank hc hspace

/-- Hosts come back if they are not separated by `|`. -/
theorem hosts_replaceText (host : String) :
    onlyIf (replaceText host "|" "," ≠ "") (commaArray (replaceText host "|" ",")) =
        onlyIf (host ≠ "") (commaArray host) ↔ '|' ∉ host.toList := by
  have htext : (replaceText host "|" ",").toList = host.toList.map fun c => if c = '|' then ',' else c :=
    toList_replaceText rfl rfl
  by_cases hbar : '|' ∈ host.toList
  · refine iff_of_false ?_ (not_not.mpr hbar)
    intro h
    have hhost : host ≠ "" := by
      rintro rfl
      cases hbar
    have hnew : replaceText host "|" "," ≠ "" := by
      intro hempty
      rw [hempty] at htext
      rw [List.map_eq_nil_iff.mp htext.symm] at hbar
      cases hbar
    rw [onlyIf, if_pos hnew, onlyIf, if_pos hhost] at h
    have hitems := stringArray_inj.mp (Option.some.inj h)
    have hold := (exists_mem_commaItems (s := host) (c := '|') (by decide) (by decide)).mpr hbar
    rw [← hitems, exists_mem_commaItems (by decide) (by decide), htext, List.mem_map] at hold
    obtain ⟨c, -, hc⟩ := hold
    split_ifs at hc with heq
    · exact absurd hc (by decide)
    · exact heq hc
  · have hsame : replaceText host "|" "," = host := by
      refine String.toList_injective (htext.trans ?_)
      refine (List.map_congr_left fun c hc => ?_).trans (List.map_id _)
      have hne : c ≠ '|' := fun heq => hbar (heq ▸ hc)
      rw [if_neg hne]
      rfl
    rw [hsame]
    exact iff_of_true rfl hbar

/-! ## The settings -/

namespace V2rayStreamSettings

variable (L : StreamLibrary) (s : V2rayStreamSettings)

/-- The length and the header of the early data: those of the settings replace those
    in the path. -/
def earlyData : Option (ℤ × String) :=
  let ed := if containsText s.path "?ed=" then intOf (subStrAfter s.path "?ed=") else 0
  if 0 < s.wsEarlyDataLength then some (s.wsEarlyDataLength, s.wsEarlyDataName)
  else if 0 < ed then some (ed, "Sec-WebSocket-Protocol")
  else none

/-- The headers of a WebSocket, with the host among them. -/
def wsHeaders : List (String × String) :=
  if s.host = "" then getHeaderPairs s.headers
  else OrderedMap.assign Ini.keyLess "Host" s.host (getHeaderPairs s.headers)

/-- The object `transport` of a network other than TCP. -/
def networkTransport (network : String) : JsonObject :=
  if network = "ws" then
    Members.present
      [("type", some (.string network)), ("path", nonEmpty (subStrBefore s.path "?ed=")),
        ("max_early_data", s.earlyData.map fun e => jsonInt e.1),
        ("early_data_header_name", s.earlyData.map fun e => .string e.2),
        ("headers", some (textObject s.wsHeaders))]
  else if network = "http" then
    Members.present
      [("type", some (.string network)), ("path", nonEmpty s.path),
        ("method", nonEmpty (L.toUpper s.method)),
        ("host", onlyIf (s.host ≠ "") (commaArray s.host)),
        ("headers", some (textObject (getHeaderPairs s.headers)))]
  else if network = "grpc" then
    Members.present [("type", some (.string network)), ("service_name", nonEmpty s.path)]
  else if network = "httpupgrade" then
    Members.present
      [("type", some (.string network)), ("path", nonEmpty s.path), ("host", nonEmpty s.host),
        ("headers", some (textObject (getHeaderPairs s.headers)))]
  else if network = "xhttp" then
    let transport := Members.present
      [("type", some (.string network)), ("path", nonEmpty s.path), ("host", nonEmpty s.host),
        ("mode", some (.string s.xhttpMode))]
    parseExtraXhttp L transport s.xhttpExtra
  else if network = "kcp" then
    Members.present (("type", some (.string network)) :: s.kcpExtra.members)
  else [("type", .string network)]

/-- The object `transport`. The names of the networks are in lower case, and none of
    them is a former name of `xhttp`. -/
def transport : Option JsonObject :=
  let network := s.networkName
  if network ≠ "tcp" then if network = "" then none else some (s.networkTransport L network)
  else if s.headerType = "http" then
    some
      [("type", .string "http"), ("method", .string "GET"), ("path", .string s.path),
        ("headers", .object [("Host", commaArray s.host)])]
  else none

def echObject : JsonObject :=
  let lines := split '\n' (trimString s.echConfig)
  Members.present
    [("enabled", some (.bool true)), ("config", some (stringArray (withoutBlanks lines))),
      ("query_server_name", nonEmpty s.queryServerName)]

def realityObject : JsonObject :=
  [("enabled", .bool true), ("public_key", .string s.realityPbk),
    ("short_id", .string ((split ',' s.realitySid).headD ""))]

/-- `fp`: with Reality there is always one. -/
def fingerprint : String :=
  if ¬ isBlank s.realityPbk ∧ s.utlsFingerprint = "" then "random" else s.utlsFingerprint

/-- The members of `tls` that every outbound can have, and those of all but Naive. -/
def tlsMembers (isNaive : Bool) : List (String × Option Json) :=
  let other (v : Option Json) : Option Json := if isNaive then none else v
  [("enabled", some (.bool true)), ("ech", onlyIf s.enableEch (.object s.echObject)),
    ("server_name", nonEmpty s.sni),
    ("certificate", nonEmpty (trimString s.certificate)),
    ("insecure", other (onlyIf (s.allowInsecure ∨ L.skipCert) (.bool true))),
    ("alpn", other (onlyIf (¬ isBlank s.alpn) (commaArray s.alpn))),
    ("reality", other (onlyIf (¬ isBlank s.realityPbk) (.object s.realityObject))),
    ("utls", other (onlyIf (s.fingerprint ≠ "")
      (.object [("enabled", .bool true), ("fingerprint", .string s.fingerprint)]))),
    ("fragment", other (onlyIf s.enableTlsFragment (.bool true))),
    ("fragment_fallback_delay",
      other (if s.enableTlsFragment then nonEmpty s.tlsFragmentFallbackDelay else none)),
    ("record_fragment", other (onlyIf s.enableTlsRecordFragment (.bool true)))]

/-- The object `tls`. -/
def tls (isNaive : Bool) : Option JsonObject :=
  if s.security = "tls" then some (Members.present (s.tlsMembers L isNaive)) else none

/-- What `BuildStreamSettingsSingBox` adds to an outbound of the type. -/
def outboundMembers (type : String) : List (String × Option Json) :=
  let isNaive : Bool := type = "naive"
  [("transport", if isNaive then none else (s.transport L).map .object),
    ("tls", (s.tls L isNaive).map .object),
    ("packet_encoding", onlyIf (type = "vmess" ∨ type = "vless")
      (.string (vmessPacketEncodings.nameOf s.packetEncoding)))]

/-! ## Writing a link -/

/-- `security` in a link. -/
def linkSecurity : String :=
  if s.security = "tls" ∧ ¬ isBlank s.realityPbk then "reality" else s.security

/-- The pairs of the network (lines 72–93). -/
def addNetworkQuery (query : QUrlQuery) : QUrlQuery :=
  let network := s.networkName
  let withPath := addQueryString query "path" s.path
  if network = "ws" ∨ network = "httpupgrade" then addQueryString withPath "host" s.host
  else if network = "http" then
    addQueryString (addQueryString withPath "host" s.host) "method" s.method
  else if network = "grpc" then addQueryString query "serviceName" s.path
  else if network = "tcp" then
    if s.headerType = "http" then
      addQueryString (addQueryString withPath "headerType" "http") "host" s.host
    else query
  else if network = "xhttp" then
    let query := addQueryString withPath "host" s.host
    addQueryString (addQueryString query "mode" s.xhttpMode) "extra" s.xhttpExtra
  else query

/-- A pair that is there on a condition. -/
def addQueryIf (c : Prop) [Decidable c] (query : QUrlQuery) (name value : String) : QUrlQuery :=
  if c then addQueryItem query name value else query

@[simp]
theorem lookup_addQueryIf {c : Prop} [Decidable c] {query : QUrlQuery} {name value key : String} :
    (addQueryIf c query name value).lookup key =
      (query.lookup key).or (if key = name ∧ c then some value else none) := by
  unfold addQueryIf
  by_cases hc : c
  · rw [if_pos hc, lookup_addQueryItem]
    simp only [hc, and_true]
  · rw [if_neg hc, if_neg fun h => hc h.2, Option.or_none]

/-- `To_Link::add_tls` (lines 43–95) -/
def addTls (query : QUrlQuery) : QUrlQuery :=
  let security := s.linkSecurity
  let query := addQueryItem query "security" (if security = "" then "none" else security)
  let query := addQueryString query "sni" s.sni
  let query := addQueryString query "alpn" s.alpn
  let query := addQueryString query "ech_config" (if s.enableEch then s.echConfig else "")
  let query := addQueryString query "query_server_name"
    (if s.enableEch then s.queryServerName else "")
  let query := addQueryIf s.allowInsecure query "insecure" "1"
  let query := addQueryItem query "fp"
    (if s.utlsFingerprint = "" then L.utlsFingerprint else s.utlsFingerprint)
  let query := addQueryIf s.enableTlsFragment query "fragment" "1"
  let query := addQueryString query "fragment_fallback_delay" s.tlsFragmentFallbackDelay
  let query := addQueryIf s.enableTlsRecordFragment query "record_fragment" "1"
  let query := addQueryString query "pbk" (if security = "reality" then s.realityPbk else "")
  let query := addQueryString query "sid" (if security = "reality" then s.realitySid else "")
  let query := addQueryString query "type" s.networkName
  s.addNetworkQuery query

end V2rayStreamSettings

end NekoBox.Link
