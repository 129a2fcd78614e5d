import NekoBox.Link.StreamSettings

/-!
# Stream settings in a link

How Trojan, VLESS and VMess read stream settings of a link (`TrojanVLESSBean.cpp`,
lines 61–137, and `VMessBean.cpp`, lines 148–205), and what is left of the settings
a link was written from.

* `transport_readTransport_iff`: when the transport is the one of the settings;
* `tls_readTls_iff`: when the TLS settings are.
-/

namespace NekoBox.Link

open NekoBox.Config NekoBox.Lib NekoBox.Qt NekoBox.Store

/-! ## Reading -/

/-- The network a link names (lines 66–76). -/
def linkTransport (query : QUrlQuery) : String :=
  let network := lowerName (getQueryValue query "type" "tcp")
  if network = "h2" then "http"
  else if network = "splithttp" ∨ network = "split-http" then "xhttp"
  else network

/-- `sni` and `peer`, of which the second one counts. -/
def linkSni (sni : String) (query : QUrlQuery) : String :=
  let sni1 := getQueryValue query "sni" ""
  let sni2 := getQueryValue query "peer" ""
  if sni2 ≠ "" then sni2 else if sni1 ≠ "" then sni1 else sni

/-- The fields of `tls` that the links of all three protocols have. -/
def readTls (L : StreamLibrary) (s : V2rayStreamSettings) (query : QUrlQuery) :
    V2rayStreamSettings :=
  let fp := getQueryValue query "fp" ""
  { s with
    sni := linkSni s.sni query
    allowInsecure := s.allowInsecure || queryItemValue query "allowInsecure" ≠ ""
    realityPbk := getQueryValue query "pbk" ""
    realitySid := getQueryValue query "sid" ""
    utlsFingerprint := if fp = "" then L.utlsFingerprint else fp
    enableTlsFragment := s.enableTlsFragment || queryItemValue query "fragment" = "1"
    tlsFragmentFallbackDelay := queryItemValue query "fragment_fallback_delay"
    enableTlsRecordFragment :=
      s.enableTlsRecordFragment || queryItemValue query "record_fragment" = "1" }

/-- `x_padding_bytes` of a link goes into the options of XHTTP. -/
def linkExtra (L : StreamLibrary) (query : QUrlQuery) : String :=
  let extra := getQueryValue query "extra" ""
  let padding := getQueryValue query "x_padding_bytes" (getQueryValue query "xPaddingBytes" "")
  if padding = "" then extra
  else L.compactJson ((L.jsonObject extra).insert "xPaddingBytes" (.string padding))

/-- The fields of the transport (lines 103–137). -/
def readTransport (L : StreamLibrary) (s : V2rayStreamSettings) (query : QUrlQuery)
    (withMethod : Bool) : V2rayStreamSettings :=
  let network := linkTransport query
  let path := getQueryValue query "path" ""
  let host := getQueryValue query "host" ""
  if network = "ws" then { s with path := path, host := host }
  else if network = "http" then
    { s with
      path := path
      host := replaceText host "|" ","
      method := if withMethod then getQueryValue query "method" "" else s.method }
  else if network = "httpupgrade" then { s with path := path, host := host }
  else if network = "grpc" then { s with path := getQueryValue query "serviceName" "" }
  else if network = "tcp" then
    if getQueryValue query "headerType" "" = "http" then
      { s with headerType := "http", path := path, host := host }
    else s
  else if network = "xhttp" then
    { s with
      path := path
      host := host
      xhttpMode := getQueryValue query "mode" "auto"
      xhttpExtra := linkExtra L query }
  else s

/-! ## What is found in a link -/

namespace V2rayStreamSettings

theorem lookup_ite {c : Prop} [Decidable c] {q r : QUrlQuery} {key : String} :
    (if c then q else r).lookup key = if c then q.lookup key else r.lookup key := by
  split_ifs <;> rfl

variable (L : StreamLibrary) (s : V2rayStreamSettings) {key : String}

/-- The keys of the network. -/
def networkKeys : List String :=
  ["path", "host", "method", "serviceName", "headerType", "mode", "extra"]

theorem lookup_addNetworkQuery {query : QUrlQuery} (hkey : key ∉ networkKeys) :
    (s.addNetworkQuery query).lookup key = query.lookup key := by
  simp only [networkKeys, List.mem_cons, List.not_mem_nil, or_false, not_or] at hkey
  obtain ⟨h1, h2, h3, h4, h5, h6, h7⟩ := hkey
  simp only [addNetworkQuery, lookup_ite, lookup_addQueryString, h1, h2, h3, h4, h5, h6, h7,
    false_and, if_false, Option.or_none, ite_self]

/-- The keys a link may have of stream settings. -/
def streamKeys : List String :=
  ["security", "sni", "alpn", "ech_config", "query_server_name", "insecure", "fp", "fragment",
    "fragment_fallback_delay", "record_fragment", "pbk", "sid", "type"] ++ networkKeys

theorem lookup_addTls {query : QUrlQuery} (hkey : key ∉ streamKeys) :
    (s.addTls L query).lookup key = query.lookup key := by
  have hnetwork : key ∉ networkKeys := fun h => hkey (List.mem_append_right _ h)
  have hown := fun h => hkey (List.mem_append_left _ h)
  simp only [List.mem_cons, List.not_mem_nil, or_false, imp_false, not_or] at hown
  rw [addTls, lookup_addNetworkQuery _ hnetwork]
  simp only [lookup_addQueryString, lookup_addQueryIf, lookup_addQueryItem, hown, false_and,
    if_false, Option.or_none]

/-- What is found in a link that `addTls` has written, under the keys of TLS. -/
structure TlsFound (query : QUrlQuery) : Prop where
  security : queryItemValue query "security" =
    if s.linkSecurity = "" then "none" else s.linkSecurity
  sni : queryItemValue query "sni" = s.sni
  peer : queryItemValue query "peer" = ""
  alpn : queryItemValue query "alpn" = s.alpn
  allowInsecure : queryItemValue query "allowInsecure" = ""
  fp : queryItemValue query "fp" =
    if s.utlsFingerprint = "" then L.utlsFingerprint else s.utlsFingerprint
  fragment : queryItemValue query "fragment" = if s.enableTlsFragment then "1" else ""
  fallbackDelay : queryItemValue query "fragment_fallback_delay" = s.tlsFragmentFallbackDelay
  recordFragment : queryItemValue query "record_fragment" =
    if s.enableTlsRecordFragment then "1" else ""
  pbk : queryItemValue query "pbk" = if s.linkSecurity = "reality" then s.realityPbk else ""
  sid : queryItemValue query "sid" = if s.linkSecurity = "reality" then s.realitySid else ""
  type : queryItemValue query "type" = s.networkName

def tlsKeys : List String :=
  ["security", "sni", "peer", "alpn", "allowInsecure", "fp", "fragment", "fragment_fallback_delay",
    "record_fragment", "pbk", "sid", "type"]

theorem tlsFound_addTls {query : QUrlQuery} (hnone : ∀ key ∈ tlsKeys, query.lookup key = none) :
    s.TlsFound L (s.addTls L query) := by
  constructor
  · rw [queryItemValue, addTls, lookup_addNetworkQuery _ (by decide)]
    simp [hnone "security" (by decide)]
  · refine queryItemValue_of_lookup ?_
    rw [addTls, lookup_addNetworkQuery _ (by decide)]
    simp [hnone "sni" (by decide)]
  · rw [queryItemValue, addTls, lookup_addNetworkQuery _ (by decide)]
    simp [hnone "peer" (by decide)]
  · refine queryItemValue_of_lookup ?_
    rw [addTls, lookup_addNetworkQuery _ (by decide)]
    simp [hnone "alpn" (by decide)]
  · rw [queryItemValue, addTls, lookup_addNetworkQuery _ (by decide)]
    simp [hnone "allowInsecure" (by decide)]
  · rw [queryItemValue, addTls, lookup_addNetworkQuery _ (by decide)]
    simp [hnone "fp" (by decide)]
  · rw [queryItemValue, addTls, lookup_addNetworkQuery _ (by decide)]
    cases s.enableTlsFragment <;> simp [hnone "fragment" (by decide)]
  · refine queryItemValue_of_lookup ?_
    rw [addTls, lookup_addNetworkQuery _ (by decide)]
    simp [hnone "fragment_fallback_delay" (by decide)]
  · rw [queryItemValue, addTls, lookup_addNetworkQuery _ (by decide)]
    cases s.enableTlsRecordFragment <;> simp [hnone "record_fragment" (by decide)]
  · refine queryItemValue_of_lookup ?_
    rw [addTls, lookup_addNetworkQuery _ (by decide)]
    simp [hnone "pbk" (by decide)]
  · refine queryItemValue_of_lookup ?_
    rw [addTls, lookup_addNetworkQuery _ (by decide)]
    simp [hnone "sid" (by decide)]
  · refine queryItemValue_of_lookup ?_
    rw [addTls, lookup_addNetworkQuery _ (by decide)]
    simp [hnone "type" (by decide)]

/-- The link is what the network adds to a query that has none of its keys. -/
theorem addTls_eq {query : QUrlQuery} (hnone : ∀ key ∈ networkKeys, query.lookup key = none) :
    ∃ query', s.addTls L query = s.addNetworkQuery query' ∧
      ∀ key ∈ networkKeys, query'.lookup key = none := by
  refine ⟨_, rfl, ?_⟩
  intro key hkey
  have hbase := hnone key hkey
  simp only [networkKeys, List.mem_cons, List.not_mem_nil, or_false] at hkey
  rcases hkey with rfl | rfl | rfl | rfl | rfl | rfl | rfl <;> simp [hbase]

/-- What is found under the keys of the network. -/
structure NetworkFound (query : QUrlQuery) : Prop where
  path : s.networkName = "ws" ∨ s.networkName = "httpupgrade" ∨ s.networkName = "http" ∨
    s.networkName = "xhttp" ∨ (s.networkName = "tcp" ∧ s.headerType = "http") →
    queryItemValue query "path" = s.path
  host : s.networkName = "ws" ∨ s.networkName = "httpupgrade" ∨ s.networkName = "http" ∨
    s.networkName = "xhttp" ∨ (s.networkName = "tcp" ∧ s.headerType = "http") →
    queryItemValue query "host" = s.host
  method : s.networkName = "http" → queryItemValue query "method" = s.method
  serviceName : s.networkName = "grpc" → queryItemValue query "serviceName" = s.path
  headerType : s.networkName = "tcp" →
    queryItemValue query "headerType" = if s.headerType = "http" then "http" else ""
  noHeaderType : s.networkName = "" → queryItemValue query "headerType" = ""
  mode : s.networkName = "xhttp" → queryItemValue query "mode" = s.xhttpMode
  extra : s.networkName = "xhttp" → queryItemValue query "extra" = s.xhttpExtra

theorem networkFound_addTls {query : QUrlQuery}
    (hnone : ∀ key ∈ networkKeys, query.lookup key = none) :
    s.NetworkFound (s.addTls L query) := by
  obtain ⟨query', heq, hnone'⟩ := s.addTls_eq L hnone
  rw [heq]
  constructor
  · intro hnetwork
    refine queryItemValue_of_lookup ?_
    rcases hnetwork with h | h | h | h | ⟨h, hheader⟩ <;>
      simp [addNetworkQuery, hnone' "path" (by decide), *]
  · intro hnetwork
    refine queryItemValue_of_lookup ?_
    rcases hnetwork with h | h | h | h | ⟨h, hheader⟩ <;>
      simp [addNetworkQuery, hnone' "host" (by decide), *]
  · intro h
    refine queryItemValue_of_lookup ?_
    simp [addNetworkQuery, hnone' "method" (by decide), h]
  · intro h
    refine queryItemValue_of_lookup ?_
    simp [addNetworkQuery, hnone' "serviceName" (by decide), h]
  · intro h
    by_cases hheader : s.headerType = "http" <;>
      simp [queryItemValue, addNetworkQuery, hnone' "headerType" (by decide), h, hheader]
  · intro h
    simp [queryItemValue, addNetworkQuery, hnone' "headerType" (by decide), h]
  · intro h
    refine queryItemValue_of_lookup ?_
    simp [addNetworkQuery, hnone' "mode" (by decide), h]
  · intro h
    refine queryItemValue_of_lookup ?_
    simp [addNetworkQuery, hnone' "extra" (by decide), h]

/-- Pairs with other keys do not change what is found. -/
theorem TlsFound.congr {L : StreamLibrary} {s : V2rayStreamSettings} {query query' : QUrlQuery}
    (h : s.TlsFound L query)
    (hsame : ∀ key ∈ tlsKeys, queryItemValue query' key = queryItemValue query key) :
    s.TlsFound L query' where
  security := (hsame _ (by decide)).trans h.security
  sni := (hsame _ (by decide)).trans h.sni
  peer := (hsame _ (by decide)).trans h.peer
  alpn := (hsame _ (by decide)).trans h.alpn
  allowInsecure := (hsame _ (by decide)).trans h.allowInsecure
  fp := (hsame _ (by decide)).trans h.fp
  fragment := (hsame _ (by decide)).trans h.fragment
  fallbackDelay := (hsame _ (by decide)).trans h.fallbackDelay
  recordFragment := (hsame _ (by decide)).trans h.recordFragment
  pbk := (hsame _ (by decide)).trans h.pbk
  sid := (hsame _ (by decide)).trans h.sid
  type := (hsame _ (by decide)).trans h.type

theorem NetworkFound.congr {s : V2rayStreamSettings} {query query' : QUrlQuery}
    (h : s.NetworkFound query)
    (hsame : ∀ key ∈ networkKeys, queryItemValue query' key = queryItemValue query key) :
    s.NetworkFound query' where
  path hnetwork := (hsame _ (by decide)).trans (h.path hnetwork)
  host hnetwork := (hsame _ (by decide)).trans (h.host hnetwork)
  method hnetwork := (hsame _ (by decide)).trans (h.method hnetwork)
  serviceName hnetwork := (hsame _ (by decide)).trans (h.serviceName hnetwork)
  headerType hnetwork := (hsame _ (by decide)).trans (h.headerType hnetwork)
  noHeaderType hnetwork := (hsame _ (by decide)).trans (h.noHeaderType hnetwork)
  mode hnetwork := (hsame _ (by decide)).trans (h.mode hnetwork)
  extra hnetwork := (hsame _ (by decide)).trans (h.extra hnetwork)

end V2rayStreamSettings

/-! ## The transport -/

namespace V2rayStreamSettings

variable {L : StreamLibrary} {s fresh : V2rayStreamSettings} {query : QUrlQuery}

/-- The network of a link, which is TCP if the settings have none. -/
theorem linkTransport_eq (htype : queryItemValue query "type" = s.networkName) :
    linkTransport query = if s.networkName = "" then "tcp" else s.networkName := by
  unfold linkTransport getQueryValue
  rw [htype]
  rcases v2rayTransports.nameOf_mem s.network with hname | hname
  · rw [show s.networkName = "" from hname, if_pos rfl]
    decide
  · have hall : ∀ name ∈ v2rayTransports.names,
        (let network := lowerName (if name = "" then "tcp" else name)
          if network = "h2" then "http"
          else if network = "splithttp" ∨ network = "split-http" then "xhttp"
          else network) = if name = "" then "tcp" else name := by
      decide
    exact hall _ hname

/-- Settings of which nothing has been read yet. -/
structure Fresh (s : V2rayStreamSettings) : Prop where
  headers : s.headers = ""
  headerType : s.headerType = ""
  wsEarlyDataName : s.wsEarlyDataName = ""
  wsEarlyDataLength : s.wsEarlyDataLength = 0
  kcpExtra : s.kcpExtra = {}

/-- The settings whose transport comes back. -/
def transportImage (s : V2rayStreamSettings) : V2rayStreamSettings :=
  { s with
    host := if s.networkName = "http" then replaceText s.host "|" "," else s.host
    headers := ""
    wsEarlyDataName := ""
    wsEarlyDataLength := 0
    xhttpMode := if s.xhttpMode = "" then "auto" else s.xhttpMode
    kcpExtra := {} }

/-- The name of the network that is read. -/
theorem networkName_link (htype : queryItemValue query "type" = s.networkName)
    (hnetwork : fresh.network = v2rayTransports.valueOf (linkTransport query)) :
    fresh.networkName = if s.networkName = "" then "tcp" else s.networkName := by
  rw [networkName.eq_1 fresh, hnetwork, linkTransport_eq htype]
  rcases v2rayTransports.nameOf_mem s.network with hname | hname
  · rw [show s.networkName = "" from hname]
    decide
  · have hall : ∀ name ∈ v2rayTransports.names,
        v2rayTransports.nameOf (v2rayTransports.valueOf (if name = "" then "tcp" else name)) =
          if name = "" then "tcp" else name := by
      decide
    exact hall _ hname

theorem transport_readTransport (hfresh : fresh.Fresh)
    (hnetwork : fresh.network = v2rayTransports.valueOf (linkTransport query))
    (htype : queryItemValue query "type" = s.networkName) (hfound : s.NetworkFound query)
    (hpadding : queryItemValue query "x_padding_bytes" = "" ∧
      queryItemValue query "xPaddingBytes" = "") :
    (readTransport L fresh query true).transport L = s.transportImage.transport L := by
  have hname := networkName_link htype hnetwork
  obtain ⟨hheaders, hheaderType, hdata, hlength, hkcp⟩ := hfresh
  have hmem := v2rayTransports.nameOf_mem s.network
  change s.networkName = "" ∨ s.networkName ∈ v2rayTransports.names at hmem
  simp only [v2rayTransports, List.mem_cons, List.not_mem_nil, or_false] at hmem
  unfold readTransport
  rw [linkTransport_eq htype]
  simp only [getQueryValue_empty]
  -- one case for each network, and one for none
  rcases hmem with h | h | h | h | h | h | h | h | h <;> rw [h] at hname ⊢ <;>
    unfold networkName at hname h
  case inl =>
    have hnone := hfound.noHeaderType h
    simp [hnone, transport, transportImage, networkName, hheaderType, hname, h]
  case inr.inl =>
    have hheader := hfound.headerType h
    by_cases hhttp : s.headerType = "http"
    · have hpath := hfound.path (by simp [networkName, h, hhttp])
      have hhost := hfound.host (by simp [networkName, h, hhttp])
      simp [hheader, hpath, hhost, hhttp, transport, transportImage, networkName, hname, h]
    · simp [hheader, hhttp, transport, transportImage, networkName, hheaderType, hname, h]
  case inr.inr.inl =>
    have hpath := hfound.path (by simp [networkName, h])
    have hhost := hfound.host (by simp [networkName, h])
    have hmethod := hfound.method h
    simp [hmethod, hpath, hhost, transport, transportImage, networkName, networkTransport, hheaders,
      hname, h]
  case inr.inr.inr.inl =>
    have hservice := hfound.serviceName h
    simp [hservice, transport, transportImage, networkName, networkTransport, hname, h]
  case inr.inr.inr.inr.inl =>
    simp [transport, transportImage, networkName, networkTransport, hname, h]
  case inr.inr.inr.inr.inr.inl =>
    have hpath := hfound.path (by simp [networkName, h])
    have hhost := hfound.host (by simp [networkName, h])
    simp [hpath, hhost, transport, transportImage, networkName, networkTransport, hheaders, hname, h]
  case inr.inr.inr.inr.inr.inr.inl =>
    have hpath := hfound.path (by simp [networkName, h])
    have hhost := hfound.host (by simp [networkName, h])
    simp [hpath, hhost, transport, transportImage, networkName, networkTransport, wsHeaders,
      earlyData, hheaders, hdata, hlength, hname, h]
  case inr.inr.inr.inr.inr.inr.inr.inl =>
    have hpath := hfound.path (by simp [networkName, h])
    have hhost := hfound.host (by simp [networkName, h])
    have hmode := hfound.mode h
    have hextra : linkExtra L query = s.xhttpExtra := by
      have hextra := hfound.extra h
      unfold linkExtra
      simp only [getQueryValue_empty, hextra]
      simp [getQueryValue, hpadding]
    simp [hpath, hhost, getQueryValue, hmode, hextra, transport, transportImage, networkName,
      networkTransport, hname, h]
  case inr.inr.inr.inr.inr.inr.inr.inr =>
    simp [transport, transportImage, networkName, networkTransport, hkcp, hname, h]

/-! ### The transport that comes back -/

/-- What a link keeps of the transport. -/
structure TransportKept (s : V2rayStreamSettings) : Prop where
  /-- Hosts are separated by commas. -/
  hosts : s.networkName = "http" → '|' ∉ s.host.toList
  /-- There are no headers, -/
  headers : s.networkName = "http" ∨ s.networkName = "httpupgrade" → getHeaderPairs s.headers = []
  /-- but the one the host replaces, -/
  wsHeaders : s.networkName = "ws" → ∀ p ∈ getHeaderPairs s.headers, p.1 = "Host" ∧ s.host ≠ ""
  /-- and early data is that of the path. -/
  earlyData : s.networkName = "ws" → s.wsEarlyDataLength ≤ 0 ∨
    (containsText s.path "?ed=" = true ∧
      s.wsEarlyDataLength = intOf (subStrAfter s.path "?ed=") ∧
      s.wsEarlyDataName = "Sec-WebSocket-Protocol")
  mode : s.networkName = "xhttp" → s.xhttpMode ≠ ""
  kcp : s.networkName = "kcp" → ∀ m ∈ s.kcpExtra.members, m.2 = none

/-- The headers of a WebSocket come back if the host replaces them all. -/
theorem wsHeaders_transportImage (hname : s.networkName = "ws") :
    s.transportImage.wsHeaders = s.wsHeaders ↔
      ∀ p ∈ getHeaderPairs s.headers, p.1 = "Host" ∧ s.host ≠ "" := by
  have himage : s.transportImage.wsHeaders = if s.host = "" then [] else [("Host", s.host)] := by
    simp only [wsHeaders, transportImage, hname]
    rfl
  rw [himage, wsHeaders]
  by_cases hhost : s.host = ""
  · rw [if_pos hhost, if_pos hhost, eq_comm, List.eq_nil_iff_forall_not_mem]
    exact forall₂_congr fun p _ => ⟨False.elim, fun h => h.2 hhost⟩
  · rw [if_neg hhost, if_neg hhost, eq_comm,
      OrderedMap.assign_eq_singleton_iff (by decide) (pairwise_getHeaderPairs s.headers)]
    exact forall₂_congr fun p _ => ⟨fun h => ⟨h, hhost⟩, And.left⟩

/-- Early data comes back if there is none but that of the path. -/
theorem earlyData_transportImage (hlength : IsInt32 s.wsEarlyDataLength) :
    (s.transportImage.earlyData.map fun e => jsonInt e.1) =
          s.earlyData.map (fun e => jsonInt e.1) ∧
        (s.transportImage.earlyData.map fun e => Json.string e.2) =
          s.earlyData.map (fun e => Json.string e.2) ↔
      s.wsEarlyDataLength ≤ 0 ∨
        (containsText s.path "?ed=" = true ∧
          s.wsEarlyDataLength = intOf (subStrAfter s.path "?ed=") ∧
          s.wsEarlyDataName = "Sec-WebSocket-Protocol") := by
  have hpath := isInt32_intOf (subStrAfter s.path "?ed=")
  have himage : s.transportImage.earlyData =
      let ed := if containsText s.path "?ed=" then intOf (subStrAfter s.path "?ed=") else 0
      if 0 < ed then some (ed, "Sec-WebSocket-Protocol") else none := rfl
  rw [himage, earlyData]
  by_cases hown : 0 < s.wsEarlyDataLength
  · rw [if_pos hown]
    by_cases hcontains : containsText s.path "?ed=" = true
    · simp only [hcontains, if_true, true_and]
      by_cases hpos : 0 < intOf (subStrAfter s.path "?ed=")
      · have hlength' : jsonInt (intOf (subStrAfter s.path "?ed=")) = jsonInt s.wsEarlyDataLength ↔
            s.wsEarlyDataLength = intOf (subStrAfter s.path "?ed=") :=
          ⟨fun h => (jsonInt_inj hpath hlength h).symm, fun h => congrArg jsonInt h.symm⟩
        simp only [if_pos hpos, Option.map_some, Option.some.injEq, hlength', Json.string.injEq]
        rw [eq_comm (a := s.wsEarlyDataName)]
        exact ⟨Or.inr, fun h => h.resolve_left (not_le.mpr hown)⟩
      · simp only [if_neg hpos, Option.map_none, Option.map_some, reduceCtorEq, false_and, false_iff]
        rintro (h | ⟨h, -⟩) <;> omega
    · simp only [hcontains, lt_irrefl, if_false, Option.map_none, Option.map_some, reduceCtorEq,
        false_and, or_false, false_iff]
      exact not_le.mpr hown
  · simp only [if_neg hown, true_and, true_iff]
    exact Or.inl (not_lt.mp hown)

/-- The options of XHTTP do not touch the other members. -/
theorem value_addOptions {options : List (String × String × (Json → Json))}
    {members obj : JsonObject} {key : String} (hkey : ∀ o ∈ options, o.2.1 ≠ key) :
    (addOptions options members obj).value key = obj.value key := by
  unfold addOptions
  induction members generalizing obj with
  | nil => rfl
  | cons m members ih =>
    rw [List.foldl_cons, ih]
    cases hlookup : options.lookup (extraKey m.1) with
    | none => rfl
    | some option =>
      obtain ⟨l, l', hsplit, -⟩ := List.lookup_eq_some_iff.mp hlookup
      refine JsonObject.value_insert_of_ne (hkey (extraKey m.1, option) ?_)
      rw [hsplit]
      exact List.mem_append_right _ List.mem_cons_self

theorem value_mode : (JsonObject.value (s.networkTransport L "xhttp") "mode") = .string s.xhttpMode := by
  have hkeys : ∀ o ∈ xhttpOptions, o.2.1 ≠ "mode" := by decide
  show JsonObject.value (parseExtraXhttp L _ s.xhttpExtra) "mode" = _
  rw [parseExtraXhttp, value_addOptions hkeys]
  by_cases hpath : s.path = "" <;> by_cases hhost : s.host = "" <;>
    simp [Members.present, nonEmpty, JsonObject.value, hpath, hhost]

theorem xhttp_transportImage (hname : s.networkName = "xhttp") :
    s.transportImage.networkTransport L "xhttp" = s.networkTransport L "xhttp" ↔
      s.xhttpMode ≠ "" := by
  constructor
  · rintro h hmode
    have hvalue := congrArg (fun o : JsonObject => o.value "mode") h
    simp only [value_mode] at hvalue
    simp [transportImage, hmode] at hvalue
  · intro hmode
    simp [transportImage, hname, hmode, networkTransport]

theorem http_transportImage (hname : s.networkName = "http") :
    s.transportImage.networkTransport L "http" = s.networkTransport L "http" ↔
      '|' ∉ s.host.toList ∧ getHeaderPairs s.headers = [] := by
  rw [← hosts_replaceText]
  show Members.present (_ : List (String × Option Json)) = Members.present _ ↔ _
  refine (Members.present_inj ?hkeys ?hnodup).trans ?_
  case hkeys => rfl
  case hnodup => simp
  simp only [transportImage, hname, if_true, List.cons.injEq, Prod.mk.injEq, true_and, and_true,
    Option.some.injEq, textObject_inj]
  exact and_congr_right fun _ => eq_comm

theorem httpupgrade_transportImage (hname : s.networkName = "httpupgrade") :
    s.transportImage.networkTransport L "httpupgrade" = s.networkTransport L "httpupgrade" ↔
      getHeaderPairs s.headers = [] := by
  show Members.present (_ : List (String × Option Json)) = Members.present _ ↔ _
  refine (Members.present_inj ?hkeys ?hnodup).trans ?_
  case hkeys => rfl
  case hnodup => simp
  have himage : s.transportImage.host = s.host := by simp [transportImage, hname]
  rw [himage]
  simp only [transportImage, List.cons.injEq, Prod.mk.injEq, true_and, and_true,
    Option.some.injEq, textObject_inj]
  exact eq_comm

theorem ws_transportImage (hname : s.networkName = "ws") (hlength : IsInt32 s.wsEarlyDataLength) :
    s.transportImage.networkTransport L "ws" = s.networkTransport L "ws" ↔
      (s.wsEarlyDataLength ≤ 0 ∨
        (containsText s.path "?ed=" = true ∧
          s.wsEarlyDataLength = intOf (subStrAfter s.path "?ed=") ∧
          s.wsEarlyDataName = "Sec-WebSocket-Protocol")) ∧
      ∀ p ∈ getHeaderPairs s.headers, p.1 = "Host" ∧ s.host ≠ "" := by
  rw [← earlyData_transportImage hlength, ← wsHeaders_transportImage hname]
  show Members.present (_ : List (String × Option Json)) = Members.present _ ↔ _
  refine (Members.present_inj ?hkeys ?hnodup).trans ?_
  case hkeys => rfl
  case hnodup => simp
  have himage : s.transportImage.path = s.path := rfl
  simp only [himage, List.cons.injEq, Prod.mk.injEq, true_and, and_true, Option.some.injEq,
    textObject_inj, and_assoc]

theorem kcp_transportImage :
    s.transportImage.networkTransport L "kcp" = s.networkTransport L "kcp" ↔
      ∀ m ∈ s.kcpExtra.members, m.2 = none := by
  have hnone : Members.present s.kcpExtra.members = [] ↔ ∀ m ∈ s.kcpExtra.members, m.2 = none := by
    simp [Members.present]
  rw [← hnone]
  show _ :: Members.present (KCPExtra.members {}) = _ :: Members.present s.kcpExtra.members ↔ _
  simp only [List.cons.injEq, true_and]
  exact eq_comm

/-- The transport comes back if it is among those that are kept. -/
theorem transport_transportImage_iff (hlength : IsInt32 s.wsEarlyDataLength) :
    s.transportImage.transport L = s.transport L ↔ s.TransportKept := by
  have hmem := v2rayTransports.nameOf_mem s.network
  change s.networkName = "" ∨ s.networkName ∈ v2rayTransports.names at hmem
  simp only [v2rayTransports, List.mem_cons, List.not_mem_nil, or_false] at hmem
  have hname : s.transportImage.networkName = s.networkName := rfl
  have hsome : s.networkName ≠ "tcp" → s.networkName ≠ "" →
      (s.transportImage.transport L = s.transport L ↔
        s.transportImage.networkTransport L s.networkName = s.networkTransport L s.networkName) := by
    intro htcp hempty
    rw [transport, transport, hname]
    simp only [htcp, hempty, ne_eq, not_false_eq_true, if_true, if_false, Option.some.injEq]
  rcases hmem with h | h | h | h | h | h | h | h | h
  case inl =>
    refine iff_of_true ?_ ?_
    · simp [transport, hname, h]
    · constructor <;> simp [h]
  case inr.inl =>
    refine iff_of_true ?_ ?_
    · have himage : s.transportImage.host = s.host := by simp [transportImage, h]
      simp only [transport, hname, h, himage]
      rfl
    · constructor <;> simp [h]
  case inr.inr.inl =>
    rw [hsome (by rw [h]; decide) (by rw [h]; decide), h, http_transportImage h]
    constructor
    · rintro ⟨hhosts, hheaders⟩
      constructor <;> simp [h, hhosts, hheaders]
    · intro hkept
      exact ⟨hkept.hosts h, hkept.headers (Or.inl h)⟩
  case inr.inr.inr.inl =>
    rw [hsome (by rw [h]; decide) (by rw [h]; decide), h]
    refine iff_of_true rfl ?_
    constructor <;> simp [h]
  case inr.inr.inr.inr.inl =>
    rw [hsome (by rw [h]; decide) (by rw [h]; decide), h]
    refine iff_of_true rfl ?_
    constructor <;> simp [h]
  case inr.inr.inr.inr.inr.inl =>
    rw [hsome (by rw [h]; decide) (by rw [h]; decide), h, httpupgrade_transportImage h]
    constructor
    · intro hheaders
      constructor <;> simp [h, hheaders]
    · intro hkept
      exact hkept.headers (Or.inr h)
  case inr.inr.inr.inr.inr.inr.inl =>
    rw [hsome (by rw [h]; decide) (by rw [h]; decide), h, ws_transportImage h hlength]
    constructor
    · rintro ⟨hdata, hheaders⟩
      constructor
      case earlyData => exact fun _ => hdata
      case wsHeaders => exact fun _ => hheaders
      all_goals simp [h]
    · intro hkept
      exact ⟨hkept.earlyData h, hkept.wsHeaders h⟩
  case inr.inr.inr.inr.inr.inr.inr.inl =>
    rw [hsome (by rw [h]; decide) (by rw [h]; decide), h, xhttp_transportImage h]
    constructor
    · intro hmode
      constructor <;> simp [h, hmode]
    · intro hkept
      exact hkept.mode h
  case inr.inr.inr.inr.inr.inr.inr.inr =>
    rw [hsome (by rw [h]; decide) (by rw [h]; decide), h, kcp_transportImage]
    constructor
    · intro hkcp
      constructor
      case kcp => exact fun _ => hkcp
      all_goals simp [h]
    · intro hkept
      exact hkept.kcp h

end V2rayStreamSettings

/-! ## TLS -/

namespace V2rayStreamSettings

/-- The transport is read into these fields. -/
theorem readTransport_eq (L : StreamLibrary) (s : V2rayStreamSettings) (query : QUrlQuery)
    (withMethod : Bool) : ∃ path host method headerType mode extra,
      readTransport L s query withMethod =
        { s with
          path := path, host := host, method := method, headerType := headerType
          xhttpMode := mode, xhttpExtra := extra } := by
  unfold readTransport
  extract_lets network path host
  split_ifs
  all_goals exact ⟨_, _, _, _, _, _, rfl⟩

theorem tls_readTransport (L : StreamLibrary) (s : V2rayStreamSettings) (query : QUrlQuery)
    (withMethod isNaive : Bool) :
    (readTransport L s query withMethod).tls L isNaive = s.tls L isNaive := by
  obtain ⟨path, host, method, headerType, mode, extra, heq⟩ := readTransport_eq L s query withMethod
  rw [heq]
  rfl

/-- What a link keeps of the TLS settings. -/
structure TlsKept (L : StreamLibrary) (s : V2rayStreamSettings) : Prop where
  ech : s.enableEch = false
  certificate : trimString s.certificate = ""
  /-- The link says `insecure`, and `allowInsecure` is read. -/
  insecure : s.allowInsecure = true → L.skipCert = true
  /-- The fingerprint of the program is written if there is no other. -/
  fingerprint : s.utlsFingerprint ≠ "" ∨ L.utlsFingerprint = "" ∨
    (¬ isBlank s.realityPbk ∧ L.utlsFingerprint = "random")

/-- The TLS settings that come back. -/
def tlsImage (L : StreamLibrary) (s : V2rayStreamSettings) : V2rayStreamSettings where
  security := if s.security = "" ∧ s.sni = "" then "" else "tls"
  sni := s.sni
  alpn := s.alpn
  utlsFingerprint := if s.utlsFingerprint = "" then L.utlsFingerprint else s.utlsFingerprint
  enableTlsFragment := s.enableTlsFragment
  tlsFragmentFallbackDelay := s.tlsFragmentFallbackDelay
  enableTlsRecordFragment := s.enableTlsRecordFragment
  realityPbk := if s.linkSecurity = "reality" then s.realityPbk else ""
  realitySid := if s.linkSecurity = "reality" then s.realitySid else ""

variable {L : StreamLibrary} {s : V2rayStreamSettings}

theorem onlyIf_inj {c c' : Prop} [Decidable c] [Decidable c'] {v : Json} :
    onlyIf c v = onlyIf c' v ↔ (c ↔ c') := by
  unfold onlyIf
  by_cases h : c <;> by_cases h' : c' <;> simp [h, h']

/-- The fingerprint of an outbound. -/
theorem utls_inj {f f' : String} :
    onlyIf (f ≠ "") (.object [("enabled", .bool true), ("fingerprint", .string f)]) =
        onlyIf (f' ≠ "") (.object [("enabled", .bool true), ("fingerprint", .string f')]) ↔
      f = f' := by
  unfold onlyIf
  by_cases h : f = "" <;> by_cases h' : f' = "" <;> simp [h, h', eq_comm]

section

variable (htls : s.security = "tls")
include htls

theorem linkSecurity_eq : s.linkSecurity = "reality" ↔ ¬ isBlank s.realityPbk := by
  unfold linkSecurity
  rw [htls]
  by_cases hblank : isBlank s.realityPbk <;> simp [hblank]

/-- Reality comes back. -/
theorem reality_tlsImage :
    onlyIf (¬ isBlank (s.tlsImage L).realityPbk) (.object (s.tlsImage L).realityObject) =
      onlyIf (¬ isBlank s.realityPbk) (.object s.realityObject) := by
  by_cases hblank : isBlank s.realityPbk = true
  · have hplain : s.linkSecurity ≠ "reality" := by
      rw [ne_eq, linkSecurity_eq htls]
      exact not_not.mpr hblank
    have himage : isBlank (s.tlsImage L).realityPbk = true := by
      simp only [tlsImage, if_neg hplain]
      rfl
    rw [onlyIf, if_neg (not_not.mpr himage), onlyIf, if_neg (not_not.mpr hblank)]
  · have hreality : s.linkSecurity = "reality" := (linkSecurity_eq htls).mpr hblank
    have hpbk : (s.tlsImage L).realityPbk = s.realityPbk := by
      simp only [tlsImage, if_pos hreality]
    have hsid : (s.tlsImage L).realitySid = s.realitySid := by
      simp only [tlsImage, if_pos hreality]
    rw [realityObject, realityObject, hpbk, hsid]

theorem fingerprint_tlsImage :
    (s.tlsImage L).fingerprint = s.fingerprint ↔
      s.utlsFingerprint ≠ "" ∨ L.utlsFingerprint = "" ∨
        (¬ isBlank s.realityPbk ∧ L.utlsFingerprint = "random") := by
  have hpbk : isBlank (s.tlsImage L).realityPbk = isBlank s.realityPbk := by
    by_cases hblank : isBlank s.realityPbk = true
    · have hplain : s.linkSecurity ≠ "reality" := by
        rw [ne_eq, linkSecurity_eq htls]
        exact not_not.mpr hblank
      rw [hblank]
      simp only [tlsImage, if_neg hplain]
      rfl
    · simp only [tlsImage, if_pos ((linkSecurity_eq htls).mpr hblank)]
  rw [fingerprint, fingerprint, hpbk]
  by_cases hown : s.utlsFingerprint = ""
  · simp only [tlsImage, hown, if_true, ne_eq, not_true_eq_false, false_or, and_true]
    by_cases hblank : isBlank s.realityPbk = true
    · simp [hblank]
    · by_cases hnone : L.utlsFingerprint = "" <;> simp [hblank, hnone]
  · simp [tlsImage, hown]

theorem tls_tlsImage_iff : (s.tlsImage L).tls L false = s.tls L false ↔ s.TlsKept L := by
  have himage : (s.tlsImage L).security = "tls" := by simp [tlsImage, htls]
  rw [tls, tls, if_pos himage, if_pos htls, Option.some_inj]
  refine (Members.present_inj ?hkeys ?hnodup).trans ?_
  case hkeys => rfl
  case hnodup => simp [tlsMembers]
  have hech : onlyIf ((s.tlsImage L).enableEch = true) (.object (s.tlsImage L).echObject) =
      onlyIf (s.enableEch = true) (.object s.echObject) ↔ s.enableEch = false := by
    show none = (if s.enableEch = true then _ else none) ↔ _
    cases s.enableEch <;> simp
  have hcertificate : nonEmpty (trimString (s.tlsImage L).certificate) =
      nonEmpty (trimString s.certificate) ↔ trimString s.certificate = "" := by
    show none = (if trimString s.certificate = "" then none else _) ↔ _
    by_cases hblank : trimString s.certificate = "" <;> simp [hblank]
  have hinsecure : onlyIf ((s.tlsImage L).allowInsecure = true ∨ L.skipCert = true) (.bool true) =
      onlyIf (s.allowInsecure = true ∨ L.skipCert = true) (.bool true) ↔
        (s.allowInsecure = true → L.skipCert = true) := by
    rw [onlyIf_inj]
    show (false = true ∨ L.skipCert = true ↔ s.allowInsecure = true ∨ L.skipCert = true) ↔ _
    cases s.allowInsecure <;> cases L.skipCert <;> simp
  have hutls := utls_inj.trans (fingerprint_tlsImage (L := L) htls)
  have hsame : (s.tlsImage L).sni = s.sni ∧ (s.tlsImage L).alpn = s.alpn ∧
      (s.tlsImage L).enableTlsFragment = s.enableTlsFragment ∧
      (s.tlsImage L).tlsFragmentFallbackDelay = s.tlsFragmentFallbackDelay ∧
      (s.tlsImage L).enableTlsRecordFragment = s.enableTlsRecordFragment := ⟨rfl, rfl, rfl, rfl, rfl⟩
  simp only [tlsMembers, List.cons.injEq, Prod.mk.injEq, true_and, and_true, Bool.false_eq_true,
    if_false, reality_tlsImage (L := L) htls, hsame, hech, hcertificate, hinsecure, hutls]
  constructor
  · rintro ⟨hech, hcertificate, hinsecure, hfingerprint⟩
    exact ⟨hech, hcertificate, hinsecure, hfingerprint⟩
  · rintro ⟨hech, hcertificate, hinsecure, hfingerprint⟩
    exact ⟨hech, hcertificate, hinsecure, hfingerprint⟩

end

/-- The TLS settings come back if they are kept, and without TLS if there is no name
    of the server. -/
theorem tls_kept_iff (hsecurity : s.security = "" ∨ s.security = "tls") :
    (s.tlsImage L).tls L false = s.tls L false ↔
      (s.security = "tls" → s.TlsKept L) ∧ (s.security = "" → s.sni = "") := by
  rcases hsecurity with h | h
  · have hnone : s.tls L false = none := by rw [tls, h]; rfl
    rw [hnone, tls]
    by_cases hsni : s.sni = ""
    · simp [tlsImage, h, hsni]
    · simp [tlsImage, h, hsni]
  · rw [tls_tlsImage_iff h]
    simp [h]

end V2rayStreamSettings

end NekoBox.Link
