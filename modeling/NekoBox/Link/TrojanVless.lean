import NekoBox.Lib.RoundTrip
import NekoBox.Link.StreamLink

/-!
# Trojan and VLESS

`TrojanVLESSBean` (`TrojanVLESSBean.cpp`): the outbound of the core (lines 151–174)
and the share link (lines 54–148 and 176–205).

* `survives_iff`: when a bean comes back from its link (`Kept`).
-/

namespace NekoBox.Link

open NekoBox.Config NekoBox.Lib NekoBox.Qt NekoBox.Store

/-! ## The bean -/

/-- `TrojanVLESSBean`, with the profile it belongs to. -/
structure TrojanVLESSBean where
  entity : Entity := {}
  muxState : ℤ := 0
  /-- `proxy_type == proxy_VLESS` -/
  isVless : Bool
  network : ℤ := 0
  password : String := ""
  flow : String := ""
  encryption : String := ""
  stream : V2rayStreamSettings := {}

namespace TrojanVLESSBean

variable (L : StreamLibrary)

def type (b : TrojanVLESSBean) : String := if b.isVless then "vless" else "trojan"

/-- `flow` in an outbound: `-udp443` is cut off, and `none` is no flow. -/
def outboundFlow (flow : String) : String :=
  let suffix := "-udp443"
  if suffix.toList.isSuffixOf flow.toList then
    String.ofList (flow.toList.take (flow.length - suffix.length))
  else if flow = "none" then ""
  else flow

/-- The members of `BuildCoreObjSingBox`. -/
def outboundMembers (b : TrojanVLESSBean) : List (String × Option Json) :=
  let vless (v : Option Json) : Option Json := if b.isVless then v else none
  [("type", some (.string b.type)), ("server", some (.string b.entity.serverAddress)),
    ("server_port", some (jsonInt b.entity.serverPort)),
    ("network", nonEmpty (networkName b.network)),
    ("uuid", vless (some (.string (trimString b.password)))),
    ("flow", vless (some (.string (outboundFlow b.flow)))),
    ("encryption", vless (nonEmpty b.encryption)),
    ("password", if b.isVless then none else some (.string b.password))] ++
  b.stream.outboundMembers L b.type

/-- `BuildCoreObjSingBox` -/
def buildCoreObjSingBox (b : TrojanVLESSBean) : JsonObject := Members.present (b.outboundMembers L)

/-- Two beans that build one outbound. -/
def SameOutbound (b b' : TrojanVLESSBean) : Prop :=
  b.buildCoreObjSingBox L = b'.buildCoreObjSingBox L

/-! ## Writing a link -/

/-- The pairs of VLESS (lines 196–200). -/
def addVlessQuery (b : TrojanVLESSBean) (query : QUrlQuery) : QUrlQuery :=
  let query := addQueryString query "flow" b.flow
  let query := addQueryString query "packetEncoding"
    (vmessPacketEncodings.nameOf b.stream.packetEncoding)
  addQueryItem query "encryption" (if b.encryption = "" then "none" else b.encryption)

/-- The query of the link. -/
def query (b : TrojanVLESSBean) : QUrlQuery :=
  let query := addQueryString [] "network" (networkName b.network)
  let query := b.stream.addTls L query
  let query := addMuxState query b.muxState
  if b.isVless then b.addVlessQuery query else query

/-- The URL `ToShareLink` prints. -/
def shareUrl (b : TrojanVLESSBean) : Url :=
  let url : Url := { scheme := if b.isVless then "vless" else "trojan", userName := b.password }
  { addDefaultFields L.toUrlLibrary url b.entity with query := b.query L }

def toShareLink (b : TrojanVLESSBean) : String := L.toString (b.shareUrl L)

/-! ## Reading a link -/

/-- `security`: what is not given is `tls` for Trojan; Reality is TLS. -/
def linkSecurity (isVless : Bool) (query : QUrlQuery) : String :=
  let security := getQueryValue query "security" (if isVless then "" else "tls")
  replaceText (replaceText security "reality" "tls") "none" ""

/-- The stream settings of the link but the transport (lines 61–100). A name of the
    server stands for TLS. -/
def readSettings (s : V2rayStreamSettings) (isVless : Bool) (query : QUrlQuery) :
    V2rayStreamSettings :=
  let security := linkSecurity isVless query
  let named := getQueryValue query "sni" "" ≠ "" ∨ getQueryValue query "peer" "" ≠ ""
  { readTls L { s with network := v2rayTransports.valueOf (linkTransport query) } query with
    alpn := getQueryValue query "alpn" ""
    security := if security = "" ∧ named then "tls" else security }

/-- The stream settings of the link (lines 61–137 and 144). -/
def readStream (s : V2rayStreamSettings) (isVless : Bool) (query : QUrlQuery) :
    V2rayStreamSettings :=
  let s := readTransport L (readSettings L s isVless query) query true
  if isVless then
    { s with
      packetEncoding := vmessPacketEncodings.valueOf (getQueryValue query "packetEncoding" "xudp") }
  else s

/-- `TryParseLink`; `none` if it returns false. -/
def tryParseLink (b : TrojanVLESSBean) (link : String) : Option TrojanVLESSBean :=
  match L.fromString link with
  | none => none
  | some url =>
    let entity := Entity.ofUrl url
    let port := if entity.serverPort = -1 then 443 else entity.serverPort
    let read : TrojanVLESSBean :=
      { b with
        entity := { entity with serverPort := port }
        password := url.userName
        network := linkNetwork b.network url.query
        stream := readStream L b.stream b.isVless url.query
        muxState := linkMuxState url.query
        flow := if b.isVless then getQueryValue url.query "flow" "" else b.flow
        encryption := if b.isVless then getQueryValue url.query "encryption" "" else b.encryption }
    if read.password = "" ∨ read.entity.serverAddress = "" then none else some read

open V2rayStreamSettings (TlsFound NetworkFound TlsKept TransportKept tlsKeys networkKeys streamKeys
  lookup_ite)

variable {L : StreamLibrary} {b : TrojanVLESSBean} {query : QUrlQuery}

/-! ## The settings read -/

theorem linkSecurity_read {s : V2rayStreamSettings} (hfound : s.TlsFound L query) {isVless : Bool}
    (hsecurity : s.security = "" ∨ s.security = "tls") :
    linkSecurity isVless query = s.security := by
  have hwritten := hfound.security
  unfold linkSecurity getQueryValue
  rw [hwritten]
  rcases hsecurity with h | h
  · have hlink : s.linkSecurity = "" := by simp [V2rayStreamSettings.linkSecurity, h]
    rw [hlink, h]
    cases isVless <;> decide +kernel
  · have hlink : s.linkSecurity = "reality" ∨ s.linkSecurity = "tls" := by
      by_cases hblank : isBlank s.realityPbk <;>
        simp [V2rayStreamSettings.linkSecurity, h, hblank]
    rcases hlink with hlink | hlink <;> rw [hlink, h] <;> cases isVless <;> decide +kernel

theorem tls_network (s : V2rayStreamSettings) (network : ℤ) (isNaive : Bool) :
    V2rayStreamSettings.tls L { s with network := network } isNaive = s.tls L isNaive := rfl

/-- The settings of VLESS differ in the encoding of packets only. -/
theorem tls_readStream_eq (s : V2rayStreamSettings) (isVless isNaive : Bool) :
    (readStream L s isVless query).tls L isNaive =
      (readSettings L s isVless query).tls L isNaive := by
  refine Eq.trans ?_ (V2rayStreamSettings.tls_readTransport L _ query true isNaive)
  unfold readStream
  generalize readTransport L (readSettings L s isVless query) query true = s'
  cases isVless <;> rfl

theorem transport_readStream_eq (s : V2rayStreamSettings) (isVless : Bool) :
    (readStream L s isVless query).transport L =
      (readTransport L (readSettings L s isVless query) query true).transport L := by
  unfold readStream
  generalize readTransport L (readSettings L s isVless query) query true = s'
  cases isVless <;> rfl

theorem tls_readStream {s : V2rayStreamSettings} (hfound : s.TlsFound L query) {isVless : Bool}
    (hsecurity : s.security = "" ∨ s.security = "tls") :
    (readStream L {} isVless query).tls L false = (s.tlsImage L).tls L false := by
  have himage : (if s.security = "" ∧ (s.sni ≠ "" ∨ "" ≠ "") then "tls" else s.security) =
      if s.security = "" ∧ s.sni = "" then "" else "tls" := by
    rcases hsecurity with h | h <;> by_cases hsni : s.sni = "" <;> simp [h, hsni]
  rw [tls_readStream_eq, readSettings, readTls, linkSecurity_read hfound hsecurity, linkSni]
  simp only [getQueryValue_empty, hfound.sni, hfound.peer, hfound.alpn, hfound.allowInsecure,
    hfound.fp, hfound.fragment, hfound.fallbackDelay, hfound.recordFragment, hfound.pbk, hfound.sid]
  have hsni : (if "" ≠ "" then "" else if s.sni ≠ "" then s.sni else "") = s.sni := by
    by_cases hempty : s.sni = "" <;> simp [hempty]
  have hfp : (if (if s.utlsFingerprint = "" then L.utlsFingerprint else s.utlsFingerprint) = "" then
      L.utlsFingerprint else if s.utlsFingerprint = "" then L.utlsFingerprint
      else s.utlsFingerprint) =
      if s.utlsFingerprint = "" then L.utlsFingerprint else s.utlsFingerprint := by
    split_ifs <;> simp_all
  have hflag : ∀ flag : Bool, (false || decide ((if flag = true then "1" else "") = "1")) = flag := by
    decide
  rw [himage, hsni, hfp, hflag, hflag]
  exact tls_network (s.tlsImage L) _ false

/-- The transport comes back as the link has it. -/
theorem transport_readStream {s : V2rayStreamSettings} (htls : s.TlsFound L query)
    (hfound : s.NetworkFound query) {isVless : Bool}
    (hpadding : queryItemValue query "x_padding_bytes" = "" ∧
      queryItemValue query "xPaddingBytes" = "") :
    (readStream L {} isVless query).transport L = s.transportImage.transport L := by
  have hfresh : (readSettings L {} isVless query).Fresh := by
    constructor <;> rfl
  have hnetwork : (readSettings L {} isVless query).network =
      v2rayTransports.valueOf (linkTransport query) := by
    simp only [readSettings, readTls]
  rw [transport_readStream_eq]
  exact V2rayStreamSettings.transport_readTransport hfresh hnetwork htls.type hfound hpadding

/-! ## The link -/

/-- The keys of a link besides those of stream settings. -/
def beanKeys : List String := ["network", "mux", "flow", "packetEncoding", "encryption"]

theorem lookup_query {key : String} (hkey : key ∉ beanKeys) :
    (b.query L).lookup key =
      (b.stream.addTls L (addQueryString [] "network" (networkName b.network))).lookup key := by
  simp only [beanKeys, List.mem_cons, List.not_mem_nil, or_false, not_or] at hkey
  obtain ⟨-, hmux, hflow, hencoding, hencryption⟩ := hkey
  simp only [query, addVlessQuery, addMuxState, lookup_ite, lookup_addQueryItem, lookup_addQueryString,
    lookup_addQueryBoolean, hmux, hflow, hencoding, hencryption, false_and, if_false,
    Option.or_none, ite_self]

theorem lookup_network {key : String} (hkey : key ≠ "network") :
    (addQueryString [] "network" (networkName b.network)).lookup key = none := by
  rw [lookup_addQueryString, if_neg fun h => hkey h.1]
  rfl

theorem lookup_query_other {key : String} (hown : key ∉ beanKeys) (hkey : key ∉ streamKeys) :
    (b.query L).lookup key = none := by
  rw [lookup_query hown, V2rayStreamSettings.lookup_addTls _ _ hkey]
  exact lookup_network fun h => hown (h ▸ List.mem_cons_self)

theorem tlsFound_query : b.stream.TlsFound L (b.query L) := by
  have hkeys : ∀ key ∈ tlsKeys, key ∉ beanKeys := by decide
  have hnone : (∀ key ∈ tlsKeys, (addQueryString [] "network" (networkName b.network)).lookup key =
      none) → b.stream.TlsFound L (b.stream.addTls L
        (addQueryString [] "network" (networkName b.network))) :=
    b.stream.tlsFound_addTls L
  refine (hnone fun key hkey => ?_).congr fun key hkey => ?_
  · exact lookup_network fun h => hkeys key hkey (h ▸ List.mem_cons_self)
  · rw [queryItemValue, queryItemValue, lookup_query (hkeys key hkey)]

theorem networkFound_query : b.stream.NetworkFound (b.query L) := by
  have hkeys : ∀ key ∈ networkKeys, key ∉ beanKeys := by decide
  have hnone : (∀ key ∈ networkKeys, (addQueryString [] "network" (networkName b.network)).lookup key =
      none) → b.stream.NetworkFound (b.stream.addTls L
        (addQueryString [] "network" (networkName b.network))) :=
    b.stream.networkFound_addTls L
  refine (hnone fun key hkey => ?_).congr fun key hkey => ?_
  · exact lookup_network fun h => hkeys key hkey (h ▸ List.mem_cons_self)
  · rw [queryItemValue, queryItemValue, lookup_query (hkeys key hkey)]

theorem queryItemValue_padding :
    queryItemValue (b.query L) "x_padding_bytes" = "" ∧
      queryItemValue (b.query L) "xPaddingBytes" = "" := by
  rw [queryItemValue, queryItemValue, lookup_query_other (by decide) (by decide),
    lookup_query_other (by decide) (by decide)]
  exact ⟨rfl, rfl⟩

/-- A VLESS link has the fields of the protocol. -/
theorem query_vless (hvless : b.isVless = true) :
    queryItemValue (b.query L) "flow" = b.flow ∧
      queryItemValue (b.query L) "packetEncoding" =
        vmessPacketEncodings.nameOf b.stream.packetEncoding ∧
      queryItemValue (b.query L) "encryption" =
        if b.encryption = "" then "none" else b.encryption := by
  have hbase : ∀ key ∈ ["flow", "packetEncoding", "encryption"],
      (addMuxState (b.stream.addTls L (addQueryString [] "network" (networkName b.network)))
        b.muxState).lookup key = none := by
    intro key hkey
    have hnetwork : ∀ key ∈ ["flow", "packetEncoding", "encryption"],
        key ∉ streamKeys ∧ key ≠ "network" ∧ key ≠ "mux" := by
      decide
    obtain ⟨hstream, hnetwork, hmux⟩ := hnetwork key hkey
    simp only [addMuxState, lookup_ite, lookup_addQueryBoolean, hmux, if_false, Option.or_none,
      ite_self]
    rw [V2rayStreamSettings.lookup_addTls _ _ hstream, lookup_network hnetwork]
  refine ⟨queryItemValue_of_lookup ?_, queryItemValue_of_lookup ?_, ?_⟩
  · simp [query, hvless, addVlessQuery, hbase "flow" (by decide)]
  · simp [query, hvless, addVlessQuery, hbase "packetEncoding" (by decide)]
  · simp [query, hvless, addVlessQuery, queryItemValue, hbase "encryption" (by decide)]

/-! ## The outbound -/

/-- Two beans of one protocol build one outbound if they agree on all it is built from. -/
theorem sameOutbound_iff {b' : TrojanVLESSBean} (hkind : b.isVless = b'.isVless) :
    SameOutbound L b b' ↔
      b.entity.serverAddress = b'.entity.serverAddress ∧
      jsonInt b.entity.serverPort = jsonInt b'.entity.serverPort ∧
      nonEmpty (networkName b.network) = nonEmpty (networkName b'.network) ∧
      (b'.isVless = true → trimString b.password = trimString b'.password ∧
        outboundFlow b.flow = outboundFlow b'.flow ∧
        nonEmpty b.encryption = nonEmpty b'.encryption ∧
        vmessPacketEncodings.nameOf b.stream.packetEncoding =
          vmessPacketEncodings.nameOf b'.stream.packetEncoding) ∧
      (b'.isVless = false → b.password = b'.password) ∧
      b.stream.transport L = b'.stream.transport L ∧
      b.stream.tls L false = b'.stream.tls L false := by
  have hobject : ∀ o o' : Option JsonObject, o.map Json.object = o'.map Json.object ↔ o = o' := by
    intro o o'
    exact (Option.map_injective fun _ _ => Json.object.inj).eq_iff
  refine (Members.present_inj ?hkeys ?hnodup).trans ?_
  case hkeys => rfl
  case hnodup => simp [outboundMembers, V2rayStreamSettings.outboundMembers]
  have htype : b.type = b'.type := by rw [type, type, hkind]
  unfold outboundMembers V2rayStreamSettings.outboundMembers
  rw [htype, hkind]
  cases hvless : b'.isVless
  · have hname : b'.type = "trojan" := by rw [type, hvless]; rfl
    simp [hname, hobject, onlyIf]
  · have hname : b'.type = "vless" := by rw [type, hvless]; rfl
    simp [hname, hobject, onlyIf]
    tauto

/-! ## The round trip -/

/-- What a link keeps of a bean. -/
structure Kept (L : StreamLibrary) (b : TrojanVLESSBean) : Prop where
  server : L.setHost b.entity.serverAddress = b.entity.serverAddress ∧ b.entity.serverAddress ≠ ""
  /-- A link without a port stands for port 443. -/
  port : 0 ≤ b.entity.serverPort ∧ b.entity.serverPort ≤ 65535
  password : b.password ≠ ""
  /-- The network is written and not read. -/
  network : networkName b.network = ""
  /-- No encoding of packets is read as `xudp`, -/
  packetEncoding : b.isVless = true → vmessPacketEncodings.nameOf b.stream.packetEncoding ≠ ""
  /-- and no encryption as `none`. -/
  encryption : b.isVless = true → b.encryption ≠ ""
  transport : b.stream.TransportKept
  tls : b.stream.security = "tls" → b.stream.TlsKept L
  /-- The name of the server turns TLS on. -/
  sni : b.stream.security = "" → b.stream.sni = ""

/-- What is read of the link of `b`. -/
def readBean (L : StreamLibrary) (b : TrojanVLESSBean) : TrojanVLESSBean where
  entity :=
    { name := b.entity.name
      serverAddress := L.setHost b.entity.serverAddress
      serverPort :=
        if setPort b.entity.serverPort = -1 then 443 else setPort b.entity.serverPort }
  isVless := b.isVless
  password := b.password
  network := 0
  stream := readStream L {} b.isVless (b.query L)
  muxState := linkMuxState (b.query L)
  flow := if b.isVless then getQueryValue (b.query L) "flow" "" else ""
  encryption := if b.isVless then getQueryValue (b.query L) "encryption" "" else ""

theorem tryParseLink_shareLink (hread : L.Faithful (b.shareUrl L)) :
    tryParseLink L { isVless := b.isVless } (b.toShareLink L) =
      if b.password = "" ∨ L.setHost b.entity.serverAddress = "" then none
      else some (b.readBean L) := by
  rw [tryParseLink, toShareLink, hread]
  dsimp only
  rw [linkNetwork_zero]
  rfl

/-- The encoding of packets comes back by its name. -/
theorem packetEncoding_readBean (hvless : b.isVless = true) :
    vmessPacketEncodings.nameOf (b.readBean L).stream.packetEncoding =
        vmessPacketEncodings.nameOf b.stream.packetEncoding ↔
      vmessPacketEncodings.nameOf b.stream.packetEncoding ≠ "" := by
  have hread : (b.readBean L).stream.packetEncoding =
      vmessPacketEncodings.valueOf (if vmessPacketEncodings.nameOf b.stream.packetEncoding = ""
        then "xudp" else vmessPacketEncodings.nameOf b.stream.packetEncoding) := by
    simp only [readBean, readStream, hvless, if_true, getQueryValue, (query_vless hvless).2.1]
  rw [hread]
  by_cases hname : vmessPacketEncodings.nameOf b.stream.packetEncoding = ""
  · rw [hname]
    decide
  · rw [if_neg hname]
    have hmem := (vmessPacketEncodings.nameOf_mem b.stream.packetEncoding).resolve_left hname
    have hall : ∀ name ∈ vmessPacketEncodings.names,
        vmessPacketEncodings.nameOf (vmessPacketEncodings.valueOf name) = name := by
      decide
    exact iff_of_true (hall _ hmem) hname

theorem encryption_readBean (hvless : b.isVless = true) :
    nonEmpty (b.readBean L).encryption = nonEmpty b.encryption ↔ b.encryption ≠ "" := by
  have hread : (b.readBean L).encryption = if b.encryption = "" then "none" else b.encryption := by
    simp only [readBean, hvless, if_true, getQueryValue_empty, (query_vless hvless).2.2]
  rw [hread]
  by_cases hnone : b.encryption = ""
  · rw [hnone]
    simp [nonEmpty]
  · rw [if_neg hnone]
    exact iff_of_true rfl hnone

theorem port_readBean (hport : IsInt32 b.entity.serverPort) :
    jsonInt (b.readBean L).entity.serverPort = jsonInt b.entity.serverPort ↔
      0 ≤ b.entity.serverPort ∧ b.entity.serverPort ≤ 65535 := by
  have hread : (b.readBean L).entity.serverPort =
      if 0 ≤ b.entity.serverPort ∧ b.entity.serverPort ≤ 65535 then b.entity.serverPort else 443 := by
    simp only [readBean, setPort]
    split_ifs <;> omega
  by_cases hrange : 0 ≤ b.entity.serverPort ∧ b.entity.serverPort ≤ 65535
  · rw [hread, if_pos hrange]
    exact iff_of_true rfl hrange
  · rw [hread, if_neg hrange]
    refine iff_of_false (fun h => hrange ?_) hrange
    rw [← jsonInt_inj (by decide) hport h]
    decide

/-- The outbound of the bean that is read. -/
theorem sameOutbound_readBean (hport : IsInt32 b.entity.serverPort)
    (hlength : IsInt32 b.stream.wsEarlyDataLength)
    (hsecurity : b.stream.security = "" ∨ b.stream.security = "tls") :
    SameOutbound L (b.readBean L) b ↔
      L.setHost b.entity.serverAddress = b.entity.serverAddress ∧
      (0 ≤ b.entity.serverPort ∧ b.entity.serverPort ≤ 65535) ∧ networkName b.network = "" ∧
      (b.isVless = true → b.encryption ≠ "" ∧
        vmessPacketEncodings.nameOf b.stream.packetEncoding ≠ "") ∧
      b.stream.TransportKept ∧ (b.stream.security = "tls" → b.stream.TlsKept L) ∧
      (b.stream.security = "" → b.stream.sni = "") := by
  have htransport : (b.readBean L).stream.transport L = b.stream.transportImage.transport L :=
    transport_readStream tlsFound_query networkFound_query queryItemValue_padding
  have htls : (b.readBean L).stream.tls L false = (b.stream.tlsImage L).tls L false :=
    tls_readStream tlsFound_query hsecurity
  have hnetwork : nonEmpty (networkName (b.readBean L).network) = nonEmpty (networkName b.network) ↔
      networkName b.network = "" := by
    show none = nonEmpty (networkName b.network) ↔ _
    unfold nonEmpty
    split_ifs with hname <;> simp [hname]
  have hflow : b.isVless = true → (b.readBean L).flow = b.flow := by
    intro hvless
    simp only [readBean, hvless, if_true, getQueryValue_empty, (query_vless hvless).1]
  rw [sameOutbound_iff (show (b.readBean L).isVless = b.isVless from rfl), htransport, htls,
    hnetwork, port_readBean hport,
    V2rayStreamSettings.transport_transportImage_iff hlength,
    V2rayStreamSettings.tls_kept_iff hsecurity]
  refine and_congr Iff.rfl (and_congr Iff.rfl (and_congr Iff.rfl (and_congr ?_ ?_)))
  · refine forall_congr' fun hvless => ?_
    rw [hflow hvless, encryption_readBean hvless, packetEncoding_readBean hvless]
    exact ⟨fun h => ⟨h.2.2.1, h.2.2.2⟩, fun h => ⟨rfl, rfl, h.1, h.2⟩⟩
  · exact ⟨fun h => h.2, fun h => ⟨fun _ => rfl, h⟩⟩

theorem survives_iff (hport : IsInt32 b.entity.serverPort)
    (hlength : IsInt32 b.stream.wsEarlyDataLength)
    (hsecurity : b.stream.security = "" ∨ b.stream.security = "tls")
    (hread : L.ReadBack (b.shareUrl L)) :
    RoundTrip.Survives (toShareLink L) (tryParseLink L { isVless := b.isVless }) (SameOutbound L) b ↔
      b.Kept L := by
  have hiff := sameOutbound_readBean (L := L) hport hlength hsecurity
  rcases hread with hread | ⟨hhost, hrefused⟩
  · have hparsed := tryParseLink_shareLink hread
    by_cases hempty : b.password = "" ∨ L.setHost b.entity.serverAddress = ""
    · rw [if_pos hempty] at hparsed
      refine iff_of_false (RoundTrip.not_survives_of_refused hparsed) fun hkept => ?_
      rcases hempty with h | h
      · exact hkept.password h
      · exact hkept.server.2 (hkept.server.1 ▸ h)
    · rw [if_neg hempty] at hparsed
      push Not at hempty
      rw [RoundTrip.survives_iff hparsed, hiff]
      constructor
      · rintro ⟨hhost, hrange, hnetwork, hvless, htransport, htls, hsni⟩
        exact ⟨⟨hhost, hhost ▸ hempty.2⟩, hrange, hempty.1, hnetwork, fun h => (hvless h).2,
          fun h => (hvless h).1, htransport, htls, hsni⟩
      · intro hkept
        exact ⟨hkept.server.1, hkept.port, hkept.network,
          fun h => ⟨hkept.encryption h, hkept.packetEncoding h⟩, hkept.transport, hkept.tls, hkept.sni⟩
  · have hparsed : tryParseLink L { isVless := b.isVless } (b.toShareLink L) = none := by
      rw [tryParseLink, toShareLink, hrefused]
    refine iff_of_false (RoundTrip.not_survives_of_refused hparsed) fun hkept => ?_
    exact hkept.server.2 (hkept.server.1 ▸ hhost)

end TrojanVLESSBean

end NekoBox.Link
