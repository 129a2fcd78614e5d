import NekoBox.Config.Chain
import NekoBox.Config.Routing
import NekoBox.Lib.RoundTrip
import NekoBox.Link.Ini
import NekoBox.Link.Query
import NekoBox.Subscription.Text

/-!
# WireGuard and AmneziaWG

`WireguardBean` (`WireguardBean.cpp`): the endpoint of the core (lines 11–58 and
351–403), the share link (lines 60–120 and 154–205), the configuration file
(lines 211–346) and the link of the Amnezia client (lines 454–580).

* `share_link_never_survives`: no bean comes back from its share link with the
  same endpoint, since the flag of the system interface comes back negated;
* `isAmnezia_tryParseLink`: a plain bean comes back as an Amnezia one.
-/

namespace NekoBox.Link

open NekoBox.Config NekoBox.Lib NekoBox.Qt NekoBox.Store NekoBox.Subscription

/-- `WireguardBean`, with the profile it belongs to. -/
structure WireguardBean where
  entity : Entity := {}
  isAmnezia : Bool := false
  privateKey : String := ""
  publicKey : String := ""
  preSharedKey : String := ""
  reserved : List ℤ := []
  persistentKeepalive : ℤ := 0
  localAddress : List String := []
  mtu : ℤ := 1420
  useSystemInterface : Bool := false
  junkPacketCount : ℤ := 0
  junkPacketMinSize : ℤ := 0
  junkPacketMaxSize : ℤ := 0
  initPacketJunkSize : ℤ := 0
  responsePacketJunkSize : ℤ := 0
  cookieReplyJunkSize : ℤ := 0
  transportPacketJunkSize : ℤ := 0
  initPacketMagicHeader : String := ""
  responsePacketMagicHeader : String := ""
  cookieReplyMagicHeader : String := ""
  transportPacketMagicHeader : String := ""
  i1 : String := ""
  i2 : String := ""
  i3 : String := ""
  i4 : String := ""
  i5 : String := ""

namespace WireguardBean

/-- `type`, to which `enableAmnezia` sets the type of the profile. -/
def type (b : WireguardBean) : String := if b.isAmnezia then "awg" else "wireguard"

/-! ## The endpoint -/

/-- `QListInt2QJsonArray` -/
def intListArray (l : List ℤ) : Json := .array (l.map jsonInt)

/-- The peer; a plain one has reserved bytes too. -/
def peer (b : WireguardBean) (reserved : JsonObject) : JsonObject :=
  [("address", .string b.entity.serverAddress), ("port", jsonInt b.entity.serverPort),
    ("public_key", .string b.publicKey), ("pre_shared_key", .string b.preSharedKey)] ++ reserved ++
  [("allowed_ips", stringArray ["0.0.0.0/0", "::/0"]),
    ("persistent_keepalive_interval", jsonInt b.persistentKeepalive)]

/-- `BuildCoreObjSingBoxAwg` (lines 351–403) -/
def buildCoreObjSingBoxAwg (b : WireguardBean) : JsonObject :=
  [("type", .string "awg"), ("address", stringArray (withoutBlanks b.localAddress)),
    ("private_key", .string b.privateKey), ("peers", .array [.object (b.peer [])]),
    ("mtu", jsonInt b.mtu), ("useIntegratedTun", .bool b.useSystemInterface),
    ("jc", jsonInt b.junkPacketCount), ("jmin", jsonInt b.junkPacketMinSize),
    ("jmax", jsonInt b.junkPacketMaxSize), ("s1", jsonInt b.initPacketJunkSize),
    ("s2", jsonInt b.responsePacketJunkSize), ("s3", jsonInt b.cookieReplyJunkSize),
    ("s4", jsonInt b.transportPacketJunkSize), ("h1", .string b.initPacketMagicHeader),
    ("h2", .string b.responsePacketMagicHeader), ("h3", .string b.cookieReplyMagicHeader),
    ("h4", .string b.transportPacketMagicHeader), ("i1", .string b.i1), ("i2", .string b.i2),
    ("i3", .string b.i3), ("i4", .string b.i4), ("i5", .string b.i5)]

/-- `BuildCoreObjSingBox` (lines 11–58), with the interface name that is drawn. -/
def buildCoreObjSingBox (b : WireguardBean) (tunName : String) : JsonObject :=
  if b.isAmnezia then b.buildCoreObjSingBoxAwg
  else
    [("type", .string "wireguard"), ("name", .string tunName),
      ("address", stringArray (withoutBlanks b.localAddress)),
      ("private_key", .string b.privateKey),
      ("peers", .array [.object (b.peer [("reserved", intListArray b.reserved)])]),
      ("mtu", jsonInt b.mtu), ("system", .bool b.useSystemInterface)]

/-- Two beans of one kind that build one endpoint, with some names of the interface. -/
def SameEndpoint (b b' : WireguardBean) : Prop :=
  b.type = b'.type ∧
    ∃ tunName tunName', b.buildCoreObjSingBox tunName = b'.buildCoreObjSingBox tunName'

/-! ## Writing a link -/

/-- `FormatReserved` -/
def formatReserved (b : WireguardBean) : String := join "-" (b.reserved.map numberString)

/-- The part of the query that only an Amnezia link has (lines 171–193). -/
def amneziaQuery (b : WireguardBean) (query : QUrlQuery) : QUrlQuery :=
  let query := addQueryItem query "enable_amnezia" "true"
  let query := addQueryInt query "junk_packet_count" b.junkPacketCount
  let query := addQueryInt query "junk_packet_min_size" b.junkPacketMinSize
  let query := addQueryInt query "junk_packet_max_size" b.junkPacketMaxSize
  let query := addQueryInt query "init_packet_junk_size" b.initPacketJunkSize
  let query := addQueryInt query "response_packet_junk_size" b.responsePacketJunkSize
  let query := addQueryInt query "underload_packet_junk_size" b.cookieReplyJunkSize
  let query := addQueryInt query "transport_packet_junk_size" b.transportPacketJunkSize
  let query := addQueryString query "init_packet_magic_header" b.initPacketMagicHeader
  let query := addQueryString query "response_packet_magic_header" b.responsePacketMagicHeader
  let query := addQueryString query "cookie_reply_magic_header" b.cookieReplyMagicHeader
  let query := addQueryString query "transport_packet_magic_header" b.transportPacketMagicHeader
  let query := addQueryString query "i1" b.i1
  let query := addQueryString query "i2" b.i2
  let query := addQueryString query "i3" b.i3
  let query := addQueryString query "i4" b.i4
  addQueryString query "i5" b.i5

/-- The query of the link (lines 160–194). -/
def query (b : WireguardBean) : QUrlQuery :=
  let query := addQueryString [] "private_key" b.privateKey
  let query := addQueryString query "peer_public_key" b.publicKey
  let query := addQueryString query "pre_shared_key" b.preSharedKey
  let query := addQueryString query "reserved" b.formatReserved
  let query := addQueryInt query "persistent_keepalive" b.persistentKeepalive
  let query := addQueryInt query "mtu" b.mtu
  let query := addQueryBoolean query "use_system_interface" b.useSystemInterface
  let query := addQueryString query "local_address" (join "-" b.localAddress)
  if b.isAmnezia then b.amneziaQuery query else query

/-- The URL `ToShareLink` prints. -/
def shareUrl (L : UrlLibrary) (b : WireguardBean) : Url :=
  { addDefaultFields L { scheme := "wg" } b.entity with query := b.query }

def toShareLink (L : UrlLibrary) (b : WireguardBean) : String := L.toString (b.shareUrl L)

/-! ## Reading a configuration file -/

/-- `line_parser` (lines 220–335) without the test of the key for blanks: the bean
    and `enable_amnezia`. A key is equal to one of the names at most. -/
def parseEntry (st : WireguardBean × Bool) (key value : String) : WireguardBean × Bool :=
  let b := st.1
  if equalsNoCase key "PrivateKey" then ({ b with privateKey := trimString value }, st.2)
  else if equalsNoCase key "Address" then
    let addresses := (split ',' (trimString value)).map trimString
    ({ b with localAddress := b.localAddress ++ addresses }, st.2)
  else if equalsNoCase key "MTU" then ({ b with mtu := intOf value }, st.2)
  else if equalsNoCase key "PublicKey" then ({ b with publicKey := trimString value }, st.2)
  else if equalsNoCase key "PresharedKey" then ({ b with preSharedKey := trimString value }, st.2)
  else if equalsNoCase key "PersistentKeepalive" then
    ({ b with persistentKeepalive := intOf value }, st.2)
  else if equalsNoCase key "Endpoint" then
    match split ':' (trimString value) with
    | address :: port :: _ =>
      let entity :=
        { b.entity with
          serverAddress := trimString address
          serverPort := intOf (trimString port) }
      ({ b with entity := entity }, st.2)
    | _ => st
  else if equalsNoCase key "S1" then ({ b with initPacketJunkSize := intOf value }, true)
  else if equalsNoCase key "S2" then ({ b with responsePacketJunkSize := intOf value }, true)
  else if equalsNoCase key "S3" then ({ b with cookieReplyJunkSize := intOf value }, true)
  else if equalsNoCase key "S4" then ({ b with transportPacketJunkSize := intOf value }, true)
  else if equalsNoCase key "Jc" then ({ b with junkPacketCount := intOf value }, true)
  else if equalsNoCase key "Jmin" then ({ b with junkPacketMinSize := intOf value }, true)
  else if equalsNoCase key "Jmax" then ({ b with junkPacketMaxSize := intOf value }, true)
  else if equalsNoCase key "H1" then ({ b with initPacketMagicHeader := value }, true)
  else if equalsNoCase key "H2" then ({ b with responsePacketMagicHeader := value }, true)
  else if equalsNoCase key "H3" then ({ b with cookieReplyMagicHeader := value }, true)
  else if equalsNoCase key "H4" then ({ b with transportPacketMagicHeader := value }, true)
  else if equalsNoCase key "I1" then ({ b with i1 := value }, true)
  else if equalsNoCase key "I2" then ({ b with i2 := value }, true)
  else if equalsNoCase key "I3" then ({ b with i3 := value }, true)
  else if equalsNoCase key "I4" then ({ b with i4 := value }, true)
  else if equalsNoCase key "I5" then ({ b with i5 := value }, true)
  else st

/-- `parseWgConfig` (lines 211–346); `none` if it returns false, which it does before
    it changes the bean. -/
def parseWgConfig (b : WireguardBean) (config : String) : Option WireguardBean :=
  let sections := Ini.parse config
  if (sections.lookup "Interface").isNone ∨ (sections.lookup "Peer").isNone then none
  else
    let entries := sections.flatMap Prod.snd
    let st := entries.foldl
      (fun st e => if isBlank e.1 then st else parseEntry st e.1 e.2) (b, false)
    some { st.1 with
      isAmnezia := st.2
      entity := { st.1.entity with name := "Wg file config" } }

/-! ## Reading the link of the Amnezia client -/

/-- `toLongLong(&ok)` -/
def toLongLong (s : String) : Option ℤ :=
  let value : Option ℤ := match trimmed s.toList with
    | '-' :: cs => (digits cs).map fun n => -(n : ℤ)
    | '+' :: cs => (digits cs).map fun n => (n : ℤ)
    | cs => (digits cs).map fun n => (n : ℤ)
  value.filter fun n => decide (-2 ^ 63 ≤ n ∧ n < 2 ^ 63)

/-- `parseMagicHeader` (lines 457–474): the first and last value of a header. -/
def parseMagicHeader (spec : String) (standard : ℤ) : Option (ℤ × ℤ) :=
  if isBlank spec then some (standard, standard)
  else
    let range := match split '-' (trimString spec) with
      | [part] => (toLongLong part).map fun n => (n, n)
      | [first, last] => (toLongLong first).bind fun n => (toLongLong last).map fun m => (n, m)
      | _ => none
    range.filter fun r => decide (0 ≤ r.1 ∧ r.2 ≤ 0xFFFFFFFF ∧ r.1 ≤ r.2)

/-- No two of the ranges meet. -/
def disjointRanges : List (ℤ × ℤ) → Bool
  | [] => true
  | r :: rest => rest.all (fun s => !decide (r.1 ≤ s.2 ∧ s.1 ≤ r.2)) && disjointRanges rest

/-- `ValidateAmnezia` (lines 477–497) -/
def validateAmnezia (b : WireguardBean) : Bool :=
  if 0 < b.junkPacketCount ∧ (b.junkPacketMinSize ≤ 0 ∨ b.junkPacketMaxSize ≤ 0) then false
  else if 0 < b.junkPacketMinSize ∧ 0 < b.junkPacketMaxSize ∧
      b.junkPacketMaxSize < b.junkPacketMinSize then false
  else
    match parseMagicHeader b.initPacketMagicHeader 1, parseMagicHeader b.responsePacketMagicHeader 2,
      parseMagicHeader b.cookieReplyMagicHeader 3,
      parseMagicHeader b.transportPacketMagicHeader 4 with
    | some r1, some r2, some r3, some r4 => disjointRanges [r1, r2, r3, r4]
    | _, _, _, _ => false

/-- What the import of an Amnezia link uses of Qt beyond the URLs. -/
structure VpnLibrary where
  /-- `qUncompress`; empty for data that are not valid -/
  qUncompress : Bytes → Bytes
  /-- `QJsonDocument::fromJson(data).object()` -/
  jsonObject : Bytes → JsonObject
  toUtf8 : String → Bytes
  /-- `QUrl::fromPercentEncoding(s.toUtf8())` -/
  fromPercentEncoding : String → String

/-- `QByteArray::fromBase64`, which passes over what is no digit. -/
def fromBase64 : List Char → ℕ → ℕ → Bytes
  | [], _, _ => []
  | ch :: rest, buf, nbits =>
    match base64Digit ch with
    | none => fromBase64 rest buf nbits
    | some d =>
      let buf := buf * 64 + d
      let nbits := nbits + 6
      if 8 ≤ nbits then
        let nbits := nbits - 8
        Fin.ofNat 256 (buf / 2 ^ nbits) :: fromBase64 rest (buf % 2 ^ nbits) nbits
      else fromBase64 rest buf nbits

/-- `value.toObject()` -/
def toObject : Json → JsonObject
  | .object o => o
  | _ => []

/-- The first container with an object `awg` that is not empty (lines 507–514). -/
def awgContainer : List Json → JsonObject
  | [] => []
  | container :: rest =>
    match toObject ((toObject container).value "awg") with
    | [] => awgContainer rest
    | awg => awg

/-- `jsonStr` (lines 520–524) -/
def jsonStr (last awg : JsonObject) (key : String) : String :=
  let value := match last.value key with
    | .null => awg.value key
    | value => value
  match value with
  | .number n => numberString n.toInt.toInt
  | value => value.toString

/-- `jsonInt` (lines 525–529) -/
def jsonIntValue (last awg : JsonObject) (key : String) : ℤ :=
  let value := match last.value key with
    | .null => awg.value key
    | value => value
  match value with
  | .string s => intOf (trimString s)
  | value => value.toInt.toInt

/-- `a` if it is not empty, and else `b`. -/
def orText (a b : String) : String := if a = "" then b else a

/-- `a` if it is positive, and else `b`. -/
def orNatural (a b : ℤ) : ℤ := if a ≤ 0 then b else a

/-- The fields the configuration file has left out are taken from the JSON
    (lines 533–566). -/
def fillFromJson (b : WireguardBean) (root last awg : JsonObject) : WireguardBean :=
  let str := jsonStr last awg
  let int := jsonIntValue last awg
  let clientIp := str "client_ip"
  { b with
    entity :=
      { b.entity with
        serverAddress :=
          orText b.entity.serverAddress (orText (str "hostName") (root.value "hostName").toString)
        serverPort := orNatural (orNatural b.entity.serverPort (int "port")) 51820 }
    localAddress :=
      if b.localAddress = [] ∧ clientIp ≠ "" then [clientIp] else b.localAddress
    privateKey := orText b.privateKey (str "client_priv_key")
    publicKey := orText b.publicKey (str "server_pub_key")
    preSharedKey := orText b.preSharedKey (str "psk_key")
    mtu := orNatural (orNatural b.mtu (int "mtu")) 1420
    persistentKeepalive := orNatural b.persistentKeepalive (int "persistent_keep_alive")
    junkPacketCount := orNatural b.junkPacketCount (int "Jc")
    junkPacketMinSize := orNatural b.junkPacketMinSize (int "Jmin")
    junkPacketMaxSize := orNatural b.junkPacketMaxSize (int "Jmax")
    initPacketJunkSize := orNatural b.initPacketJunkSize (int "S1")
    responsePacketJunkSize := orNatural b.responsePacketJunkSize (int "S2")
    cookieReplyJunkSize := orNatural b.cookieReplyJunkSize (int "S3")
    transportPacketJunkSize := orNatural b.transportPacketJunkSize (int "S4")
    initPacketMagicHeader := orText b.initPacketMagicHeader (str "H1")
    responsePacketMagicHeader := orText b.responsePacketMagicHeader (str "H2")
    cookieReplyMagicHeader := orText b.cookieReplyMagicHeader (str "H3")
    transportPacketMagicHeader := orText b.transportPacketMagicHeader (str "H4")
    i1 := orText b.i1 (str "I1")
    i2 := orText b.i2 (str "I2")
    i3 := orText b.i3 (str "I3")
    i4 := orText b.i4 (str "I4")
    i5 := orText b.i5 (str "I5") }

/-- `parseAmneziaVpnLink` (lines 500–580) -/
def parseAmneziaVpnLink (V : VpnLibrary) (b : WireguardBean) (link : String) :
    Option WireguardBean :=
  let payload := (trimString (subStrBefore (subStrAfter link "://") "#")).toList.map fun c =>
    if c = '-' then '+' else if c = '_' then '/' else c
  let plain := V.qUncompress (fromBase64 payload 0 0)
  if plain = [] then none
  else
    let root := V.jsonObject plain
    match awgContainer (toArray (root.value "containers")) with
    | [] => none
    | awg =>
      let last := V.jsonObject (V.toUtf8 (awg.value "last_config").toString)
      let b := { b with mtu := 0 }
      let b := (b.parseWgConfig (last.value "config").toString).getD b
      let b := b.fillFromJson root last awg
      if b.privateKey = "" ∨ b.publicKey = "" ∨ b.entity.serverAddress = "" then none
      else
        let description := (root.value "description").toString
        let name :=
          if description = "" ∧ containsText link "#" then
            V.fromPercentEncoding (subStrAfter link "#")
          else description
        let b := { b with isAmnezia := true, entity := { b.entity with name := orText name "AmneziaWG" } }
        if b.validateAmnezia then some b else none

/-! ## Reading a share link -/

/-- `split("-")` of a value that is not empty (lines 75–81). -/
def splitValue (raw : String) : List String := if raw = "" then [] else split '-' raw

/-- The fields read of the query (lines 71–105). -/
def readQuery (L : UrlLibrary) (b : WireguardBean) (query : QUrlQuery) : WireguardBean :=
  { b with
    privateKey := queryItemValue query "private_key"
    publicKey := queryItemValue query "peer_public_key"
    preSharedKey := queryItemValue query "pre_shared_key"
    reserved := b.reserved ++ (splitValue (queryItemValue query "reserved")).map intOf
    localAddress := b.localAddress ++ splitValue (queryItemValue query "local_address")
    persistentKeepalive := getQueryIntValue query "persistent_keepalive"
      (getQueryIntValue query "persistent_keepalive_interval" 0)
    mtu := getQueryIntValue query "mtu" 0
    useSystemInterface := setBoolean L "use_system_interface" b.useSystemInterface query
    junkPacketCount := getQueryIntValue query "junk_packet_count" 0
    junkPacketMinSize := getQueryIntValue query "junk_packet_min_size" 0
    junkPacketMaxSize := getQueryIntValue query "junk_packet_max_size" 0
    initPacketJunkSize :=
      getQueryIntValue query "init_packet_junk_size" (getQueryIntValue query "s1" 0)
    responsePacketJunkSize :=
      getQueryIntValue query "response_packet_junk_size" (getQueryIntValue query "s2" 0)
    cookieReplyJunkSize :=
      getQueryIntValue query "underload_packet_junk_size" (getQueryIntValue query "s3" 0)
    transportPacketJunkSize :=
      getQueryIntValue query "transport_packet_junk_size" (getQueryIntValue query "s4" 0)
    initPacketMagicHeader :=
      getQueryValue query "init_packet_magic_header" (getQueryValue query "h1" "")
    responsePacketMagicHeader :=
      getQueryValue query "response_packet_magic_header" (getQueryValue query "h2" "")
    cookieReplyMagicHeader :=
      getQueryValue query "underload_packet_magic_header"
        (getQueryValue query "cookie_reply_magic_header" (getQueryValue query "h3" ""))
    transportPacketMagicHeader :=
      getQueryValue query "transport_packet_magic_header" (getQueryValue query "h4" "")
    i1 := getQueryValue query "i1" ""
    i2 := getQueryValue query "i2" ""
    i3 := getQueryValue query "i3" ""
    i4 := getQueryValue query "i4" ""
    i5 := getQueryValue query "i5" "" }

/-- `enable_amnezia` (lines 107–117), of the bean whose fields have been read. -/
def linkEnablesAmnezia (L : UrlLibrary) (b : WireguardBean) (url : Url) : Bool :=
  setBoolean L "enable_amnezia" false url.query ||
    (0 < b.junkPacketCount ∨ 0 < b.junkPacketMinSize ∨ 0 < b.junkPacketMaxSize ∨
      0 < b.initPacketJunkSize ∨ 0 < b.responsePacketJunkSize ∨
      0 < b.cookieReplyJunkSize ∨ 0 < b.transportPacketJunkSize) ||
    (url.scheme = "awg" ∨ url.scheme = "amneziawg" ∨ url.scheme = "amnezia")

/-- `TryParseLink` (lines 60–120); `none` if it returns false. -/
def tryParseLink (L : UrlLibrary) (V : VpnLibrary) (b : WireguardBean) (link : String) :
    Option WireguardBean :=
  if startsWithNoCase link "vpn://" then b.parseAmneziaVpnLink V link
  else
    match b.parseWgConfig link with
    | some b => some b
    | none =>
      (L.fromString link).map fun url =>
        let b := { b with entity := Entity.ofUrl url }
        let b := b.readQuery L url.query
        { b with isAmnezia := b.linkEnablesAmnezia L url }

/-! ## The round trip -/

variable {L : UrlLibrary} {V : VpnLibrary} {b b' fresh : WireguardBean}

theorem lookup_useSystemInterface :
    b.query.lookup "use_system_interface" =
      some (if b.useSystemInterface then "true" else "false") := by
  unfold query
  by_cases hkind : b.isAmnezia
  · rw [if_pos hkind]
    simp [amneziaQuery]
  · rw [if_neg hkind]
    simp

theorem lookup_enableAmnezia (hplain : b.isAmnezia = false) :
    b.query.lookup "enable_amnezia" = none := by
  unfold query
  rw [hplain]
  simp

theorem toList_shareLink (hprinted : L.Printed (b.shareUrl L)) :
    ∃ rest, (b.toShareLink L).toList = 'w' :: 'g' :: ':' :: rest ∧ ∀ c ∈ rest, isSpace c = false := by
  obtain ⟨rest, hlink, hrest⟩ := hprinted
  refine ⟨rest.toList, ?_, hrest⟩
  have hscheme : ((b.shareUrl L).scheme ++ ":").toList = ['w', 'g', ':'] := by
    show ("wg" ++ ":").toList = _
    decide
  rw [toShareLink, hlink, String.toList_append, hscheme]
  rfl

/-- A share link is no link of the Amnezia client. -/
theorem startsWith_shareLink (hprinted : L.Printed (b.shareUrl L)) :
    startsWithNoCase (b.toShareLink L) "vpn://" = false := by
  obtain ⟨rest, hlink, -⟩ := toList_shareLink hprinted
  rw [startsWithNoCase, hlink]
  rfl

/-- A share link is no configuration file. -/
theorem parseWgConfig_shareLink (hprinted : L.Printed (b.shareUrl L)) :
    fresh.parseWgConfig (b.toShareLink L) = none := by
  obtain ⟨rest, htext, hrest⟩ := toList_shareLink hprinted
  have hspace : ∀ c ∈ (b.toShareLink L).toList, isSpace c = false := by
    intro c hc
    rw [htext] at hc
    simp only [List.mem_cons] at hc
    rcases hc with rfl | rfl | rfl | hc
    · decide
    · decide
    · decide
    · exact hrest c hc
  have hsection := Ini.parse_line htext hspace (by decide)
    (show "Interface" ≠ "" by decide)
  rw [parseWgConfig, hsection]
  rfl

/-- What a bean reads of its own link, if the link is a URL. -/
theorem tryParseLink_shareLink (hprinted : L.Printed (b.shareUrl L)) :
    fresh.tryParseLink L V (b.toShareLink L) =
      (L.fromString (b.toShareLink L)).map fun url =>
        let read := { fresh with entity := Entity.ofUrl url }.readQuery L url.query
        { read with isAmnezia := read.linkEnablesAmnezia L url } := by
  rw [tryParseLink, startsWith_shareLink hprinted, parseWgConfig_shareLink hprinted]
  rfl

/-- The flag of the system interface comes back negated. -/
theorem useSystemInterface_tryParseLink (hcompare : L.ComparesBooleans)
    (hprinted : L.Printed (b.shareUrl L)) (hquery : L.KeepsQuery (b.shareUrl L))
    (h : fresh.tryParseLink L V (b.toShareLink L) = some b') :
    b'.useSystemInterface = !b.useSystemInterface := by
  rw [tryParseLink_shareLink hprinted] at h
  obtain ⟨url, hurl, rfl⟩ := Option.map_eq_some_iff.mp h
  have hpairs : url.query = b.query := hquery url hurl
  show setBoolean L "use_system_interface" fresh.useSystemInterface url.query = _
  rw [hpairs]
  exact setBoolean_eq_not hcompare lookup_useSystemInterface _

/-- A plain bean comes back as an Amnezia one: its link does not hold the flag that
    enables Amnezia, and a flag that is not there is read as true. -/
theorem isAmnezia_tryParseLink (hcompare : L.ComparesBooleans)
    (hprinted : L.Printed (b.shareUrl L)) (hquery : L.KeepsQuery (b.shareUrl L))
    (hplain : b.isAmnezia = false) (h : fresh.tryParseLink L V (b.toShareLink L) = some b') :
    b'.isAmnezia = true := by
  rw [tryParseLink_shareLink hprinted] at h
  obtain ⟨url, hurl, rfl⟩ := Option.map_eq_some_iff.mp h
  have hpairs : url.query = b.query := hquery url hurl
  have hflag : setBoolean L "enable_amnezia" false url.query = true := by
    rw [hpairs]
    exact setBoolean_absent hcompare (lookup_enableAmnezia hplain) false
  show linkEnablesAmnezia L _ url = true
  rw [linkEnablesAmnezia, hflag, Bool.true_or, Bool.true_or]

/-- Both kinds of endpoint hold the flag. -/
theorem SameEndpoint.useSystemInterface (h : SameEndpoint b b') :
    b.useSystemInterface = b'.useSystemInterface := by
  obtain ⟨htype, tunName, tunName', hobject⟩ := h
  have hkind : b.isAmnezia = b'.isAmnezia := by
    unfold type at htype
    revert htype
    cases b.isAmnezia <;> cases b'.isAmnezia <;> decide
  unfold buildCoreObjSingBox at hobject
  rw [hkind] at hobject
  split_ifs at hobject
  · have hvalue := congrArg (fun o : JsonObject => o.value "useIntegratedTun") hobject
    simpa [buildCoreObjSingBoxAwg, JsonObject.value] using hvalue
  · have hvalue := congrArg (fun o : JsonObject => o.value "system") hobject
    simpa [JsonObject.value] using hvalue

/-- No bean survives its share link. -/
theorem share_link_never_survives (hcompare : L.ComparesBooleans)
    (hprinted : L.Printed (b.shareUrl L)) (hquery : L.KeepsQuery (b.shareUrl L))
    (amnezia : Bool) :
    ¬ RoundTrip.Survives (toShareLink L) (tryParseLink L V { isAmnezia := amnezia })
      SameEndpoint b := by
  refine RoundTrip.not_survives_of_lost (fun b => b.useSystemInterface)
    (fun _ h => h.useSystemInterface) ?_
  intro b' h
  rw [useSystemInterface_tryParseLink hcompare hprinted hquery h]
  cases b.useSystemInterface <;> decide

/-! ## A plain bean -/

def plainSample : WireguardBean where
  entity := { name := "home", serverAddress := "192.0.2.1", serverPort := 51820 }
  privateKey := "cHJpdmF0ZQ"
  publicKey := "cHVibGlj"
  localAddress := ["10.0.0.2"]

/-- The URL of its link. -/
def plainUrl : Url where
  scheme := "wg"
  host := "192.0.2.1"
  port := 51820
  query := [("private_key", "cHJpdmF0ZQ"), ("peer_public_key", "cHVibGlj"),
    ("persistent_keepalive", "0"), ("mtu", "1420"), ("use_system_interface", "false"),
    ("local_address", "10.0.0.2")]
  fragment := "home"

/-- What stands behind the scheme. -/
def plainText : String :=
  "//192.0.2.1:51820?private_key=cHJpdmF0ZQ&peer_public_key=cHVibGlj&persistent_keepalive=0" ++
    "&mtu=1420&use_system_interface=false&local_address=10.0.0.2#home"

def plainLibrary : UrlLibrary := UrlLibrary.ofUrl plainUrl

/-- Nothing is imported from the Amnezia client. -/
def noVpn : VpnLibrary where
  qUncompress _ := []
  jsonObject _ := []
  toUtf8 _ := []
  fromPercentEncoding s := s

theorem shareUrl_plainSample : plainSample.shareUrl plainLibrary = plainUrl := by
  rfl

theorem printed_plainSample : plainLibrary.Printed (plainSample.shareUrl plainLibrary) := by
  have hblanks : plainText.toList.all (fun c => !isSpace c) = true := by decide +kernel
  rw [shareUrl_plainSample]
  refine ⟨plainText, by decide +kernel, ?_⟩
  intro c hc
  simpa using List.all_eq_true.mp hblanks c hc

theorem keepsQuery_plainSample : plainLibrary.KeepsQuery (plainSample.shareUrl plainLibrary) := by
  rw [shareUrl_plainSample]
  exact (UrlLibrary.ofUrl_faithful plainUrl).keepsQuery

theorem share_link_never_survives_plain :
    ¬ RoundTrip.Survives (toShareLink plainLibrary)
      (tryParseLink plainLibrary noVpn { isAmnezia := false }) SameEndpoint plainSample :=
  share_link_never_survives (UrlLibrary.ofUrl_comparesBooleans plainUrl) printed_plainSample
    keepsQuery_plainSample false

/-- The link of a plain bean is read, as that of an Amnezia one that uses the system
    interface. -/
theorem plain_link_reads_as_amnezia :
    ∃ b, tryParseLink plainLibrary noVpn {} (plainSample.toShareLink plainLibrary) = some b ∧
      b.type = "awg" ∧ b.useSystemInterface = true ∧ ¬ SameEndpoint b plainSample := by
  have hlink : plainLibrary.fromString (plainSample.toShareLink plainLibrary) = some plainUrl := by
    rw [toShareLink, shareUrl_plainSample]
    exact UrlLibrary.ofUrl_faithful plainUrl
  refine ⟨_, (tryParseLink_shareLink printed_plainSample).trans (by rw [hlink]; rfl), ?_, ?_, ?_⟩
  · decide +kernel
  · decide +kernel
  · rintro ⟨htype, -⟩
    revert htype
    decide +kernel

end WireguardBean

end NekoBox.Link
