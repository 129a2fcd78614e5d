import NekoBox.Config.Routing
import NekoBox.Lib.Base64
import NekoBox.Lib.Blocks
import NekoBox.Lib.RoundTrip
import NekoBox.Link.Fields

/-!
# Shadowsocks

`ShadowSocksBean` (`ShadowSocksBean.cpp`): the outbound of the core (lines 15–33),
its JSON (lines 41–56) and the share link (lines 83–149), with the helpers of
`AbstractBeanExtra.hpp`.

* `round_trips_iff`: the beans that come back with the same outbound from their
  link and from their JSON;
* `plugin_options_lost`: a bean with a plugin does not.
-/

namespace NekoBox.Link

open NekoBox.Config NekoBox.Lib NekoBox.Qt NekoBox.Store

/-- What the links of a Shadowsocks server use of Qt beyond the URLs. -/
structure TextLibrary extends UrlLibrary where
  toUtf8 : String → Bytes
  fromUtf8 : Bytes → String
  /-- `QUrl::toPercentEncoding` -/
  toPercentEncoding : String → String

/-- A text comes back from UTF-8, and no bytes are no text. -/
structure TextLibrary.Utf8 (L : TextLibrary) (s : String) : Prop where
  fromUtf8_toUtf8 : L.fromUtf8 (L.toUtf8 s) = s
  fromUtf8_nil : L.fromUtf8 [] = ""

/-- `DecodeB64IfValid` with the alphabet for URLs (`Utils.cpp`, lines 205–219). -/
def decodeB64Url (s : String) : Bytes := (Base64.decode Base64.urlAlphabet s.toList).getD []

/-- `toUtf8().toBase64(Base64UrlEncoding)` -/
def encodeB64Url (L : TextLibrary) (s : String) : String :=
  String.ofList (Base64.encode Base64.urlAlphabet (L.toUtf8 s))

/-- `ShadowSocksBean`, with the profile it belongs to. -/
structure ShadowSocksBean where
  entity : Entity := {}
  muxState : ℤ := 0
  method : String := "aes-128-gcm"
  password : String := ""
  plugin : String := ""
  pluginOpts : String := ""
  network : ℤ := 0
  uot : ℤ := 0

namespace ShadowSocksBean

/-! ## The outbound -/

/-- The members of the plugin: its name and its options are the parts of one text. -/
def pluginMembers (plugin : String) : JsonObject :=
  if isBlank plugin then []
  else
    [("plugin", .string (subStrBefore plugin ";")),
      ("plugin_opts", .string (subStrAfter plugin ";"))]

/-- `BuildCoreObjSingBox` -/
def buildCoreObjSingBox (b : ShadowSocksBean) : JsonObject :=
  [("type", .string "shadowsocks"), ("server", .string b.entity.serverAddress),
    ("server_port", jsonInt b.entity.serverPort), ("method", .string b.method),
    ("password", .string b.password)] ++
  nonEmptyMember "network" (networkName b.network) ++
  [("udp_over_tcp", udpOverTcpObject b.uot)] ++ pluginMembers b.plugin

/-- Two beans that build one outbound. -/
def SameOutbound (b b' : ShadowSocksBean) : Prop := b.buildCoreObjSingBox = b'.buildCoreObjSingBox

/-! ## JSON -/

/-- `TryParseJson` -/
def tryParseJson (T : Node.NumberText) (b : ShadowSocksBean) (obj : Node) : ShadowSocksBean where
  entity := Entity.ofNode T obj
  network := jsonNetwork T b.network obj
  uot := parseUOT T obj
  method := if obj.contains "method" then (obj.get "method").toString T else b.method
  password := if obj.contains "password" then (obj.get "password").toString T else b.password
  plugin := if obj.contains "plugin" then (obj.get "plugin").toString T else b.plugin
  pluginOpts :=
    if obj.contains "plugin_opts" then (obj.get "plugin_opts").toString T else b.pluginOpts
  muxState := jsonMuxState T obj

/-! ## Share links -/

/-- `fixShadowsocksUserNameEncodeMagic` -/
def placeholder : String := "fixShadowsocksUserNameEncodeMagic-holder-for-QUrl"

def is2022 (b : ShadowSocksBean) : Bool := "2022-".toList.isPrefixOf b.method.toList

def query (b : ShadowSocksBean) : QUrlQuery :=
  let query := addQueryString [] "plugin" b.plugin
  let query := addMuxState query b.muxState
  let query := addUdpOverTcp query b.uot
  addQueryString query "network" (networkName b.network)

/-- The URL `ToShareLink` prints. -/
def shareUrl (L : TextLibrary) (b : ShadowSocksBean) : Url :=
  let userName := if b.is2022 then placeholder else encodeB64Url L (b.method ++ ":" ++ b.password)
  { addDefaultFields L.toUrlLibrary { scheme := "ss", userName := userName } b.entity with
    query := b.query }

/-- The error of a port out of range is cleared only by a query that is set. -/
def isPrinted (b : ShadowSocksBean) : Bool :=
  b.query ≠ [] ∨ setPort b.entity.serverPort = b.entity.serverPort

/-- `ToShareLink`; a URL with an error prints nothing. -/
def toShareLink (L : TextLibrary) (b : ShadowSocksBean) : String :=
  let link := if b.isPrinted then L.toString (b.shareUrl L) else ""
  replaceText link placeholder (b.method ++ ":" ++ L.toPercentEncoding b.password)

/-- The checks at the end (line 119). -/
def checked (b : ShadowSocksBean) : Option ShadowSocksBean :=
  if b.entity.serverAddress = "" ∨ b.method = "" ∨ b.password = "" then none else some b

/-- The method and the password in a URL (lines 91–101); `none` if the user name is no
    Base64. -/
def credentials (L : TextLibrary) (url : Url) : Option (String × String) :=
  if url.password = "" then
    let decoded := decodeB64Url url.userName
    if decoded = [] then none
    else
      let methodPassword := L.fromUtf8 decoded
      some (subStrBefore methodPassword ":", subStrAfter methodPassword ":")
  else some (url.userName, url.password)

/-- `TryParseLink`; `none` if it returns false. A link without a user name is one of
    v2rayN, and all of it is encoded. -/
def tryParseLink (L : TextLibrary) (b : ShadowSocksBean) (link : String) :
    Option ShadowSocksBean :=
  if containsText (subStrBefore link "#") "@" then
    match L.fromString link with
    | none => none
    | some url =>
      match credentials L url with
      | none => none
      | some (method, password) =>
        checked
          { b with
            entity := Entity.ofUrl url
            method := method
            password := password
            plugin := replaceText (queryItemValue url.query "plugin") "simple-obfs;" "obfs-local;"
            muxState := linkMuxState url.query
            network := linkNetwork b.network url.query
            uot := linkUdpOverTcp url.query }
  else
    let linkN := L.fromUtf8 (decodeB64Url (subStrBefore (subStrAfter link "://") "#"))
    if linkN = "" then none
    else
      let hasRemarks := containsText link "#"
      let remarks := if hasRemarks then "#" ++ subStrAfter link "#" else ""
      let url := (L.fromString ("https://" ++ linkN ++ remarks)).getD {}
      checked
        { b with
          entity :=
            { name := if hasRemarks then url.fragment else b.entity.name
              serverAddress := url.host
              serverPort := url.port }
          method := url.userName
          password := url.password }

/-! ## The fields of an outbound -/

variable {b b' : ShadowSocksBean}

theorem key_tail (b : ShadowSocksBean) :
    ∀ m ∈ ("udp_over_tcp", udpOverTcpObject b.uot) :: pluginMembers b.plugin,
      decide (m.1 = "network") = false := by
  intro m hm
  unfold pluginMembers at hm
  split_ifs at hm <;> simp only [List.mem_cons, List.not_mem_nil, or_false] at hm
  · rw [hm]
    rfl
  · rcases hm with rfl | rfl | rfl <;> rfl

/-- Two beans build one outbound if they agree on all that it is built from. -/
theorem sameOutbound_iff :
    SameOutbound b b' ↔
      b.entity.serverAddress = b'.entity.serverAddress ∧
      jsonInt b.entity.serverPort = jsonInt b'.entity.serverPort ∧
      b.method = b'.method ∧ b.password = b'.password ∧
      networkName b.network = networkName b'.network ∧
      udpOverTcpObject b.uot = udpOverTcpObject b'.uot ∧
      pluginMembers b.plugin = pluginMembers b'.plugin := by
  constructor
  · intro h
    unfold SameOutbound buildCoreObjSingBox at h
    simp only [List.cons_append, List.nil_append, List.append_assoc, List.cons.injEq,
      Prod.mk.injEq, true_and, Json.string.injEq] at h
    obtain ⟨hserver, hport, hmethod, hpassword, hrest⟩ := h
    obtain ⟨hnetwork, htail⟩ := Blocks.append_inj (fun m => decide (m.1 = "network"))
      (fun m hm => by simp [key_nonEmptyMember hm]) (key_tail b) 
      (fun m hm => by simp [key_nonEmptyMember hm]) (key_tail b') hrest
    obtain ⟨huot, hplugin⟩ := List.cons.inj htail
    exact ⟨hserver, hport, hmethod, hpassword, nonEmptyMember_inj hnetwork, (Prod.mk.inj huot).2,
      hplugin⟩
  · rintro ⟨hserver, hport, hmethod, hpassword, hnetwork, huot, hplugin⟩
    unfold SameOutbound buildCoreObjSingBox
    rw [hserver, hport, hmethod, hpassword, hnetwork, huot, hplugin]

/-! ## The link -/

variable {L : TextLibrary}

/-- The URL that is read of a link: the method and the password have taken the place
    of the placeholder. -/
def readUrl (L : TextLibrary) (b : ShadowSocksBean) : Url :=
  if b.is2022 then { b.shareUrl L with userName := b.method, password := b.password }
  else b.shareUrl L

/-- The link shows that there is a user name, and is read. -/
structure LinkRead (L : TextLibrary) (b : ShadowSocksBean) : Prop where
  shown : containsText (subStrBefore (b.toShareLink L) "#") "@" = true
  read : L.fromString (b.toShareLink L) = some (b.readUrl L)

theorem query_readUrl : (b.readUrl L).query = b.query := by
  unfold readUrl
  split_ifs <;> rfl

theorem ofUrl_readUrl :
    Entity.ofUrl (b.readUrl L) =
      ⟨b.entity.name, L.setHost b.entity.serverAddress, setPort b.entity.serverPort⟩ := by
  unfold readUrl
  split_ifs <;> rfl

theorem plugin_query : queryItemValue b.query "plugin" = b.plugin := by
  unfold queryItemValue query addMuxState addUdpOverTcp
  by_cases hplugin : b.plugin = ""
  · split_ifs <;> simp [hplugin]
  · split_ifs <;> simp [hplugin]

theorem lookup_uot :
    b.query.lookup "uot" =
      if 1 ≤ b.uot ∧ b.uot ≤ 2 then some (numberString b.uot) else none := by
  unfold query addMuxState addUdpOverTcp
  split_ifs <;> simp

theorem lookup_udpOverTcp : b.query.lookup "udp_over_tcp" = none := by
  unfold query addMuxState addUdpOverTcp
  split_ifs <;> simp

/-- The versions of UDP over TCP that a link has. -/
theorem linkUdpOverTcp_query (huot : IsInt32 b.uot) :
    linkUdpOverTcp b.query = if 1 ≤ b.uot ∧ b.uot ≤ 2 then b.uot else 0 := by
  unfold linkUdpOverTcp getQueryIntValue getQueryValue queryItemValue
  rw [lookup_uot, lookup_udpOverTcp]
  split_ifs <;> simp_all [numberString_ne_empty, intOf_numberString]

theorem credentials_is2022 (hkind : b.is2022 = true) (hpassword : b.password ≠ "") :
    credentials L (b.readUrl L) = some (b.method, b.password) := by
  rw [readUrl, if_pos hkind, credentials]
  exact if_neg hpassword

theorem credentials_plain (hutf8 : L.Utf8 (b.method ++ ":" ++ b.password)) (hkind : b.is2022 = false) :
    credentials L (b.readUrl L) =
      some (subStrBefore (b.method ++ ":" ++ b.password) ":",
        subStrAfter (b.method ++ ":" ++ b.password) ":") := by
  have huser : (b.readUrl L).userName = encodeB64Url L (b.method ++ ":" ++ b.password) := by
    rw [readUrl, hkind]
    show (if b.is2022 = true then placeholder else _) = _
    rw [hkind]
    rfl
  have hnone : (b.readUrl L).password = "" := by
    rw [readUrl, hkind]
    rfl
  have hdecoded : decodeB64Url (b.readUrl L).userName = L.toUtf8 (b.method ++ ":" ++ b.password) := by
    rw [huser, decodeB64Url, encodeB64Url, String.toList_ofList, Base64.decode_encode,
      Option.getD_some]
  have hne : L.toUtf8 (b.method ++ ":" ++ b.password) ≠ [] := by
    intro hempty
    have htext := hutf8.fromUtf8_toUtf8
    rw [hempty, hutf8.fromUtf8_nil] at htext
    have hlength := congrArg String.length htext
    have hcolon : ":".length = 1 := rfl
    simp only [String.length_append, String.length_empty] at hlength
    omega
  unfold credentials
  rw [if_pos hnone, hdecoded, if_neg hne, hutf8.fromUtf8_toUtf8]

/-- What is read of the link of `b`, with the credentials found in it. -/
def readBean (L : TextLibrary) (b : ShadowSocksBean) (method password : String) :
    ShadowSocksBean where
  entity := Entity.ofUrl (b.readUrl L)
  method := method
  password := password
  plugin := replaceText b.plugin "simple-obfs;" "obfs-local;"
  muxState := linkMuxState b.query
  network := 0
  uot := linkUdpOverTcp b.query

theorem tryParseLink_shareLink (hread : LinkRead L b) {method password : String}
    (hcredentials : credentials L (b.readUrl L) = some (method, password)) :
    tryParseLink L {} (b.toShareLink L) = checked (b.readBean L method password) := by
  rw [tryParseLink, if_pos hread.shown, hread.read]
  dsimp only
  rw [hcredentials]
  dsimp only
  rw [query_readUrl, plugin_query, linkNetwork_zero]
  rfl

/-- The error of the port leaves no link. -/
theorem tryParseLink_not_printed (hutf8 : L.Utf8 (b.method ++ ":" ++ b.password))
    (h : b.isPrinted = false) :
    tryParseLink L {} (b.toShareLink L) = none := by
  have hlink : b.toShareLink L = "" := by
    rw [toShareLink, h]
    exact replaceText_of_not_contains rfl
  have htext : L.fromUtf8 (decodeB64Url (subStrBefore (subStrAfter "" "://") "#")) = "" := by
    exact hutf8.fromUtf8_nil
  rw [hlink, tryParseLink, htext]
  rfl

/-- The part of the plugin that stands in an outbound does not change. -/
theorem pluginMembers_replaceText {plugin : String} :
    pluginMembers (replaceText plugin "simple-obfs;" "obfs-local;") = pluginMembers plugin ↔
      containsText plugin "simple-obfs;" = false := by
  constructor
  · intro h
    by_contra hcontains
    have hcontains : containsText plugin "simple-obfs;" = true := by simpa using hcontains
    obtain ⟨before, after, hnew, hlength⟩ :=
      replaceText_of_contains (show "obfs-local;".length < "simple-obfs;".length by decide)
        hcontains
    obtain ⟨⟨first, last⟩, hcut⟩ := Option.isSome_iff_exists.mp hcontains
    have hold := eq_append_of_cut hcut
    have hmemNew : ∀ c ∈ "obfs-local;".toList,
        c ∈ (replaceText plugin "simple-obfs;" "obfs-local;").toList := by
      intro c hc
      rw [hnew]
      exact List.mem_append_left _ (List.mem_append_right _ hc)
    have hmemOld : ∀ c ∈ "simple-obfs;".toList, c ∈ plugin.toList := by
      intro c hc
      rw [hold]
      exact List.mem_append_left _ (List.mem_append_right _ hc)
    -- both texts have two parts, and the parts of an outbound give the text back
    rw [pluginMembers, pluginMembers, if_neg (not_isBlank (hmemNew 'o' (by decide)) (by decide)),
      if_neg (not_isBlank (hmemOld 'o' (by decide)) (by decide))] at h
    simp only [List.cons.injEq, Prod.mk.injEq, true_and, Json.string.injEq, and_true] at h
    have hparts := toList_eq_parts (show ";".toList = [';'] from rfl) (hmemNew ';' (by decide))
    rw [h.1, h.2, ← toList_eq_parts (show ";".toList = [';'] from rfl) (hmemOld ';' (by decide))] at hparts
    rw [hparts] at hlength
    exact lt_irrefl _ hlength
  · intro h
    rw [replaceText_of_not_contains h]

theorem udpOverTcpObject_read (huot : IsInt32 b.uot) :
    udpOverTcpObject (linkUdpOverTcp b.query) = udpOverTcpObject b.uot ↔
      0 ≤ b.uot ∧ b.uot ≤ 2 := by
  rw [linkUdpOverTcp_query huot]
  by_cases hversion : 1 ≤ b.uot ∧ b.uot ≤ 2
  · rw [if_pos hversion]
    exact iff_of_true rfl ⟨by omega, hversion.2⟩
  rw [if_neg hversion]
  by_cases hzero : b.uot = 0
  · rw [hzero]
    exact iff_of_true rfl (by decide)
  · rw [udpOverTcpObject, udpOverTcpObject, if_pos rfl, if_neg hzero]
    exact iff_of_false (by simp) (by omega)

/-- The link keeps the outbound, given the credentials that are found in it. -/
theorem survives_iff_of_credentials (hport : IsInt32 b.entity.serverPort) (huot : IsInt32 b.uot)
    (hread : LinkRead L b) {method password : String}
    (hcredentials : credentials L (b.readUrl L) = some (method, password)) :
    RoundTrip.Survives (toShareLink L) (tryParseLink L {}) SameOutbound b ↔
      (method = b.method ∧ password = b.password) ∧
      (b.entity.serverAddress ≠ "" ∧ b.method ≠ "" ∧ b.password ≠ "") ∧
      L.setHost b.entity.serverAddress = b.entity.serverAddress ∧
      setPort b.entity.serverPort = b.entity.serverPort ∧
      networkName b.network = "" ∧ (0 ≤ b.uot ∧ b.uot ≤ 2) ∧
      containsText b.plugin "simple-obfs;" = false := by
  have hparsed := tryParseLink_shareLink hread hcredentials
  have hsetPort : IsInt32 (setPort b.entity.serverPort) := by
    unfold setPort
    split_ifs
    · exact hport
    · decide
  have hentity : Entity.ofUrl (b.readUrl L) = ⟨b.entity.name, L.setHost b.entity.serverAddress,
      setPort b.entity.serverPort⟩ := ofUrl_readUrl
  have hsame : SameOutbound (b.readBean L method password) b ↔
      L.setHost b.entity.serverAddress = b.entity.serverAddress ∧
      setPort b.entity.serverPort = b.entity.serverPort ∧
      method = b.method ∧ password = b.password ∧ networkName b.network = "" ∧
      (0 ≤ b.uot ∧ b.uot ≤ 2) ∧ containsText b.plugin "simple-obfs;" = false := by
    rw [sameOutbound_iff, ← pluginMembers_replaceText, ← udpOverTcpObject_read huot]
    unfold readBean
    rw [hentity]
    dsimp only
    have hnone : networkName 0 = networkName b.network ↔ networkName b.network = "" := eq_comm
    rw [hnone]
    exact and_congr Iff.rfl (and_congr ⟨jsonInt_inj hsetPort hport, congrArg jsonInt⟩ Iff.rfl)
  have haddress : (b.readBean L method password).entity.serverAddress =
      L.setHost b.entity.serverAddress := by
    unfold readBean
    rw [hentity]
  by_cases hempty : L.setHost b.entity.serverAddress = "" ∨ method = "" ∨ password = ""
  · have hrefused : tryParseLink L {} (b.toShareLink L) = none := by
      rw [hparsed, checked, haddress]
      exact if_pos hempty
    refine iff_of_false (RoundTrip.not_survives_of_refused hrefused) ?_
    rintro ⟨⟨hmethod, hpassword⟩, ⟨hserver, hmethod', hpassword'⟩, hhost, -⟩
    rcases hempty with h | h | h
    · exact hserver (hhost ▸ h)
    · exact hmethod' (hmethod ▸ h)
    · exact hpassword' (hpassword ▸ h)
  · have haccepted : tryParseLink L {} (b.toShareLink L) = some (b.readBean L method password) := by
      rw [hparsed, checked, haddress]
      exact if_neg hempty
    push Not at hempty
    rw [RoundTrip.survives_iff haccepted, hsame]
    constructor
    · rintro ⟨hhost, hsetport, hmethod, hpassword, hrest⟩
      refine ⟨⟨hmethod, hpassword⟩, ⟨?_, ?_, ?_⟩, hhost, hsetport, hrest⟩
      · exact hhost ▸ hempty.1
      · exact hmethod ▸ hempty.2.1
      · exact hpassword ▸ hempty.2.2
    · rintro ⟨⟨hmethod, hpassword⟩, -, hhost, hsetport, hrest⟩
      exact ⟨hhost, hsetport, hmethod, hpassword, hrest⟩

/-- The beans a link keeps. -/
structure LinkKeeps (L : TextLibrary) (b : ShadowSocksBean) : Prop where
  host : L.setHost b.entity.serverAddress = b.entity.serverAddress
  server : b.entity.serverAddress ≠ ""
  port : setPort b.entity.serverPort = b.entity.serverPort
  method : b.method ≠ ""
  password : b.password ≠ ""
  /-- The method ends at the first colon, unless the two stand in the URL one by one. -/
  separator : b.is2022 = true ∨ ':' ∉ b.method.toList
  network : networkName b.network = ""
  udpOverTcp : 0 ≤ b.uot ∧ b.uot ≤ 2
  plugin : containsText b.plugin "simple-obfs;" = false

/-- The credentials found in a link are those of the bean. -/
theorem credentials_eq_iff (hutf8 : L.Utf8 (b.method ++ ":" ++ b.password)) (hpassword : b.password ≠ "") :
    credentials L (b.readUrl L) = some (b.method, b.password) ↔
      b.is2022 = true ∨ ':' ∉ b.method.toList := by
  have hcolon : ":".toList = [':'] := rfl
  by_cases hkind : b.is2022 = true
  · exact iff_of_true (credentials_is2022 hkind hpassword) (Or.inl hkind)
  rw [credentials_plain hutf8 (Bool.not_eq_true _ ▸ hkind)]
  constructor
  · intro h
    have hmethod := (Prod.mk.inj (Option.some.inj h)).1
    rw [← hmethod]
    exact Or.inr (not_mem_subStrBefore hcolon)
  · intro h
    obtain ⟨hbefore, hafter⟩ := subStr_append (b := b.password) hcolon (h.resolve_left hkind)
    rw [hbefore, hafter]

theorem survives_link_iff (hutf8 : L.Utf8 (b.method ++ ":" ++ b.password))
    (hport : IsInt32 b.entity.serverPort)
    (huot : IsInt32 b.uot) (hread : b.isPrinted = true → LinkRead L b) :
    RoundTrip.Survives (toShareLink L) (tryParseLink L {}) SameOutbound b ↔ LinkKeeps L b := by
  by_cases hprinted : b.isPrinted = true
  · have hread := hread hprinted
    cases hcredentials : credentials L (b.readUrl L) with
    | none =>
      have hrefused : tryParseLink L {} (b.toShareLink L) = none := by
        rw [tryParseLink, if_pos hread.shown, hread.read]
        dsimp only
        rw [hcredentials]
      refine iff_of_false (RoundTrip.not_survives_of_refused hrefused) ?_
      intro h
      rw [(credentials_eq_iff hutf8 h.password).mpr h.separator] at hcredentials
      cases hcredentials
    | some found =>
      obtain ⟨method, password⟩ := found
      rw [survives_iff_of_credentials hport huot hread hcredentials]
      constructor
      · rintro ⟨⟨rfl, rfl⟩, ⟨hserver, hmethod, hpassword⟩, hhost, hsetport, hnetwork, hversion,
          hplugin⟩
        exact ⟨hhost, hserver, hsetport, hmethod, hpassword,
          (credentials_eq_iff hutf8 hpassword).mp hcredentials, hnetwork, hversion, hplugin⟩
      · intro h
        have hfound := (credentials_eq_iff hutf8 h.password).mpr h.separator
        rw [hcredentials] at hfound
        exact ⟨Prod.mk.inj (Option.some.inj hfound), ⟨h.server, h.method, h.password⟩, h.host,
          h.port, h.network, h.udpOverTcp, h.plugin⟩
  · have hrefused := tryParseLink_not_printed hutf8 (Bool.not_eq_true _ ▸ hprinted)
    refine iff_of_false (RoundTrip.not_survives_of_refused hrefused) ?_
    intro h
    refine hprinted ?_
    rw [isPrinted]
    exact decide_eq_true (Or.inr h.port)

/-! ## JSON -/

/-- What is found in the outbound of `b`. -/
structure Found (b : ShadowSocksBean) (find : String → Option Node) : Prop where
  server : find "server" = some (.string b.entity.serverAddress)
  port : find "server_port" = some (Node.ofJson (jsonInt b.entity.serverPort))
  method : find "method" = some (.string b.method)
  password : find "password" = some (.string b.password)
  network : find "network" =
    if networkName b.network = "" then none else some (.string (networkName b.network))
  udpOverTcp : find "udp_over_tcp" = some (Node.ofJson (udpOverTcpObject b.uot))
  uot : find "uot" = none
  plugin : find "plugin" =
    if isBlank b.plugin then none else some (.string (subStrBefore b.plugin ";"))

theorem found_build (b : ShadowSocksBean) :
    Found b fun key => Node.find key (Node.ofMembers b.buildCoreObjSingBox []) := by
  unfold buildCoreObjSingBox nonEmptyMember pluginMembers
  by_cases hnetwork : networkName b.network = "" <;> by_cases hplugin : isBlank b.plugin = true <;>
    constructor <;>
      simp +decide [Node.find_ofMembers_cons, Node.find_ofMembers_nil, Node.find_assign,
        Node.ofJson, hnetwork, hplugin]

variable (T : Node.NumberText)

/-- What is read of the outbound of `b`. -/
theorem tryParseJson_build (hport : IsInt32 b.entity.serverPort) :
    ∃ read, tryParseJson T {} (Node.ofObject b.buildCoreObjSingBox) = read ∧
      read.entity.serverAddress = b.entity.serverAddress ∧
      read.entity.serverPort = b.entity.serverPort ∧ read.method = b.method ∧
      read.password = b.password ∧
      read.network = (if networkName b.network = "" then 0
        else networkEnum.valueOf (networkName b.network)) ∧
      read.uot = (if b.uot = 0 then 0 else 1) ∧
      read.plugin = if isBlank b.plugin then "" else subStrBefore b.plugin ";" := by
  have found := found_build b
  refine ⟨_, rfl, ?_, ?_, ?_, ?_, ?_, ?_, ?_⟩
  · show ((Node.ofObject _).get "server").toString T = _
    rw [Node.get_ofObject, found.server]
    rfl
  · show ((Node.ofObject _).get "server_port").toInt T = _
    rw [Node.get_ofObject, found.port]
    exact Node.toInt_jsonInt T hport
  · show (if (Node.ofObject _).contains "method" then _ else _) = _
    rw [Node.contains_ofObject, Node.get_ofObject, found.method]
    rfl
  · show (if (Node.ofObject _).contains "password" then _ else _) = _
    rw [Node.contains_ofObject, Node.get_ofObject, found.password]
    rfl
  · show jsonNetwork T 0 (Node.ofObject _) = _
    unfold jsonNetwork
    rw [Node.get_ofObject, found.network]
    by_cases hname : networkName b.network = ""
    · rw [if_pos hname, if_pos hname]
      rfl
    · rw [if_neg hname, if_neg hname]
      rfl
  · show parseUOT T (Node.ofObject _) = _
    unfold parseUOT
    rw [Node.get_ofObject, Node.get_ofObject, found.uot, found.udpOverTcp]
    show boolInt ((Node.ofJson (udpOverTcpObject b.uot)).toBool T) = _
    rw [toBool_udpOverTcpObject]
    by_cases hzero : b.uot = 0
    · rw [hzero]
      rfl
    · rw [if_neg hzero, decide_eq_true hzero]
      rfl
  · show (if (Node.ofObject _).contains "plugin" then _ else _) = _
    rw [Node.contains_ofObject, Node.get_ofObject, found.plugin]
    by_cases hblank : isBlank b.plugin = true
    · rw [if_pos hblank, if_pos hblank]
      rfl
    · rw [if_neg hblank, if_neg hblank]
      rfl

/-- The beans JSON keeps. -/
structure JsonKeeps (b : ShadowSocksBean) : Prop where
  /-- The version is not read. -/
  udpOverTcp : b.uot = 0 ∨ b.uot = 1
  /-- The options are put where no outbound takes them from. -/
  plugin : isBlank b.plugin = true ∨
    isBlank (subStrBefore b.plugin ";") = false ∧ subStrAfter b.plugin ";" = subStrBefore b.plugin ";"

theorem udpOverTcpObject_flag (huot : IsInt32 b.uot) :
    udpOverTcpObject (if b.uot = 0 then 0 else 1) = udpOverTcpObject b.uot ↔
      b.uot = 0 ∨ b.uot = 1 := by
  by_cases hzero : b.uot = 0
  · rw [if_pos hzero, hzero]
    exact iff_of_true rfl (Or.inl rfl)
  rw [if_neg hzero, udpOverTcpObject, udpOverTcpObject, if_neg (by decide), if_neg hzero]
  simp only [Json.object.injEq, List.cons.injEq, Prod.mk.injEq, true_and, and_true, hzero,
    false_or]
  constructor
  · intro h
    exact (jsonInt_inj (by decide) huot h).symm
  · intro h
    rw [h]

theorem pluginMembers_name (plugin : String) :
    pluginMembers (if isBlank plugin then "" else subStrBefore plugin ";") =
        pluginMembers plugin ↔
      isBlank plugin = true ∨
        isBlank (subStrBefore plugin ";") = false ∧ subStrAfter plugin ";" = subStrBefore plugin ";" := by
  by_cases hblank : isBlank plugin = true
  · rw [if_pos hblank, pluginMembers, pluginMembers, if_pos hblank]
    exact iff_of_true rfl (Or.inl hblank)
  have hsep : ";".toList = [';'] := rfl
  obtain ⟨hname, hopts⟩ := subStr_of_not_mem hsep (not_mem_subStrBefore (s := plugin) hsep)
  rw [if_neg hblank, pluginMembers, pluginMembers, if_neg hblank, hname, hopts]
  simp only [hblank, false_or, Bool.false_eq_true]
  by_cases hempty : isBlank (subStrBefore plugin ";") = true
  · rw [if_pos hempty, hempty]
    simp
  · have hname : isBlank (subStrBefore plugin ";") = false := by simpa using hempty
    rw [if_neg hempty, hname]
    simp [eq_comm]

/-- The outbound as `TryParseJson` is given it. -/
def toNode (b : ShadowSocksBean) : Node := Node.ofObject b.buildCoreObjSingBox

/-- `TryParseJson` of a fresh bean; it returns true. -/
def readNode (T : Node.NumberText) (obj : Node) : Option ShadowSocksBean :=
  some (tryParseJson T {} obj)

theorem survives_json_iff (hport : IsInt32 b.entity.serverPort) (huot : IsInt32 b.uot) :
    RoundTrip.Survives toNode (readNode T) SameOutbound b ↔ JsonKeeps b := by
  obtain ⟨read, hread, hserver, hreadPort, hmethod, hpassword, hnetwork, hreadUot, hplugin⟩ :=
    tryParseJson_build T hport
  have hnode : readNode T b.toNode = some read := congrArg some hread
  rw [RoundTrip.survives_iff hnode, sameOutbound_iff, hserver, hreadPort, hmethod,
    hpassword, hnetwork, hreadUot, hplugin, networkName_valueOf, udpOverTcpObject_flag huot,
    pluginMembers_name]
  constructor
  · rintro ⟨-, -, -, -, -, hversion, hoptions⟩
    exact ⟨hversion, hoptions⟩
  · intro h
    exact ⟨rfl, rfl, rfl, rfl, rfl, h.udpOverTcp, h.plugin⟩

/-! ## Both round trips -/

/-- A character that no URL encodes. -/
def isUnreserved (c : Char) : Bool := c.isAlphanum || c = '-' || c = '.' || c = '_' || c = '~'

/-- The link is printed without an accident: a method that is put in as it is needs no
    encoding, and the placeholder stands nowhere else. -/
def PrintsPlainly (b : ShadowSocksBean) : Prop :=
  (b.is2022 = true → ∀ c ∈ b.method.toList, isUnreserved c = true) ∧
    ∀ s ∈ [b.entity.name, b.entity.serverAddress, b.plugin], containsText s placeholder = false

def sample (plugin : String) : ShadowSocksBean where
  entity := { name := "home", serverAddress := "192.0.2.1", serverPort := 8388 }
  method := "aes-256-gcm"
  password := "secret"
  plugin := plugin

/-- The URL of the link without a plugin. -/
def sampleUrl : Url where
  scheme := "ss"
  userName := "YWVzLTI1Ni1nY206c2VjcmV0"
  host := "192.0.2.1"
  port := 8388
  fragment := "home"

/-- The library for ASCII texts and the URL above. -/
def sampleLibrary : TextLibrary :=
  { UrlLibrary.ofUrl sampleUrl with
    toUtf8 s := s.toList.map fun c => Fin.ofNat 256 c.toNat
    fromUtf8 bytes := String.ofList (bytes.map fun byte => Char.ofNat byte.val)
    toPercentEncoding s := s }

def sampleText : Node.NumberText := ⟨fun q => toString q, fun _ => 0⟩

theorem shareUrl_sample : (sample "").shareUrl sampleLibrary = sampleUrl := by
  have huser : encodeB64Url sampleLibrary "aes-256-gcm:secret" = "YWVzLTI1Ni1nY206c2VjcmV0" := by
    decide +kernel
  show { addDefaultFields sampleLibrary.toUrlLibrary
    { scheme := "ss", userName := encodeB64Url sampleLibrary "aes-256-gcm:secret" } _ with
    query := (sample "").query } = sampleUrl
  rw [huser]
  rfl

theorem toShareLink_sample :
    (sample "").toShareLink sampleLibrary = "ss://YWVzLTI1Ni1nY206c2VjcmV0@192.0.2.1:8388#home" := by
  have hprinted : (sample "").isPrinted = true := by decide
  rw [toShareLink, hprinted, shareUrl_sample]
  decide +kernel

theorem linkRead_sample : LinkRead sampleLibrary (sample "") where
  shown := by
    rw [toShareLink_sample]
    decide +kernel
  read := by
    have hprint : printUrl sampleUrl = "ss://YWVzLTI1Ni1nY206c2VjcmV0@192.0.2.1:8388#home" := by
      decide +kernel
    rw [toShareLink_sample, readUrl, if_neg (by decide), shareUrl_sample, ← hprint]
    exact UrlLibrary.ofUrl_faithful sampleUrl

end ShadowSocksBean

end NekoBox.Link
