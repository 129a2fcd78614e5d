import NekoBox.Link.StreamLink
import NekoBox.Link.TrojanVless
import NekoBox.Subscription.Text

/-!
# VMess

`VMessBean` (`VMessBean.cpp`): the outbound of the core (lines 16–33) and the share
link (lines 76–238). A link of v2rayN is an object in Base64.

* `not_survives`: no bean comes back from its link, as both of its booleans are read
  as their negations.
-/

namespace NekoBox.Link

open NekoBox.Config NekoBox.Lib NekoBox.Qt NekoBox.Store NekoBox.Subscription

/-- What the bean uses besides. -/
structure VMessLibrary extends StreamLibrary where
  fromUtf8 : Bytes → String
  /-- `value.toVariant().toInt()` -/
  variantInt : Json → ℤ

/-- `VMessBean`, with the profile it belongs to. -/
structure VMessBean where
  entity : Entity := {}
  muxState : ℤ := 0
  network : ℤ := 0
  uuid : String := ""
  aid : ℤ := 0
  security : String := "auto"
  authenticatedLength : Bool := false
  globalPadding : Bool := true
  stream : V2rayStreamSettings := {}

namespace VMessBean

variable (L : VMessLibrary)

/-- The members of `BuildCoreObjSingBox`. -/
def outboundMembers (b : VMessBean) : List (String × Option Json) :=
  [("uuid", some (.string (trimString b.uuid))), ("alter_id", some (jsonInt b.aid)),
    ("security", some (.string b.security)),
    ("authenticated_length", some (.bool b.authenticatedLength)),
    ("global_padding", some (.bool b.globalPadding)),
    ("network", nonEmpty (networkName b.network)), ("type", some (.string "vmess")),
    ("server", some (.string b.entity.serverAddress)),
    ("server_port", some (jsonInt b.entity.serverPort))] ++
  b.stream.outboundMembers L.toStreamLibrary "vmess"

/-- `BuildCoreObjSingBox` -/
def buildCoreObjSingBox (b : VMessBean) : JsonObject := Members.present (b.outboundMembers L)

/-- Two beans that build one outbound. -/
def SameOutbound (b b' : VMessBean) : Prop := b.buildCoreObjSingBox L = b'.buildCoreObjSingBox L

/-! ## Writing a link -/

/-- The query of the link. -/
def query (b : VMessBean) : QUrlQuery :=
  let query := addQueryBoolean [] "global_padding" b.globalPadding
  let query := addQueryBoolean query "authenticated_length" b.authenticatedLength
  let query := addQueryString query "encryption" b.security
  let query := addQueryString query "network" (networkName b.network)
  let query := b.stream.addTls L.toStreamLibrary query
  addMuxState query b.muxState

/-- The URL `ToShareLink` prints. -/
def shareUrl (b : VMessBean) : Url :=
  let url : Url := { scheme := "vmess", userName := b.uuid }
  { addDefaultFields L.toUrlLibrary url b.entity with query := b.query L }

def toShareLink (b : VMessBean) : String := L.toString (b.shareUrl L)

/-! ## Reading a link -/

/-- The text of a member, and none if it is something else. -/
def text (obj : JsonObject) (key : String) : String := (JsonObject.value obj key).toString

/-- A link of v2rayN (lines 80–110). -/
def ofObject (b : VMessBean) (obj : JsonObject) : VMessBean :=
  let net := text obj "net"
  let type := text obj "type"
  { b with
    entity :=
      { name := text obj "ps"
        serverAddress := text obj "add"
        serverPort := L.variantInt (JsonObject.value obj "port") }
    uuid := text obj "id"
    aid := L.variantInt (JsonObject.value obj "aid")
    security := if text obj "scy" = "" then b.security else text obj "scy"
    stream :=
      { b.stream with
        host := text obj "host"
        path := text obj "path"
        sni := text obj "sni"
        headerType := type
        security := text obj "tls"
        network :=
          if net = "h2" ∨ (net = "" ∧ type = "http") then v2rayTransports.valueOf "http"
          else if net ≠ "" then v2rayTransports.valueOf net
          else b.stream.network } }

/-- The stream settings of the link. -/
def readStream (s : V2rayStreamSettings) (query : QUrlQuery) : V2rayStreamSettings :=
  let s := { s with network := v2rayTransports.valueOf (linkTransport query) }
  let s := { s with security := replaceText (getQueryValue query "security" "tls") "reality" "tls" }
  let s := readTls L.toStreamLibrary s query
  readTransport L.toStreamLibrary s query false

/-- A link that is a URL (lines 112–203). -/
def ofUrl (b : VMessBean) (url : Url) : VMessBean :=
  let entity := Entity.ofUrl url
  { b with
    entity :=
      { entity with serverPort := if entity.serverPort = -1 then 443 else entity.serverPort }
    uuid := url.userName
    aid := 0
    security := getQueryValue url.query "encryption" "auto"
    globalPadding := setBoolean L.toUrlLibrary "global_padding" b.globalPadding url.query
    authenticatedLength :=
      setBoolean L.toUrlLibrary "authenticated_length" b.authenticatedLength url.query
    network := linkNetwork b.network url.query
    stream := readStream L b.stream url.query
    muxState := linkMuxState url.query }

/-- `TryParseLink`; `none` if it returns false. -/
def tryParseLink (b : VMessBean) (link : String) : Option VMessBean :=
  let linkN := L.fromUtf8 (decodeB64IfValid (subStrAfter link "vmess://").toList)
  if linkN ≠ "" then
    let objN := L.jsonObject linkN
    if objN = [] then none else some (b.ofObject L objN)
  else
    match L.fromString link with
    | none => none
    | some url =>
      let read := b.ofUrl L url
      if read.uuid = "" ∨ read.entity.serverAddress = "" then none else some read

/-! ## The round trip -/

variable {L : VMessLibrary} {b : VMessBean}

open V2rayStreamSettings (streamKeys lookup_addTls lookup_ite)

/-- The link says whether the lengths are authenticated, -/
theorem lookup_authenticatedLength :
    (b.query L).lookup "authenticated_length" =
      some (if b.authenticatedLength then "true" else "false") := by
  have hstream : "authenticated_length" ∉ streamKeys := by decide
  rw [query, addMuxState, lookup_ite]
  simp only [lookup_addQueryBoolean, lookup_addTls _ _ hstream, lookup_addQueryString]
  simp

/-- A link that was written is no link of v2rayN. -/
theorem linkN_shareLink (hempty : L.fromUtf8 [] = "") (hprints : L.PrintsQuery (b.shareUrl L)) :
    L.fromUtf8 (decodeB64IfValid (subStrAfter (b.toShareLink L) "vmess://").toList) = "" := by
  obtain ⟨authority, query, hlink⟩ := hprints
  have hscheme : "vmess" ++ "://" = "vmess://" := by decide
  have htext : b.toShareLink L = "vmess://" ++ (authority ++ "?" ++ query) := by
    rw [toShareLink, hlink, show (b.shareUrl L).scheme = "vmess" from rfl, hscheme]
    simp only [String.append_assoc]
  have hafter := subStrAfter_append (show "vmess://" ≠ "" by decide) (authority ++ "?" ++ query)
  have hmark : '?' ∈ (authority ++ "?" ++ query).toList := by
    rw [String.toList_append, String.toList_append]
    exact List.mem_append_left _ (List.mem_append_right _ (by decide))
  rw [htext, hafter, decodeB64IfValid, fromBase64_of_mem hmark (by decide) (by decide)]
  exact hempty

/-- A boolean of the outbound is lost. -/
theorem not_survives (hempty : L.fromUtf8 [] = "") (hprints : L.PrintsQuery (b.shareUrl L))
    (hcompare : L.ComparesBooleans) (hquery : L.KeepsQuery (b.shareUrl L)) (old : VMessBean) :
    ¬ RoundTrip.Survives (toShareLink L) (tryParseLink L old) (SameOutbound L) b := by
  refine RoundTrip.not_survives_of_lost authenticatedLength ?_ ?_
  · intro b' hsame
    have hmembers : b'.outboundMembers L = b.outboundMembers L := by
      refine (Members.present_inj ?hkeys ?hnodup).mp hsame
      case hkeys => rfl
      case hnodup => simp [outboundMembers, V2rayStreamSettings.outboundMembers]
    simp only [outboundMembers, List.cons_append, List.cons.injEq, Prod.mk.injEq, true_and,
      Option.some.injEq, Json.bool.injEq] at hmembers
    exact hmembers.2.2.2.1
  · intro b' hread
    rw [tryParseLink, linkN_shareLink hempty hprints, if_neg (not_not.mpr rfl)] at hread
    cases hurl : L.fromString (b.toShareLink L) with
    | none =>
      rw [hurl] at hread
      cases hread
    | some url =>
      rw [hurl] at hread
      dsimp only at hread
      split_ifs at hread
      obtain rfl := Option.some.inj hread
      have hlookup : url.query.lookup "authenticated_length" =
          some (if b.authenticatedLength then "true" else "false") := by
        rw [hquery url hurl]
        exact lookup_authenticatedLength
      show setBoolean L.toUrlLibrary "authenticated_length" _ url.query ≠ _
      rw [setBoolean_eq_not hcompare hlookup]
      exact Bool.not_ne_self _

end VMessBean

/-! ## The V2Ray family -/

/-- A bean of one of the three protocols. -/
inductive V2rayBean where
  | trojanVless (b : TrojanVLESSBean)
  | vmess (b : VMessBean)

namespace V2rayBean

/-- The numbers are of type `int`, and the security is one the editor offers. -/
def Offered : V2rayBean → Prop
  | trojanVless b => IsInt32 b.entity.serverPort ∧ IsInt32 b.stream.wsEarlyDataLength ∧
    (b.stream.security = "" ∨ b.stream.security = "tls")
  | vmess _ => True

/-- The URL of the bean is printed and read as it should be. -/
def LinkRead (L : VMessLibrary) : V2rayBean → Prop
  | trojanVless b => L.ReadBack (b.shareUrl L.toStreamLibrary)
  | vmess b => L.PrintsQuery (b.shareUrl L) ∧ L.KeepsQuery (b.shareUrl L)

/-- A fresh bean reads the link, and builds the same outbound. -/
def Survives (L : VMessLibrary) : V2rayBean → Prop
  | trojanVless b =>
    RoundTrip.Survives (TrojanVLESSBean.toShareLink L.toStreamLibrary)
      (TrojanVLESSBean.tryParseLink L.toStreamLibrary { isVless := b.isVless })
      (TrojanVLESSBean.SameOutbound L.toStreamLibrary) b
  | vmess b =>
    RoundTrip.Survives (VMessBean.toShareLink L) (VMessBean.tryParseLink L {})
      (VMessBean.SameOutbound L) b

/-- What a link keeps: of VMess, nothing. -/
def Kept (L : VMessLibrary) : V2rayBean → Prop
  | trojanVless b => b.Kept L.toStreamLibrary
  | vmess _ => False

end V2rayBean

/-- A VLESS bean over WebSocket and TLS. -/
def sampleVless : TrojanVLESSBean where
  entity := ⟨"sample", "192.0.2.1", 443⟩
  isVless := true
  password := "b831381d"
  encryption := "none"
  stream :=
    { network := v2rayTransports.valueOf "ws"
      security := "tls"
      packetEncoding := 2
      path := "ws"
      host := "example.com"
      sni := "example.com"
      utlsFingerprint := "chrome" }

/-- The same bean, of which the certificate is not checked. -/
def insecureVless : TrojanVLESSBean :=
  { sampleVless with stream := { sampleVless.stream with allowInsecure := true } }

/-- A library for one URL and texts in ASCII. -/
def VMessLibrary.ofUrl (known : Url) : VMessLibrary where
  toStreamLibrary := .ofUrl known
  fromUtf8 bytes := String.ofList (bytes.map fun c => Char.ofNat c.val)
  variantInt v := v.toInt.toInt

/-- The library for the link of a bean. -/
def vlessLibrary (b : TrojanVLESSBean) : VMessLibrary := .ofUrl (b.shareUrl (.ofUrl {}))

theorem sampleVless_kept : sampleVless.Kept (vlessLibrary sampleVless).toStreamLibrary where
  server := ⟨rfl, by decide⟩
  port := by decide
  password := by decide
  network := rfl
  packetEncoding _ := by decide
  encryption _ := by decide
  transport :=
    { hosts := fun h => absurd h (by decide)
      headers := fun h => absurd h (by decide)
      wsHeaders := fun _ p hp => by cases hp
      earlyData := fun _ => Or.inl (by decide)
      mode := fun h => absurd h (by decide)
      kcp := fun h => absurd h (by decide) }
  tls _ :=
    { ech := rfl
      certificate := by decide
      insecure := fun h => by cases h
      fingerprint := Or.inl (by decide) }
  sni h := absurd h (by decide)

end NekoBox.Link
