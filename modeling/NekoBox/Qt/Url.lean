import NekoBox.Qt.Text

/-!
# URLs

`QUrl` and `QUrlQuery` as far as the share links use them. The components are
decoded; how a URL is printed and parsed is left open (`UrlLibrary`), and the
results say what they need of it.
-/

namespace NekoBox.Qt

/-! ## Queries -/

/-- `QUrlQuery`: the decoded pairs, in order. -/
abbrev QUrlQuery := List (String × String)

/-- `addQueryItem` -/
def addQueryItem (query : QUrlQuery) (name value : String) : QUrlQuery := query ++ [(name, value)]

/-- `queryItemValue`: the value of the first pair with the key, or an empty one. -/
def queryItemValue (query : QUrlQuery) (key : String) : String := (query.lookup key).getD ""

@[simp]
theorem lookup_addQueryItem (query : QUrlQuery) (name value key : String) :
    (addQueryItem query name value).lookup key =
      (query.lookup key).or (if key = name then some value else none) := by
  rw [addQueryItem, List.lookup_append, List.lookup_cons]
  by_cases h : key = name
  · rw [if_pos h, beq_iff_eq.mpr h]
  · rw [if_neg h, beq_eq_false_iff_ne.mpr h]
    rfl

/-! ## URLs -/

/-- `QUrl`: the decoded components; the port is −1 when there is none. -/
structure Url where
  scheme : String := ""
  userName : String := ""
  password : String := ""
  host : String := ""
  port : ℤ := -1
  query : QUrlQuery := []
  fragment : String := ""

/-- `port()` after `setPort`. The error a port out of range leaves in the URL is
    cleared by the next setter. -/
def setPort (port : ℤ) : ℤ := if -1 ≤ port ∧ port ≤ 65535 then port else -1

/-- What the links use of `QUrl`, and `QString::localeAwareCompare`. -/
structure UrlLibrary where
  /-- `host()` after `setHost` -/
  setHost : String → String
  /-- `toString(QUrl::FullyEncoded)` -/
  toString : Url → String
  /-- `QUrl(link)`, if it is valid -/
  fromString : String → Option Url
  localeAwareCompare : String → String → ℤ

namespace UrlLibrary

variable (L : UrlLibrary)

/-- The URL printed is read back. -/
def Faithful (url : Url) : Prop := L.fromString (L.toString url) = some url

/-- The URL printed is read back, unless it has no host and is not valid. -/
def ReadBack (url : Url) : Prop :=
  L.Faithful url ∨ (url.host = "" ∧ L.fromString (L.toString url) = none)

/-- The pairs of the query of a URL are read back, if it is. -/
def KeepsQuery (url : Url) : Prop :=
  ∀ url', L.fromString (L.toString url) = some url' → url'.query = url.query

/-- The printed URL starts with its scheme and holds no blank. -/
def Printed (url : Url) : Prop :=
  ∃ rest, L.toString url = url.scheme ++ ":" ++ rest ∧ ∀ c ∈ rest.toList, isSpace c = false

/-- The printed URL has its query behind a `?`. -/
def PrintsQuery (url : Url) : Prop :=
  ∃ authority query, L.toString url = url.scheme ++ "://" ++ authority ++ "?" ++ query

/-- The comparison tells the texts of booleans, and no text, apart. -/
def ComparesBooleans : Prop :=
  ∀ s ∈ ["", "true", "false"], ∀ t ∈ ["true", "false"], L.localeAwareCompare s t = 0 ↔ s = t

theorem Faithful.keepsQuery {L : UrlLibrary} {url : Url} (h : L.Faithful url) :
    L.KeepsQuery url := by
  intro url' h'
  rw [Faithful.eq_1, h'] at h
  rw [Option.some.inj h]

end UrlLibrary

/-! ## A library for one URL -/

/-- The text of a URL whose components hold unreserved characters only. -/
def printUrl (url : Url) : String :=
  let password := if url.password = "" then "" else ":" ++ url.password
  let user := if url.userName = "" ∧ url.password = "" then "" else url.userName ++ password ++ "@"
  let port := if url.port = -1 then "" else ":" ++ String.ofList (number url.port)
  let pairs := url.query.map fun p => p.1 ++ "=" ++ p.2
  let query := if url.query = [] then "" else "?" ++ "&".intercalate pairs
  let fragment := if url.fragment = "" then "" else "#" ++ url.fragment
  url.scheme ++ ":" ++ ("//" ++ user ++ url.host ++ port ++ query ++ fragment)

/-- A library that knows one URL, and hosts that are normal already. -/
def UrlLibrary.ofUrl (known : Url) : UrlLibrary where
  setHost := id
  toString := printUrl
  fromString link := if link = printUrl known then some known else none
  localeAwareCompare s t := if s = t then 0 else if s < t then -1 else 1

theorem UrlLibrary.ofUrl_faithful (url : Url) : (UrlLibrary.ofUrl url).Faithful url := if_pos rfl

theorem UrlLibrary.ofUrl_comparesBooleans (url : Url) :
    (UrlLibrary.ofUrl url).ComparesBooleans := by
  intro s _ t _
  show (if s = t then (0 : ℤ) else if s < t then -1 else 1) = 0 ↔ s = t
  split_ifs with heq
  · exact iff_of_true rfl heq
  · exact iff_of_false (by decide) heq
  · exact iff_of_false (by decide) heq

end NekoBox.Qt
