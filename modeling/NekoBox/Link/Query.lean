import NekoBox.Qt.Strings
import NekoBox.Qt.Url

/-!
# Queries of share links

The helpers by which the beans write and read the query of a link: `To_Link`
(`Bean2Link.cpp`, lines 13–41), `From_Link` (`Link2Bean.cpp`, lines 14–32 and
66–70) and those of `Utils.cpp` (lines 238–245, 579–586 and 630–664).

* `getQueryValue_addQueryString`, `getQueryIntValue_addQueryInt`: a text or a
  number written under a new name is read;
* `setBoolean_addQueryBoolean`: a boolean is read as its negation.
-/

namespace NekoBox.Link

open NekoBox.Qt

/-- What the beans and the links hold of a `ProxyEntity`, with its defaults. -/
structure Entity where
  name : String := ""
  serverAddress : String := "127.0.0.1"
  serverPort : ℤ := 1080
  deriving DecidableEq, Repr

/-! ## Writing -/

/-- `AddQueryString`, `add_query_nonempty` -/
def addQueryString (query : QUrlQuery) (name value : String) : QUrlQuery :=
  if value = "" then query else addQueryItem query name value

/-- `AddQueryInt`, `add_query_int` -/
def addQueryInt (query : QUrlQuery) (name : String) (value : ℤ) : QUrlQuery :=
  addQueryItem query name (numberString value)

/-- `AddQueryNatural`, `add_query_int_natural` -/
def addQueryNatural (query : QUrlQuery) (name : String) (value : ℤ) : QUrlQuery :=
  if 0 < value then addQueryInt query name value else query

/-- `add_query_boolean` -/
def addQueryBoolean (query : QUrlQuery) (name : String) (value : Bool) : QUrlQuery :=
  addQueryString query name (if value then "true" else "false")

/-- `To_Link::add_default_fields` -/
def addDefaultFields (L : UrlLibrary) (url : Url) (entity : Entity) : Url :=
  { url with
    fragment := entity.name
    host := L.setHost entity.serverAddress
    port := setPort entity.serverPort }

/-! ## Reading -/

/-- `GetQueryValue` -/
def getQueryValue (query : QUrlQuery) (key default : String) : String :=
  if queryItemValue query key = "" then default else queryItemValue query key

/-- `GetQueryIntValue` -/
def getQueryIntValue (query : QUrlQuery) (key : String) (default : ℤ) : ℤ :=
  if getQueryValue query key "" = "" then default else intOf (getQueryValue query key "")

/-- `From_Link::set_boolean`, the new value. -/
def setBoolean (L : UrlLibrary) (name : String) (value : Bool) (query : QUrlQuery) : Bool :=
  let qval := queryItemValue query name
  if value then !decide (L.localeAwareCompare qval "false" ≠ 0)
  else decide (L.localeAwareCompare qval "true" ≠ 0)

/-- `From_Link::add_default_fields` -/
def Entity.ofUrl (url : Url) : Entity where
  name := url.fragment
  serverAddress := url.host
  serverPort := url.port

/-! ## What was written is read -/

section

variable {query : QUrlQuery} {name value key : String}

@[simp]
theorem lookup_addQueryString :
    (addQueryString query name value).lookup key =
      (query.lookup key).or (if key = name ∧ value ≠ "" then some value else none) := by
  unfold addQueryString
  by_cases hvalue : value = ""
  · rw [if_pos hvalue, if_neg fun h => h.2 hvalue, Option.or_none]
  · rw [if_neg hvalue, lookup_addQueryItem]
    simp only [hvalue, ne_eq, not_false_eq_true, and_true]

@[simp]
theorem lookup_addQueryInt (value : ℤ) :
    (addQueryInt query name value).lookup key =
      (query.lookup key).or (if key = name then some (numberString value) else none) :=
  lookup_addQueryItem ..

@[simp]
theorem lookup_addQueryNatural (value : ℤ) :
    (addQueryNatural query name value).lookup key =
      (query.lookup key).or
        (if key = name ∧ 0 < value then some (numberString value) else none) := by
  unfold addQueryNatural
  by_cases hvalue : 0 < value
  · rw [if_pos hvalue, lookup_addQueryInt]
    simp only [hvalue, and_true]
  · rw [if_neg hvalue, if_neg fun h => hvalue h.2, Option.or_none]

@[simp]
theorem lookup_addQueryBoolean (value : Bool) :
    (addQueryBoolean query name value).lookup key =
      (query.lookup key).or
        (if key = name then some (if value then "true" else "false") else none) := by
  rw [addQueryBoolean, lookup_addQueryString]
  cases value <;> simp

end

theorem queryItemValue_eq {query : QUrlQuery} {key value : String}
    (h : query.lookup key = some value) : queryItemValue query key = value := by
  rw [queryItemValue, h, Option.getD_some]

theorem queryItemValue_of_lookup {query : QUrlQuery} {key value : String}
    (h : query.lookup key = if value ≠ "" then some value else none) :
    queryItemValue query key = value := by
  rw [queryItemValue, h]
  by_cases hvalue : value = ""
  · rw [if_neg (not_not.mpr hvalue), hvalue]
    rfl
  · rw [if_pos hvalue]
    rfl

theorem getQueryValue_empty (query : QUrlQuery) (key : String) :
    getQueryValue query key "" = queryItemValue query key := by
  unfold getQueryValue
  split_ifs with h
  · exact h.symm
  · rfl

/-- A boolean is read as its negation, whatever the value it is read over. -/
theorem setBoolean_eq_not {L : UrlLibrary} (hcompare : L.ComparesBooleans) {name : String}
    {query : QUrlQuery} {value : Bool}
    (h : query.lookup name = some (if value then "true" else "false")) (old : Bool) :
    setBoolean L name old query = !value := by
  have htrue : ∀ t ∈ ["true", "false"], L.localeAwareCompare "true" t = 0 ↔ "true" = t :=
    hcompare "true" (by decide)
  have hfalse : ∀ t ∈ ["true", "false"], L.localeAwareCompare "false" t = 0 ↔ "false" = t :=
    hcompare "false" (by decide)
  unfold setBoolean
  rw [queryItemValue_eq h]
  cases old <;> cases value <;>
    simp [htrue "true" (by decide), htrue "false" (by decide), hfalse "true" (by decide),
      hfalse "false" (by decide)]

/-- A boolean the link does not hold is read as true over false and as false
    over true. -/
theorem setBoolean_absent {L : UrlLibrary} (hcompare : L.ComparesBooleans) {name : String}
    {query : QUrlQuery} (h : query.lookup name = none) (old : Bool) :
    setBoolean L name old query = !old := by
  have hempty : ∀ t ∈ ["true", "false"], L.localeAwareCompare "" t = 0 ↔ "" = t :=
    hcompare "" (by decide)
  have hvalue : queryItemValue query name = "" := by rw [queryItemValue, h, Option.getD_none]
  unfold setBoolean
  rw [hvalue]
  cases old <;> simp [hempty "true" (by decide), hempty "false" (by decide)]

end NekoBox.Link
