import NekoBox.Config.Routing
import NekoBox.Lib.FirstMatch
import NekoBox.Lib.OrderedMap

/-!
# Outbounds named by a rule

`isOutboundIDValid` and the two functions `getOutboundID` (`RouteEntity.cpp`,
lines 523–606), with what they use of the profile manager: `getProxyId`
(`Configs.cpp`, lines 669–682), `AddProfile` and `AddGroup` (`Database.cpp`).
The members of a group are ids of profiles, as is the id asked for; the id of the
group is another matter, though it has the same type, and the lookup of a name
returns it.

* `nameOutboundID_eq_iff`: when a name gives a certain id.

The parsers of the beans are a parameter: what `TryParseJson` makes of a fresh
profile of a type. The counters are not bounded here.
-/

namespace NekoBox.Config

open NekoBox.Store NekoBox.Lib

/-! ## Profiles and groups -/

/-- `INVALID_ID` -/
def invalidID : ℤ := -99999

/-- What is read here of a `ProxyEntity`; `list` is that of a `ChainBean`. -/
structure Entity where
  type : String
  name : String := ""
  list : List ℤ := []

/-- The part of `ProfileManager` and of the settings read and written here. -/
structure Profiles where
  /-- the ids of the profiles of each group, in the order of `std::map` -/
  groups : List (ℤ × List ℤ)
  /-- `GetProfile` -/
  entities : ℤ → Option Entity
  maxProfileId : ℤ
  maxGroupId : ℤ
  currentGroup : ℤ
  importedGroup : ℤ

namespace Profiles

/-- `AddProfile` of a fresh profile (`Database.cpp`, lines 954–1000). -/
def addProfile (ent : Entity) (gid : ℤ) (s : Profiles) : Option (ℤ × Profiles) :=
  let gid := if gid < 0 then s.currentGroup else gid
  match OrderedMap.find OrderedMap.less gid s.groups with
  | none => none
  | some members =>
    let id := s.maxProfileId + 1
    some (id, { s with
      maxProfileId := id
      groups := OrderedMap.assign OrderedMap.less gid (members ++ [id]) s.groups
      entities := Function.update s.entities id (some ent) })

/-- The group `Imported` (`Configs.cpp`, lines 671–676). -/
def addImportedGroup (s : Profiles) : Profiles :=
  let id := s.maxGroupId + 1
  { s with
    maxGroupId := id
    groups := OrderedMap.assign OrderedMap.less id [] s.groups
    importedGroup := id }

/-- `Routing::getProxyId` -/
def getProxyId (ent : Entity) (s : Profiles) : ℤ × Profiles :=
  let missing := (OrderedMap.find OrderedMap.less s.importedGroup s.groups).isNone
  let s := if s.importedGroup < 0 ∨ missing then s.addImportedGroup else s
  match s.addProfile ent s.importedGroup with
  | some result => result
  | none => (invalidID, s)

/-- `isOutboundIDValid` -/
def isOutboundIDValid (s : Profiles) (id : ℤ) : Bool :=
  id = proxyID ∨ id = directID ∨ (s.entities id).isSome

end Profiles

/-! ## An outbound described by an object -/

/-- The keys of `Preset::SingBox::OutboundTypes` (`main.cpp`, lines 210–235). -/
def outboundTypes : List String :=
  ["socks", "http", "mieru", "shadowsocks", "chain", "vmess", "trojan", "vless", "hysteria",
    "hysteria2", "tuic", "anytls", "shadowtls", "wireguard", "awg", "tailscale", "ssh", "tor",
    "naive", "trusttunnel", "juicity", "snell", "custom", "extracore"]

/-- A tag that is a string becomes the name. -/
def withTag (object : JsonObject) (ent : Entity) : Entity :=
  match object.value "tag" with
  | .string tag => { ent with name := tag }
  | _ => ent

section

variable (tryParseJson : String → JsonObject → Option Entity)

/-- `chain_lambda` (lines 537–553) -/
def chainLambda (type : String) (object : JsonObject) (s : Profiles) : ℤ × Profiles :=
  let type := if type = "" then (object.value "type").toString else type
  if type ∈ outboundTypes then
    match tryParseJson type object with
    | some ent => s.getProxyId (withTag object ent)
    | none => (invalidID, s)
  else (invalidID, s)

/-- The members of a chain (lines 566–576). -/
def memberIds : List Json → Profiles → Option (List ℤ) × Profiles
  | [], s => (some [], s)
  | .object member :: l, s =>
    let result := chainLambda tryParseJson "" member s
    if result.1 = invalidID then (none, result.2)
    else
      let rest := memberIds l result.2
      (rest.1.map (result.1 :: ·), rest.2)
  | _ :: _, s => (none, s)

/-- `getOutboundID` of an object (lines 535–592). -/
def objectOutboundID (object : JsonObject) (s : Profiles) : ℤ × Profiles :=
  match object.value "type" with
  | .string type =>
    if type = "proxy" then (proxyID, s)
    else if type = "direct" then (directID, s)
    else if type = "block" then (blockID, s)
    else if type = "chain" then
      match object.value "chain" with
      | .array members =>
        let result := memberIds tryParseJson members s
        match result.1 with
        | some ids => result.2.getProxyId (withTag object { type := "chain", list := ids })
        | none => (invalidID, result.2)
      | _ => (invalidID, s)
    else chainLambda tryParseJson type object s
  | _ => (invalidID, s)

end

/-! ## An outbound named -/

/-- The ids of the names that stand for no profile. -/
def builtinID (name : String) : Option ℤ :=
  if name = "proxy" then some proxyID
  else if name = "direct" then some directID
  else if name = "block" then some blockID
  else none

/-- Some profile in the list of a group has the name. -/
def Profiles.lists (s : Profiles) (name : String) (members : List ℤ) : Bool :=
  members.any fun id => (s.entities id).any fun ent => ent.name = name

/-- The loops over the groups (lines 598–603): what is returned is the key of the
    map, the id of the group. -/
def Profiles.findName (s : Profiles) (name : String) : List (ℤ × List ℤ) → ℤ
  | [] => invalidID
  | (key, members) :: groups => if s.lists name members then key else findName s name groups

/-- `getOutboundID` of a name (lines 594–606). -/
def Profiles.nameOutboundID (s : Profiles) (name : String) : ℤ :=
  match builtinID name with
  | some id => id
  | none => s.findName name s.groups

/-- The first group that lists a profile of the name. -/
def FirstListed (s : Profiles) (name : String) (gid : ℤ) : Prop :=
  ∃ before members after, s.groups = before ++ (gid, members) :: after ∧
    (∀ g ∈ before, s.lists name g.2 = false) ∧ s.lists name members = true

/-- No group lists a profile of the name. -/
def Unlisted (s : Profiles) (name : String) : Prop := ∀ g ∈ s.groups, s.lists name g.2 = false

variable {s : Profiles} {name : String}

theorem findName_append {before groups : List (ℤ × List ℤ)}
    (h : ∀ g ∈ before, s.lists name g.2 = false) :
    s.findName name (before ++ groups) = s.findName name groups := by
  induction before with
  | nil => rfl
  | cons g before ih =>
    obtain ⟨hg, hbefore⟩ := List.forall_mem_cons.mp h
    rw [List.cons_append, Profiles.findName, if_neg (by rw [hg]; exact Bool.false_ne_true), ih hbefore]

theorem findName_of_unlisted (h : Unlisted s name) : s.findName name s.groups = invalidID := by
  rw [← List.append_nil s.groups, findName_append h]
  rfl

theorem findName_of_firstListed {gid : ℤ} (h : FirstListed s name gid) :
    s.findName name s.groups = gid := by
  obtain ⟨before, members, after, hgroups, hbefore, hmembers⟩ := h
  rw [hgroups, findName_append hbefore, Profiles.findName, if_pos hmembers]

theorem unlisted_or_firstListed (s : Profiles) (name : String) :
    Unlisted s name ∨ ∃ gid, FirstListed s name gid := by
  by_cases h : ∃ g ∈ s.groups, s.lists name g.2 = true
  · right
    obtain ⟨before, ⟨gid, members⟩, after, hgroups, hmembers, hbefore⟩ :=
      FirstMatch.exists_first h
    exact ⟨gid, before, members, after, hgroups, fun g hg => by simpa using hbefore g hg, hmembers⟩
  · left
    push Not at h
    exact fun g hg => by simpa using h g hg

/-- When a name that is not built in gives a certain id. -/
theorem nameOutboundID_eq_iff (hbuiltin : builtinID name = none) {id : ℤ} (hid : id ≠ invalidID) :
    s.nameOutboundID name = id ↔ FirstListed s name id := by
  unfold Profiles.nameOutboundID
  rw [hbuiltin]
  dsimp only
  constructor
  · rintro rfl
    rcases unlisted_or_firstListed s name with hunlisted | ⟨gid, hfirst⟩
    · exact absurd (findName_of_unlisted hunlisted) hid
    · rwa [findName_of_firstListed hfirst]
  · exact findName_of_firstListed

end NekoBox.Config
