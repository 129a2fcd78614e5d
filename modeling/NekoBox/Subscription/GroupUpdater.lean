import NekoBox.Lib.OrderedMap
import NekoBox.Profile.FilterKey

/-!
# `GroupUpdater::Update`

The part of `GroupUpdater::Update` (`GroupUpdater.cpp`, lines 1494–1551) after
the content has been fetched: the profiles of the group are put into
`ignore_map`, those of the content are looked up in it by `AddProxy`, new ones
are added by `AddProfileBatch`, and those not marked are deleted by
`BatchDeleteProfiles` (`Database.cpp`, lines 975–1005 and 1092–1129).

`none` is undefined behaviour: a null key is dereferenced, or the counter of
profile identifiers overflows. The jobs that write and drop records work on
different profiles; the state is the one after them. `GetProfile` is the map
from an identifier to the profile that is cached or stored under it.
-/

namespace NekoBox.Subscription

open NekoBox.Lib NekoBox.Store NekoBox.Profile

variable {V : Type}

/-- What `ProfileManager` and `DataStore` hold. A profile has the identifier it
    is kept under, none above the counter, and so is the running one. -/
structure Profiles (V : Type) where
  groups : ℤ → Option (List ℤ)
  getProfile : ℤ → Option (ProxyEntity V)
  maxProfileId : ℤ
  startedId : ℤ
  currentGroup : ℤ
  subClear : Bool
  group_nonneg : ∀ gid, groups gid ≠ none → 0 ≤ gid
  id_getProfile : ∀ id ent, getProfile id = some ent → ent.id.toInt = id
  id_nonneg : ∀ id ent, getProfile id = some ent → 0 ≤ id
  id_le : ∀ id ent, getProfile id = some ent → id ≤ maxProfileId
  max_nonneg : 0 ≤ maxProfileId
  started_le : startedId ≤ maxProfileId

namespace Profiles

/-- `group->profiles`, for the group `gid`. -/
def profiles (s : Profiles V) (gid : ℤ) : List ℤ := (s.groups gid).getD []

/-- `group->profiles = list`. -/
def setProfiles (s : Profiles V) (gid : ℤ) (list : List ℤ) : Profiles V where
  groups := fun g => if g = gid then (s.groups g).map fun _ => list else s.groups g
  getProfile := s.getProfile
  maxProfileId := s.maxProfileId
  startedId := s.startedId
  currentGroup := s.currentGroup
  subClear := s.subClear
  group_nonneg := by
    intro g hg
    refine s.group_nonneg g fun hnone => hg ?_
    simp [hnone]
  id_getProfile := s.id_getProfile
  id_nonneg := s.id_nonneg
  id_le := s.id_le
  max_nonneg := s.max_nonneg
  started_le := s.started_le

/-! ## `AddProfileBatch` -/

/-- The profile gets the next identifier, the group and a place at its end. -/
def append (s : Profiles V) (gid : ℤ) (ent : ProxyEntity V) (hmax : s.maxProfileId + 1 < 2 ^ 31) :
    Profiles V where
  groups := fun g =>
    if g = gid then (s.groups g).map (· ++ [s.maxProfileId + 1]) else s.groups g
  getProfile := fun id =>
    if id = s.maxProfileId + 1 then
      some { ent with gid := BitVec.ofInt 32 gid, id := BitVec.ofInt 32 (s.maxProfileId + 1) }
    else s.getProfile id
  maxProfileId := s.maxProfileId + 1
  startedId := s.startedId
  currentGroup := s.currentGroup
  subClear := s.subClear
  group_nonneg := by
    intro g hg
    refine s.group_nonneg g fun hnone => hg ?_
    simp [hnone]
  id_getProfile := by
    intro id e he
    have hnonneg := s.max_nonneg
    split_ifs at he with hid
    · obtain rfl := Option.some.inj he
      rw [hid]
      show (BitVec.ofInt 32 (s.maxProfileId + 1)).toInt = s.maxProfileId + 1
      rw [BitVec.toInt_ofInt, Int.bmod_eq_of_le (by omega) (by omega)]
    · exact s.id_getProfile id e he
  id_nonneg := by
    intro id e he
    have hnonneg := s.max_nonneg
    split_ifs at he with hid
    · omega
    · exact s.id_nonneg id e he
  id_le := by
    intro id e he
    split_ifs at he with hid
    · exact hid.le
    · have hle := s.id_le id e he
      omega
  max_nonneg := by
    have hnonneg := s.max_nonneg
    omega
  started_le := by
    have hle := s.started_le
    omega

/-- The loop body of `AddProfileBatch`. -/
def addProfile (gid : ℤ) (s : Profiles V) (ent : ProxyEntity V) : Option (Profiles V) :=
  if 0 ≤ ent.id.toInt then some s
  else if hmax : s.maxProfileId + 1 < 2 ^ 31 then some (s.append gid ent hmax)
  else none

/-- `AddProfileBatch` (lines 975–1005) -/
def addProfileBatch (s : Profiles V) (ents : List (ProxyEntity V)) (gid : ℤ) :
    Option (Profiles V) :=
  let gid := if gid < 0 then s.currentGroup else gid
  match s.groups gid with
  | none => some s
  | some _ => ents.foldlM (addProfile gid) s

/-! ## `BatchDeleteProfiles` -/

/-- `group->RemoveProfile(id)` -/
def removeProfile (s : Profiles V) (gid id : ℤ) : Profiles V :=
  s.setProfiles gid ((s.profiles gid).filter (· ≠ id))

/-- The loop body of `BatchDeleteProfiles`, with `deleted_ids`. -/
def deleteOne (groupid : ℤ) (st : Profiles V × List ℤ) (id : ℤ) : Profiles V × List ℤ :=
  if id < 0 then st
  else if st.1.startedId = id then st
  else
    match st.1.getProfile id with
    | none => st
    | some ent =>
      if groupid = -999 then (st.1, st.2 ++ [id])
      else if groupid < 0 then (st.1.removeProfile ent.gid.toInt id, st.2 ++ [id])
      else if groupid ≠ ent.gid.toInt then st
      else (st.1, st.2 ++ [id])

/-- The job of `BatchDeleteProfiles`: the records are dropped. -/
def dropRecords (s : Profiles V) (ids : List ℤ) : Profiles V where
  groups := s.groups
  getProfile := fun id => if id ∈ ids then none else s.getProfile id
  maxProfileId := s.maxProfileId
  startedId := s.startedId
  currentGroup := s.currentGroup
  subClear := s.subClear
  group_nonneg := s.group_nonneg
  id_getProfile := by
    intro id e he
    split_ifs at he
    exact s.id_getProfile id e he
  id_nonneg := by
    intro id e he
    split_ifs at he
    exact s.id_nonneg id e he
  id_le := by
    intro id e he
    split_ifs at he
    exact s.id_le id e he
  max_nonneg := s.max_nonneg
  started_le := s.started_le

/-- `BatchDeleteProfiles` (lines 1092–1129) -/
def batchDeleteProfiles (s : Profiles V) (ids : List ℤ) (groupid : ℤ) : Profiles V :=
  let st := ids.foldl (deleteOne groupid) (s, [])
  st.1.dropRecords st.2

end Profiles

/-! ## `Update` -/

/-- `ignore_map`: the key of a profile of the group, and whether the content has
    it too. -/
abbrev IgnoreMap (V : Type) := List (ProfileFilterKey V × Bool)

section

variable (hash : String → Bytes) (text : V → String)

abbrev keyLess (a b : ProfileFilterKey V) : Bool := a.lt hash text b

/-- The loop over the profiles of the group (lines 1511–1521), with
    `ProfilesToDrop`. -/
def remember (s : Profiles V) (st : IgnoreMap V × List ℤ) (id : ℤ) :
    Option (IgnoreMap V × List ℤ) :=
  let key : ProfileFilterKey V := ⟨s.getProfile id, false⟩
  if OrderedMap.contains (keyLess hash text) key st.1 then
    match key.key with
    | none => none
    | some ent =>
      some (OrderedMap.assign (keyLess hash text) key false st.1, st.2 ++ [ent.id.toInt])
  else some (OrderedMap.assign (keyLess hash text) key false st.1, st.2)

/-- `RawUpdater::AddProxy` (lines 1308–1317), with `proxies`. -/
def addProxy (st : IgnoreMap V × List (ProxyEntity V)) (ent : ProxyEntity V) :
    IgnoreMap V × List (ProxyEntity V) :=
  let key : ProfileFilterKey V := ⟨some ent, false⟩
  if OrderedMap.contains (keyLess hash text) key st.1 then
    (OrderedMap.assign (keyLess hash text) key true st.1, st.2)
  else (st.1, st.2 ++ [ent])

/-- The loop over `ignore_map` (lines 1539–1546). -/
def unmarked : IgnoreMap V → Option (List ℤ)
  | [] => some []
  | (key, save) :: m =>
    if save then unmarked m
    else
      match key.key with
      | none => none
      | some ent => (unmarked m).map (ent.id.toInt :: ·)

/-- What happens to the group before the content is read (lines 1500–1522). -/
def prepare (s : Profiles V) (gid : ℤ) : Option (Profiles V × IgnoreMap V × List ℤ) :=
  match s.groups gid with
  | none => some (s, [], [])
  | some list =>
    if s.subClear ∨ list.length > 1000 then
      some ((s.batchDeleteProfiles list (-999)).setProfiles gid [], [], [])
    else (list.foldlM (remember hash text s) ([], [])).map fun st => (s, st)

/-- `GroupUpdater::Update` (lines 1494–1551) for the profiles in the content. -/
def update (s : Profiles V) (content : List (ProxyEntity V)) (gid : ℤ) : Option (Profiles V) := do
  let (s, ignoreMap, profilesToDrop) ← prepare hash text s gid
  let count := ignoreMap.length
  let (ignoreMap, proxies) := content.foldl (addProxy hash text) (ignoreMap, [])
  let s ← s.addProfileBatch proxies gid
  let profilesToDrop ←
    if count > 0 then (unmarked ignoreMap).map (profilesToDrop ++ ·) else some profilesToDrop
  return s.batchDeleteProfiles profilesToDrop (-1)

end

end NekoBox.Subscription
