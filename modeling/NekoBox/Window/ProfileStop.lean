import NekoBox.Lib.Loop
import NekoBox.Lib.Lru
import NekoBox.Lib.Machine

/-!
# Stopping a profile

`MainWindow::profile_stop` (`mainwindow_rpc.cpp`, lines 1061–1071) stores the counters of
the running config: for the traffic data of each of its profiles it saves the entity that
`GetProfile` returns, which holds the counters only as long as it is the entity the config
was built from. The caches of `ProfileManager` keep it: `cached_profiles` until its next
save, `weak_profiles` as long as it is among the entries used last.

Modelled are the operations of `Database.cpp` (lines 948–1261) that look profiles up or
remove them, with the threads they start, which do their work at any later time. Records
have a known type, a group is its list of profiles, and the storage of groups is left out.

* `Inv.batchDeleteGroups`: deleting a group leaves its profiles where they are.
* `profileStop_stores`: at the stop every traffic item has its profile, and its counters
  are stored, in the runs that remove no profile of the running config but the one that was
  started, that evict none from `weak_profiles`, and that start no profile that is yet to be
  saved or removed.
-/

namespace NekoBox.Window

open NekoBox.Lib

namespace ProfileStop

/-! ## The code -/

/-- The counters of a `TrafficData`. -/
structure Traffic where
  downlink : ℤ
  uplink : ℤ
  deriving DecidableEq

/-- What is stored of a profile, as far as it is used here. -/
structure Record where
  gid : ℤ
  traffic : Traffic
  deriving DecidableEq

/-- A `ProxyEntity`; the identifier is also that of its traffic data. -/
structure ProxyEntity where
  id : ℤ
  record : Record

/-- A `shared_ptr` to an entity. -/
abbrev Ref := ℕ

/-- A thread that is not done. -/
inductive Job where
  /-- `ent->Save()` for each entity (lines 989–999). -/
  | saveProfiles (ents : List Ref)
  /-- `Drop(Proxies, id)` for each identifier (lines 1119–1128). -/
  | dropProfiles (ids : List ℤ)
  /-- The deletion of the profiles of each group (lines 1238–1251). -/
  | deleteGroups (ids : List ℤ)

structure State where
  /-- The records of the database. -/
  stored : ℤ → Option Record
  entities : Ref → ProxyEntity
  /-- The next entity that is made. -/
  next : Ref
  cachedProfiles : List (ℤ × Ref)
  weakProfiles : List (ℤ × Ref)
  /-- `group->profiles` of the groups there are. -/
  groups : ℤ → Option (List ℤ)
  maxProfileId : ℤ
  startedId : ℤ
  /-- `running != nullptr` -/
  running : Bool
  /-- The entities whose traffic data is in `trafficLooper->items`. -/
  items : List Ref
  jobs : List Job

/-- The arguments with which `weak_profiles` is made. -/
def maxSize : ℕ := 300

def elasticity : ℕ := 100

/-- `GetProfile` (lines 1140–1171), with `LoadProxyEntity`. -/
def getProfile (id : ℤ) (s : State) : Option Ref × State :=
  match s.cachedProfiles.lookup id with
  | some profile => (some profile, s)
  | none =>
    match s.weakProfiles.lookup id with
    | some profile => (some profile, { s with weakProfiles := Lru.tryGet id s.weakProfiles })
    | none =>
      match s.stored id with
      | none => (none, s)
      | some record =>
        (some s.next,
          { s with
            entities := Function.update s.entities s.next ⟨id, record⟩
            next := s.next + 1
            weakProfiles := Lru.insert maxSize elasticity id s.next s.weakProfiles })

/-- `UncacheProfile` (lines 965–972) -/
def uncacheProfile (id : ℤ) (force : Bool) (s : State) : State :=
  { s with
    cachedProfiles := Lru.remove id s.cachedProfiles
    weakProfiles := if force then Lru.remove id s.weakProfiles else s.weakProfiles }

/-- `ProxyEntity::Save` -/
def save (ent : Ref) (s : State) : State :=
  let entity := s.entities ent
  { uncacheProfile entity.id false s with
    stored := Function.update s.stored entity.id (some entity.record) }

/-- `Group::RemoveProfile` of the group, if there is one. -/
def removeFromGroup (gid id : ℤ) (s : State) : State :=
  match s.groups gid with
  | none => s
  | some profiles =>
    { s with groups := Function.update s.groups gid (some (profiles.filter (· ≠ id))) }

/-- The loop body of `BatchDeleteProfiles` (lines 1095–1117), on the state and
    `deleted_ids`. -/
def deleteProfile (groupid : ℤ) (st : State × List ℤ) (id : ℤ) : State × List ℤ :=
  if id < 0 ∨ st.1.startedId = id then st
  else
    match getProfile id st.1 with
    | (none, s) => (s, st.2)
    | (some ent, s) =>
      let gid := (s.entities ent).record.gid
      if groupid ≠ -999 ∧ 0 ≤ groupid ∧ groupid ≠ gid then (s, st.2)
      else
        let s := if groupid ≠ -999 ∧ groupid < 0 then removeFromGroup gid id s else s
        (uncacheProfile id true s, st.2 ++ [id])

/-- `BatchDeleteProfiles` (lines 1092–1129) -/
def batchDeleteProfiles (ids : List ℤ) (groupid : ℤ) (s : State) : State :=
  let (s, deletedIds) := ids.foldl (deleteProfile groupid) (s, [])
  { s with jobs := s.jobs ++ [.dropProfiles deletedIds] }

/-- `BatchDeleteGroups` (lines 1229–1252) -/
def batchDeleteGroups (ids : List ℤ) (s : State) : State :=
  if ids = [] then s
  else
    { s with
      groups := fun gid => if gid ∈ ids then none else s.groups gid
      jobs := s.jobs ++ [.deleteGroups ids] }

/-- The loop body of `FillProfileEnts` (lines 706–713). -/
def fillProfileEnt (st : State × List Ref) (id : ℤ) : State × List Ref :=
  match getProfile id st.1 with
  | (none, s) => (s, st.2)
  | (some ent, s) => (s, st.2 ++ [ent])

/-- The loop body of `MoveProfileBatch` (lines 1058–1073). -/
def moveProfile (mgid : ℤ) (s : State) (ent : Ref) : State :=
  let entity := s.entities ent
  if entity.record.gid = mgid then s
  else
    match s.groups entity.record.gid with
    | none => s
    | some _ =>
      let s := removeFromGroup entity.record.gid entity.id s
      let addProfile := fun profiles : List ℤ =>
        if entity.id ∈ profiles then profiles else profiles ++ [entity.id]
      { s with
        groups := Function.update s.groups mgid ((s.groups mgid).map addProfile)
        entities := Function.update s.entities ent
          { entity with record := { entity.record with gid := mgid } } }

/-- `MoveProfileBatch` (lines 1042–1084); its thread saves groups only. -/
def moveProfileBatch (ids : List ℤ) (mgid : ℤ) (s : State) : State :=
  let (s, ents) := ids.foldl fillProfileEnt (s, [])
  match s.groups mgid with
  | none => s
  | some _ => ents.foldl (moveProfile mgid) s

/-- The loop body of `AddProfileBatch` (lines 980–993) for a new profile, on the state and
    the entities that are saved. -/
def addProfile (gid : ℤ) (st : State × List Ref) (traffic : Traffic) : State × List Ref :=
  let s := st.1
  let id := s.maxProfileId + 1
  let s := { s with
    maxProfileId := id
    entities := Function.update s.entities s.next ⟨id, gid, traffic⟩
    next := s.next + 1
    groups := Function.update s.groups gid ((s.groups gid).map (· ++ [id]))
    cachedProfiles := s.cachedProfiles ++ [(id, s.next)] }
  (s, st.2 ++ [st.1.next])

/-- `AddProfileBatch` (lines 975–1006) -/
def addProfileBatch (traffics : List Traffic) (gid : ℤ) (s : State) : State :=
  match s.groups gid with
  | none => s
  | some _ =>
    let (s, ents) := traffics.foldl (addProfile gid) (s, [])
    { s with jobs := s.jobs ++ [.saveProfiles ents] }

/-- `Update` with `sub_clear` (`GroupUpdater.cpp`, lines 1506–1509). -/
def clearGroup (gid : ℤ) (s : State) : State :=
  match s.groups gid with
  | none => s
  | some profiles =>
    let s := batchDeleteProfiles profiles (-999) s
    { s with groups := Function.update s.groups gid ((s.groups gid).map fun _ => []) }

/-- The thread of `BatchDeleteGroups`, for one group. -/
def deleteGroup (s : State) (gid : ℤ) : State :=
  match s.groups gid with
  | none => s
  | some profiles => batchDeleteProfiles profiles gid s

def dropProfile (s : State) (id : ℤ) : State :=
  { s with stored := Function.update s.stored id none }

def runJob : Job → State → State
  | .saveProfiles ents, s => ents.foldl (fun s ent => save ent s) s
  | .dropProfiles ids, s => ids.foldl dropProfile s
  | .deleteGroups ids, s => ids.foldl deleteGroup s

/-- The profiles whose traffic data `BuildConfig` collects (`ConfigBuilder.cpp`, lines
    829–838 and 1215–1219): the hops of the chain of the profile that is started, this one
    itself if there are several, and the hops of the chains of routing rules. -/
def outboundStats (id : ℤ) (ents : List ℤ) (routes : List (List ℤ)) : List ℤ :=
  ents ++ (if 1 < ents.length then [id] else []) ++ routes.flatten

def addItem (s : State) (id : ℤ) : State :=
  match getProfile id s with
  | (none, s) => s
  | (some ent, s) => { s with items := s.items ++ [ent] }

/-- `profile_start` of a profile whose config is built of these chains, when none runs. -/
def profileStart (id : ℤ) (ents : List ℤ) (routes : List (List ℤ)) (s : State) : State :=
  match getProfile id s with
  | (none, s) => s
  | (some _, s) =>
    (outboundStats id ents routes).foldl addItem
      { s with running := true, startedId := id, items := [] }

/-- One counter update of `UpdateAll`. -/
def addTraffic (ent : Ref) (up down : ℤ) (s : State) : State :=
  let entity := s.entities ent
  let traffic := entity.record.traffic
  { s with
    entities := Function.update s.entities ent
      { entity with
        record := { entity.record with
          traffic := ⟨traffic.downlink + down, traffic.uplink + up⟩ } } }

/-- The loop body of `profile_stop` (lines 1066–1070); `none` if the profile it dereferences
    is missing. -/
def saveItem (s : State) (item : Ref) : Option State :=
  let id := (s.entities item).id
  if id < 0 then some s
  else
    match getProfile id s with
    | (none, _) => none
    | (some ent, s) => some (save ent s)

/-- `profile_stop`, after `UpdateAll`. -/
def profileStop (manual : Bool) (s : State) : Option State :=
  if s.running then
    (s.items.foldlM saveItem s).map fun s =>
      { s with running := false, startedId := if manual then -1919 else s.startedId }
  else some s

inductive Action where
  /-- Anything looks a profile up. -/
  | getProfile (id : ℤ)
  | profileStart (id : ℤ) (ents : List ℤ) (routes : List (List ℤ))
  | addTraffic (item : ℕ) (up down : ℤ)
  | batchDeleteProfiles (ids : List ℤ)
  | batchDeleteGroups (ids : List ℤ)
  | moveProfileBatch (ids : List ℤ) (gid : ℤ)
  /-- A subscription update adds profiles to its group, -/
  | addProfileBatch (traffics : List Traffic) (gid : ℤ)
  /-- or removes all those of the group first; those it drops are `batchDeleteProfiles`. -/
  | clearGroup (gid : ℤ)
  | runJob (i : ℕ)
  | profileStop (manual : Bool)

def step (s : State) : Action → Option State
  | .getProfile id => some (getProfile id s).2
  | .profileStart id ents routes => if s.running then none else some (profileStart id ents routes s)
  | .addTraffic item up down => (s.items[item]?).map fun ent => addTraffic ent up down s
  | .batchDeleteProfiles ids => some (batchDeleteProfiles ids (-1) s)
  | .batchDeleteGroups ids => some (batchDeleteGroups ids s)
  | .moveProfileBatch ids gid => some (moveProfileBatch ids gid s)
  | .addProfileBatch traffics gid => some (addProfileBatch traffics gid s)
  | .clearGroup gid => some (clearGroup gid s)
  | .runJob i => (s.jobs[i]?).map fun job => runJob job { s with jobs := s.jobs.eraseIdx i }
  | .profileStop manual => profileStop manual s

def machine : Machine State Action := ⟨step⟩

/-- After the start of the program: the caches are empty. -/
def init (stored : ℤ → Option Record) (groups : ℤ → Option (List ℤ)) (maxProfileId : ℤ) : State :=
  ⟨stored, fun _ => ⟨-1, -1, 0, 0⟩, 0, [], [], groups, maxProfileId, -1919, false, [], []⟩

/-! ## The condition -/

/-- The items of the running config. -/
def State.inUse (s : State) : List Ref := if s.running then s.items else []

/-- The identifiers that a thread is going to drop. -/
def Job.drops : Job → List ℤ
  | .dropProfiles ids => ids
  | _ => []

/-- A look-up that evicts no profile in use. -/
def Keeps (s : State) (id : ℤ) : Prop :=
  s.cachedProfiles.lookup id = none → s.weakProfiles.lookup id = none → (s.stored id).isSome →
    ∀ r ∈ s.inUse, ((Lru.left maxSize elasticity s.weakProfiles).lookup (s.entities r).id).isSome

/-- A deletion that is refused, or of a profile that is not in use. -/
def KeepsDeleting (s : State) (id : ℤ) : Prop :=
  id < 0 ∨ s.startedId = id ∨ Keeps s id ∧ ∀ r ∈ s.inUse, (s.entities r).id ≠ id

/-- A profile that is neither yet to be saved nor to be removed. -/
def KeepsStarting (s : State) (id : ℤ) : Prop :=
  Keeps s id ∧ s.cachedProfiles.lookup id = none ∧ ∀ job ∈ s.jobs, id ∉ job.drops

def Harmless (s : State) : Action → Prop
  | .getProfile id => Keeps s id
  | .profileStart id ents routes =>
    Loop.Along addItem KeepsStarting
      { (ProfileStop.getProfile id s).2 with running := true, startedId := id, items := [] }
      (outboundStats id ents routes)
  | .batchDeleteProfiles ids =>
    Loop.Along (deleteProfile (-1)) (fun st id => KeepsDeleting st.1 id) (s, []) ids
  | .moveProfileBatch ids _ => Loop.Along fillProfileEnt (fun st id => Keeps st.1 id) (s, []) ids
  | .clearGroup gid =>
    Loop.Along (deleteProfile (-999)) (fun st id => KeepsDeleting st.1 id) (s, [])
      ((s.groups gid).getD [])
  | _ => True

/-! ## The invariant -/

/-- Every item of the running config is the entity that `GetProfile` returns for its
    identifier, and no thread is going to remove it. -/
structure Inv (s : State) : Prop where
  uncached : ∀ r ∈ s.inUse, s.cachedProfiles.lookup (s.entities r).id = none
  found : ∀ r ∈ s.inUse, s.weakProfiles.lookup (s.entities r).id = some r
  kept : ∀ r ∈ s.inUse, ∀ job ∈ s.jobs, (s.entities r).id ∉ job.drops
  /-- The entities in the cache have been made, for the profile that they are cached for. -/
  weak : ∀ i r, s.weakProfiles.lookup i = some r →
    r < s.next ∧ (s.entities r).id = i ∧ i ≤ s.maxProfileId
  stored : ∀ i, (s.stored i).isSome → i ≤ s.maxProfileId
  saves : ∀ ents, .saveProfiles ents ∈ s.jobs → ∀ r ∈ ents,
    r < s.next ∧ (s.entities r).id ≤ s.maxProfileId
  groups : ∀ ids, .deleteGroups ids ∈ s.jobs → ∀ gid ∈ ids, s.groups gid = none

variable {s : State}

theorem Inv.lt_next (h : Inv s) {r : Ref} (hr : r ∈ s.inUse) : r < s.next :=
  (h.weak _ r (h.found r hr)).1

theorem inv_init {stored : ℤ → Option Record} {groups : ℤ → Option (List ℤ)} {maxProfileId : ℤ}
    (hmax : ∀ id, (stored id).isSome → id ≤ maxProfileId) :
    Inv (init stored groups maxProfileId) where
  uncached := fun _ hr => absurd hr List.not_mem_nil
  found := fun _ hr => absurd hr List.not_mem_nil
  kept := fun _ hr => absurd hr List.not_mem_nil
  weak := fun _ _ hr => absurd hr.symm (Option.some_ne_none _)
  stored := hmax
  saves := fun _ hjob => absurd hjob List.not_mem_nil
  groups := fun _ hjob => absurd hjob List.not_mem_nil

/-! ## Looking profiles up -/

/-- What `GetProfile` can do. -/
theorem getProfile_cases (id : ℤ) (s : State) :
    (∃ r, s.cachedProfiles.lookup id = some r ∧ getProfile id s = (some r, s)) ∨
    (∃ r, s.weakProfiles.lookup id = some r ∧
      getProfile id s = (some r, { s with weakProfiles := Lru.tryGet id s.weakProfiles })) ∨
    getProfile id s = (none, s) ∨
    (∃ record, s.cachedProfiles.lookup id = none ∧ s.weakProfiles.lookup id = none ∧
      s.stored id = some record ∧ getProfile id s = (some s.next,
        { s with
          entities := Function.update s.entities s.next ⟨id, record⟩
          next := s.next + 1
          weakProfiles := Lru.insert maxSize elasticity id s.next s.weakProfiles })) := by
  unfold getProfile
  cases hcached : s.cachedProfiles.lookup id with
  | some r => exact Or.inl ⟨r, rfl, rfl⟩
  | none =>
    cases hweak : s.weakProfiles.lookup id with
    | some r => exact Or.inr (Or.inl ⟨r, rfl, rfl⟩)
    | none =>
      cases hstored : s.stored id with
      | none => exact Or.inr (Or.inr (Or.inl rfl))
      | some record => exact Or.inr (Or.inr (Or.inr ⟨record, rfl, rfl, rfl, rfl⟩))

/-- An entity that has been made stays as it is. -/
theorem entities_getProfile (id : ℤ) {r : Ref} (hr : r < s.next) :
    (getProfile id s).2.entities r = s.entities r := by
  obtain ⟨_, -, heq⟩ | ⟨_, -, heq⟩ | heq | ⟨_, -, -, -, heq⟩ := getProfile_cases id s
  · rw [heq]
  · rw [heq]
  · rw [heq]
  · rw [heq]
    exact Function.update_of_ne hr.ne _ _

theorem inUse_getProfile (id : ℤ) (s : State) : (getProfile id s).2.inUse = s.inUse := by
  obtain ⟨_, -, heq⟩ | ⟨_, -, heq⟩ | heq | ⟨_, -, -, -, heq⟩ := getProfile_cases id s <;>
    rw [heq] <;> rfl

theorem Inv.getProfile (h : Inv s) {id : ℤ} (hkeeps : Keeps s id) :
    Inv (getProfile id s).2 := by
  obtain ⟨_, -, heq⟩ | ⟨_, -, heq⟩ | heq | ⟨record, hcached, hweak, hstored, heq⟩ :=
    getProfile_cases id s
  · rw [heq]
    exact h
  · rw [heq]
    refine ⟨h.uncached, fun r hr => ?_, h.kept, fun i r hi => ?_, h.stored, h.saves, h.groups⟩
    · rw [Lru.lookup_tryGet]
      exact h.found r hr
    · rw [Lru.lookup_tryGet] at hi
      exact h.weak i r hi
  · rw [heq]
    exact h
  · rw [heq]
    have hentities : ∀ r, r < s.next →
        Function.update s.entities s.next ⟨id, record⟩ r = s.entities r := fun r hr =>
      Function.update_of_ne hr.ne _ _
    have hlookup : ∀ j, (Lru.insert maxSize elasticity id s.next s.weakProfiles).lookup j =
        if j = id then some s.next else (Lru.left maxSize elasticity s.weakProfiles).lookup j :=
      Lru.lookup_insert (by decide) hweak
    refine ⟨fun r hr => ?_, fun r hr => ?_, fun r hr => ?_, fun i r hi => ?_, h.stored,
      fun ents hjob r hr => ?_, h.groups⟩
    · show s.cachedProfiles.lookup (Function.update s.entities s.next _ r).id = none
      rw [hentities r (h.lt_next hr)]
      exact h.uncached r hr
    · show (Lru.insert maxSize elasticity id s.next s.weakProfiles).lookup
        (Function.update s.entities s.next _ r).id = some r
      rw [hentities r (h.lt_next hr), hlookup, if_neg]
      · obtain ⟨w, hw⟩ := Option.isSome_iff_exists.mp
          (hkeeps hcached hweak (by rw [hstored]; rfl) r hr)
        rw [hw, ← Lru.lookup_of_left hw, h.found r hr]
      · intro hid
        rw [← hid, h.found r hr] at hweak
        exact Option.some_ne_none r hweak
    · show ∀ job ∈ s.jobs, (Function.update s.entities s.next _ r).id ∉ job.drops
      rw [hentities r (h.lt_next hr)]
      exact h.kept r hr
    · rw [hlookup] at hi
      show r < s.next + 1 ∧ (Function.update s.entities s.next _ r).id = i ∧ i ≤ s.maxProfileId
      split_ifs at hi with hid
      · obtain rfl : s.next = r := Option.some.inj hi
        rw [Function.update_self, hid]
        exact ⟨Nat.lt_succ_self _, rfl, h.stored id (by rw [hstored]; rfl)⟩
      · obtain ⟨hr, hrest⟩ := h.weak i r (Lru.lookup_of_left hi)
        rw [hentities r hr]
        exact ⟨Nat.lt_succ_of_lt hr, hrest⟩
    · show r < s.next + 1 ∧ (Function.update s.entities s.next _ r).id ≤ s.maxProfileId
      obtain ⟨hnext, hid⟩ := h.saves ents hjob r hr
      rw [hentities r hnext]
      exact ⟨Nat.lt_succ_of_lt hnext, hid⟩

/-! ## Deletions -/

theorem Inv.uncacheProfile (h : Inv s) {id : ℤ} (hid : ∀ r ∈ s.inUse, (s.entities r).id ≠ id) :
    Inv (uncacheProfile id true s) where
  uncached := by
    intro r hr
    show (Lru.remove id s.cachedProfiles).lookup (s.entities r).id = none
    rw [Lru.lookup_remove_of_ne (hid r hr)]
    exact h.uncached r hr
  found := by
    intro r hr
    show (Lru.remove id s.weakProfiles).lookup (s.entities r).id = some r
    rw [Lru.lookup_remove_of_ne (hid r hr)]
    exact h.found r hr
  kept := h.kept
  weak := by
    intro i r hi
    change (Lru.remove id s.weakProfiles).lookup i = some r at hi
    rw [Lru.lookup_remove] at hi
    split_ifs at hi
    exact h.weak i r hi
  stored := h.stored
  saves := h.saves
  groups := h.groups

/-- Groups may change, but none comes back. -/
theorem Inv.setGroups (h : Inv s) {groups : ℤ → Option (List ℤ)}
    (hgone : ∀ gid, s.groups gid = none → groups gid = none) : Inv { s with groups := groups } :=
  ⟨h.uncached, h.found, h.kept, h.weak, h.stored, h.saves,
    fun ids hjob gid hgid => hgone gid (h.groups ids hjob gid hgid)⟩

/-- A group that is there is updated. -/
theorem update_groups_none {groups : ℤ → Option (List ℤ)} {gid : ℤ} {profiles : Option (List ℤ)}
    (hgid : groups gid = none → profiles = none) (i : ℤ) (hi : groups i = none) :
    Function.update groups gid profiles i = none := by
  by_cases hig : i = gid
  · rw [hig, Function.update_self]
    exact hgid (hig ▸ hi)
  · rw [Function.update_of_ne hig, hi]

theorem removeFromGroup_eq (gid id : ℤ) (s : State) :
    ∃ groups, removeFromGroup gid id s = { s with groups := groups } ∧
      ∀ i, s.groups i = none → groups i = none := by
  unfold removeFromGroup
  cases hgroup : s.groups gid with
  | none => exact ⟨s.groups, rfl, fun _ hi => hi⟩
  | some profiles =>
    refine ⟨_, rfl, update_groups_none fun hnone => ?_⟩
    exact absurd (hgroup.symm.trans hnone) (Option.some_ne_none profiles)

theorem Inv.removeFromGroup (h : Inv s) (gid id : ℤ) : Inv (removeFromGroup gid id s) := by
  obtain ⟨groups, heq, hgone⟩ := removeFromGroup_eq gid id s
  rw [heq]
  exact h.setGroups hgone

/-- A thread may be added that removes no profile in use. -/
theorem Inv.addJob (h : Inv s) (job : Job) (hdrops : ∀ r ∈ s.inUse, (s.entities r).id ∉ job.drops)
    (hsaves : ∀ ents, job = .saveProfiles ents → ∀ r ∈ ents,
      r < s.next ∧ (s.entities r).id ≤ s.maxProfileId)
    (hgroups : ∀ ids, job = .deleteGroups ids → ∀ gid ∈ ids, s.groups gid = none) :
    Inv { s with jobs := s.jobs ++ [job] } where
  uncached := h.uncached
  found := h.found
  kept := by
    intro r hr job' hjob'
    rcases List.mem_append.mp hjob' with hjob' | hjob'
    · exact h.kept r hr job' hjob'
    · rw [List.mem_singleton.mp hjob']
      exact hdrops r hr
  weak := h.weak
  stored := h.stored
  saves := by
    intro ents hjob
    rcases List.mem_append.mp hjob with hjob | hjob
    · exact h.saves ents hjob
    · exact hsaves ents (List.mem_singleton.mp hjob).symm
  groups := by
    intro ids hjob
    rcases List.mem_append.mp hjob with hjob | hjob
    · exact h.groups ids hjob
    · exact hgroups ids (List.mem_singleton.mp hjob).symm

/-- The invariant of the loop of `BatchDeleteProfiles`. -/
structure DeleteInv (st : State × List ℤ) : Prop where
  inv : Inv st.1
  unused : ∀ r ∈ st.1.inUse, (st.1.entities r).id ∉ st.2

theorem DeleteInv.delete {st : State × List ℤ} (h : DeleteInv st) (groupid : ℤ) {id : ℤ}
    (hkeeps : KeepsDeleting st.1 id) : DeleteInv (deleteProfile groupid st id) := by
  obtain ⟨s, deleted⟩ := st
  unfold deleteProfile
  by_cases hrefused : id < 0 ∨ s.startedId = id
  · rw [if_pos hrefused]
    exact h
  rw [if_neg hrefused]
  obtain ⟨hkeep, hid⟩ : Keeps s id ∧ ∀ r ∈ s.inUse, (s.entities r).id ≠ id := by
    rcases hkeeps with hneg | hstarted | hkeeps
    · exact absurd (Or.inl hneg) hrefused
    · exact absurd (Or.inr hstarted) hrefused
    · exact hkeeps
  have hinv : Inv (getProfile id s).2 := h.inv.getProfile hkeep
  have hinUse : (getProfile id s).2.inUse = s.inUse := inUse_getProfile id s
  have hentities : ∀ r ∈ s.inUse, (getProfile id s).2.entities r = s.entities r := fun r hr =>
    entities_getProfile id (h.inv.lt_next hr)
  show DeleteInv (match getProfile id s with
    | (none, s) => (s, deleted)
    | (some ent, s) => _)
  generalize getProfile id s = result at hinv hinUse hentities
  obtain ⟨found, t⟩ := result
  have hunused : ∀ r ∈ t.inUse, (t.entities r).id ∉ deleted := by
    intro r hr
    rw [hinUse] at hr
    rw [hentities r hr]
    exact h.unused r hr
  have hne : ∀ r ∈ t.inUse, (t.entities r).id ≠ id := by
    intro r hr
    rw [hinUse] at hr
    rw [hentities r hr]
    exact hid r hr
  have happend : ∀ r ∈ t.inUse, (t.entities r).id ∉ deleted ++ [id] := by
    intro r hr hmem
    rcases List.mem_append.mp hmem with hmem | hmem
    · exact hunused r hr hmem
    · exact hne r hr (List.mem_singleton.mp hmem)
  cases found with
  | none => exact ⟨hinv, hunused⟩
  | some ent =>
    dsimp only
    split_ifs with hgroup hremove
    · exact ⟨hinv, hunused⟩
    · obtain ⟨groups, heq, hgone⟩ := removeFromGroup_eq (t.entities ent).record.gid id t
      rw [heq]
      exact ⟨(hinv.setGroups hgone).uncacheProfile hne, happend⟩
    · exact ⟨hinv.uncacheProfile hne, happend⟩

theorem Inv.batchDeleteProfiles (h : Inv s) {ids : List ℤ} {groupid : ℤ}
    (hkeeps : Loop.Along (deleteProfile groupid) (fun st id => KeepsDeleting st.1 id) (s, []) ids) :
    Inv (batchDeleteProfiles ids groupid s) := by
  have hloop : DeleteInv (ids.foldl (deleteProfile groupid) (s, [])) :=
    Loop.foldl_invariant (fun st id hst hid => hst.delete groupid hid)
      ⟨h, fun _ _ => List.not_mem_nil⟩ hkeeps
  unfold ProfileStop.batchDeleteProfiles
  generalize ids.foldl (deleteProfile groupid) (s, []) = st at hloop
  obtain ⟨t, deleted⟩ := st
  apply hloop.inv.addJob (.dropProfiles deleted) hloop.unused
  · rintro ents ⟨⟩
  · rintro ids ⟨⟩

/-- **The deletion of groups** leaves the profiles where they are: by the time its thread
    looks for the groups they are gone. -/
theorem Inv.batchDeleteGroups (h : Inv s) (ids : List ℤ) : Inv (batchDeleteGroups ids s) := by
  unfold ProfileStop.batchDeleteGroups
  split_ifs
  · exact h
  · have hgone : ∀ gid, s.groups gid = none →
        (fun gid => if gid ∈ ids then none else s.groups gid) gid = none := by
      intro gid hgid
      dsimp only
      split_ifs
      · rfl
      · exact hgid
    apply (h.setGroups hgone).addJob (.deleteGroups ids) (fun _ _ => List.not_mem_nil)
    · rintro ents ⟨⟩
    · rintro _ ⟨⟩ gid hgid
      exact if_pos hgid

theorem foldl_deleteGroup {ids : List ℤ} (hgone : ∀ gid ∈ ids, s.groups gid = none) :
    ids.foldl deleteGroup s = s := by
  induction ids with
  | nil => rfl
  | cons gid ids ih =>
    rw [List.foldl_cons]
    have hgid : deleteGroup s gid = s := by
      unfold deleteGroup
      rw [hgone gid List.mem_cons_self]
    rw [hgid]
    exact ih fun gid hgid => hgone gid (List.mem_cons_of_mem _ hgid)

/-! ## Moves and additions -/

/-- The records of entities may change. -/
theorem Inv.setRecord (h : Inv s) (ent : Ref) (record : Record) :
    Inv { s with
      entities := Function.update s.entities ent { s.entities ent with record := record } } := by
  have hid : ∀ r, (Function.update s.entities ent { s.entities ent with record := record } r).id =
      (s.entities r).id := by
    intro r
    by_cases hr : r = ent
    · rw [hr, Function.update_self]
    · rw [Function.update_of_ne hr]
  refine ⟨fun r hr => ?_, fun r hr => ?_, fun r hr => ?_, fun i r hi => ?_, h.stored,
    fun ents hjob r hr => ?_, h.groups⟩
  · show s.cachedProfiles.lookup (Function.update s.entities ent _ r).id = none
    rw [hid]
    exact h.uncached r hr
  · show s.weakProfiles.lookup (Function.update s.entities ent _ r).id = some r
    rw [hid]
    exact h.found r hr
  · show ∀ job ∈ s.jobs, (Function.update s.entities ent _ r).id ∉ job.drops
    rw [hid]
    exact h.kept r hr
  · show r < s.next ∧ (Function.update s.entities ent _ r).id = i ∧ i ≤ s.maxProfileId
    rw [hid]
    exact h.weak i r hi
  · show r < s.next ∧ (Function.update s.entities ent _ r).id ≤ s.maxProfileId
    rw [hid]
    exact h.saves ents hjob r hr

theorem Inv.moveProfile (h : Inv s) (mgid : ℤ) (ent : Ref) : Inv (moveProfile mgid s ent) := by
  unfold ProfileStop.moveProfile
  dsimp only
  split_ifs
  · exact h
  · cases s.groups (s.entities ent).record.gid with
    | none => exact h
    | some _ =>
      obtain ⟨groups, heq, hgone⟩ :=
        removeFromGroup_eq (s.entities ent).record.gid (s.entities ent).id s
      dsimp only
      rw [heq]
      refine ((h.setGroups hgone).setGroups (update_groups_none ?_)).setRecord ent _
      intro hnone
      rw [hnone]
      rfl

theorem Inv.moveProfileBatch (h : Inv s) {ids : List ℤ} (mgid : ℤ)
    (hkeeps : Loop.Along fillProfileEnt (fun st id => Keeps st.1 id) (s, []) ids) :
    Inv (moveProfileBatch ids mgid s) := by
  have hstep : ∀ (st : State × List Ref) (id : ℤ), Inv st.1 → Keeps st.1 id →
      Inv (fillProfileEnt st id).1 := by
    intro st id hst hid
    have hnext := hst.getProfile hid
    unfold fillProfileEnt
    generalize ProfileStop.getProfile id st.1 = result at hnext
    obtain ⟨found, t⟩ := result
    cases found with
    | none => exact hnext
    | some ent => exact hnext
  have hfill : Inv (ids.foldl fillProfileEnt (s, [])).1 :=
    @Loop.foldl_invariant _ _ fillProfileEnt _ (fun st => Inv st.1) hstep ids (s, []) h hkeeps
  unfold ProfileStop.moveProfileBatch
  generalize ids.foldl fillProfileEnt (s, []) = st at hfill
  obtain ⟨t, ents⟩ := st
  dsimp only
  cases t.groups mgid with
  | none => exact hfill
  | some _ =>
    show Inv (ents.foldl (ProfileStop.moveProfile mgid) t)
    induction ents generalizing t with
    | nil => exact hfill
    | cons ent ents ih =>
      rw [List.foldl_cons]
      exact ih _ (hfill.moveProfile mgid ent)

/-- The invariant of the loop of `AddProfileBatch`. -/
structure AddInv (st : State × List Ref) : Prop where
  inv : Inv st.1
  made : ∀ r ∈ st.2, r < st.1.next ∧ (st.1.entities r).id ≤ st.1.maxProfileId

theorem AddInv.add {st : State × List Ref} (h : AddInv st) (gid : ℤ) (traffic : Traffic) :
    AddInv (addProfile gid st traffic) := by
  obtain ⟨s, ents⟩ := st
  have hinv : Inv s := h.inv
  let entity : ProxyEntity := ⟨s.maxProfileId + 1, gid, traffic⟩
  have hentities : ∀ r, r < s.next → Function.update s.entities s.next entity r = s.entities r :=
    fun r hr => Function.update_of_ne hr.ne _ _
  have hmax : s.maxProfileId ≤ s.maxProfileId + 1 := by omega
  have hmade : ∀ r, r < s.next ∧ (s.entities r).id ≤ s.maxProfileId → r < s.next + 1 ∧
      (Function.update s.entities s.next entity r).id ≤ s.maxProfileId + 1 := by
    rintro r ⟨hr, hid⟩
    rw [hentities r hr]
    exact ⟨Nat.lt_succ_of_lt hr, hid.trans hmax⟩
  refine ⟨⟨fun r hr => ?_, fun r hr => ?_, fun r hr => ?_, fun i r hi => ?_, fun i hi => ?_,
    fun ents hjob r hr => ?_, fun ids hjob gid hgid => ?_⟩, fun r hr => ?_⟩
  · show (s.cachedProfiles ++ [(s.maxProfileId + 1, s.next)]).lookup
      (Function.update s.entities s.next entity r).id = none
    rw [hentities r (hinv.lt_next hr)]
    have hid : (s.entities r).id ≤ s.maxProfileId := (hinv.weak _ r (hinv.found r hr)).2.2
    have hne : ¬ (s.entities r).id = s.maxProfileId + 1 := by omega
    rw [List.lookup_append, hinv.uncached r hr, Option.none_or, List.lookup_cons,
      beq_false_of_ne hne, List.lookup_nil]
  · show s.weakProfiles.lookup (Function.update s.entities s.next entity r).id = some r
    rw [hentities r (hinv.lt_next hr)]
    exact hinv.found r hr
  · show ∀ job ∈ s.jobs, (Function.update s.entities s.next entity r).id ∉ job.drops
    rw [hentities r (hinv.lt_next hr)]
    exact hinv.kept r hr
  · obtain ⟨hr, hid, hi⟩ := hinv.weak i r hi
    show r < s.next + 1 ∧ (Function.update s.entities s.next entity r).id = i ∧
      i ≤ s.maxProfileId + 1
    rw [hentities r hr]
    exact ⟨Nat.lt_succ_of_lt hr, hid, hi.trans hmax⟩
  · exact (hinv.stored i hi).trans hmax
  · exact hmade r (hinv.saves ents hjob r hr)
  · exact update_groups_none (fun hnone => by rw [hnone]; rfl) _ (hinv.groups ids hjob gid hgid)
  · rcases List.mem_append.mp hr with hr | hr
    · exact hmade r (h.made r hr)
    · rw [List.mem_singleton.mp hr]
      show s.next < s.next + 1 ∧ (Function.update s.entities s.next entity s.next).id ≤ _
      rw [Function.update_self]
      exact ⟨Nat.lt_succ_self _, le_rfl⟩

theorem Inv.addProfileBatch (h : Inv s) (traffics : List Traffic) (gid : ℤ) :
    Inv (addProfileBatch traffics gid s) := by
  unfold ProfileStop.addProfileBatch
  cases s.groups gid with
  | none => exact h
  | some _ =>
    have hloop : ∀ {st : State × List Ref}, AddInv st → AddInv (traffics.foldl (addProfile gid) st) := by
      induction traffics with
      | nil => exact fun hst => hst
      | cons traffic traffics ih => exact fun hst => ih (hst.add gid traffic)
    have hadded := @hloop (s, []) ⟨h, fun _ hr => absurd hr List.not_mem_nil⟩
    dsimp only
    generalize traffics.foldl (addProfile gid) (s, []) = st at hadded
    obtain ⟨t, ents⟩ := st
    apply hadded.inv.addJob (.saveProfiles ents) (fun _ _ => List.not_mem_nil)
    · rintro _ ⟨⟩
      exact hadded.made
    · rintro ids ⟨⟩

theorem Inv.clearGroup (h : Inv s) {gid : ℤ}
    (hkeeps : Loop.Along (deleteProfile (-999)) (fun st id => KeepsDeleting st.1 id) (s, [])
      ((s.groups gid).getD [])) : Inv (clearGroup gid s) := by
  unfold ProfileStop.clearGroup
  cases hgroup : s.groups gid with
  | none => exact h
  | some profiles =>
    rw [hgroup] at hkeeps
    have hdeleted : Inv (ProfileStop.batchDeleteProfiles profiles (-999) s) :=
      h.batchDeleteProfiles hkeeps
    exact hdeleted.setGroups (update_groups_none fun hnone => by rw [hnone]; rfl)

/-! ## Threads -/

theorem Inv.save (h : Inv s) {ent : Ref} (hid : (s.entities ent).id ≤ s.maxProfileId) :
    Inv (save ent s) where
  uncached := by
    intro r hr
    show (Lru.remove (s.entities ent).id s.cachedProfiles).lookup (s.entities r).id = none
    rw [Lru.lookup_remove]
    split_ifs
    · rfl
    · exact h.uncached r hr
  found := h.found
  kept := h.kept
  weak := h.weak
  stored := by
    intro i hi
    change (Function.update s.stored (s.entities ent).id _ i).isSome at hi
    by_cases heq : i = (s.entities ent).id
    · rw [heq]
      exact hid
    · rw [Function.update_of_ne heq] at hi
      exact h.stored i hi
  saves := h.saves
  groups := h.groups

theorem Inv.dropProfile (h : Inv s) (id : ℤ) : Inv (dropProfile s id) where
  uncached := h.uncached
  found := h.found
  kept := h.kept
  weak := h.weak
  stored := by
    intro i hi
    change (Function.update s.stored id none i).isSome at hi
    by_cases heq : i = id
    · rw [heq, Function.update_self] at hi
      exact absurd hi (by decide)
    · rw [Function.update_of_ne heq] at hi
      exact h.stored i hi
  saves := h.saves
  groups := h.groups

theorem Inv.saveProfiles {ents : List Ref} (h : Inv s)
    (hids : ∀ r ∈ ents, (s.entities r).id ≤ s.maxProfileId) :
    Inv (ents.foldl (fun s ent => ProfileStop.save ent s) s) := by
  induction ents generalizing s with
  | nil => exact h
  | cons ent ents ih =>
    exact ih (h.save (hids ent List.mem_cons_self)) fun r hr => hids r (List.mem_cons_of_mem _ hr)

theorem Inv.dropProfiles (h : Inv s) (ids : List ℤ) :
    Inv (ids.foldl ProfileStop.dropProfile s) := by
  induction ids generalizing s with
  | nil => exact h
  | cons id ids ih => exact ih (h.dropProfile id)

theorem Inv.eraseJob (h : Inv s) (i : ℕ) : Inv { s with jobs := s.jobs.eraseIdx i } :=
  ⟨h.uncached, h.found, fun r hr job hjob => h.kept r hr job (List.mem_of_mem_eraseIdx hjob),
    h.weak, h.stored, fun ents hjob => h.saves ents (List.mem_of_mem_eraseIdx hjob),
    fun ids hjob => h.groups ids (List.mem_of_mem_eraseIdx hjob)⟩

theorem Inv.runJob (h : Inv s) {job : Job} (hjob : job ∈ s.jobs) (i : ℕ) :
    Inv (runJob job { s with jobs := s.jobs.eraseIdx i }) := by
  have herased : Inv { s with jobs := s.jobs.eraseIdx i } := h.eraseJob i
  cases job with
  | saveProfiles ents => exact herased.saveProfiles fun r hr => (h.saves ents hjob r hr).2
  | dropProfiles ids => exact herased.dropProfiles ids
  | deleteGroups ids =>
    let t : State := { s with jobs := s.jobs.eraseIdx i }
    show Inv (ids.foldl deleteGroup t)
    rw [@foldl_deleteGroup t ids (h.groups ids hjob)]
    exact herased

/-! ## Starting -/

/-- The running config may have one more item. -/
theorem Inv.append (h : Inv s) (hrunning : s.running = true) {r : Ref}
    (huncached : s.cachedProfiles.lookup (s.entities r).id = none)
    (hfound : s.weakProfiles.lookup (s.entities r).id = some r)
    (hkept : ∀ job ∈ s.jobs, (s.entities r).id ∉ job.drops) :
    Inv { s with items := s.items ++ [r] } := by
  have hinUse : ∀ r' ∈ State.inUse { s with items := s.items ++ [r] }, r' ∈ s.inUse ∨ r' = r := by
    intro r' hr'
    unfold State.inUse at hr' ⊢
    rw [if_pos hrunning] at hr' ⊢
    exact (List.mem_append.mp hr').imp_right List.mem_singleton.mp
  refine ⟨fun r' hr' => ?_, fun r' hr' => ?_, fun r' hr' => ?_, h.weak, h.stored, h.saves, h.groups⟩
  · rcases hinUse r' hr' with hr' | rfl
    · exact h.uncached r' hr'
    · exact huncached
  · rcases hinUse r' hr' with hr' | rfl
    · exact h.found r' hr'
    · exact hfound
  · rcases hinUse r' hr' with hr' | rfl
    · exact h.kept r' hr'
    · exact hkept

theorem Inv.addItem (h : Inv s) (hrunning : s.running = true) {id : ℤ}
    (hkeeps : KeepsStarting s id) : Inv (addItem s id) := by
  obtain ⟨hkeep, hcached, hkept⟩ := hkeeps
  have hinv := h.getProfile hkeep
  unfold ProfileStop.addItem
  obtain ⟨r, hr, -⟩ | ⟨r, hr, heq⟩ | heq | ⟨record, -, hweak, -, heq⟩ := getProfile_cases id s
  · exact absurd (hcached.symm.trans hr).symm (Option.some_ne_none r)
  · rw [heq] at hinv ⊢
    have hid : (s.entities r).id = id := (h.weak id r hr).2.1
    apply hinv.append hrunning
    · rw [hid]
      exact hcached
    · rw [hid, Lru.lookup_tryGet, hr]
    · rw [hid]
      exact hkept
  · rw [heq] at hinv ⊢
    exact hinv
  · rw [heq] at hinv ⊢
    have hid : (Function.update s.entities s.next ⟨id, record⟩ s.next).id = id := by
      rw [Function.update_self]
    apply hinv.append hrunning
    · rw [hid]
      exact hcached
    · rw [hid, Lru.lookup_insert (by decide) hweak, if_pos rfl]
    · rw [hid]
      exact hkept

theorem running_addItem (s : State) (id : ℤ) : (addItem s id).running = s.running := by
  unfold addItem
  obtain ⟨r, -, heq⟩ | ⟨r, -, heq⟩ | heq | ⟨record, -, -, -, heq⟩ := getProfile_cases id s <;>
    rw [heq]

theorem Inv.profileStart (h : Inv s) (hstopped : s.running = false) {id : ℤ} {ents : List ℤ}
    {routes : List (List ℤ)}
    (hkeeps : Loop.Along ProfileStop.addItem KeepsStarting
      { (ProfileStop.getProfile id s).2 with running := true, startedId := id, items := [] }
      (outboundStats id ents routes)) :
    Inv (profileStart id ents routes s) := by
  have hinUse : s.inUse = [] := by
    unfold State.inUse
    rw [hstopped]
    rfl
  have hinv : Inv (ProfileStop.getProfile id s).2 := by
    apply h.getProfile
    intro _ _ _ r hr
    rw [hinUse] at hr
    exact absurd hr List.not_mem_nil
  unfold ProfileStop.profileStart
  generalize ProfileStop.getProfile id s = result at hinv hkeeps
  obtain ⟨found, t⟩ := result
  cases found with
  | none => exact hinv
  | some ent =>
    have hstart : Inv { t with running := true, startedId := id, items := [] } :=
      ⟨fun _ hr => absurd hr List.not_mem_nil, fun _ hr => absurd hr List.not_mem_nil,
        fun _ hr => absurd hr List.not_mem_nil, hinv.weak, hinv.stored, hinv.saves, hinv.groups⟩
    have hstep : ∀ (s : State) (id : ℤ), Inv s ∧ s.running = true → KeepsStarting s id →
        Inv (ProfileStop.addItem s id) ∧ (ProfileStop.addItem s id).running = true := by
      rintro s id ⟨hs, hrunning⟩ hid
      exact ⟨hs.addItem hrunning hid, (running_addItem s id).trans hrunning⟩
    exact (Loop.foldl_invariant hstep ⟨hstart, rfl⟩ hkeeps).1

/-! ## Stopping -/

/-- What storing the counters of some items keeps and does. -/
structure Stores (xs : List Ref) (s s' : State) : Prop where
  inv : Inv s'
  entities : s'.entities = s.entities
  inUse : s'.inUse = s.inUse
  items : ∀ r ∈ xs, 0 ≤ (s.entities r).id →
    s'.stored (s.entities r).id = some (s.entities r).record
  others : ∀ r ∈ s.inUse, s.stored (s.entities r).id = some (s.entities r).record →
    s'.stored (s.entities r).id = some (s.entities r).record

theorem Inv.saveItem (h : Inv s) {r : Ref} (hr : r ∈ s.inUse) :
    ∃ s', saveItem s r = some s' ∧ Stores [r] s s' := by
  unfold ProfileStop.saveItem
  dsimp only
  by_cases hneg : (s.entities r).id < 0
  · rw [if_pos hneg]
    refine ⟨s, rfl, h, rfl, rfl, fun r' hr' hid => ?_, fun _ _ hstored => hstored⟩
    rw [List.mem_singleton.mp hr'] at hid
    omega
  · have hget : ProfileStop.getProfile (s.entities r).id s =
        (some r, { s with weakProfiles := Lru.tryGet (s.entities r).id s.weakProfiles }) := by
      unfold ProfileStop.getProfile
      rw [h.uncached r hr, h.found r hr]
    have hinv : Inv (ProfileStop.getProfile (s.entities r).id s).2 :=
      h.getProfile fun _ hweak => absurd (hweak.symm.trans (h.found r hr)).symm
        (Option.some_ne_none r)
    rw [if_neg hneg, hget]
    rw [hget] at hinv
    refine ⟨_, rfl, hinv.save (h.weak _ r (h.found r hr)).2.2, rfl, rfl, fun r' hr' _ => ?_,
      fun r' hr' hstored => ?_⟩
    · rw [List.mem_singleton.mp hr']
      exact Function.update_self _ _ _
    · show Function.update s.stored (s.entities r).id (some (s.entities r).record)
        (s.entities r').id = _
      by_cases hid : (s.entities r').id = (s.entities r).id
      · obtain rfl : r' = r := by
          have hfound := h.found r' hr'
          rw [hid, h.found r hr] at hfound
          exact (Option.some.inj hfound).symm
        exact Function.update_self _ _ _
      · rw [Function.update_of_ne hid]
        exact hstored

theorem Inv.saveItems {xs : List Ref} (h : Inv s) (hxs : ∀ r ∈ xs, r ∈ s.inUse) :
    ∃ s', xs.foldlM ProfileStop.saveItem s = some s' ∧ Stores xs s s' := by
  induction xs generalizing s with
  | nil =>
    exact ⟨s, rfl, h, rfl, rfl, fun _ hr => absurd hr List.not_mem_nil, fun _ _ hr => hr⟩
  | cons r xs ih =>
    obtain ⟨t, ht, hst⟩ := h.saveItem (hxs r List.mem_cons_self)
    obtain ⟨s', hs', htail⟩ := ih hst.inv fun r' hr' => by
      rw [hst.inUse]
      exact hxs r' (List.mem_cons_of_mem _ hr')
    have hentities : s'.entities = s.entities := htail.entities.trans hst.entities
    refine ⟨s', ?_, htail.inv, hentities, htail.inUse.trans hst.inUse, fun r' hr' hid => ?_,
      fun r' hr' hstored => ?_⟩
    · rw [List.foldlM_cons, ht]
      exact hs'
    · have hothers := htail.others r'
      have hitems := htail.items r'
      rw [hst.entities] at hothers hitems
      rcases List.mem_cons.mp hr' with rfl | hmem
      · apply hothers
        · rw [hst.inUse]
          exact hxs r' List.mem_cons_self
        · exact hst.items r' (List.mem_singleton.mpr rfl) hid
      · exact hitems hmem hid
    · have hothers := htail.others r'
      rw [hst.entities, hst.inUse] at hothers
      exact hothers hr' (hst.others r' hr' hstored)

theorem Inv.profileStop (h : Inv s) (manual : Bool) :
    ∃ s', profileStop manual s = some s' ∧ Inv s' ∧ ∀ r ∈ s.inUse, 0 ≤ (s.entities r).id →
      s'.stored (s.entities r).id = some (s.entities r).record := by
  unfold ProfileStop.profileStop
  by_cases hrunning : s.running = true
  · have hitems : s.inUse = s.items := by
      unfold State.inUse
      rw [if_pos hrunning]
    obtain ⟨t, ht, hst⟩ := h.saveItems fun r (hr : r ∈ s.items) => hitems ▸ hr
    rw [if_pos hrunning, ht, hitems]
    refine ⟨_, rfl, ?_, hst.items⟩
    exact ⟨fun _ hr => absurd hr List.not_mem_nil, fun _ hr => absurd hr List.not_mem_nil,
      fun _ hr => absurd hr List.not_mem_nil, hst.inv.weak, hst.inv.stored, hst.inv.saves,
      hst.inv.groups⟩
  · rw [if_neg hrunning]
    refine ⟨s, rfl, h, fun r hr => ?_⟩
    unfold State.inUse at hr
    rw [if_neg hrunning] at hr
    exact absurd hr List.not_mem_nil

/-! ## Runs -/

theorem Inv.step {a : Action} {s' : State} (h : Inv s) (ha : Harmless s a)
    (hstep : step s a = some s') : Inv s' := by
  cases a with
  | getProfile id =>
    obtain rfl := Option.some.inj hstep
    exact h.getProfile ha
  | profileStart id ents routes =>
    change (if s.running then none else some (ProfileStop.profileStart id ents routes s)) = _
      at hstep
    split_ifs at hstep with hrunning
    obtain rfl := Option.some.inj hstep
    exact h.profileStart (Bool.eq_false_iff.mpr hrunning) ha
  | addTraffic item up down =>
    obtain ⟨ent, -, rfl⟩ := Option.map_eq_some_iff.mp hstep
    exact h.setRecord ent _
  | batchDeleteProfiles ids =>
    obtain rfl := Option.some.inj hstep
    exact h.batchDeleteProfiles ha
  | batchDeleteGroups ids =>
    obtain rfl := Option.some.inj hstep
    exact h.batchDeleteGroups ids
  | moveProfileBatch ids gid =>
    obtain rfl := Option.some.inj hstep
    exact h.moveProfileBatch gid ha
  | addProfileBatch traffics gid =>
    obtain rfl := Option.some.inj hstep
    exact h.addProfileBatch traffics gid
  | clearGroup gid =>
    obtain rfl := Option.some.inj hstep
    exact h.clearGroup ha
  | runJob i =>
    obtain ⟨job, hjob, rfl⟩ := Option.map_eq_some_iff.mp hstep
    exact h.runJob (List.mem_of_getElem? hjob) i
  | profileStop manual =>
    obtain ⟨t, ht, hinv, -⟩ := h.profileStop manual
    obtain rfl := Option.some.inj (ht.symm.trans hstep)
    exact hinv

instance (s : State) (id : ℤ) : Decidable (Keeps s id) :=
  inferInstanceAs (Decidable (_ → _ → _ → ∀ r ∈ s.inUse, _))

instance (s : State) (id : ℤ) : Decidable (KeepsDeleting s id) :=
  inferInstanceAs (Decidable (id < 0 ∨ s.startedId = id ∨ Keeps s id ∧ ∀ r ∈ s.inUse, _))

instance (s : State) (id : ℤ) : Decidable (KeepsStarting s id) :=
  inferInstanceAs (Decidable (Keeps s id ∧ _ ∧ ∀ job ∈ s.jobs, id ∉ job.drops))

instance (s : State) : ∀ a, Decidable (Harmless s a)
  | .getProfile id => inferInstanceAs (Decidable (Keeps s id))
  | .profileStart id ents routes => inferInstanceAs (Decidable (Loop.Along addItem KeepsStarting
      { (ProfileStop.getProfile id s).2 with running := true, startedId := id, items := [] }
      (outboundStats id ents routes)))
  | .batchDeleteProfiles ids => inferInstanceAs (Decidable (Loop.Along (deleteProfile (-1))
      (fun st id => KeepsDeleting st.1 id) (s, []) ids))
  | .moveProfileBatch ids _ => inferInstanceAs (Decidable (Loop.Along fillProfileEnt
      (fun st id => Keeps st.1 id) (s, []) ids))
  | .clearGroup gid => inferInstanceAs (Decidable (Loop.Along (deleteProfile (-999))
      (fun st id => KeepsDeleting st.1 id) (s, []) ((s.groups gid).getD [])))
  | .addTraffic _ _ _ | .batchDeleteGroups _ | .addProfileBatch _ _ | .runJob _
  | .profileStop _ => isTrue trivial

/-- Four profiles in one group. -/
def sampleStored (id : ℤ) : Option Record := if 1 ≤ id ∧ id ≤ 4 then some ⟨0, 0, 0⟩ else none

def sampleGroups (gid : ℤ) : Option (List ℤ) := if gid = 0 then some [1, 2, 3, 4] else none

theorem le_of_sampleStored (id : ℤ) (h : (sampleStored id).isSome) : id ≤ 4 := by
  unfold sampleStored at h
  split_ifs at h with hid
  · exact hid.2
  · exact absurd h (by decide)

/-- The chain 1 of the profiles 3 and 2 runs while the profile 4 and the group are deleted. -/
def sampleRun : List Action :=
  [.profileStart 1 [3, 2] [], .addTraffic 1 10 20, .batchDeleteProfiles [1, 4],
    .batchDeleteGroups [0], .runJob 0, .runJob 0]

end ProfileStop

end NekoBox.Window
