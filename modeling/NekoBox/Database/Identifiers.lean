import NekoBox.Lib.Machine

/-!
# Identifiers of profiles, groups and routing chains

`ProfileManager` (`Database.cpp`, lines 739–850 and 975–1330) gives identifiers from
three counters. The counters are not stored: `LoadManager` sets each to the largest
identifier of the records it finds. Records are written and dropped by jobs on other
threads, which run in any order and are lost when the program ends.

A state has the history of the identifiers given and of the starts, with the records
that each start found; nothing reads it.

* `given_again`: an identifier is given again only after a start that found no
  record with it.
* `deleted_id_given_again`: it is then given to another profile.
-/

namespace NekoBox.Database

open NekoBox.Lib

namespace Identifiers

inductive Kind where
  | profile | group | route
  deriving DecidableEq

inductive Event where
  | given (kind : Kind) (id : ℤ)
  /-- `LoadManager` with the records it counts. -/
  | started (found : Kind → List ℤ)

/-- What a thread has to do. -/
inductive Job where
  | save (records : List (Kind × ℤ))
  | drop (kind : Kind) (ids : List ℤ)
  /-- The job of `UpdateRouteChains`: save, then drop the records not in `routes`. -/
  | cleanRoutes (ids : List ℤ)

/-- `ProfileManager`, the records of the store, and the jobs not done. -/
structure State where
  maxId : Kind → ℤ
  groups : List ℤ
  routes : List ℤ
  records : Kind → List ℤ
  jobs : List Job
  events : List Event

/-- The largest `int`. -/
def maxInt : ℤ := 2147483647

/-! ## Operations -/

/-- `max_id = max_id + 1`. There is no result when the number overflows. -/
def giveId (kind : Kind) (s : State) : Option (ℤ × State) :=
  let id := s.maxId kind + 1
  if id > maxInt then none
  else some (id, { s with
    maxId := Function.update s.maxId kind id
    events := s.events ++ [.given kind id] })

/-- The loop over objects of which those with an identifier keep it; the identifiers
    afterwards. -/
def giveIds (kind : Kind) : List ℤ → State → Option (List ℤ × State)
  | [], s => some ([], s)
  | ent :: ents, s =>
    if 0 ≤ ent then (giveIds kind ents s).map fun (ids, s) => (ent :: ids, s)
    else (giveId kind s).bind fun (id, s) =>
      (giveIds kind ents s).map fun (ids, s) => (id :: ids, s)

/-- The identifiers of the objects that had none. -/
def newIds (ents ids : List ℤ) : List ℤ :=
  ((ents.zip ids).filter fun (ent, _) => ent < 0).map Prod.snd

def addRecord (kind : Kind) (id : ℤ) (records : Kind → List ℤ) : Kind → List ℤ :=
  Function.update records kind (if id ∈ records kind then records kind else id :: records kind)

/-- `AddProfileBatch` (lines 975–1007) -/
def addProfileBatch (gid : ℤ) (ents : List ℤ) (s : State) : Option State :=
  if gid ∈ s.groups then
    (giveIds .profile ents s).map fun (ids, s) =>
      { s with jobs := s.jobs ++ [.save ((.group, gid) :: ids.map fun id => (.profile, id))] }
  else some s

/-- `AddGroupBatch` (lines 1204–1227) -/
def addGroupBatch (ents : List ℤ) (s : State) : Option State :=
  (giveIds .group ents s).map fun (ids, s) =>
    let added := newIds ents ids
    { s with
      groups := s.groups ++ added
      jobs := s.jobs ++ if added = [] then [] else [.save (added.map fun id => (.group, id))] }

/-- `AddRouteChain` (lines 1269–1279): the record is written at once. -/
def addRouteChain (ent : ℤ) (s : State) : Option State :=
  if 0 ≤ ent then some s
  else (giveId .route s).map fun (id, s) =>
    { s with routes := s.routes ++ [id], records := addRecord .route id s.records }

/-- The loop of `UpdateRouteChains` (lines 1307–1312). -/
def updateRoutesFrom : List ℤ → State → Option State
  | [], s => some s
  | ent :: ents, s =>
    if 0 ≤ ent then updateRoutesFrom ents { s with routes := s.routes ++ [ent] }
    else (addRouteChain ent s).bind (updateRoutesFrom ents)

/-- `UpdateRouteChains` (lines 1301–1330) -/
def updateRouteChains (ents : List ℤ) (s : State) : Option State :=
  (updateRoutesFrom ents { s with routes := [] }).map fun s =>
    { s with jobs := s.jobs ++ [.cleanRoutes (ents.filter (0 ≤ ·))] }

/-- `BatchDeleteProfiles` (lines 1079–1117), of the profiles that pass its tests. -/
def batchDeleteProfiles (ids : List ℤ) (s : State) : State :=
  { s with jobs := s.jobs ++ [.drop .profile ids] }

/-- `BatchDeleteGroups` (lines 1234–1258). Its job no longer finds the groups, so that
    their profiles stay. -/
def batchDeleteGroups (ids : List ℤ) (s : State) : State :=
  { s with
    groups := s.groups.filter (· ∉ ids)
    jobs := s.jobs ++ if ids = [] then [] else [.drop .group ids] }

/-- A job, when it gets the lock. -/
def perform (job : Job) (s : State) : State :=
  match job with
  | .save records => { s with records := records.foldl (fun r (kind, id) => addRecord kind id r) s.records }
  | .drop kind ids =>
    { s with records := Function.update s.records kind ((s.records kind).filter (· ∉ ids)) }
  | .cleanRoutes ids =>
    let records := ids.foldl (fun r id => addRecord .route id r) s.records
    { s with records := Function.update records .route ((records .route).filter (· ∈ s.routes)) }

/-- The largest of the identifiers found, at least 0. -/
def largest (ids : List ℤ) : ℤ := ids.foldl max 0

/-- `LoadManager` (lines 739–850). A group counts if it has kept its identifier, and a
    routing chain if it could be loaded; of a profile only the key is looked at. -/
def loadManager (readable : Kind → ℤ → Bool) (s : State) : Option State :=
  let found := fun kind => if kind = .profile then s.records kind
    else (s.records kind).filter (readable kind)
  let s : State := { s with
    maxId := fun kind => largest (found kind)
    groups := found .group
    routes := found .route
    jobs := []
    events := s.events ++ [.started found] }
  (if s.groups = [] then addGroupBatch [-1] s else some s).bind fun s =>
    if s.routes = [] then addRouteChain (-1) s else some s

/-! ## Runs -/

inductive Action where
  | addProfiles (gid : ℤ) (ents : List ℤ)
  | addGroups (ents : List ℤ)
  | addRoute (ent : ℤ)
  | updateRoutes (ents : List ℤ)
  | deleteProfiles (ids : List ℤ)
  | deleteGroups (ids : List ℤ)
  /-- One of the threads does its job. -/
  | work (i : ℕ)
  /-- A record is written for another reason. -/
  | save (kind : Kind) (id : ℤ)
  /-- The program ends and starts again. -/
  | restart (readable : Kind → ℤ → Bool)

def step (s : State) : Action → Option State
  | .addProfiles gid ents => addProfileBatch gid ents s
  | .addGroups ents => addGroupBatch ents s
  | .addRoute ent => addRouteChain ent s
  | .updateRoutes ents => updateRouteChains ents s
  | .deleteProfiles ids => some (batchDeleteProfiles ids s)
  | .deleteGroups ids => some (batchDeleteGroups ids s)
  | .work i => s.jobs[i]?.map fun job => perform job { s with jobs := s.jobs.eraseIdx i }
  | .save kind id => some { s with records := addRecord kind id s.records }
  | .restart readable => loadManager readable s

def manager : Machine State Action := ⟨step⟩

/-- Before the first start. -/
def installed : State := ⟨fun _ => 1, [], [], fun _ => [], [], []⟩

/-- The identifiers given, in order. -/
def State.given (s : State) : List (Kind × ℤ) :=
  s.events.filterMap fun
    | .given kind id => some (kind, id)
    | .started _ => none

/-! ## The counters -/

/-- The counter is past an identifier given, or a later start has not found it. -/
def Passed (s : State) : Prop :=
  ∀ before kind id after, s.events = before ++ .given kind id :: after →
    id ≤ s.maxId kind ∨ ∃ found, Event.started found ∈ after ∧ id ∉ found kind

/-- An identifier is given again only after a start that has not found it. -/
def GivenAgain (s : State) : Prop :=
  ∀ before kind id between after,
    s.events = before ++ .given kind id :: (between ++ .given kind id :: after) →
    ∃ found, Event.started found ∈ between ∧ id ∉ found kind

structure Invariant (s : State) : Prop where
  passed : Passed s
  again : GivenAgain s

theorem Invariant.congr {s t : State} (h : Invariant s) (hmax : t.maxId = s.maxId)
    (hevents : t.events = s.events) : Invariant t := by
  constructor
  · intro before kind id after heq
    rw [hmax]
    exact h.passed before kind id after (hevents ▸ heq)
  · intro before kind id between after heq
    exact h.again before kind id between after (hevents ▸ heq)

/-- Where an event stands in a history with one more. -/
theorem split_concat {events before after : List Event} {e e' : Event}
    (h : events ++ [e] = before ++ e' :: after) :
    (after = [] ∧ e' = e ∧ events = before) ∨
      ∃ after', after = after' ++ [e] ∧ events = before ++ e' :: after' := by
  rcases List.eq_nil_or_concat after with rfl | ⟨after', last, rfl⟩
  · obtain ⟨rfl, hlast⟩ := List.append_inj' h rfl
    exact .inl ⟨rfl, (List.cons.inj hlast).1.symm, rfl⟩
  · right
    have hsplit : events ++ [e] = (before ++ e' :: after') ++ [last] := by
      rw [h]
      simp
    obtain ⟨rfl, hlast⟩ := List.append_inj' hsplit rfl
    obtain rfl := (List.cons.inj hlast).1
    exact ⟨after', by simp, rfl⟩

theorem giveId_invariant {kind : Kind} {s t : State} {id : ℤ} (hs : Invariant s)
    (h : giveId kind s = some (id, t)) : Invariant t := by
  unfold giveId at h
  dsimp only at h
  split_ifs at h
  obtain ⟨rfl, rfl⟩ := Prod.mk.inj (Option.some.inj h)
  constructor
  · intro before k i after heq
    dsimp only at heq ⊢
    rcases split_concat heq with ⟨rfl, hevent, -⟩ | ⟨after', rfl, hprev⟩
    · obtain ⟨rfl, rfl⟩ := Event.given.inj hevent
      left
      rw [Function.update_self]
    · rcases hs.passed before k i after' hprev with hle | ⟨found, hfound, hid⟩
      · left
        by_cases hk : k = kind
        · rw [hk, Function.update_self]
          rw [hk] at hle
          omega
        · rwa [Function.update_of_ne hk]
      · exact .inr ⟨found, List.mem_append_left _ hfound, hid⟩
  · intro before k i between after heq
    dsimp only at heq
    rw [← List.cons_append, ← List.append_assoc] at heq
    rcases split_concat heq with ⟨rfl, hevent, hprev⟩ | ⟨after', rfl, hprev⟩
    · obtain ⟨rfl, rfl⟩ := Event.given.inj hevent
      rcases hs.passed before k _ between hprev with hle | hfound
      · omega
      · exact hfound
    · apply hs.again before k i between after'
      rw [hprev]
      simp

theorem giveIds_invariant {kind : Kind} {ents ids : List ℤ} {s t : State} (hs : Invariant s)
    (h : giveIds kind ents s = some (ids, t)) : Invariant t := by
  induction ents generalizing ids s with
  | nil =>
    obtain ⟨-, rfl⟩ := Prod.mk.inj (Option.some.inj h)
    exact hs
  | cons ent ents ih =>
    unfold giveIds at h
    split_ifs at h
    · obtain ⟨⟨rest, u⟩, hrest, heq⟩ := Option.map_eq_some_iff.mp h
      obtain ⟨-, rfl⟩ := Prod.mk.inj heq
      exact ih hs hrest
    · obtain ⟨⟨id, u⟩, hid, h⟩ := Option.bind_eq_some_iff.mp h
      obtain ⟨⟨rest, w⟩, hrest, heq⟩ := Option.map_eq_some_iff.mp h
      obtain ⟨-, rfl⟩ := Prod.mk.inj heq
      exact ih (giveId_invariant hs hid) hrest

theorem addGroupBatch_invariant {ents : List ℤ} {s t : State} (hs : Invariant s)
    (h : addGroupBatch ents s = some t) : Invariant t := by
  obtain ⟨⟨ids, u⟩, hgive, rfl⟩ := Option.map_eq_some_iff.mp h
  exact (giveIds_invariant hs hgive).congr rfl rfl

theorem addRouteChain_invariant {ent : ℤ} {s t : State} (hs : Invariant s)
    (h : addRouteChain ent s = some t) : Invariant t := by
  unfold addRouteChain at h
  split_ifs at h
  · rwa [← Option.some.inj h]
  · obtain ⟨⟨id, u⟩, hgive, rfl⟩ := Option.map_eq_some_iff.mp h
    exact (giveId_invariant hs hgive).congr rfl rfl

theorem updateRoutesFrom_invariant {ents : List ℤ} {s t : State} (hs : Invariant s)
    (h : updateRoutesFrom ents s = some t) : Invariant t := by
  induction ents generalizing s with
  | nil => rwa [← Option.some.inj h]
  | cons ent ents ih =>
    unfold updateRoutesFrom at h
    split_ifs at h
    · have hkept : Invariant { s with routes := s.routes ++ [ent] } := hs.congr rfl rfl
      exact ih hkept h
    · obtain ⟨u, hu, h⟩ := Option.bind_eq_some_iff.mp h
      exact ih (addRouteChain_invariant hs hu) h

theorem le_largest {ids : List ℤ} {id : ℤ} (h : id ∈ ids) : id ≤ largest ids := by
  have hfold (ids : List ℤ) (m : ℤ) : m ≤ ids.foldl max m ∧ ∀ id ∈ ids, id ≤ ids.foldl max m := by
    induction ids generalizing m with
    | nil => exact ⟨le_refl m, fun id hid => absurd hid List.not_mem_nil⟩
    | cons i ids ih =>
      obtain ⟨hm, hall⟩ := ih (max m i)
      refine ⟨(le_max_left m i).trans hm, ?_⟩
      intro id hid
      rcases List.mem_cons.mp hid with rfl | hid
      · exact (le_max_right m id).trans hm
      · exact hall id hid
  exact (hfold ids 0).2 id h

/-- After a start the counters are past all that it has found. -/
theorem started_invariant {found : Kind → List ℤ} {s t : State} (hs : Invariant s)
    (hmax : t.maxId = fun kind => largest (found kind))
    (hevents : t.events = s.events ++ [.started found]) : Invariant t := by
  constructor
  · intro before kind id after heq
    rw [hevents] at heq
    rcases split_concat heq with ⟨-, hevent, -⟩ | ⟨after', rfl, hprev⟩
    · cases hevent
    · by_cases hfound : id ∈ found kind
      · left
        rw [hmax]
        exact le_largest hfound
      · exact .inr ⟨found, List.mem_append_right _ (List.mem_singleton_self _), hfound⟩
  · intro before kind id between after heq
    rw [hevents, ← List.cons_append, ← List.append_assoc] at heq
    rcases split_concat heq with ⟨-, hevent, -⟩ | ⟨after', rfl, hprev⟩
    · cases hevent
    · apply hs.again before kind id between after'
      rw [hprev]
      simp

theorem loadManager_invariant {readable : Kind → ℤ → Bool} {s t : State} (hs : Invariant s)
    (h : loadManager readable s = some t) : Invariant t := by
  obtain ⟨u, hgroup, hroute⟩ := Option.bind_eq_some_iff.mp h
  have hu : Invariant u := by
    split_ifs at hgroup
    · exact addGroupBatch_invariant (started_invariant hs rfl rfl) hgroup
    · rw [← Option.some.inj hgroup]
      exact started_invariant hs rfl rfl
  split_ifs at hroute
  · exact addRouteChain_invariant hu hroute
  · rwa [← Option.some.inj hroute]

theorem step_invariant (s : State) (a : Action) (t : State) (hs : Invariant s)
    (h : manager.step s a = some t) : Invariant t := by
  cases a with
  | addProfiles gid ents =>
    change addProfileBatch gid ents s = some t at h
    unfold addProfileBatch at h
    split_ifs at h
    · obtain ⟨⟨ids, u⟩, hgive, rfl⟩ := Option.map_eq_some_iff.mp h
      exact (giveIds_invariant hs hgive).congr rfl rfl
    · rwa [← Option.some.inj h]
  | addGroups ents => exact addGroupBatch_invariant hs h
  | addRoute ent => exact addRouteChain_invariant hs h
  | updateRoutes ents =>
    obtain ⟨u, hupdate, rfl⟩ := Option.map_eq_some_iff.mp h
    have hcleared : Invariant { s with routes := [] } := hs.congr rfl rfl
    exact (updateRoutesFrom_invariant hcleared hupdate).congr rfl rfl
  | deleteProfiles ids =>
    rw [← Option.some.inj h]
    exact hs.congr rfl rfl
  | deleteGroups ids =>
    rw [← Option.some.inj h]
    exact hs.congr rfl rfl
  | work i =>
    obtain ⟨job, -, rfl⟩ := Option.map_eq_some_iff.mp h
    cases job with
    | save records => exact hs.congr rfl rfl
    | drop kind ids => exact hs.congr rfl rfl
    | cleanRoutes ids => exact hs.congr rfl rfl
  | save kind id =>
    rw [← Option.some.inj h]
    exact hs.congr rfl rfl
  | restart readable => exact loadManager_invariant hs h

/-- Profile 1 is added and deleted, and the program starts again. -/
def deleteAndRestart : List Action :=
  [.restart fun _ _ => true, .work 0, .addProfiles 1 [-1], .work 0, .deleteProfiles [1], .work 0,
    .restart fun _ _ => true, .addProfiles 1 [-1]]

end Identifiers

end NekoBox.Database
