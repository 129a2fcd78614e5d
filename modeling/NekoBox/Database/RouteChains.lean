import NekoBox.Lib.LastWrite
import NekoBox.Lib.Machine
import NekoBox.Lib.OrderedMap

/-!
# The records of routing chains

`AddRouteChain` and `UpdateRouteChains` (`Database.cpp`, lines 1269–1331) change the map
`routes` and the records of the chains, the second by a job on a thread of its own that
saves the chains it was called with and drops the records of those that are not in the
map when it runs. `MainWindow::updateRouteProfiles` (`mainwindow.cpp`, lines 1947–1972)
replaces the rules of the chains that were in the map when it started, and saves nothing.

Jobs run one at a time, in any order. A chain is an object that the map, a job and an
update may share: a job writes what the object holds when it runs. The editor works on
a copy, which then stands in the list in the place of the chain.

* `converged_harmless`: in a run in which no job that has yet to run saves another object
  under an identifier of the new list, and a remote update changes a chain only while a
  job that saves it has yet to run, the records are those of the map once all jobs have
  run.
-/

namespace NekoBox.Database

open NekoBox.Lib

namespace RouteChains

/-! ## The code -/

/-- The fields of `RoutingChain` in its `_map()`, but for `id`. -/
structure Chain (R : Type) where
  chainName : String
  updateUrl : String
  skipUpdate : Bool
  enabled : Bool
  priority : ℤ
  rules : R
  defaultOutboundID : ℤ
  deriving DecidableEq

/-- An object: one that `LoadManager` made for a record, or one made later. -/
inductive Ref where
  | loaded (id : ℤ)
  | made (n : ℕ)
  deriving DecidableEq

structure State (R : Type) where
  routes : List (ℤ × Ref)
  maxRouteChainId : ℤ
  /-- `chain->id` -/
  entId : Ref → ℤ
  /-- The other fields of the object. -/
  chain : Ref → Chain R
  /-- The records, of which some do not load. -/
  stored : ℤ → Option (Option (Chain R))
  /-- `to_save`, for every job that has not run. -/
  jobs : List (List Ref)
  /-- What each run of `updateRouteProfiles` has before it. -/
  updates : List (List Ref)

variable {R : Type}

/-- The largest `int`. -/
def maxInt : ℤ := 2147483647

/-- `routes[id]`, if there is one. -/
def State.route (s : State R) (id : ℤ) : Option Ref := OrderedMap.find OrderedMap.less id s.routes

/-- `item->Save()` -/
def State.save (s : State R) (stored : ℤ → Option (Option (Chain R))) (item : Ref) :
    ℤ → Option (Option (Chain R)) :=
  Function.update stored (s.entId item) (some (some (s.chain item)))

/-- `AddRouteChain` (lines 1269–1279), and what it returns. -/
def addRouteChain (chain : Ref) (s : State R) : Option (Bool × State R) :=
  if 0 ≤ s.entId chain then some (false, s)
  else
    let id := s.maxRouteChainId + 1
    if id > maxInt then none
    else
      let s := { s with
        maxRouteChainId := id
        entId := Function.update s.entId chain id
        routes := OrderedMap.assign OrderedMap.less id chain s.routes }
      some (true, { s with stored := s.save s.stored chain })

/-- The loop body of `UpdateRouteChains` (lines 1307–1312), with `to_save`. -/
def updateItem (st : State R × List Ref) (item : Ref) : Option (State R × List Ref) :=
  (addRouteChain item st.1).map fun (added, s) =>
    if added then (s, st.2)
    else ({ s with routes := OrderedMap.assign OrderedMap.less (s.entId item) item s.routes },
      st.2 ++ [item])

/-- `UpdateRouteChains` (lines 1301–1331) -/
def updateRouteChains (newChain : List Ref) (s : State R) : Option (State R) :=
  (newChain.foldlM updateItem ({ s with routes := [] }, [])).map fun (s, toSave) =>
    { s with jobs := s.jobs ++ [toSave] }

/-- The job of `UpdateRouteChains` (lines 1315–1329). -/
def runJob (toSave : List Ref) (s : State R) : State R :=
  let stored := toSave.foldl s.save s.stored
  { s with stored := fun id => if s.route id = none then none else stored id }

/-- The loop body of `updateRouteProfiles` (lines 1951–1969): `parsed` are the rules in the
    response, if there is one that can be read. -/
def updateProfile (parsed : Option R) (item : Ref) (s : State R) : State R :=
  if (s.chain item).skipUpdate ∨ (s.chain item).updateUrl = "" then s
  else
    match parsed with
    | none => s
    | some rules =>
      { s with chain := Function.update s.chain item { s.chain item with rules := rules } }

/-- The loop body of `LoadManager` for a record (lines 824–837). -/
def loadRoute (s : State R) (record : ℤ × Option (Chain R)) : State R :=
  match record.2 with
  | none => s
  | some chain =>
    { s with
      routes := OrderedMap.assign OrderedMap.less record.1 (.loaded record.1) s.routes
      maxRouteChainId := if record.1 > s.maxRouteChainId then record.1 else s.maxRouteChainId
      entId := Function.update s.entId (.loaded record.1) record.1
      chain := Function.update s.chain (.loaded record.1) chain }

/-- The records of a list. -/
def storedOf (records : List (ℤ × Option (Chain R))) : ℤ → Option (Option (Chain R)) :=
  records.foldl (fun m record => Function.update m record.1 (some record.2)) fun _ => none

/-- Before the records are loaded; `fields` are those of a new object. -/
def unloaded (fields : Chain R) (records : List (ℤ × Option (Chain R))) : State R where
  routes := []
  maxRouteChainId := 0
  entId := fun _ => -1
  chain := fun _ => fields
  stored := storedOf records
  jobs := []
  updates := []

/-- `LoadManager` (lines 822–849), for the records in the order of `Query`. Without any the
    chain of `GetDefaultChain` is added. -/
def start (fields : Chain R) (records : List (ℤ × Option (Chain R))) : Option (State R) :=
  let s := records.foldl loadRoute (unloaded fields records)
  if s.routes = [] then (addRouteChain (.made 0) s).map Prod.snd else some s

inductive Action (R : Type) where
  /-- An object is made as a copy of another, as the editor does. -/
  | copyChain (source : Ref) (target : ℕ)
  /-- A new object is filled in and given to `AddRouteChain`. -/
  | addRouteChain (chain : ℕ) (fields : Chain R)
  /-- The objects of the list are edited, then `UpdateRouteChains` is called. -/
  | updateRouteChains (newChain : List (Ref × Chain R))
  /-- A job is run. -/
  | runJob (i : ℕ)
  | startUpdate
  /-- A run of `updateRouteProfiles` goes on to its next chain. -/
  | updateNext (i : ℕ) (parsed : Option R)

/-- The objects are edited. -/
def State.edit (s : State R) (newChain : List (Ref × Chain R)) : State R :=
  { s with chain := newChain.foldl (fun m e => Function.update m e.1 e.2) s.chain }

def step (s : State R) : Action R → Option (State R)
  | .copyChain source target =>
    if s.entId (.made target) < 0 then
      some { s with
        entId := Function.update s.entId (.made target) (s.entId source)
        chain := Function.update s.chain (.made target) (s.chain source) }
    else none
  | .addRouteChain chain fields =>
    if s.entId (.made chain) < 0 then
      (addRouteChain (.made chain) (s.edit [(.made chain, fields)])).map Prod.snd
    else none
  | .updateRouteChains newChain => updateRouteChains (newChain.map Prod.fst) (s.edit newChain)
  | .runJob i =>
    (s.jobs[i]?).map fun toSave => runJob toSave { s with jobs := s.jobs.eraseIdx i }
  | .startUpdate => some { s with updates := s.updates ++ [s.routes.map Prod.snd] }
  | .updateNext i parsed =>
    match s.updates[i]? with
    | some (item :: items) =>
      some (updateProfile parsed item { s with updates := s.updates.set i items })
    | _ => none

def machine : Machine (State R) (Action R) := ⟨step⟩

/-! ## The property -/

/-- Once all jobs have run, the records are those of the chains in the map. -/
def Converged (s : State R) : Prop :=
  s.jobs = [] → ∀ id, s.stored id = (s.route id).map fun r => some (s.chain r)

/-- The object that a list of objects leaves under an identifier. -/
def State.writes (s : State R) (toSave : List Ref) (id : ℤ) : Option Ref := lastAt s.entId toSave id

/-- No job that has yet to run saves another object under an identifier of the list. -/
def KeepsObjects (s : State R) (newChain : List Ref) : Prop :=
  ∀ toSave ∈ s.jobs, ∀ item ∈ newChain, 0 ≤ s.entId item →
    s.writes toSave (s.entId item) ≠ none →
      s.writes toSave (s.entId item) = s.writes newChain (s.entId item)

/-- The object is not in the map, or a job that saves it has yet to run. -/
def WillBeSaved (s : State R) (item : Ref) : Prop :=
  s.route (s.entId item) ≠ some item ∨ ∃ toSave ∈ s.jobs, s.writes toSave (s.entId item) = some item

/-- The conditions under which a step does not bring the records out of step. -/
def Harmless (s : State R) : Action R → Prop
  | .updateRouteChains newChain => KeepsObjects s (newChain.map Prod.fst)
  | .updateNext i parsed =>
    match s.updates[i]? with
    | some (item :: _) =>
      (updateProfile parsed item s).chain item = s.chain item ∨ WillBeSaved s item
    | _ => True
  | _ => True

/-! ## The invariant -/

/-- What holds between the steps of a run. -/
structure Inv (s : State R) : Prop where
  key : ∀ id r, s.route id = some r → s.entId r = id ∧ 0 ≤ id
  le_max : ∀ r, s.entId r ≤ s.maxRouteChainId
  max_nonneg : 0 ≤ s.maxRouteChainId
  jobs_nonneg : ∀ toSave ∈ s.jobs, ∀ r ∈ toSave, 0 ≤ s.entId r
  /-- A job that has yet to run saves the objects of the map. -/
  agree : ∀ toSave ∈ s.jobs, ∀ id r r', s.writes toSave id = some r → s.route id = some r' → r = r'
  /-- A chain of the map is saved, or will be. -/
  saved : ∀ id r, s.route id = some r →
    s.stored id = some (some (s.chain r)) ∨ ∃ toSave ∈ s.jobs, s.writes toSave id = some r
  /-- A record without a chain will be dropped. -/
  stray : s.jobs = [] → ∀ id, s.route id = none → s.stored id = none

theorem Inv.converged {s : State R} (h : Inv s) : Converged s := by
  intro hjobs id
  cases hroute : s.route id with
  | none => exact h.stray hjobs id hroute
  | some r =>
    rcases h.saved id r hroute with hstored | ⟨toSave, htoSave, -⟩
    · exact hstored
    · rw [hjobs] at htoSave
      exact absurd htoSave List.not_mem_nil

variable {s s' : State R}

theorem route_assign (id : ℤ) (r : Ref) (id' : ℤ) :
    OrderedMap.find OrderedMap.less id' (OrderedMap.assign OrderedMap.less id r s.routes) =
      if id = id' then some r else s.route id' :=
  OrderedMap.find_assign_less

/-! ### `AddRouteChain` -/

theorem addRouteChain_cases {chain : Ref} {added : Bool}
    (h : addRouteChain chain s = some (added, s')) :
    (0 ≤ s.entId chain ∧ added = false ∧ s' = s) ∨
      s.entId chain < 0 ∧ added = true ∧ s' = { s with
        maxRouteChainId := s.maxRouteChainId + 1
        entId := Function.update s.entId chain (s.maxRouteChainId + 1)
        routes := OrderedMap.assign OrderedMap.less (s.maxRouteChainId + 1) chain s.routes
        stored := Function.update s.stored (s.maxRouteChainId + 1) (some (some (s.chain chain))) } := by
  unfold addRouteChain at h
  by_cases hgiven : 0 ≤ s.entId chain
  · rw [if_pos hgiven] at h
    obtain ⟨rfl, rfl⟩ := Prod.mk.inj (Option.some.inj h)
    exact Or.inl ⟨hgiven, rfl, rfl⟩
  · rw [if_neg hgiven] at h
    dsimp only at h
    split_ifs at h
    obtain ⟨rfl, rfl⟩ := Prod.mk.inj (Option.some.inj h)
    refine Or.inr ⟨not_le.mp hgiven, rfl, ?_⟩
    simp only [State.save, Function.update_self]

/-- A chain without an identifier is new, and saved. -/
theorem Inv.addRouteChain {chain : Ref} {added : Bool} (h : Inv s)
    (hs' : addRouteChain chain s = some (added, s')) : Inv s' := by
  rcases addRouteChain_cases hs' with ⟨-, -, rfl⟩ | ⟨hnegative, -, rfl⟩
  · exact h
  have hold : ∀ r, 0 ≤ s.entId r → Function.update s.entId chain (s.maxRouteChainId + 1) r = s.entId r := by
    intro r hr
    rw [Function.update_of_ne]
    rintro rfl
    omega
  have hwrites : ∀ toSave ∈ s.jobs, ∀ id,
      lastAt (Function.update s.entId chain (s.maxRouteChainId + 1)) toSave id =
        lastAt s.entId toSave id := fun toSave htoSave id =>
    lastAt_congr fun r hr => hold r (h.jobs_nonneg toSave htoSave r hr)
  have hfresh : ∀ toSave ∈ s.jobs, lastAt s.entId toSave (s.maxRouteChainId + 1) = none := by
    intro toSave _
    rw [lastAt_eq_none]
    intro r _ hr
    have hle := h.le_max r
    omega
  have hmax := h.max_nonneg
  refine ⟨fun id r hroute => ?_, fun r => ?_, ?_, fun toSave htoSave r hr => ?_,
    fun toSave htoSave id r r' hwrite hroute => ?_, fun id r hroute => ?_, fun hjobs id hroute => ?_⟩
  · replace hroute := (route_assign _ _ _).symm.trans hroute
    show Function.update s.entId chain (s.maxRouteChainId + 1) r = id ∧ 0 ≤ id
    split_ifs at hroute with hid
    · obtain rfl := Option.some.inj hroute
      rw [Function.update_self]
      omega
    · obtain ⟨hkey, hnonneg⟩ := h.key id r hroute
      rw [hold r (by omega)]
      exact ⟨hkey, hnonneg⟩
  · show Function.update s.entId chain (s.maxRouteChainId + 1) r ≤ s.maxRouteChainId + 1
    by_cases hr : r = chain
    · rw [hr, Function.update_self]
    · rw [Function.update_of_ne hr]
      have hle := h.le_max r
      omega
  · show 0 ≤ s.maxRouteChainId + 1
    omega
  · show 0 ≤ Function.update s.entId chain (s.maxRouteChainId + 1) r
    rw [hold r (h.jobs_nonneg toSave htoSave r hr)]
    exact h.jobs_nonneg toSave htoSave r hr
  · replace hwrite : lastAt s.entId toSave id = some r := (hwrites toSave htoSave id).symm.trans hwrite
    replace hroute := (route_assign _ _ _).symm.trans hroute
    split_ifs at hroute with hid
    · rw [← hid, hfresh toSave htoSave] at hwrite
      exact absurd hwrite.symm (Option.some_ne_none r)
    · exact h.agree toSave htoSave id r r' hwrite hroute
  · replace hroute := (route_assign _ _ _).symm.trans hroute
    show Function.update s.stored (s.maxRouteChainId + 1) (some (some (s.chain chain))) id = _ ∨ _
    split_ifs at hroute with hid
    · obtain rfl := Option.some.inj hroute
      rw [← hid, Function.update_self]
      exact Or.inl rfl
    · rw [Function.update_of_ne (Ne.symm hid)]
      rcases h.saved id r hroute with hstored | ⟨toSave, htoSave, hwrite⟩
      · exact Or.inl hstored
      · exact Or.inr ⟨toSave, htoSave, (hwrites toSave htoSave id).trans hwrite⟩
  · replace hroute := (route_assign _ _ _).symm.trans hroute
    show Function.update s.stored (s.maxRouteChainId + 1) (some (some (s.chain chain))) id = none
    split_ifs at hroute with hid
    rw [Function.update_of_ne (Ne.symm hid)]
    exact h.stray hjobs id hroute

/-! ### `UpdateRouteChains` -/

/-- The loop over the beginning `done` of the list, from the state `s`. -/
structure UpdateInv (s : State R) (done : List Ref) (st : State R × List Ref) : Prop where
  chain : st.1.chain = s.chain
  jobs : st.1.jobs = s.jobs
  max_le : s.maxRouteChainId ≤ st.1.maxRouteChainId
  le_max : ∀ r, st.1.entId r ≤ st.1.maxRouteChainId
  entId_old : ∀ r, 0 ≤ s.entId r → st.1.entId r = s.entId r
  entId_new : ∀ r, s.entId r < 0 → st.1.entId r < 0 ∨ s.maxRouteChainId < st.1.entId r
  key : ∀ id r, st.1.route id = some r → st.1.entId r = id ∧ 0 ≤ id
  toSave_nonneg : ∀ r ∈ st.2, 0 ≤ st.1.entId r
  /-- The map has the object that the job will save, -/
  last : ∀ id r, st.1.writes st.2 id = some r → st.1.route id = some r
  /-- or one that has been saved. -/
  saved : ∀ id r, st.1.route id = some r →
    st.1.stored id = some (some (s.chain r)) ∨ st.1.writes st.2 id = some r
  /-- Under an identifier that had been given, the job saves what the list has. -/
  writes_old : ∀ id, 0 ≤ id → id ≤ s.maxRouteChainId → st.1.writes st.2 id = s.writes done id
  route_old : ∀ id r, id ≤ s.maxRouteChainId → st.1.route id = some r →
    st.1.writes st.2 id = some r

theorem updateInv_nil (hle : ∀ r, s.entId r ≤ s.maxRouteChainId) (hroutes : s.routes = []) :
    UpdateInv s [] (s, []) := by
  have hnone : ∀ id, s.route id = none := fun id => by
    rw [State.route, hroutes]
    rfl
  refine ⟨rfl, rfl, le_rfl, hle, fun _ _ => rfl, fun r hr => Or.inl hr, fun id r h => ?_,
    fun r hr => absurd hr List.not_mem_nil, fun id r h => ?_, fun id r h => ?_,
    fun _ _ _ => rfl, fun id r _ h => ?_⟩
  · exact absurd ((hnone id).symm.trans h).symm (Option.some_ne_none r)
  · exact absurd h.symm (Option.some_ne_none r)
  · exact absurd ((hnone id).symm.trans h).symm (Option.some_ne_none r)
  · exact absurd ((hnone id).symm.trans h).symm (Option.some_ne_none r)

/-- A chain that has an identifier takes its place in the map, and will be saved. -/
theorem UpdateInv.assign {done : List Ref} {t : State R} {toSave : List Ref} {item : Ref}
    (h : UpdateInv s done (t, toSave)) (hitem : 0 ≤ t.entId item) :
    UpdateInv s (done ++ [item])
      ({ t with routes := OrderedMap.assign OrderedMap.less (t.entId item) item t.routes },
        toSave ++ [item]) := by
  have hwrites : ∀ id, t.writes (toSave ++ [item]) id =
      if t.entId item = id then some item else t.writes toSave id := fun id => lastAt_concat
  have hroute : ∀ id, State.route { t with
      routes := OrderedMap.assign OrderedMap.less (t.entId item) item t.routes } id =
        if t.entId item = id then some item else t.route id := fun id => route_assign _ _ _
  refine ⟨h.chain, h.jobs, h.max_le, h.le_max, h.entId_old, h.entId_new, fun id r hr => ?_,
    fun r hr => ?_, fun id r hr => ?_, fun id r hr => ?_, fun id hnonneg hid => ?_,
    fun id r hid hr => ?_⟩
  · rw [hroute] at hr
    split_ifs at hr with heq
    · obtain rfl := Option.some.inj hr
      exact ⟨heq, heq ▸ hitem⟩
    · exact h.key id r hr
  · rcases List.mem_append.mp hr with hr | hr
    · exact h.toSave_nonneg r hr
    · rw [List.mem_singleton.mp hr]
      exact hitem
  · replace hr := (hwrites id).symm.trans hr
    rw [hroute]
    split_ifs at hr ⊢ with heq
    · exact hr
    · exact h.last id r hr
  · rw [hroute] at hr
    show _ ∨ t.writes (toSave ++ [item]) id = some r
    rw [hwrites]
    split_ifs at hr ⊢ with heq
    · exact Or.inr hr
    · exact h.saved id r hr
  · show t.writes (toSave ++ [item]) id = lastAt s.entId (done ++ [item]) id
    rw [hwrites, lastAt_concat, h.writes_old id hnonneg hid]
    -- an identifier given in the loop is past those that had been given
    have hiff : t.entId item = id ↔ s.entId item = id := by
      by_cases hgiven : 0 ≤ s.entId item
      · rw [← h.entId_old item hgiven]
      · rcases h.entId_new item (not_le.mp hgiven) with hneg | hpast
        · exact absurd hitem (not_le.mpr hneg)
        · replace hpast : s.maxRouteChainId < t.entId item := hpast
          constructor <;> intro heq <;> omega
    simp only [hiff]
    rfl
  · rw [hroute] at hr
    show t.writes (toSave ++ [item]) id = some r
    rw [hwrites]
    split_ifs at hr ⊢ with heq
    · exact hr
    · exact h.route_old id r hid hr

/-- A chain that has none is given one, and saved. -/
theorem UpdateInv.add {done : List Ref} {t : State R} {toSave : List Ref} {item : Ref}
    (h : UpdateInv s done (t, toSave)) (hmax : 0 ≤ s.maxRouteChainId) (hitem : t.entId item < 0) :
    UpdateInv s (done ++ [item])
      ({ t with
        maxRouteChainId := t.maxRouteChainId + 1
        entId := Function.update t.entId item (t.maxRouteChainId + 1)
        routes := OrderedMap.assign OrderedMap.less (t.maxRouteChainId + 1) item t.routes
        stored := Function.update t.stored (t.maxRouteChainId + 1)
          (some (some (t.chain item))) }, toSave) := by
  have hle := h.max_le
  dsimp only at hle
  have hchain : t.chain = s.chain := h.chain
  have hold : ∀ r, 0 ≤ t.entId r →
      Function.update t.entId item (t.maxRouteChainId + 1) r = t.entId r := by
    intro r hr
    rw [Function.update_of_ne]
    rintro rfl
    omega
  have hneg : s.entId item < 0 := by
    by_contra hgiven
    have heq : t.entId item = s.entId item := h.entId_old item (not_lt.mp hgiven)
    omega
  have hwrites : ∀ id, lastAt (Function.update t.entId item (t.maxRouteChainId + 1)) toSave id =
      t.writes toSave id := fun id =>
    lastAt_congr fun r hr => hold r (h.toSave_nonneg r hr)
  have hfresh : t.writes toSave (t.maxRouteChainId + 1) = none := by
    refine lastAt_eq_none.mpr fun r _ hr => ?_
    have hr' : t.entId r ≤ t.maxRouteChainId := h.le_max r
    omega
  have hroute : ∀ id, OrderedMap.find OrderedMap.less id
      (OrderedMap.assign OrderedMap.less (t.maxRouteChainId + 1) item t.routes) =
        if t.maxRouteChainId + 1 = id then some item else t.route id := fun id =>
    route_assign _ _ _
  refine ⟨h.chain, h.jobs, ?_, fun r => ?_, fun r hr => ?_, fun r hr => ?_, fun id r hr => ?_,
    fun r hr => ?_, fun id r hr => ?_, fun id r hr => ?_, fun id hnonneg hid => ?_,
    fun id r hid hr => ?_⟩
  · show s.maxRouteChainId ≤ t.maxRouteChainId + 1
    omega
  · show Function.update t.entId item (t.maxRouteChainId + 1) r ≤ t.maxRouteChainId + 1
    by_cases hr : r = item
    · rw [hr, Function.update_self]
    · rw [Function.update_of_ne hr]
      have hr' : t.entId r ≤ t.maxRouteChainId := h.le_max r
      omega
  · have heq : t.entId r = s.entId r := h.entId_old r hr
    show Function.update t.entId item (t.maxRouteChainId + 1) r = s.entId r
    rw [hold r (by omega), heq]
  · show Function.update t.entId item (t.maxRouteChainId + 1) r < 0 ∨
      s.maxRouteChainId < Function.update t.entId item (t.maxRouteChainId + 1) r
    by_cases hri : r = item
    · rw [hri, Function.update_self]
      exact Or.inr (by omega)
    · rw [Function.update_of_ne hri]
      exact h.entId_new r hr
  · replace hr := (hroute id).symm.trans hr
    show Function.update t.entId item (t.maxRouteChainId + 1) r = id ∧ 0 ≤ id
    split_ifs at hr with heq
    · obtain rfl := Option.some.inj hr
      rw [Function.update_self]
      omega
    · obtain ⟨hkey, hnonneg⟩ : t.entId r = id ∧ 0 ≤ id := h.key id r hr
      rw [hold r (by omega)]
      exact ⟨hkey, hnonneg⟩
  · show 0 ≤ Function.update t.entId item (t.maxRouteChainId + 1) r
    have hr' : 0 ≤ t.entId r := h.toSave_nonneg r hr
    rw [hold r hr']
    exact hr'
  · replace hr := (hwrites id).symm.trans hr
    refine (hroute id).trans ?_
    split_ifs with heq
    · rw [← heq, hfresh] at hr
      exact absurd hr.symm (Option.some_ne_none r)
    · exact h.last id r hr
  · replace hr := (hroute id).symm.trans hr
    show Function.update t.stored (t.maxRouteChainId + 1) (some (some (t.chain item))) id =
        some (some (s.chain r)) ∨
      lastAt (Function.update t.entId item (t.maxRouteChainId + 1)) toSave id = some r
    rw [hwrites]
    split_ifs at hr with heq
    · obtain rfl := Option.some.inj hr
      rw [← heq, Function.update_self, hchain]
      exact Or.inl rfl
    · rw [Function.update_of_ne (Ne.symm heq)]
      exact h.saved id r hr
  · show lastAt (Function.update t.entId item (t.maxRouteChainId + 1)) toSave id =
      lastAt s.entId (done ++ [item]) id
    rw [hwrites, lastAt_concat, if_neg (by omega), h.writes_old id hnonneg hid]
    rfl
  · replace hr := (hroute id).symm.trans hr
    rw [if_neg (by omega)] at hr
    exact (hwrites id).trans (h.route_old id r hid hr)

theorem UpdateInv.item {done : List Ref} {st st' : State R × List Ref} {item : Ref}
    (h : UpdateInv s done st) (hmax : 0 ≤ s.maxRouteChainId)
    (hst' : updateItem st item = some st') : UpdateInv s (done ++ [item]) st' := by
  obtain ⟨⟨added, t⟩, ht, rfl⟩ := Option.map_eq_some_iff.mp hst'
  rcases addRouteChain_cases ht with ⟨hgiven, rfl, rfl⟩ | ⟨hnegative, rfl, rfl⟩
  · exact h.assign hgiven
  · exact h.add hmax hnegative

theorem updateInv_foldlM (hmax : 0 ≤ s.maxRouteChainId) :
    ∀ (more done : List Ref) (st st' : State R × List Ref), UpdateInv s done st →
      more.foldlM updateItem st = some st' → UpdateInv s (done ++ more) st' := by
  intro more
  induction more with
  | nil =>
    intro done st st' h hst'
    obtain rfl := Option.some.inj hst'
    rwa [List.append_nil]
  | cons item more ih =>
    intro done st st' h hst'
    rw [List.foldlM_cons] at hst'
    obtain ⟨next, hnext, hrest⟩ := Option.bind_eq_some_iff.mp hst'
    have hall := ih _ next st' (h.item hmax hnext) hrest
    rwa [List.append_assoc] at hall

/-- `UpdateRouteChains`, when no job that has yet to run saves another object. -/
theorem Inv.updateRouteChains {newChain : List (Ref × Chain R)} (h : Inv s)
    (hkeeps : KeepsObjects s (newChain.map Prod.fst))
    (hs' : updateRouteChains (newChain.map Prod.fst) (s.edit newChain) = some s') : Inv s' := by
  obtain ⟨⟨t, toSave⟩, hloop, rfl⟩ := Option.map_eq_some_iff.mp hs'
  have hupdate := updateInv_foldlM (s := { s.edit newChain with routes := [] }) h.max_nonneg
    _ [] _ _ (updateInv_nil h.le_max rfl) hloop
  rw [List.nil_append] at hupdate
  have hjobs : t.jobs = s.jobs := hupdate.jobs
  have hold : ∀ r, 0 ≤ s.entId r → t.entId r = s.entId r := hupdate.entId_old
  have hle : s.maxRouteChainId ≤ t.maxRouteChainId := hupdate.max_le
  have hwrites : ∀ job ∈ s.jobs, ∀ id, lastAt t.entId job id = lastAt s.entId job id :=
    fun job hjob id => lastAt_congr fun r hr => hold r (h.jobs_nonneg job hjob r hr)
  have hmem : ∀ job, job ∈ t.jobs ++ [toSave] ↔ job ∈ s.jobs ∨ job = toSave := fun job => by
    rw [List.mem_append, hjobs, List.mem_singleton]
  refine ⟨hupdate.key, hupdate.le_max, h.max_nonneg.trans hle, fun job hjob r hr => ?_,
    fun job hjob id r r' hwrite hroute => ?_, fun id r hroute => ?_, fun hnil => ?_⟩
  · rcases (hmem job).mp hjob with hjob | rfl
    · show 0 ≤ t.entId r
      rw [hold r (h.jobs_nonneg job hjob r hr)]
      exact h.jobs_nonneg job hjob r hr
    · exact hupdate.toSave_nonneg r hr
  · rcases (hmem job).mp hjob with hjob | rfl
    · -- an identifier that an earlier job writes had been given
      replace hwrite : s.writes job id = some r := (hwrites job hjob id).symm.trans hwrite
      have hkey := (mem_of_lastAt hwrite).2
      have hgiven : id ≤ s.maxRouteChainId := hkey ▸ h.le_max r
      have hnonneg : 0 ≤ id := hkey ▸ h.jobs_nonneg job hjob r (mem_of_lastAt hwrite).1
      have hlist : s.writes (newChain.map Prod.fst) id = some r' :=
        (hupdate.writes_old id hnonneg hgiven).symm.trans (hupdate.route_old id r' hgiven hroute)
      obtain ⟨hitem, hitemId⟩ := mem_of_lastAt hlist
      have hsame := hkeeps job hjob r' hitem (by rw [hitemId]; exact hnonneg)
        (by rw [hitemId, hwrite]; exact Option.some_ne_none r)
      rw [hitemId, hwrite, hlist] at hsame
      exact Option.some.inj hsame
    · exact Option.some.inj ((hupdate.last id r hwrite).symm.trans hroute)
  · rcases hupdate.saved id r hroute with hstored | hwrite
    · refine Or.inl ?_
      show t.stored id = some (some (t.chain r))
      rw [hupdate.chain]
      exact hstored
    · exact Or.inr ⟨toSave, (hmem toSave).mpr (Or.inr rfl), hwrite⟩
  · exact absurd hnil (List.append_ne_nil_of_right_ne_nil _ (List.cons_ne_nil _ _))

/-! ### The other steps -/

theorem foldl_save (toSave : List Ref) (id : ℤ) :
    toSave.foldl s.save s.stored id =
      ((s.writes toSave id).map fun r => some (some (s.chain r))).getD (s.stored id) :=
  foldl_update (fun r => some (some (s.chain r))) s.stored

/-- A job saves what the map has, and drops the other records. -/
theorem Inv.runJob {i : ℕ} {toSave : List Ref} (h : Inv s) (htoSave : s.jobs[i]? = some toSave) :
    Inv (RouteChains.runJob toSave { s with jobs := s.jobs.eraseIdx i }) := by
  have hmem : toSave ∈ s.jobs := List.mem_of_getElem? htoSave
  have hrest : ∀ job ∈ s.jobs.eraseIdx i, job ∈ s.jobs := fun job hjob =>
    (List.eraseIdx_sublist _ _).subset hjob
  have hstored : ∀ id r, s.route id = some r →
      (RouteChains.runJob toSave { s with jobs := s.jobs.eraseIdx i }).stored id =
        ((s.writes toSave id).map fun r => some (some (s.chain r))).getD (s.stored id) := by
    intro id r hroute
    show (if s.route id = none then none else toSave.foldl s.save s.stored id) = _
    rw [if_neg (by rw [hroute]; exact Option.some_ne_none r), foldl_save]
  refine ⟨h.key, h.le_max, h.max_nonneg, fun job hjob => h.jobs_nonneg job (hrest job hjob),
    fun job hjob => h.agree job (hrest job hjob), fun id r hroute => ?_, fun _ id hroute => ?_⟩
  · rw [hstored id r hroute]
    cases hwrite : s.writes toSave id with
    | some r' =>
      rw [h.agree toSave hmem id r' r hwrite hroute]
      exact Or.inl rfl
    | none =>
      rcases h.saved id r hroute with hsaved | ⟨job, hjob, hjobWrite⟩
      · exact Or.inl hsaved
      · refine Or.inr ⟨job, ?_, hjobWrite⟩
        have hne : job ≠ toSave := by
          rintro rfl
          rw [hwrite] at hjobWrite
          exact Option.some_ne_none r hjobWrite.symm
        obtain ⟨j, hj⟩ := List.mem_iff_getElem?.mp hjob
        refine List.mem_eraseIdx_iff_getElem?.mpr ⟨j, ?_, hj⟩
        rintro rfl
        exact hne (Option.some.inj (hj.symm.trans htoSave))
  · show (if s.route id = none then none else _) = none
    exact if_pos hroute

/-- The copy is an object that the map and the jobs do not have. -/
theorem Inv.copyChain {source : Ref} {target : ℕ} (h : Inv s) (hnew : s.entId (.made target) < 0) :
    Inv { s with
      entId := Function.update s.entId (.made target) (s.entId source)
      chain := Function.update s.chain (.made target) (s.chain source) } := by
  have hother : ∀ r, 0 ≤ s.entId r → r ≠ .made target := by
    rintro r hr rfl
    omega
  have hwrites : ∀ job ∈ s.jobs, ∀ id,
      lastAt (Function.update s.entId (.made target) (s.entId source)) job id =
        lastAt s.entId job id := fun job hjob id =>
    lastAt_congr fun r hr => Function.update_of_ne (hother r (h.jobs_nonneg job hjob r hr)) _ _
  have hroute : ∀ id r, s.route id = some r → r ≠ .made target := fun id r hr => by
    obtain ⟨hkey, hnonneg⟩ := h.key id r hr
    exact hother r (by omega)
  refine ⟨fun id r hr => ?_, fun r => ?_, h.max_nonneg, fun job hjob r hr => ?_,
    fun job hjob id r r' hwrite hr => ?_, fun id r hr => ?_, h.stray⟩
  · show Function.update s.entId (.made target) (s.entId source) r = id ∧ 0 ≤ id
    rw [Function.update_of_ne (hroute id r hr)]
    exact h.key id r hr
  · show Function.update s.entId (.made target) (s.entId source) r ≤ s.maxRouteChainId
    by_cases hrt : r = .made target
    · rw [hrt, Function.update_self]
      exact h.le_max source
    · rw [Function.update_of_ne hrt]
      exact h.le_max r
  · show 0 ≤ Function.update s.entId (.made target) (s.entId source) r
    have hnonneg := h.jobs_nonneg job hjob r hr
    rw [Function.update_of_ne (hother r hnonneg)]
    exact hnonneg
  · exact h.agree job hjob id r r' ((hwrites job hjob id).symm.trans hwrite) hr
  · show s.stored id = some (some (Function.update s.chain (.made target) (s.chain source) r)) ∨ _
    rw [Function.update_of_ne (hroute id r hr)]
    rcases h.saved id r hr with hstored | ⟨job, hjob, hwrite⟩
    · exact Or.inl hstored
    · exact Or.inr ⟨job, hjob, (hwrites job hjob id).trans hwrite⟩

/-- Other objects than those of the map are edited. -/
theorem Inv.edit_new {n : ℕ} {fields : Chain R} (h : Inv s) (hnew : s.entId (.made n) < 0) :
    Inv (s.edit [(.made n, fields)]) := by
  refine ⟨h.key, h.le_max, h.max_nonneg, h.jobs_nonneg, h.agree, fun id r hr => ?_, h.stray⟩
  show s.stored id = some (some (Function.update s.chain (.made n) fields r)) ∨ _
  rw [Function.update_of_ne]
  · exact h.saved id r hr
  · rintro rfl
    obtain ⟨hkey, hnonneg⟩ := h.key id _ hr
    omega

/-- The rules of a chain are replaced, which is not in the map or will be saved. -/
theorem Inv.updateProfile {item : Ref} {parsed : Option R} {updates : List (List Ref)} (h : Inv s)
    (hsaved : (updateProfile parsed item s).chain item = s.chain item ∨ WillBeSaved s item) :
    Inv (updateProfile parsed item { s with updates := updates }) := by
  have hsame : Inv { s with updates := updates } :=
    ⟨h.key, h.le_max, h.max_nonneg, h.jobs_nonneg, h.agree, h.saved, h.stray⟩
  unfold RouteChains.updateProfile at hsaved ⊢
  split_ifs at hsaved ⊢ with hskip
  · exact hsame
  · cases parsed with
    | none => exact hsame
    | some rules =>
      refine ⟨h.key, h.le_max, h.max_nonneg, h.jobs_nonneg, h.agree, fun id r hr => ?_, h.stray⟩
      show s.stored id =
        some (some (Function.update s.chain item { s.chain item with rules := rules } r)) ∨ _
      by_cases hri : r = item
      · subst hri
        have hkey := (h.key id r hr).1
        rcases hsaved with hunchanged | hmap | ⟨job, hjob, hwrite⟩
        · rw [show Function.update s.chain r { s.chain r with rules := rules } r = s.chain r
            from hunchanged]
          exact h.saved id r hr
        · rw [hkey] at hmap
          exact absurd hr hmap
        · rw [hkey] at hwrite
          exact Or.inr ⟨job, hjob, hwrite⟩
      · rw [Function.update_of_ne hri]
        exact h.saved id r hr
theorem inv_step {a : Action R} (h : Inv s) (hharmless : Harmless s a) (hstep : step s a = some s') :
    Inv s' := by
  cases a with
  | copyChain source target =>
    obtain ⟨hnew, hs'⟩ := Option.ite_none_right_eq_some.mp hstep
    obtain rfl := Option.some.inj hs'
    exact h.copyChain hnew
  | addRouteChain chain fields =>
    obtain ⟨hnew, hs'⟩ := Option.ite_none_right_eq_some.mp hstep
    obtain ⟨⟨added, t⟩, ht, rfl⟩ := Option.map_eq_some_iff.mp hs'
    exact (h.edit_new hnew).addRouteChain ht
  | updateRouteChains newChain => exact h.updateRouteChains hharmless hstep
  | runJob i =>
    obtain ⟨toSave, htoSave, rfl⟩ := Option.map_eq_some_iff.mp hstep
    exact h.runJob htoSave
  | startUpdate =>
    obtain rfl := Option.some.inj hstep
    exact ⟨h.key, h.le_max, h.max_nonneg, h.jobs_nonneg, h.agree, h.saved, h.stray⟩
  | updateNext i parsed =>
    unfold step at hstep
    unfold Harmless at hharmless
    dsimp only at hstep hharmless
    cases hupdate : s.updates[i]? with
    | none =>
      rw [hupdate] at hstep
      exact absurd hstep.symm (Option.some_ne_none s')
    | some items =>
      rw [hupdate] at hstep hharmless
      cases items with
      | nil => exact absurd hstep.symm (Option.some_ne_none s')
      | cons item items =>
        obtain rfl := Option.some.inj hstep
        exact h.updateProfile hharmless

/-! ### The start -/

/-- Every record is of a chain and loads. -/
def AllLoad (records : List (ℤ × Option (Chain R))) : Prop :=
  ∀ record ∈ records, 0 ≤ record.1 ∧ record.2 ≠ none

/-- The loop over the records `done`. -/
structure LoadInv (done : List (ℤ × Option (Chain R))) (s : State R) : Prop where
  key : ∀ id r, s.route id = some r → r = .loaded id ∧ s.entId r = id ∧ 0 ≤ id
  le_max : ∀ r, s.entId r ≤ s.maxRouteChainId
  max_nonneg : 0 ≤ s.maxRouteChainId
  jobs : s.jobs = []
  stored : ∀ id, storedOf done id = (s.route id).map fun r => some (s.chain r)

theorem loadInv_nil (fields : Chain R) (records : List (ℤ × Option (Chain R))) :
    LoadInv [] (unloaded fields records) where
  key := fun _ _ h => absurd h.symm (Option.some_ne_none _)
  le_max := fun _ => (by decide : (-1 : ℤ) ≤ 0)
  max_nonneg := le_rfl
  jobs := rfl
  stored := fun _ => rfl

theorem LoadInv.load {done : List (ℤ × Option (Chain R))} {id : ℤ} {chain : Chain R}
    (h : LoadInv done s) (hid : 0 ≤ id) :
    LoadInv (done ++ [(id, some chain)]) (loadRoute s (id, some chain)) := by
  have hroute : ∀ id', (loadRoute s (id, some chain)).route id' =
      if id = id' then some (.loaded id) else s.route id' := fun id' => route_assign _ _ _
  have hmax := h.max_nonneg
  refine ⟨fun id' r hr => ?_, fun r => ?_, ?_, h.jobs, fun id' => ?_⟩
  · rw [hroute] at hr
    show r = .loaded id' ∧ Function.update s.entId (.loaded id) id r = id' ∧ 0 ≤ id'
    split_ifs at hr with heq
    · obtain rfl := Option.some.inj hr
      subst heq
      exact ⟨rfl, Function.update_self _ _ _, hid⟩
    · obtain ⟨rfl, hkey, hnonneg⟩ := h.key id' r hr
      rw [Function.update_of_ne fun hloaded => heq (Ref.loaded.inj hloaded).symm]
      exact ⟨rfl, hkey, hnonneg⟩
  · show Function.update s.entId (.loaded id) id r ≤ if id > s.maxRouteChainId then id else _
    have hle := h.le_max r
    by_cases hr : r = .loaded id
    · rw [hr, Function.update_self]
      split_ifs <;> omega
    · rw [Function.update_of_ne hr]
      split_ifs <;> omega
  · show 0 ≤ if id > s.maxRouteChainId then id else s.maxRouteChainId
    split_ifs <;> omega
  · have hdone := h.stored id'
    unfold storedOf at hdone ⊢
    rw [hroute, List.foldl_append, List.foldl_cons, List.foldl_nil, Function.update_apply, hdone]
    show _ = Option.map (fun r => some (Function.update s.chain (.loaded id) chain r)) _
    by_cases heq : id = id'
    · rw [if_pos heq.symm, if_pos heq, Option.map_some, Function.update_self]
    · rw [if_neg (Ne.symm heq), if_neg heq]
      cases hr : s.route id' with
      | none => rfl
      | some r =>
        obtain ⟨rfl, -, -⟩ := h.key id' r hr
        rw [Option.map_some, Option.map_some,
          Function.update_of_ne fun hloaded => heq (Ref.loaded.inj hloaded).symm]

theorem loadInv_foldl (more : List (ℤ × Option (Chain R))) (hload : AllLoad more) :
    ∀ (done : List (ℤ × Option (Chain R))) (s : State R), LoadInv done s →
      LoadInv (done ++ more) (more.foldl loadRoute s) := by
  induction more with
  | nil =>
    intro done s h
    rwa [List.append_nil]
  | cons record more ih =>
    intro done s h
    obtain ⟨id, held⟩ := record
    obtain ⟨hid, hheld⟩ := hload _ List.mem_cons_self
    obtain ⟨chain, rfl⟩ := Option.ne_none_iff_exists'.mp hheld
    have hnext : LoadInv (done ++ [(id, some chain)]) (loadRoute s (id, some chain)) := h.load hid
    have hall := ih (fun r hr => hload r (List.mem_cons_of_mem _ hr)) _ _ hnext
    rwa [List.append_assoc] at hall

theorem stored_foldl_loadRoute (records : List (ℤ × Option (Chain R))) (s : State R) :
    (records.foldl loadRoute s).stored = s.stored := by
  induction records generalizing s with
  | nil => rfl
  | cons record records ih =>
    obtain ⟨id, held⟩ := record
    rw [List.foldl_cons, ih]
    cases held <;> rfl

theorem LoadInv.inv {records : List (ℤ × Option (Chain R))} (h : LoadInv records s)
    (hstored : s.stored = storedOf records) : Inv s := by
  have hall : ∀ id, s.stored id = (s.route id).map fun r => some (s.chain r) := fun id => by
    rw [hstored]
    exact h.stored id
  have hjob : ∀ job, job ∉ s.jobs := fun job hjob => by
    rw [h.jobs] at hjob
    exact List.not_mem_nil hjob
  refine ⟨fun id r hr => (h.key id r hr).2, h.le_max, h.max_nonneg,
    fun job hmem => absurd hmem (hjob job), fun job hmem => absurd hmem (hjob job),
    fun id r hr => Or.inl ?_, fun _ id hr => ?_⟩
  · rw [hall, hr, Option.map_some]
  · rw [hall, hr, Option.map_none]

theorem inv_start {fields : Chain R} {records : List (ℤ × Option (Chain R))}
    (hload : AllLoad records) (hs : start fields records = some s) : Inv s := by
  have hloaded := loadInv_foldl records hload [] _ (loadInv_nil fields records)
  rw [List.nil_append] at hloaded
  have hinv := hloaded.inv (stored_foldl_loadRoute records _)
  unfold start at hs
  dsimp only at hs
  split_ifs at hs
  · obtain ⟨⟨added, t⟩, ht, rfl⟩ := Option.map_eq_some_iff.mp hs
    exact hinv.addRouteChain ht
  · exact Option.some.inj hs ▸ hinv

/-- **Main theorem.** After a start that found no record it could not load, in a run of
    harmless steps the records are those of the map once all jobs have run. -/
theorem converged_harmless {fields : Chain R} {records : List (ℤ × Option (Chain R))}
    {s₀ s : State R} {is : List (Action R)} (hload : AllLoad records)
    (hstart : start fields records = some s₀) (hharmless : machine.Along Harmless s₀ is)
    (hrun : machine.run s₀ is = some s) : Converged s :=
  (Machine.run_invariant Harmless Inv (fun _ _ _ h hok hstep => inv_step h hok hstep)
    (inv_start hload hstart) hharmless hrun).converged

instance [DecidableEq R] (s : State R) (a : Action R) : Decidable (Harmless s a) := by
  unfold Harmless
  split
  · unfold KeepsObjects
    infer_instance
  · split
    · unfold WillBeSaved
      infer_instance
    · infer_instance
  · infer_instance

/-- A chain with the name `chainName` and one rule. -/
def sampleChain (chainName rule : String) : Chain String where
  chainName := chainName
  updateUrl := "https://a.example/rules"
  skipUpdate := false
  enabled := true
  priority := 100
  rules := rule
  defaultOutboundID := -1

/-- Two chains are loaded. The second is edited and the first deleted while an update is in
    progress, which finds the deleted one and the one that will be saved. -/
def sampleRun : List (Action String) :=
  [.updateRouteChains [(.loaded 1, sampleChain "a" "x"), (.loaded 2, sampleChain "b" "x")],
    .startUpdate, .updateNext 0 (some "y"), .updateNext 0 (some "y"), .runJob 0,
    .copyChain (.loaded 2) 0, .updateRouteChains [(.made 0, sampleChain "c" "y")],
    .addRouteChain 1 (sampleChain "d" "x"), .runJob 0]

def sampleStart : Option (State String) :=
  start (sampleChain "" "") [(1, some (sampleChain "a" "x")), (2, some (sampleChain "b" "x"))]

theorem converged_sampleRun :
    ∃ s₀ s, sampleStart = some s₀ ∧ machine.run s₀ sampleRun = some s ∧ Converged s ∧
      s.jobs = [] ∧ s.stored 1 = none ∧ s.stored 2 = some (some (sampleChain "c" "y")) ∧
      s.stored 3 = some (some (sampleChain "d" "x")) := by
  have hload : AllLoad [(1, some (sampleChain "a" "x")), (2, some (sampleChain "b" "x"))] := by
    simp [AllLoad]
  refine ⟨_, _, rfl, rfl,
    @converged_harmless _ (sampleChain "" "") _ _ _ sampleRun hload rfl ?_ rfl, rfl, rfl, rfl, rfl⟩
  decide +kernel

/-- The job of an earlier edit runs last and writes the chain from before the later one. -/
theorem older_job_last :
    ¬ ∀ (fields : Chain String) (records : List (ℤ × Option (Chain String)))
        (s₀ s : State String) (is : List (Action String)), start fields records = some s₀ →
      machine.run s₀ is = some s → Converged s := by
  intro h
  have hconverged := h (sampleChain "" "") [(1, some (sampleChain "a" "x"))] _ _
    [.updateRouteChains [(.loaded 1, sampleChain "b" "x")], .copyChain (.loaded 1) 0,
      .updateRouteChains [(.made 0, sampleChain "c" "x")], .runJob 1, .runJob 0] rfl rfl rfl 1
  revert hconverged
  decide +kernel

end RouteChains

end NekoBox.Database
