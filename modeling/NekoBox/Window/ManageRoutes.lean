import NekoBox.Database.RouteChains

/-!
# The dialog of routing profiles

`DialogManageRoutes` (`dialog_manage_routes.cpp`, lines 531–616, 1030–1160, 1348–1420 and
1465–1560) shows the list `chainList`, which it keeps in the order of priority and identifier,
in the list widget `route_profiles`, and its enabled chains in the combo box `route_prof`,
each with its index in `chainList`. `reloadProfileItems` refills both and finds another
`currentRoute` for one that is disabled. A check box leaves that to a timer.

The chains are the objects of `RouteChains`; threads that save or update them may do so while
the dialog is shown. Left out are the other settings of the dialog and what is disabled or
enabled in it.

* `Inv.reload`: the timer leaves the dialog as it should be, also while a chain is edited.
* `UpdatedInv`: what `UpdateRouteChains` does with a list in which no object and no identifier
  is twice.
* `sound_iff`: the list widget and the current route are as they should be whenever no
  timer is pending, and an accept gives the current route and every chain its own identifier,
  exactly in the runs in which no accept finds the current route disabled by a check box
  whose timer is pending, and in which the new identifiers fit an `int`.
-/

namespace NekoBox.Window

open NekoBox.Lib

namespace ManageRoutes

open Database.RouteChains (Chain Ref)

/-! ## The code -/

/-- A `QListWidgetItem`: its text, of which the separator is left out, and its check state. -/
structure ListItem where
  priority : ℤ
  chainName : String
  checked : Bool
  deriving DecidableEq

/-- What a `RouteItem` was opened with: the row that its callback has captured, if it edits a
    chain of the list, and its copy of the chain. -/
structure Editor where
  idx : Option ℕ
  chain : Ref

structure State (R : Type) where
  manager : Database.RouteChains.State R
  /-- The next object. -/
  made : ℕ
  /-- `routing->current_route_id` -/
  currentRouteId : ℤ
  visible : Bool
  chainList : List Ref
  currentRoute : Option Ref
  /-- `ui->route_profiles`, and its current row. -/
  routeProfiles : List ListItem
  row : Option ℕ
  /-- `ui->route_prof`, the entries with their data, and its current index. -/
  routeProf : List (String × ℕ)
  index : Option ℕ
  /-- How many timers are pending. -/
  timers : ℕ
  editor : Option Editor

variable {R : Type}

namespace State

/-- `item->enabled` -/
def enabled (s : State R) (item : Ref) : Bool := (s.manager.chain item).enabled

/-- `item->id` -/
def id (s : State R) (item : Ref) : ℤ := s.manager.entId item

def setChain (s : State R) (item : Ref) (chain : Chain R) : State R :=
  { s with manager := { s.manager with chain := Function.update s.manager.chain item chain } }

def setEnabled (s : State R) (item : Ref) (enabled : Bool) : State R :=
  s.setChain item { s.manager.chain item with enabled := enabled }

/-- The comparison of the sort. -/
def less (s : State R) (left right : Ref) : Bool :=
  if (s.manager.chain left).priority ≠ (s.manager.chain right).priority then
    decide ((s.manager.chain left).priority < (s.manager.chain right).priority)
  else decide (s.id left < s.id right)

def listItem (s : State R) (item : Ref) : ListItem where
  priority := (s.manager.chain item).priority
  chainName := (s.manager.chain item).chainName
  checked := s.enabled item

/-- An object is made. -/
def make (s : State R) (chain : Chain R) (id : ℤ) : State R :=
  { s with
    manager := { s.manager with
      entId := Function.update s.manager.entId (.made s.made) id
      chain := Function.update s.manager.chain (.made s.made) chain }
    made := s.made + 1 }

/-- `std::stable_sort` -/
def sorted (s : State R) : List Ref :=
  s.chainList.insertionSort fun left right => s.less right left = false

/-- The enabled chains with their rows. -/
def entries (s : State R) : List (Ref × ℕ) := s.chainList.zipIdx.filter fun e => s.enabled e.1

end State

/-- `reloadProfileItems` (lines 531–597) -/
def reloadProfileItems (s : State R) : State R :=
  if s.chainList = [] then s
  else
    let selectedChain := (s.row.bind fun row => s.chainList[row]?) <|> s.currentRoute
    let s := { s with chainList := s.sorted }
    let s := { s with
      currentRoute :=
        if s.currentRoute.any s.enabled then s.currentRoute else s.chainList.find? s.enabled }
    let selectedListRow := (lastAt (some ·.1) s.chainList.zipIdx selectedChain).map Prod.snd
    let selectedListRow := selectedListRow <|> s.currentRoute.bind s.chainList.idxOf?
    { s with
      routeProfiles := s.chainList.map s.listItem
      row := some (selectedListRow.getD 0)
      routeProf := s.entries.map fun e => ((s.manager.chain e.1).chainName, e.2)
      index := (lastAt (some ·.1.1) s.entries.zipIdx s.currentRoute).map Prod.snd }

/-- The constructor (lines 1030–1043 and 1092); `fields` are those of `GetDefaultChain`. -/
def openDialog (fields : Chain R) (s : State R) : Option (State R) := do
  let s := { s with
    visible := true
    chainList := s.manager.routes.map Prod.snd
    routeProfiles := []
    row := none
    routeProf := []
    index := none
    timers := 0
    editor := none }
  let s ←
    if s.chainList = [] then do
      let defaultChain := Ref.made s.made
      let s := s.make fields (-1)
      let (_, manager) ← Database.RouteChains.addRouteChain defaultChain s.manager
      pure { s with manager := manager, chainList := [defaultChain] }
    else pure s
  let currentRoute := s.manager.route s.currentRouteId
  let s := { s with
    currentRoute := if currentRoute = none then s.chainList[0]? else currentRoute }
  pure (reloadProfileItems s)

/-- `selectedRouteIndex` (lines 599–602), with the chain in that row. -/
def selectedRoute (s : State R) : Option Ref := s.row.bind fun row => s.chainList[row]?

/-- Whether a chain that is enabled has to stay so. -/
def isLastEnabled (s : State R) : Bool := decide (s.chainList.countP s.enabled ≤ 1)

/-- The user changes a check box, and what is connected to `itemChanged` (lines 1101–1125). -/
def itemChanged (idx : ℕ) (checked : Bool) (s : State R) : State R :=
  match s.routeProfiles[idx]?, s.chainList[idx]? with
  | some item, some route =>
    if checked = false ∧ s.enabled route = true ∧ isLastEnabled s = true then
      { s with routeProfiles := s.routeProfiles.set idx { item with checked := true } }
    else
      let s := { s with routeProfiles := s.routeProfiles.set idx { item with checked := checked } }
      { s.setEnabled route checked with timers := s.timers + 1 }
  | _, _ => s

/-- What is connected to `toggle_route` (lines 1126–1145). -/
def toggleRoute (s : State R) : State R :=
  match selectedRoute s with
  | none => s
  | some route =>
    if s.enabled route = true ∧ isLastEnabled s = true then s
    else reloadProfileItems (s.setEnabled route !s.enabled route)

/-- What is connected to `route_priority` (lines 1146–1153). -/
def routePriority (priority : ℤ) (s : State R) : State R :=
  match selectedRoute s with
  | none => s
  | some route =>
    if (s.manager.chain route).priority = priority then s
    else reloadProfileItems
      (s.setChain route { s.manager.chain route with priority := priority })

/-- `updateCurrentRouteProfile` (lines 1348–1354), for an entry that the user selects. -/
def updateCurrentRouteProfile (idx : ℕ) (s : State R) : State R :=
  match s.routeProf[idx]? with
  | none => s
  | some (_, chainIndex) =>
    let s := { s with index := some idx }
    match s.chainList[chainIndex]? with
    | none => s
    | some route => { s with currentRoute := some route }

/-- `on_new_route_clicked` (lines 1467–1486); `fields` are those of a new chain. The editor
    copies the new object, which then is gone. -/
def newRoute (fields : Chain R) (s : State R) : State R :=
  let route := match (s.chainList.map fun item => (s.manager.chain item).priority).max? with
    | none => fields
    | some priority => { fields with priority := priority + 10 }
  { s.make route (-1) with editor := some ⟨none, .made s.made⟩ }

/-- `on_clone_route_clicked` (lines 1517–1528) -/
def cloneRoute (s : State R) : Option (State R) :=
  match s.row with
  | none => some s
  | some idx => (s.chainList[idx]?).map fun item =>
    let chain := s.manager.chain item
    let chainCopy := Ref.made s.made
    let s := s.make { chain with
      chainName := chain.chainName ++ " clone"
      priority := chain.priority + 1 } (-1)
    reloadProfileItems { s with chainList := s.chainList ++ [chainCopy] }

/-- `on_edit_route_clicked` (lines 1530–1542) -/
def editRoute (s : State R) : Option (State R) :=
  match s.row with
  | none => some s
  | some idx => (s.chainList[idx]?).map fun item =>
    { s.make (s.manager.chain item) (s.id item) with editor := some ⟨some idx, .made s.made⟩ }

/-- The accept of the editor and what is connected to `settingsChanged` (lines 1482–1485 and
    1537–1541): the editor changes all but the priority and whether the chain is enabled. -/
def settingsChanged (edited : Chain R) (s : State R) : Option (State R) :=
  match s.editor with
  | none => some s
  | some editor =>
    let chain := editor.chain
    let s := { s with editor := none }
    let s := s.setChain chain { edited with
      enabled := (s.manager.chain chain).enabled
      priority := (s.manager.chain chain).priority }
    match editor.idx with
    | none => some (reloadProfileItems { s with chainList := s.chainList ++ [chain] })
    | some idx => (s.chainList[idx]?).map fun item =>
      reloadProfileItems { s with
        currentRoute := if s.currentRoute = some item then some chain else s.currentRoute
        chainList := s.chainList.set idx chain }

/-- `on_delete_route_clicked` (lines 1544–1560) -/
def deleteRoute (s : State R) : Option (State R) :=
  match s.row with
  | none => some s
  | some idx =>
    if s.chainList.length = 1 then some s
    else (s.chainList[idx]?).map fun profileToDel =>
      let s := { s with chainList := s.chainList.eraseIdx idx }
      reloadProfileItems { s with
        currentRoute :=
          if s.currentRoute = some profileToDel then s.chainList[0]? else s.currentRoute }

/-- `directID` -/
def directID : ℤ := -2

/-- The change that comes with the first service of the game mode (lines 1403–1417). -/
def switchDefaultRoute (s : State R) : State R :=
  match s.chainList.find? fun route =>
      (s.manager.chain route).chainName.toLower = "default" with
  | none => s
  | some route =>
    s.setChain route { s.manager.chain route with defaultOutboundID := directID }

/-- The checks of `accept` (lines 1361–1375). -/
def Passes (s : State R) (dnsRulesValid : Bool) : Prop :=
  s.chainList ≠ [] ∧ (∃ route ∈ s.chainList, s.enabled route = true) ∧ dnsRulesValid = true

instance (s : State R) (dnsRulesValid : Bool) : Decidable (Passes s dnsRulesValid) := by
  unfold Passes
  infer_instance

/-- `accept` (lines 1360–1420) -/
def accept (dnsRulesValid shouldSwitchDefaultRoute : Bool) (s : State R) : Option (State R) :=
  if Passes s dnsRulesValid then do
    let s := if shouldSwitchDefaultRoute then switchDefaultRoute s else s
    let manager ← Database.RouteChains.updateRouteChains s.chainList s.manager
    let currentRoute ← s.currentRoute
    pure { s with
      manager := manager
      currentRouteId := manager.entId currentRoute
      visible := false }
  else some s

inductive Action (R : Type) where
  | openDialog (fields : Chain R)
  | selectRow (row : ℕ)
  | itemChanged (idx : ℕ) (checked : Bool)
  /-- The timer of a check box fires. -/
  | timeout
  | toggleRoute
  | routePriority (priority : ℤ)
  | updateCurrentRouteProfile (idx : ℕ)
  | newRoute (fields : Chain R)
  | cloneRoute
  | editRoute
  | deleteRoute
  | settingsChanged (edited : Chain R)
  /-- The editor is closed without an accept. -/
  | rejectEditor
  | accept (dnsRulesValid shouldSwitchDefaultRoute : Bool)
  | reject
  /-- A job that saves chains is run. -/
  | runJob (i : ℕ)
  | startUpdate
  /-- An update of the rules goes on to its next chain. -/
  | updateNext (i : ℕ) (parsed : Option R)

/-- A step of a thread, if there is one to be taken. -/
def thread (a : Database.RouteChains.Action R) (s : State R) : State R :=
  { s with manager := (Database.RouteChains.step s.manager a).getD s.manager }

/-- The actions of the dialog, which is modal, while no editor is shown. -/
def act (s : State R) : Action R → Option (State R)
  | .selectRow row => some (if row < s.routeProfiles.length then { s with row := some row } else s)
  | .itemChanged idx checked => some (itemChanged idx checked s)
  | .toggleRoute => some (toggleRoute s)
  | .routePriority priority => some (routePriority priority s)
  | .updateCurrentRouteProfile idx => some (updateCurrentRouteProfile idx s)
  | .newRoute fields => some (newRoute fields s)
  | .cloneRoute => cloneRoute s
  | .editRoute => editRoute s
  | .deleteRoute => deleteRoute s
  | .accept dnsRulesValid shouldSwitchDefaultRoute =>
    accept dnsRulesValid shouldSwitchDefaultRoute s
  | .reject => some { s with visible := false }
  | _ => some s

/-- A step; there is none when the code dereferences a null pointer, reads past the end of a
    list or goes past the largest identifier. -/
def step (s : State R) : Action R → Option (State R)
  | .runJob i => some (thread (.runJob i) s)
  | .startUpdate => some (thread .startUpdate s)
  | .updateNext i parsed => some (thread (.updateNext i parsed) s)
  | .openDialog fields => if s.visible then some s else openDialog fields s
  | .timeout =>
    if s.visible = true ∧ 0 < s.timers then
      some (reloadProfileItems { s with timers := s.timers - 1 })
    else some s
  | .settingsChanged edited => if s.visible then settingsChanged edited s else some s
  | .rejectEditor => some { s with editor := none }
  | a => if s.visible = true ∧ s.editor.isNone = true then act s a else some s

def machine : Machine (State R) (Action R) := ⟨step⟩

/-- After the start of the program (`start`), for a `current_route_id` of the settings. -/
def init (fields : Chain R) (records : List (ℤ × Option (Chain R))) (currentRouteId : ℤ) :
    Option (State R) :=
  (Database.RouteChains.start fields records).map fun manager =>
    { manager := manager
      made := 1
      currentRouteId := currentRouteId
      visible := false
      chainList := []
      currentRoute := none
      routeProfiles := []
      row := none
      routeProf := []
      index := none
      timers := 0
      editor := none }

/-! ## `UpdateRouteChains` -/

section Update

open Database.RouteChains (addRouteChain updateItem updateRouteChains route_assign
  addRouteChain_cases maxInt)

variable {m m' : Database.RouteChains.State R}

/-- The map of chains, which is never empty. -/
structure Keyed (m : Database.RouteChains.State R) : Prop where
  le_max : ∀ r, m.entId r ≤ m.maxRouteChainId
  max_nonneg : 0 ≤ m.maxRouteChainId
  nonempty : m.routes ≠ []
  ordered : m.routes.Pairwise fun e e' => OrderedMap.less e.1 e'.1 = true
  key : ∀ e ∈ m.routes, m.entId e.2 = e.1

/-- How many chains are to be given an identifier. -/
def newIds (m : Database.RouteChains.State R) (list : List Ref) : ℕ :=
  list.countP fun r => decide (m.entId r < 0)

/-- The identifiers to be given fit an `int`. -/
def Fits (m : Database.RouteChains.State R) (list : List Ref) : Prop :=
  newIds m list = 0 ∨ m.maxRouteChainId + newIds m list ≤ maxInt

instance (m : Database.RouteChains.State R) (list : List Ref) : Decidable (Fits m list) := by
  unfold Fits
  infer_instance

/-- No object and no identifier is twice in the list. -/
structure Distinct (m : Database.RouteChains.State R) (list : List Ref) : Prop where
  nodup : list.Nodup
  id_inj : ∀ r ∈ list, ∀ r' ∈ list, 0 ≤ m.entId r → m.entId r = m.entId r' → r = r'

/-- The loop over the beginning `done` of such a list, from the state `m`. -/
structure UpdatedInv (m : Database.RouteChains.State R) (done : List Ref)
    (st : Database.RouteChains.State R × List Ref) : Prop where
  chain : st.1.chain = m.chain
  jobs : st.1.jobs = m.jobs
  max_eq : st.1.maxRouteChainId = m.maxRouteChainId + newIds m done
  le_max : ∀ r, st.1.entId r ≤ st.1.maxRouteChainId
  entId_other : ∀ r, r ∉ done → st.1.entId r = m.entId r
  entId_given : ∀ r, 0 ≤ m.entId r → st.1.entId r = m.entId r
  entId_new : ∀ r ∈ done, m.entId r < 0 → m.maxRouteChainId < st.1.entId r
  /-- A chain is in the map under its identifier, -/
  route : ∀ r ∈ done, st.1.route (st.1.entId r) = some r
  /-- and it is saved, or will be by the job. -/
  saved : ∀ r ∈ done, r ∈ st.2 ∨ st.1.stored (st.1.entId r) = some (some (m.chain r))
  ordered : st.1.routes.Pairwise fun e e' => OrderedMap.less e.1 e'.1 = true
  key : ∀ e ∈ st.1.routes, e.2 ∈ done ∧ st.1.entId e.2 = e.1

theorem updatedInv_nil (hle : ∀ r, m.entId r ≤ m.maxRouteChainId) :
    UpdatedInv m [] ({ m with routes := [] }, []) where
  chain := rfl
  jobs := rfl
  max_eq := (add_zero _).symm
  le_max := hle
  entId_other := fun _ _ => rfl
  entId_given := fun _ _ => rfl
  entId_new := fun _ hr => absurd hr List.not_mem_nil
  route := fun _ hr => absurd hr List.not_mem_nil
  saved := fun _ hr => absurd hr List.not_mem_nil
  ordered := List.Pairwise.nil
  key := fun _ he => absurd he List.not_mem_nil

theorem UpdatedInv.entId_nonneg {done : List Ref} {st : Database.RouteChains.State R × List Ref}
    (h : UpdatedInv m done st) (hmax : 0 ≤ m.maxRouteChainId) {r : Ref} (hr : r ∈ done) :
    0 ≤ st.1.entId r := by
  by_cases hgiven : 0 ≤ m.entId r
  · rw [h.entId_given r hgiven]
    exact hgiven
  · have hnew := h.entId_new r hr (not_le.mp hgiven)
    omega

theorem pairwise_assign_less {routes : List (ℤ × Ref)} (id : ℤ) (r : Ref)
    (h : routes.Pairwise fun e e' => OrderedMap.less e.1 e'.1 = true) :
    (OrderedMap.assign OrderedMap.less id r routes).Pairwise
      fun e e' => OrderedMap.less e.1 e'.1 = true := by
  refine OrderedMap.pairwise_assign (fun a b c hab hbc => ?_) h
  simp only [OrderedMap.less, decide_eq_true_eq] at hab hbc ⊢
  exact hab.trans hbc

theorem mem_assign_less {routes : List (ℤ × Ref)} {id : ℤ} {r : Ref} {e : ℤ × Ref}
    (h : e ∈ OrderedMap.assign OrderedMap.less id r routes) : e ∈ routes ∨ e = (id, r) := by
  rcases OrderedMap.mem_assign h with hold | hnew | ⟨e', -, hequiv, rfl⟩
  · exact Or.inl hold
  · exact Or.inr hnew
  · refine Or.inr (Prod.ext ?_ rfl)
    have hle := of_decide_eq_false hequiv.1
    have hge := of_decide_eq_false hequiv.2
    show e'.1 = id
    omega

/-- A chain that has an identifier takes its place in the map. -/
theorem UpdatedInv.assign {done : List Ref} {t : Database.RouteChains.State R}
    {toSave : List Ref} {item : Ref} (h : UpdatedInv m done (t, toSave))
    (hmax : ∀ r, m.entId r ≤ m.maxRouteChainId) (hlist : Distinct m (done ++ [item]))
    (hitem : 0 ≤ t.entId item) :
    UpdatedInv m (done ++ [item])
      ({ t with routes := OrderedMap.assign OrderedMap.less (t.entId item) item t.routes },
        toSave ++ [item]) := by
  have hnew : item ∉ done := fun hmem =>
    List.disjoint_of_nodup_append hlist.nodup hmem (List.mem_singleton.mpr rfl)
  have hgiven : t.entId item = m.entId item := h.entId_other item hnew
  have hne : ∀ r ∈ done, t.entId item ≠ t.entId r := by
    intro r hr heq
    by_cases hold : 0 ≤ m.entId r
    · rw [h.entId_given r hold, hgiven] at heq
      have hsame := hlist.id_inj r (List.mem_append_left _ hr) item (by simp) hold heq.symm
      exact hnew (hsame ▸ hr)
    · have hpast : m.maxRouteChainId < t.entId r := h.entId_new r hr (not_le.mp hold)
      have hle := hmax item
      omega
  have hroute : ∀ id, Database.RouteChains.State.route { t with
      routes := OrderedMap.assign OrderedMap.less (t.entId item) item t.routes } id =
        if t.entId item = id then some item else t.route id := fun id => route_assign _ _ _
  have hcount : newIds m (done ++ [item]) = newIds m done := by
    rw [newIds, List.countP_append, List.countP_singleton, if_neg (by simp; omega), add_zero]
    rfl
  refine ⟨h.chain, h.jobs, by rw [hcount]; exact h.max_eq, h.le_max, fun r hr => ?_,
    h.entId_given, fun r hr hneg => ?_, fun r hr => ?_, fun r hr => ?_,
    pairwise_assign_less _ _ h.ordered, fun e he => ?_⟩
  · exact h.entId_other r fun hmem => hr (List.mem_append_left _ hmem)
  · rcases List.mem_append.mp hr with hr | hr
    · exact h.entId_new r hr hneg
    · rw [List.mem_singleton.mp hr] at hneg
      omega
  · rw [hroute]
    rcases List.mem_append.mp hr with hr | hr
    · rw [if_neg (hne r hr)]
      exact h.route r hr
    · rw [List.mem_singleton.mp hr]
      exact if_pos rfl
  · rcases List.mem_append.mp hr with hr | hr
    · exact (h.saved r hr).imp_left (List.mem_append_left _)
    · exact Or.inl (List.mem_append_right _ hr)
  · rcases mem_assign_less he with he | rfl
    · obtain ⟨hmem, hkey⟩ := h.key e he
      exact ⟨List.mem_append_left _ hmem, hkey⟩
    · exact ⟨by simp, rfl⟩

/-- A chain that has none is given one. -/
theorem UpdatedInv.add {done : List Ref} {t : Database.RouteChains.State R}
    {toSave : List Ref} {item : Ref} (h : UpdatedInv m done (t, toSave))
    (hnew : item ∉ done) (hitem : t.entId item < 0) :
    UpdatedInv m (done ++ [item])
      ({ t with
        maxRouteChainId := t.maxRouteChainId + 1
        entId := Function.update t.entId item (t.maxRouteChainId + 1)
        routes := OrderedMap.assign OrderedMap.less (t.maxRouteChainId + 1) item t.routes
        stored := Function.update t.stored (t.maxRouteChainId + 1)
          (some (some (t.chain item))) }, toSave) := by
  have hgiven : t.entId item = m.entId item := h.entId_other item hnew
  have hmax : t.maxRouteChainId = m.maxRouteChainId + newIds m done := h.max_eq
  have hle : ∀ r, t.entId r ≤ t.maxRouteChainId := h.le_max
  have hchain : t.chain = m.chain := h.chain
  have hother : ∀ r, r ≠ item →
      Function.update t.entId item (t.maxRouteChainId + 1) r = t.entId r := fun r hr =>
    Function.update_of_ne hr _ _
  have hne : ∀ r ∈ done, r ≠ item := fun r hr heq => hnew (heq ▸ hr)
  have hroute : ∀ id, OrderedMap.find OrderedMap.less id
      (OrderedMap.assign OrderedMap.less (t.maxRouteChainId + 1) item t.routes) =
        if t.maxRouteChainId + 1 = id then some item else t.route id := fun id =>
    route_assign _ _ _
  have hcount : newIds m (done ++ [item]) = newIds m done + 1 := by
    rw [newIds, List.countP_append, List.countP_singleton, if_pos (by simp; omega)]
    rfl
  have hself : ∀ r ∈ done ++ [item], r = item ∨ r ∈ done := fun r hr => by
    rw [List.mem_append, List.mem_singleton] at hr
    exact hr.symm
  refine ⟨h.chain, h.jobs, ?_, fun r => ?_, fun r hr => ?_, fun r hr => ?_, fun r hr hneg => ?_,
    fun r hr => ?_, fun r hr => ?_, pairwise_assign_less _ _ h.ordered, fun e he => ?_⟩
  · show t.maxRouteChainId + 1 = m.maxRouteChainId + newIds m (done ++ [item])
    rw [hcount]
    omega
  · show Function.update t.entId item (t.maxRouteChainId + 1) r ≤ t.maxRouteChainId + 1
    by_cases hr : r = item
    · rw [hr, Function.update_self]
    · rw [hother r hr]
      have hr' := hle r
      omega
  · rw [List.mem_append, List.mem_singleton, not_or] at hr
    exact (hother r hr.2).trans (h.entId_other r hr.1)
  · refine (hother r fun heq => ?_).trans (h.entId_given r hr)
    rw [heq] at hr
    omega
  · show m.maxRouteChainId < Function.update t.entId item (t.maxRouteChainId + 1) r
    rcases hself r hr with rfl | hr
    · rw [Function.update_self]
      omega
    · rw [hother r (hne r hr)]
      exact h.entId_new r hr hneg
  · refine (hroute _).trans ?_
    show (if t.maxRouteChainId + 1 = Function.update t.entId item (t.maxRouteChainId + 1) r then
      some item else t.route (Function.update t.entId item (t.maxRouteChainId + 1) r)) = some r
    rcases hself r hr with rfl | hr
    · rw [Function.update_self, if_pos rfl]
    · rw [hother r (hne r hr)]
      have hr' := hle r
      rw [if_neg (by omega)]
      exact h.route r hr
  · show r ∈ toSave ∨ Function.update t.stored (t.maxRouteChainId + 1) _
      (Function.update t.entId item (t.maxRouteChainId + 1) r) = _
    rcases hself r hr with rfl | hr
    · rw [Function.update_self, Function.update_self, hchain]
      exact Or.inr rfl
    · have hr' := hle r
      rw [hother r (hne r hr), Function.update_of_ne (by omega)]
      exact h.saved r hr
  · show e.2 ∈ done ++ [item] ∧ Function.update t.entId item (t.maxRouteChainId + 1) e.2 = e.1
    rcases mem_assign_less he with he | rfl
    · obtain ⟨hmem, hkey⟩ := h.key e he
      exact ⟨List.mem_append_left _ hmem, (hother _ (hne _ hmem)).trans hkey⟩
    · exact ⟨by simp, Function.update_self _ _ _⟩

/-- The loop body gives no identifier past the largest `int`. -/
theorem updateItem_ne_none {st : Database.RouteChains.State R × List Ref} {item : Ref} :
    updateItem st item ≠ none ↔
      (st.1.entId item < 0 → st.1.maxRouteChainId + 1 ≤ maxInt) := by
  unfold updateItem addRouteChain
  rw [Ne, Option.map_eq_none_iff, ← Ne]
  by_cases hitem : 0 ≤ st.1.entId item
  · rw [if_pos hitem]
    exact ⟨fun _ hneg => absurd hitem (not_le.mpr hneg), fun _ => Option.some_ne_none _⟩
  · rw [if_neg hitem]
    dsimp only
    split_ifs with hpast
    · refine ⟨fun h => absurd rfl h, fun h => ?_⟩
      have hfits := h (not_le.mp hitem)
      omega
    · exact ⟨fun _ _ => not_lt.mp hpast, fun _ => Option.some_ne_none _⟩

theorem UpdatedInv.item {done : List Ref} {st st' : Database.RouteChains.State R × List Ref}
    {item : Ref} (h : UpdatedInv m done st) (hkeyed : Keyed m)
    (hlist : Distinct m (done ++ [item])) (hst' : updateItem st item = some st') :
    UpdatedInv m (done ++ [item]) st' := by
  obtain ⟨⟨added, t⟩, ht, rfl⟩ := Option.map_eq_some_iff.mp hst'
  rcases addRouteChain_cases ht with ⟨hgiven, rfl, rfl⟩ | ⟨hnegative, rfl, rfl⟩
  · exact h.assign hkeyed.le_max hlist hgiven
  · refine h.add (fun hmem => ?_) hnegative
    exact List.disjoint_of_nodup_append hlist.nodup hmem (List.mem_singleton.mpr rfl)

theorem updatedInv_foldlM (hkeyed : Keyed m) :
    ∀ (more done : List Ref) (st st' : Database.RouteChains.State R × List Ref),
      UpdatedInv m done st → Distinct m (done ++ more) →
        more.foldlM updateItem st = some st' → UpdatedInv m (done ++ more) st' := by
  intro more
  induction more with
  | nil =>
    intro done st st' h _ hst'
    obtain rfl := Option.some.inj hst'
    rwa [List.append_nil]
  | cons item more ih =>
    intro done st st' h hlist hst'
    rw [List.foldlM_cons] at hst'
    obtain ⟨next, hnext, hrest⟩ := Option.bind_eq_some_iff.mp hst'
    rw [← List.singleton_append, ← List.append_assoc] at hlist ⊢
    have hfirst : Distinct m (done ++ [item]) :=
      ⟨(List.nodup_append.mp hlist.nodup).1, fun r hr r' hr' =>
        hlist.id_inj r (List.mem_append_left _ hr) r' (List.mem_append_left _ hr')⟩
    exact ih _ next st' (h.item hkeyed hfirst hnext) hlist hrest

/-- The loop ends when the identifiers fit. -/
theorem foldlM_updateItem_ne_none (hkeyed : Keyed m) :
    ∀ (more done : List Ref) (st : Database.RouteChains.State R × List Ref),
      UpdatedInv m done st → Distinct m (done ++ more) →
        (more.foldlM updateItem st ≠ none ↔
          newIds m more = 0 ∨ st.1.maxRouteChainId + newIds m more ≤ maxInt) := by
  intro more
  induction more with
  | nil =>
    intro done st _ _
    exact ⟨fun _ => Or.inl rfl, fun _ => Option.some_ne_none st⟩
  | cons item more ih =>
    intro done st h hlist
    rw [← List.singleton_append, ← List.append_assoc] at hlist
    have hfirst : Distinct m (done ++ [item]) :=
      ⟨(List.nodup_append.mp hlist.nodup).1, fun r hr r' hr' =>
        hlist.id_inj r (List.mem_append_left _ hr) r' (List.mem_append_left _ hr')⟩
    have hnew : item ∉ done := fun hmem =>
      List.disjoint_of_nodup_append hfirst.nodup hmem (List.mem_singleton.mpr rfl)
    have hgiven : st.1.entId item = m.entId item := h.entId_other item hnew
    have hcount : newIds m (item :: more) = newIds m more + if m.entId item < 0 then 1 else 0 := by
      simp only [newIds, List.countP_cons, decide_eq_true_eq]
    rw [List.foldlM_cons, hcount]
    cases hnext : updateItem st item with
    | none =>
      have hpast := mt updateItem_ne_none.mpr (not_not.mpr hnext)
      rw [Classical.not_imp, hgiven] at hpast
      refine ⟨fun hne => absurd rfl hne, fun hfits => ?_⟩
      rw [if_pos hpast.1] at hfits
      omega
    | some next =>
      have hfit := updateItem_ne_none.mp (hnext ▸ Option.some_ne_none next)
      have hinv := h.item hkeyed hfirst hnext
      have hmax : next.1.maxRouteChainId = m.maxRouteChainId + newIds m (done ++ [item]) :=
        hinv.max_eq
      have hdone : newIds m (done ++ [item]) =
          newIds m done + if m.entId item < 0 then 1 else 0 := by
        simp only [newIds, List.countP_append, List.countP_singleton, decide_eq_true_eq]
      have hmaxst := h.max_eq
      rw [hgiven] at hfit
      refine (ih _ next hinv hlist).trans ?_
      by_cases hneg : m.entId item < 0
      · have hone := hfit hneg
        rw [if_pos hneg] at hdone ⊢
        rw [Nat.cast_add, Nat.cast_one]
        omega
      · rw [if_neg hneg] at hdone ⊢
        omega

/-- What `UpdateRouteChains` leaves. -/
structure Updated (m : Database.RouteChains.State R) (list : List Ref)
    (m' : Database.RouteChains.State R) : Prop where
  keyed : Keyed m'
  chain : m'.chain = m.chain
  /-- Every chain of the list is stored under its identifier, or will be, -/
  stored : ∀ r ∈ list, 0 ≤ m'.entId r ∧ m'.route (m'.entId r) = some r ∧
    ((∃ toSave ∈ m'.jobs, r ∈ toSave) ∨ m'.stored (m'.entId r) = some (some (m'.chain r)))
  /-- and no identifier is given to two of them. -/
  nodup : (list.map m'.entId).Nodup
  mem : ∀ e ∈ m'.routes, e.2 ∈ list

theorem updateRouteChains_ne_none {list : List Ref} (hkeyed : Keyed m) (hlist : Distinct m list) :
    updateRouteChains list m ≠ none ↔ Fits m list := by
  unfold updateRouteChains
  rw [Ne, Option.map_eq_none_iff, ← Ne]
  exact foldlM_updateItem_ne_none hkeyed list [] _ (updatedInv_nil hkeyed.le_max) hlist

theorem updated {list : List Ref} (hkeyed : Keyed m) (hnonempty : list ≠ [])
    (hlist : Distinct m list) (hm' : updateRouteChains list m = some m') : Updated m list m' := by
  obtain ⟨⟨t, toSave⟩, hloop, rfl⟩ := Option.map_eq_some_iff.mp hm'
  have h := updatedInv_foldlM hkeyed list [] _ _ (updatedInv_nil hkeyed.le_max) hlist hloop
  rw [List.nil_append] at h
  have hroute : ∀ r ∈ list, t.route (t.entId r) = some r := h.route
  refine ⟨⟨h.le_max, ?_, fun hnil => ?_, h.ordered, fun e he => (h.key e he).2⟩, h.chain,
    fun r hr => ⟨h.entId_nonneg hkeyed.max_nonneg hr, h.route r hr, ?_⟩, ?_,
    fun e he => (h.key e he).1⟩
  · show 0 ≤ t.maxRouteChainId
    have hmax : t.maxRouteChainId = m.maxRouteChainId + newIds m list := h.max_eq
    have hnonneg := hkeyed.max_nonneg
    omega
  · obtain ⟨r, hr⟩ := List.exists_mem_of_ne_nil list hnonempty
    have hfound := hroute r hr
    rw [Database.RouteChains.State.route, show t.routes = [] from hnil] at hfound
    exact absurd hfound.symm (Option.some_ne_none r)
  · show (∃ job ∈ t.jobs ++ [toSave], r ∈ job) ∨ t.stored (t.entId r) = some (some (t.chain r))
    rcases h.saved r hr with hsave | hstored
    · exact Or.inl ⟨toSave, by simp, hsave⟩
    · rw [show t.chain = m.chain from h.chain]
      exact Or.inr hstored
  · refine (List.nodup_map_iff_inj_on hlist.nodup).mpr fun r hr r' hr' heq => ?_
    have hsame := hroute r hr
    rw [show t.entId r = t.entId r' from heq, hroute r' hr'] at hsame
    exact (Option.some.inj hsame).symm

end Update

/-! ## The invariant -/

/-- The object has been made. -/
def Old (made : ℕ) (r : Ref) : Prop := ∀ n, r = .made n → n < made

structure Listed (s : State R) : Prop where
  nonempty : s.chainList ≠ []
  distinct : Distinct s.manager s.chainList
  old : ∀ r ∈ s.chainList, Old s.made r
  current : ∀ r, s.currentRoute = some r → r ∈ s.chainList

/-- The list widget shows the list, which is in order. -/
structure Filled (s : State R) : Prop where
  ordered : s.chainList.Pairwise fun left right => s.less right left = false
  rows : s.routeProfiles = s.chainList.map s.listItem
  row : ∀ row, s.row = some row → row < s.chainList.length

/-- The chain that the combo box shows in an entry. -/
def State.shownBy (s : State R) (e : String × ℕ) : Option Ref := s.chainList[e.2]?

/-- The current route is an enabled chain, if there is one, and the combo box shows it. -/
structure Settled (s : State R) : Prop where
  current_none : s.currentRoute = none → ∀ r ∈ s.chainList, s.enabled r = false
  current_enabled : ∀ r, s.currentRoute = some r → s.enabled r = true
  routeProf : ∀ e ∈ s.routeProf, ∃ r, s.shownBy e = some r ∧ s.enabled r = true
  index : (s.index.bind fun i => s.routeProf[i]?).bind s.shownBy = s.currentRoute

/-- The editor has a copy of the chain in its row. -/
structure Edits (s : State R) (editor : Editor) : Prop where
  old : Old s.made editor.chain
  not_mem : editor.chain ∉ s.chainList
  new : editor.idx = none → s.id editor.chain < 0
  copy : ∀ idx, editor.idx = some idx →
    ∃ r, s.chainList[idx]? = some r ∧ s.id editor.chain = s.id r

structure Shown (s : State R) : Prop where
  listed : Listed s
  filled : Filled s
  settled : s.timers = 0 → Settled s
  edits : ∀ editor, s.editor = some editor → Edits s editor

structure Inv (s : State R) : Prop where
  keyed : Keyed s.manager
  old : ∀ e ∈ s.manager.routes, Old s.made e.2
  shown : s.visible = true → Shown s

variable {s s' : State R}

/-! ### `reloadProfileItems` -/

section Reload

@[simp] theorem reload_manager (s : State R) : (reloadProfileItems s).manager = s.manager := by
  unfold reloadProfileItems
  split_ifs <;> rfl

@[simp] theorem reload_made (s : State R) : (reloadProfileItems s).made = s.made := by
  unfold reloadProfileItems
  split_ifs <;> rfl

@[simp] theorem reload_timers (s : State R) : (reloadProfileItems s).timers = s.timers := by
  unfold reloadProfileItems
  split_ifs <;> rfl

@[simp] theorem reload_editor (s : State R) : (reloadProfileItems s).editor = s.editor := by
  unfold reloadProfileItems
  split_ifs <;> rfl

theorem reload_chainList (s : State R) : (reloadProfileItems s).chainList = s.sorted := by
  unfold reloadProfileItems
  split_ifs with hnil
  · rw [State.sorted, hnil, List.insertionSort_nil]
  · rfl

theorem mem_sorted {r : Ref} : r ∈ s.sorted ↔ r ∈ s.chainList := List.mem_insertionSort _

theorem sorted_perm (s : State R) : s.sorted.Perm s.chainList := List.perm_insertionSort _ _

/-- The order is that of priority and identifier. -/
theorem less_eq_false (s : State R) (left right : Ref) :
    s.less right left = false ↔
      toLex ((s.manager.chain left).priority, s.id left) ≤
        toLex ((s.manager.chain right).priority, s.id right) := by
  unfold State.less
  rw [Prod.Lex.toLex_le_toLex]
  split_ifs with hne
  · rw [decide_eq_false_iff_not]
    omega
  · rw [decide_eq_false_iff_not]
    omega

theorem sorted_ordered (s : State R) :
    s.sorted.Pairwise fun left right => s.less right left = false := by
  have htotal : Std.Total fun left right : Ref => s.less right left = false := by
    refine ⟨fun left right => ?_⟩
    rw [less_eq_false, less_eq_false]
    exact le_total _ _
  have htrans : IsTrans Ref fun left right => s.less right left = false := by
    refine ⟨fun a b c hab hbc => ?_⟩
    rw [less_eq_false] at hab hbc ⊢
    exact hab.trans hbc
  exact List.pairwise_insertionSort _ _

/-- A list in order stays as it is. -/
theorem Filled.sorted_eq (h : Filled s) : s.sorted = s.chainList := List.Pairwise.insertionSort_eq h.ordered

theorem Distinct.perm {m : Database.RouteChains.State R} {list list' : List Ref}
    (h : Distinct m list) (hperm : list'.Perm list) : Distinct m list' :=
  ⟨hperm.nodup_iff.mpr h.nodup, fun r hr r' hr' =>
    h.id_inj r (hperm.mem_iff.mp hr) r' (hperm.mem_iff.mp hr')⟩

theorem getD_lt {o : Option ℕ} {n : ℕ} (h : ∀ i, o = some i → i < n) (hn : 0 < n) :
    o.getD 0 < n := by
  cases o with
  | none => exact hn
  | some i => exact h i rfl

theorem reload_currentRoute (h : Listed s) :
    (reloadProfileItems s).currentRoute =
      if s.currentRoute.any s.enabled then s.currentRoute else s.sorted.find? s.enabled := by
  unfold reloadProfileItems
  rw [if_neg h.nonempty]
  rfl

theorem Listed.reload (h : Listed s) : Listed (reloadProfileItems s) := by
  have hlist := reload_chainList s
  refine ⟨?_, ?_, fun r hr => ?_, fun r hr => ?_⟩
  · rw [hlist]
    exact fun hnil => h.nonempty (List.nil_perm.mp (hnil ▸ sorted_perm s))
  · rw [hlist, reload_manager]
    exact h.distinct.perm (sorted_perm s)
  · rw [hlist, mem_sorted] at hr
    rw [reload_made]
    exact h.old r hr
  · rw [hlist, mem_sorted]
    rw [reload_currentRoute h] at hr
    split_ifs at hr
    · exact h.current r hr
    · exact mem_sorted.mp (List.mem_of_find?_eq_some hr)

theorem Listed.filled_reload (h : Listed s) : Filled (reloadProfileItems s) := by
  have hlist := reload_chainList s
  refine ⟨?_, ?_, fun row hrow => ?_⟩
  · rw [hlist]
    show s.sorted.Pairwise fun left right => (reloadProfileItems s).less right left = false
    unfold State.less State.id
    rw [reload_manager]
    exact sorted_ordered s
  · unfold reloadProfileItems
    rw [if_neg h.nonempty]
    rfl
  · rw [hlist]
    have hpos : 0 < s.sorted.length := by
      rw [(sorted_perm s).length_eq]
      exact List.length_pos_iff.mpr h.nonempty
    unfold reloadProfileItems at hrow
    rw [if_neg h.nonempty] at hrow
    obtain rfl := Option.some.inj hrow
    refine getD_lt (fun i hi => ?_) hpos
    rw [Option.orElse_eq_orElse, Option.orElse_eq_or] at hi
    rcases Option.or_eq_some_iff.mp hi with hlast | ⟨-, hindex⟩
    · obtain ⟨e, he, rfl⟩ := Option.map_eq_some_iff.mp hlast
      exact (List.getElem?_eq_some_iff.mp (List.mem_zipIdx_iff_getElem?.mp (mem_of_lastAt he).1)).1
    · obtain ⟨r, -, hr⟩ := Option.bind_eq_some_iff.mp hindex
      exact (List.idxOf?_eq_some_iff.mp hr).1

theorem reload_routeProf (h : Listed s) :
    (reloadProfileItems s).routeProf =
      (reloadProfileItems s).entries.map fun e => ((s.manager.chain e.1).chainName, e.2) := by
  unfold reloadProfileItems
  rw [if_neg h.nonempty]
  rfl

theorem reload_index (h : Listed s) :
    (reloadProfileItems s).index =
      (lastAt (some ·.1.1) (reloadProfileItems s).entries.zipIdx
        (reloadProfileItems s).currentRoute).map Prod.snd := by
  unfold reloadProfileItems
  rw [if_neg h.nonempty]
  rfl

theorem mem_entries {e : Ref × ℕ} :
    e ∈ s.entries ↔ s.chainList[e.2]? = some e.1 ∧ s.enabled e.1 = true := by
  unfold State.entries
  rw [List.mem_filter, List.mem_zipIdx_iff_getElem?]

/-- What is shown after a reload is settled. -/
theorem Listed.settled_reload (h : Listed s) : Settled (reloadProfileItems s) := by
  have hlist := reload_chainList s
  have henabled : (reloadProfileItems s).enabled = s.enabled := by
    unfold State.enabled
    rw [reload_manager]
  have hcurrent := reload_currentRoute h
  have hon : ∀ r, (reloadProfileItems s).currentRoute = some r → s.enabled r = true := by
    intro r hr
    rw [hcurrent] at hr
    split_ifs at hr with hany
    · rw [hr] at hany
      exact hany
    · exact List.find?_some hr
  refine ⟨fun hnone r hr => ?_, fun r hr => ?_, fun e he => ?_, ?_⟩
  · rw [hcurrent] at hnone
    rw [hlist] at hr
    rw [henabled]
    split_ifs at hnone with hany
    · rw [hnone] at hany
      exact absurd hany Bool.false_ne_true
    · exact Bool.eq_false_iff.mpr (List.find?_eq_none.mp hnone r hr)
  · rw [henabled]
    exact hon r hr
  · rw [reload_routeProf h] at he
    obtain ⟨entry, hentry, rfl⟩ := List.mem_map.mp he
    exact ⟨entry.1, mem_entries.mp hentry⟩
  · rw [reload_index h]
    cases hroute : (reloadProfileItems s).currentRoute with
    | none =>
      rw [lastAt_eq_none.mpr fun e _ => Option.some_ne_none _]
      rfl
    | some r =>
      have hmem : r ∈ (reloadProfileItems s).chainList := h.reload.current r hroute
      obtain ⟨i, hi⟩ := List.mem_iff_getElem?.mp hmem
      have hentry : (r, i) ∈ (reloadProfileItems s).entries := by
        rw [mem_entries, henabled]
        exact ⟨hi, hon r hroute⟩
      obtain ⟨k, hk⟩ := List.mem_iff_getElem?.mp hentry
      obtain ⟨e, he⟩ : ∃ e, lastAt (some ·.1.1) (reloadProfileItems s).entries.zipIdx (some r) =
          some e := by
        refine Option.ne_none_iff_exists'.mp fun hnone => ?_
        exact lastAt_eq_none.mp hnone ((r, i), k) (List.mem_zipIdx_iff_getElem?.mpr hk) rfl
      obtain ⟨hpos, hkey⟩ := mem_of_lastAt he
      have hat := List.mem_zipIdx_iff_getElem?.mp hpos
      have hshown := (mem_entries.mp (List.mem_of_getElem? hat)).1
      rw [he, Option.map_some, Option.bind_some, reload_routeProf h, List.getElem?_map, hat,
        Option.map_some, Option.bind_some]
      exact hshown.trans hkey

/-- **The timer.** -/
theorem Listed.shown_reload (h : Listed s)
    (hedits : ∀ editor, s.editor = some editor → Edits (reloadProfileItems s) editor) :
    Shown (reloadProfileItems s) where
  listed := h.reload
  filled := h.filled_reload
  settled := fun _ => h.settled_reload
  edits := fun editor heditor => hedits editor ((reload_editor s).symm.trans heditor)

end Reload

/-! ### The threads -/

/-- Only the rules and the default outbounds of the chains differ. -/
structure Alike (m m' : Database.RouteChains.State R) : Prop where
  routes : m'.routes = m.routes
  maxRouteChainId : m'.maxRouteChainId = m.maxRouteChainId
  entId : m'.entId = m.entId
  enabled : ∀ r, (m'.chain r).enabled = (m.chain r).enabled
  priority : ∀ r, (m'.chain r).priority = (m.chain r).priority
  chainName : ∀ r, (m'.chain r).chainName = (m.chain r).chainName

variable {m m' : Database.RouteChains.State R}

theorem Alike.keyed (hm : Alike m m') (h : Keyed m) : Keyed m' where
  le_max := by
    rw [hm.entId, hm.maxRouteChainId]
    exact h.le_max
  max_nonneg := by
    rw [hm.maxRouteChainId]
    exact h.max_nonneg
  nonempty := by
    rw [hm.routes]
    exact h.nonempty
  ordered := by
    rw [hm.routes]
    exact h.ordered
  key := by
    rw [hm.routes, hm.entId]
    exact h.key

theorem Alike.distinct (hm : Alike m m') {list : List Ref} (h : Distinct m list) :
    Distinct m' list := by
  refine ⟨h.nodup, ?_⟩
  rw [hm.entId]
  exact h.id_inj

/-- What the dialog shows does not depend on what differs. -/
theorem Shown.alike (h : Shown s) (hm : Alike s.manager m') : Shown { s with manager := m' } := by
  have henabled : State.enabled { s with manager := m' } = s.enabled := funext hm.enabled
  have hid : State.id { s with manager := m' } = s.id := hm.entId
  have hless : State.less { s with manager := m' } = s.less := by
    funext left right
    unfold State.less
    rw [hid, ← hm.priority left, ← hm.priority right]
  have hitem : State.listItem { s with manager := m' } = s.listItem := by
    funext r
    unfold State.listItem
    rw [henabled, ← hm.priority r, ← hm.chainName r]
  refine ⟨⟨h.listed.nonempty, hm.distinct h.listed.distinct, h.listed.old, h.listed.current⟩,
    ⟨?_, ?_, h.filled.row⟩, fun htimers => ⟨?_, ?_, ?_, (h.settled htimers).index⟩,
    fun editor heditor => ⟨(h.edits editor heditor).old, (h.edits editor heditor).not_mem, ?_, ?_⟩⟩
  · rw [hless]
    exact h.filled.ordered
  · rw [hitem]
    exact h.filled.rows
  · rw [henabled]
    exact (h.settled htimers).current_none
  · rw [henabled]
    exact (h.settled htimers).current_enabled
  · rw [henabled]
    exact (h.settled htimers).routeProf
  · rw [hid]
    exact (h.edits editor heditor).new
  · rw [hid]
    exact (h.edits editor heditor).copy

theorem Inv.alike (h : Inv s) (hm : Alike s.manager m') : Inv { s with manager := m' } where
  keyed := hm.keyed h.keyed
  old := by
    rw [show State.manager { s with manager := m' } = m' from rfl, hm.routes]
    exact h.old
  shown := fun hvisible => (h.shown hvisible).alike hm

/-- A chain of which only the rules and the default outbound are set. -/
theorem alike_update {r : Ref} {chain : Chain R} (henabled : chain.enabled = (m.chain r).enabled)
    (hpriority : chain.priority = (m.chain r).priority)
    (hchainName : chain.chainName = (m.chain r).chainName) :
    Alike m { m with chain := Function.update m.chain r chain } := by
  have hfield : ∀ {β : Type} (f : Chain R → β), f chain = f (m.chain r) →
      ∀ r', f (Function.update m.chain r chain r') = f (m.chain r') := by
    intro β f hf r'
    by_cases hr : r' = r
    · rw [hr, Function.update_self, hf]
    · rw [Function.update_of_ne hr]
  exact ⟨rfl, rfl, rfl, hfield Chain.enabled henabled, hfield Chain.priority hpriority,
    hfield Chain.chainName hchainName⟩

theorem Alike.refl (m : Database.RouteChains.State R) : Alike m m :=
  ⟨rfl, rfl, rfl, fun _ => rfl, fun _ => rfl, fun _ => rfl⟩

theorem alike_switchDefaultRoute (s : State R) : Alike s.manager (switchDefaultRoute s).manager := by
  unfold switchDefaultRoute
  split
  · exact Alike.refl _
  · exact alike_update rfl rfl rfl

/-- A job changes only the records. -/
theorem alike_runJob (m : Database.RouteChains.State R) (i : ℕ) :
    Alike m ((Database.RouteChains.step m (.runJob i)).getD m) := by
  cases hjob : m.jobs[i]? with
  | none =>
    simp only [Database.RouteChains.step, hjob, Option.map_none, Option.getD_none]
    exact Alike.refl m
  | some toSave =>
    simp only [Database.RouteChains.step, hjob, Option.map_some, Option.getD_some]
    exact ⟨rfl, rfl, rfl, fun _ => rfl, fun _ => rfl, fun _ => rfl⟩

/-- An update changes only the rules. -/
theorem alike_updateNext (m : Database.RouteChains.State R) (i : ℕ) (parsed : Option R) :
    Alike m ((Database.RouteChains.step m (.updateNext i parsed)).getD m) := by
  rcases hat : m.updates[i]? with _ | (_ | ⟨item, items⟩)
  · simp only [Database.RouteChains.step, hat, Option.getD_none]
    exact Alike.refl m
  · simp only [Database.RouteChains.step, hat, Option.getD_none]
    exact Alike.refl m
  · simp only [Database.RouteChains.step, hat, Option.getD_some]
    unfold Database.RouteChains.updateProfile
    split_ifs
    · exact ⟨rfl, rfl, rfl, fun _ => rfl, fun _ => rfl, fun _ => rfl⟩
    · split
      · exact ⟨rfl, rfl, rfl, fun _ => rfl, fun _ => rfl, fun _ => rfl⟩
      · case h_2 _ rules =>
        obtain ⟨hroutes, hmax, hid, henabled, hpriority, hname⟩ :=
          @alike_update R m item { m.chain item with rules := rules } rfl rfl rfl
        exact ⟨hroutes, hmax, hid, henabled, hpriority, hname⟩

/-! ### The check boxes -/

theorem enabled_setEnabled (r : Ref) (b : Bool) (r' : Ref) :
    (s.setEnabled r b).enabled r' = if r' = r then b else s.enabled r' := by
  show (Function.update s.manager.chain r _ r').enabled = _
  split_ifs with hr
  · rw [hr, Function.update_self]
  · rw [Function.update_of_ne hr]
    rfl

theorem priority_setEnabled (r : Ref) (b : Bool) (r' : Ref) :
    ((s.setEnabled r b).manager.chain r').priority = (s.manager.chain r').priority := by
  show (Function.update s.manager.chain r _ r').priority = _
  by_cases hr : r' = r
  · rw [hr, Function.update_self]
  · rw [Function.update_of_ne hr]

theorem chainName_setEnabled (r : Ref) (b : Bool) (r' : Ref) :
    ((s.setEnabled r b).manager.chain r').chainName = (s.manager.chain r').chainName := by
  show (Function.update s.manager.chain r _ r').chainName = _
  by_cases hr : r' = r
  · rw [hr, Function.update_self]
  · rw [Function.update_of_ne hr]

theorem less_setEnabled (r : Ref) (b : Bool) : (s.setEnabled r b).less = s.less := by
  funext left right
  unfold State.less
  rw [priority_setEnabled, priority_setEnabled]
  rfl

theorem listItem_setEnabled (r : Ref) (b : Bool) (r' : Ref) :
    (s.setEnabled r b).listItem r' =
      { s.listItem r' with checked := if r' = r then b else s.enabled r' } := by
  unfold State.listItem
  rw [priority_setEnabled, chainName_setEnabled, enabled_setEnabled]

/-- The sort and the list are left alone. -/
theorem Listed.setChain (h : Listed s) (r : Ref) (chain : Chain R) : Listed (s.setChain r chain) :=
  ⟨h.nonempty, ⟨h.distinct.nodup, h.distinct.id_inj⟩, h.old, h.current⟩

theorem Keyed.setChain (h : Keyed s.manager) (r : Ref) (chain : Chain R) :
    Keyed (s.setChain r chain).manager :=
  ⟨h.le_max, h.max_nonneg, h.nonempty, h.ordered, h.key⟩

/-- One row of the list is replaced by what one function of the chains gives instead of
    another. -/
theorem set_map_of_nodup {f g : Ref → ListItem} {list : List Ref} {idx : ℕ} {r : Ref}
    (hnodup : list.Nodup) (hr : list[idx]? = some r) (hfg : ∀ r', r' ≠ r → g r' = f r') :
    (list.map f).set idx (g r) = list.map g := by
  have hidx := (List.getElem?_eq_some_iff.mp hr).1
  refine List.ext_getElem? fun i => ?_
  rw [List.getElem?_set, List.length_map, List.getElem?_map, List.getElem?_map]
  split_ifs with hi
  · rw [← hi, hr, Option.map_some]
  · cases hother : list[i]? with
    | none => rfl
    | some r' =>
      rw [Option.map_some, Option.map_some, hfg]
      rintro rfl
      exact hi ((List.getElem?_inj hidx hnodup).mp (hr.trans hother.symm))

/-- A check box has changed, and the timer is pending. -/
theorem Shown.itemChanged (h : Shown s) (idx : ℕ) (checked : Bool) :
    Shown (itemChanged idx checked s) := by
  unfold ManageRoutes.itemChanged
  split
  · case h_1 item route hitem hroute =>
    rw [h.filled.rows, List.getElem?_map, hroute, Option.map_some] at hitem
    obtain rfl := Option.some.inj hitem
    split_ifs with hlast
    · -- the check box is set back
      refine ⟨⟨h.listed.nonempty, h.listed.distinct, h.listed.old, h.listed.current⟩,
        ⟨h.filled.ordered, ?_, h.filled.row⟩, fun htimers => ?_, fun editor heditor => ?_⟩
      · show s.routeProfiles.set idx { s.listItem route with checked := true } =
          s.chainList.map s.listItem
        rw [h.filled.rows, show ({ s.listItem route with checked := true } : ListItem) =
          s.listItem route by rw [← hlast.2.1]; rfl]
        exact set_map_of_nodup h.listed.distinct.nodup hroute fun _ _ => rfl
      · exact ⟨(h.settled htimers).current_none, (h.settled htimers).current_enabled,
          (h.settled htimers).routeProf, (h.settled htimers).index⟩
      · obtain ⟨hold, hmem, hnew, hcopy⟩ := h.edits editor heditor
        exact ⟨hold, hmem, hnew, hcopy⟩
    · refine ⟨⟨h.listed.nonempty, ⟨h.listed.distinct.nodup, h.listed.distinct.id_inj⟩,
        h.listed.old, h.listed.current⟩, ⟨?_, ?_, h.filled.row⟩, fun htimers => ?_,
        fun editor heditor => ?_⟩
      · show s.chainList.Pairwise fun left right =>
          (s.setEnabled route checked).less right left = false
        rw [less_setEnabled]
        exact h.filled.ordered
      · show s.routeProfiles.set idx { s.listItem route with checked := checked } =
          s.chainList.map (s.setEnabled route checked).listItem
        have hself : (s.setEnabled route checked).listItem route =
            { s.listItem route with checked := checked } := by
          rw [listItem_setEnabled, if_pos rfl]
        rw [h.filled.rows, ← hself]
        refine set_map_of_nodup h.listed.distinct.nodup hroute fun r' hr' => ?_
        rw [listItem_setEnabled, if_neg hr']
        rfl
      · exact absurd htimers (Nat.succ_ne_zero s.timers)
      · obtain ⟨hold, hmem, hnew, hcopy⟩ := h.edits editor heditor
        exact ⟨hold, hmem, hnew, hcopy⟩
  · exact h

theorem Inv.itemChanged (h : Inv s) (idx : ℕ) (checked : Bool) :
    Inv (ManageRoutes.itemChanged idx checked s) := by
  have hframe : Keyed (ManageRoutes.itemChanged idx checked s).manager ∧
      (ManageRoutes.itemChanged idx checked s).manager.routes = s.manager.routes ∧
      (ManageRoutes.itemChanged idx checked s).made = s.made ∧
      (ManageRoutes.itemChanged idx checked s).visible = s.visible := by
    unfold ManageRoutes.itemChanged
    split
    · split_ifs
      · exact ⟨h.keyed, rfl, rfl, rfl⟩
      · exact ⟨h.keyed.setChain _ _, rfl, rfl, rfl⟩
    · exact ⟨h.keyed, rfl, rfl, rfl⟩
  obtain ⟨hkeyed, hroutes, hmade, hvisible⟩ := hframe
  refine ⟨hkeyed, ?_, fun hshown => (h.shown (hvisible ▸ hshown)).itemChanged idx checked⟩
  rw [hroutes, hmade]
  exact h.old

/-! ### The other handlers -/

/-- What holds after a handler that ends with a reload, while no editor is shown. -/
theorem inv_reload (hkeyed : Keyed s.manager) (hold : ∀ e ∈ s.manager.routes, Old s.made e.2)
    (hlisted : Listed s) (heditor : s.editor = none) : Inv (reloadProfileItems s) := by
  refine ⟨?_, ?_, fun _ => hlisted.shown_reload fun editor hsome => ?_⟩
  · rw [reload_manager]
    exact hkeyed
  · rw [reload_manager, reload_made]
    exact hold
  · exact absurd (heditor.symm.trans hsome).symm (Option.some_ne_none editor)

theorem Inv.toggleRoute (h : Inv s) (hvisible : s.visible = true) (heditor : s.editor = none) :
    Inv (toggleRoute s) := by
  have hlisted := (h.shown hvisible).listed
  unfold ManageRoutes.toggleRoute
  split
  · exact h
  · split_ifs
    · exact h
    · exact inv_reload (h.keyed.setChain _ _) h.old (hlisted.setChain _ _) heditor

theorem Inv.routePriority (h : Inv s) (hvisible : s.visible = true) (heditor : s.editor = none)
    (priority : ℤ) : Inv (routePriority priority s) := by
  have hlisted := (h.shown hvisible).listed
  unfold ManageRoutes.routePriority
  split
  · exact h
  · split_ifs
    · exact h
    · exact inv_reload (h.keyed.setChain _ _) h.old (hlisted.setChain _ _) heditor

/-- The entry selected shows an enabled chain unless a timer is pending. -/
theorem Inv.updateCurrentRouteProfile (h : Inv s) (hvisible : s.visible = true) (idx : ℕ) :
    Inv (updateCurrentRouteProfile idx s) := by
  have hshown := h.shown hvisible
  unfold ManageRoutes.updateCurrentRouteProfile
  split
  · exact h
  · case h_2 name chainIndex hentry =>
    dsimp only
    have hmem : (name, chainIndex) ∈ s.routeProf := List.mem_of_getElem? hentry
    split
    · case h_1 hnone =>
      refine ⟨h.keyed, h.old, fun _ => ⟨⟨hshown.listed.nonempty, hshown.listed.distinct,
        hshown.listed.old, hshown.listed.current⟩, ⟨hshown.filled.ordered, hshown.filled.rows,
        hshown.filled.row⟩, fun htimers => ?_, fun editor heditor => ?_⟩⟩
      · obtain ⟨r, hr, -⟩ := (hshown.settled htimers).routeProf _ hmem
        exact absurd (hnone.symm.trans hr).symm (Option.some_ne_none r)
      · obtain ⟨hold, hnot, hnew, hcopy⟩ := hshown.edits editor heditor
        exact ⟨hold, hnot, hnew, hcopy⟩
    · case h_2 route hroute =>
      refine ⟨h.keyed, h.old, fun _ => ⟨⟨hshown.listed.nonempty, hshown.listed.distinct,
        hshown.listed.old, fun r hr => ?_⟩, ⟨hshown.filled.ordered, hshown.filled.rows,
        hshown.filled.row⟩, fun htimers => ?_, fun editor heditor => ?_⟩⟩
      · obtain rfl := Option.some.inj hr
        exact List.mem_of_getElem? hroute
      · have hsettled := hshown.settled htimers
        refine ⟨fun hnone => absurd hnone (Option.some_ne_none route), fun r hr => ?_,
          hsettled.routeProf, ?_⟩
        · obtain ⟨r', hr', henabled⟩ := hsettled.routeProf _ hmem
          obtain rfl := Option.some.inj hr
          obtain rfl := Option.some.inj (hroute.symm.trans hr')
          exact henabled
        · show (s.routeProf[idx]?).bind _ = some route
          rw [hentry]
          exact hroute
      · obtain ⟨hold, hnot, hnew, hcopy⟩ := hshown.edits editor heditor
        exact ⟨hold, hnot, hnew, hcopy⟩

theorem Inv.selectRow (h : Inv s) (row : ℕ) :
    Inv (if row < s.routeProfiles.length then { s with row := some row } else s) := by
  split_ifs with hrow
  · refine ⟨h.keyed, h.old, fun hvisible => ?_⟩
    have hshown := h.shown hvisible
    refine ⟨⟨hshown.listed.nonempty, hshown.listed.distinct, hshown.listed.old,
      hshown.listed.current⟩, ⟨hshown.filled.ordered, hshown.filled.rows, fun i hi => ?_⟩,
      fun htimers => ?_, fun editor heditor => ?_⟩
    · obtain rfl := Option.some.inj hi
      rw [hshown.filled.rows, List.length_map] at hrow
      exact hrow
    · exact ⟨(hshown.settled htimers).current_none, (hshown.settled htimers).current_enabled,
        (hshown.settled htimers).routeProf, (hshown.settled htimers).index⟩
    · obtain ⟨hold, hnot, hnew, hcopy⟩ := hshown.edits editor heditor
      exact ⟨hold, hnot, hnew, hcopy⟩
  · exact h

/-- An editor may be closed. -/
theorem Inv.noEditor (h : Inv s) : Inv { s with editor := none } := by
  refine ⟨h.keyed, h.old, fun hvisible => ?_⟩
  have hshown := h.shown hvisible
  exact ⟨⟨hshown.listed.nonempty, hshown.listed.distinct, hshown.listed.old,
    hshown.listed.current⟩, ⟨hshown.filled.ordered, hshown.filled.rows, hshown.filled.row⟩,
    fun htimers => ⟨(hshown.settled htimers).current_none,
      (hshown.settled htimers).current_enabled, (hshown.settled htimers).routeProf,
      (hshown.settled htimers).index⟩,
    fun editor hsome => absurd hsome.symm (Option.some_ne_none editor)⟩

/-! ### Objects made -/

theorem Old.ne {made : ℕ} {r : Ref} (h : Old made r) : r ≠ .made made := by
  rintro rfl
  exact absurd (h made rfl) (lt_irrefl made)

theorem Old.succ {made : ℕ} {r : Ref} (h : Old made r) : Old (made + 1) r := fun n hn =>
  Nat.lt_succ_of_lt (h n hn)

theorem old_made (made : ℕ) : Old (made + 1) (.made made) := fun n hn => by
  obtain rfl := Ref.made.inj hn
  exact Nat.lt_succ_self _

section Make

variable {chain : Chain R} {id : ℤ}

theorem make_chain {r : Ref} (hr : Old s.made r) :
    (s.make chain id).manager.chain r = s.manager.chain r := Function.update_of_ne hr.ne _ _

theorem make_id {r : Ref} (hr : Old s.made r) : (s.make chain id).id r = s.id r :=
  Function.update_of_ne hr.ne _ _

theorem make_id_self : (s.make chain id).id (.made s.made) = id := Function.update_self _ _ _

theorem Keyed.make (h : Keyed s.manager) (hold : ∀ e ∈ s.manager.routes, Old s.made e.2)
    (hid : id ≤ s.manager.maxRouteChainId) : Keyed (s.make chain id).manager := by
  refine ⟨fun r => ?_, h.max_nonneg, h.nonempty, h.ordered, fun e he => ?_⟩
  · show Function.update s.manager.entId (.made s.made) id r ≤ s.manager.maxRouteChainId
    by_cases hr : r = .made s.made
    · rw [hr, Function.update_self]
      exact hid
    · rw [Function.update_of_ne hr]
      exact h.le_max r
  · exact (make_id (hold e he)).trans (h.key e he)

theorem Listed.make (h : Listed s) : Listed (s.make chain id) := by
  refine ⟨h.nonempty, ⟨h.distinct.nodup, fun r hr r' hr' => ?_⟩, fun r hr => (h.old r hr).succ,
    h.current⟩
  show 0 ≤ (s.make chain id).id r → (s.make chain id).id r = (s.make chain id).id r' → r = r'
  rw [make_id (h.old r hr), make_id (h.old r' hr')]
  exact h.distinct.id_inj r hr r' hr'

/-- What is shown does not depend on objects that are not in the list. -/
theorem Shown.make (h : Shown s) (heditor : s.editor = none) : Shown (s.make chain id) := by
  have hold := h.listed.old
  have henabled : ∀ r ∈ s.chainList, (s.make chain id).enabled r = s.enabled r := fun r hr => by
    unfold State.enabled
    rw [make_chain (hold r hr)]
  refine ⟨h.listed.make, ⟨?_, ?_, h.filled.row⟩, fun htimers => ?_, fun editor hsome => ?_⟩
  · refine h.filled.ordered.imp_of_mem fun {left right} hl hr hless => ?_
    unfold State.less at hless ⊢
    rw [make_chain (hold left hl), make_chain (hold right hr), make_id (hold left hl),
      make_id (hold right hr)]
    exact hless
  · show s.routeProfiles = s.chainList.map (s.make chain id).listItem
    rw [h.filled.rows]
    refine List.map_congr_left fun r hr => ?_
    unfold State.listItem
    rw [henabled r hr, make_chain (hold r hr)]
  · have hsettled := h.settled htimers
    refine ⟨fun hnone r hr => ?_, fun r hr => ?_, fun e he => ?_, hsettled.index⟩
    · rw [henabled r hr]
      exact hsettled.current_none hnone r hr
    · rw [henabled r (h.listed.current r hr)]
      exact hsettled.current_enabled r hr
    · obtain ⟨r, hr, hon⟩ := hsettled.routeProf e he
      exact ⟨r, hr, (henabled r (List.mem_of_getElem? hr)).trans hon⟩
  · exact absurd (heditor.symm.trans hsome).symm (Option.some_ne_none editor)

/-- An editor is opened with an object that has been made for it. -/
theorem Inv.openEditor {idx : Option ℕ} (h : Inv s) (hvisible : s.visible = true)
    (heditor : s.editor = none) (hid : id ≤ s.manager.maxRouteChainId)
    (hnew : idx = none → id < 0)
    (hcopy : ∀ i, idx = some i → ∃ r, s.chainList[i]? = some r ∧ id = s.id r) :
    Inv { s.make chain id with editor := some ⟨idx, .made s.made⟩ } := by
  have hshown : Shown (s.make chain id) := (h.shown hvisible).make heditor
  have hlisted := (h.shown hvisible).listed
  refine ⟨h.keyed.make h.old hid, fun e he => (h.old e he).succ, fun _ =>
    ⟨⟨hshown.listed.nonempty, ⟨hshown.listed.distinct.nodup, hshown.listed.distinct.id_inj⟩,
      hshown.listed.old, hshown.listed.current⟩,
    ⟨hshown.filled.ordered, hshown.filled.rows, hshown.filled.row⟩,
    fun htimers => ⟨(hshown.settled htimers).current_none, (hshown.settled htimers).current_enabled,
      (hshown.settled htimers).routeProf, (hshown.settled htimers).index⟩,
    fun editor hsome => ?_⟩⟩
  obtain rfl := Option.some.inj hsome
  refine ⟨old_made s.made, fun hmem => (hlisted.old _ hmem).ne rfl, fun hidx => ?_, fun i hi => ?_⟩
  · show (s.make chain id).id (.made s.made) < 0
    rw [make_id_self]
    exact hnew hidx
  · obtain ⟨r, hr, hrid⟩ := hcopy i hi
    refine ⟨r, hr, ?_⟩
    show (s.make chain id).id (.made s.made) = (s.make chain id).id r
    rw [make_id_self, make_id (hlisted.old r (List.mem_of_getElem? hr))]
    exact hrid

end Make

theorem Inv.newRoute (h : Inv s) (hvisible : s.visible = true) (heditor : s.editor = none)
    (fields : Chain R) : Inv (newRoute fields s) := by
  have hmax := h.keyed.max_nonneg
  exact h.openEditor hvisible heditor (by omega) (fun _ => by omega)
    fun i hi => absurd hi.symm (Option.some_ne_none i)

theorem Inv.editRoute (h : Inv s) (hvisible : s.visible = true) (heditor : s.editor = none) :
    ∃ t, editRoute s = some t ∧ Inv t := by
  unfold ManageRoutes.editRoute
  cases hrow : s.row with
  | none => exact ⟨s, rfl, h⟩
  | some idx =>
    have hidx := (h.shown hvisible).filled.row idx hrow
    obtain ⟨item, hitem⟩ : ∃ item, s.chainList[idx]? = some item :=
      ⟨_, List.getElem?_eq_getElem hidx⟩
    dsimp only
    rw [hitem, Option.map_some]
    refine ⟨_, rfl, h.openEditor hvisible heditor (h.keyed.le_max item)
      (fun hnone => absurd hnone (Option.some_ne_none idx)) fun i hi => ?_⟩
    obtain rfl := Option.some.inj hi
    exact ⟨item, hitem, rfl⟩

/-! ### The list changes -/

/-- A chain without an identifier is added. -/
theorem Distinct.concat {list : List Ref} {r : Ref} (h : Distinct m list) (hr : r ∉ list)
    (hid : m.entId r < 0) : Distinct m (list ++ [r]) := by
  refine ⟨?_, fun a ha b hb hnonneg heq => ?_⟩
  · rw [List.nodup_append]
    refine ⟨h.nodup, List.nodup_singleton r, fun a ha b hb hab => ?_⟩
    rw [List.mem_singleton.mp hb] at hab
    exact hr (hab ▸ ha)
  · rw [List.mem_append, List.mem_singleton] at ha hb
    rcases ha with ha | rfl
    · rcases hb with hb | rfl
      · exact h.id_inj a ha b hb hnonneg heq
      · omega
    · omega

theorem mem_set_of_nodup {list : List Ref} {idx : ℕ} {item r r' : Ref} (hnodup : list.Nodup)
    (hitem : list[idx]? = some item) (hr' : r' ∈ list.set idx r) :
    r' = r ∨ r' ∈ list ∧ r' ≠ item := by
  obtain ⟨i, hi⟩ := List.mem_iff_getElem?.mp hr'
  have hidx := (List.getElem?_eq_some_iff.mp hitem).1
  rw [List.getElem?_set] at hi
  split_ifs at hi with heq
  · exact Or.inl (Option.some.inj hi).symm
  · refine Or.inr ⟨List.mem_of_getElem? hi, ?_⟩
    rintro rfl
    exact heq ((List.getElem?_inj hidx hnodup).mp (hitem.trans hi.symm))

theorem mem_set_of_ne {list : List Ref} {idx : ℕ} {item r r' : Ref}
    (hitem : list[idx]? = some item) (hr' : r' ∈ list) (hne : r' ≠ item) :
    r' ∈ list.set idx r := by
  obtain ⟨i, hi⟩ := List.mem_iff_getElem?.mp hr'
  refine List.mem_iff_getElem?.mpr ⟨i, ?_⟩
  rw [List.getElem?_set_ne, hi]
  rintro rfl
  exact hne (Option.some.inj (hi.symm.trans hitem))

/-- A chain takes the place of one with its identifier. -/
theorem Distinct.set {list : List Ref} {idx : ℕ} {item r : Ref} (h : Distinct m list)
    (hitem : list[idx]? = some item) (hr : r ∉ list) (hid : m.entId r = m.entId item) :
    Distinct m (list.set idx r) := by
  have hmem : item ∈ list := List.mem_of_getElem? hitem
  refine ⟨h.nodup.set hr, fun a ha b hb hnonneg heq => ?_⟩
  rcases mem_set_of_nodup h.nodup hitem ha with rfl | ⟨halist, hane⟩
  · rcases mem_set_of_nodup h.nodup hitem hb with rfl | ⟨hb, hbne⟩
    · rfl
    · exact absurd (h.id_inj item hmem b hb (hid ▸ hnonneg) (hid ▸ heq)).symm hbne
  · rcases mem_set_of_nodup h.nodup hitem hb with rfl | ⟨hb, -⟩
    · exact absurd (h.id_inj a halist item hmem hnonneg (heq.trans hid)) hane
    · exact h.id_inj a halist b hb hnonneg heq

theorem Inv.cloneRoute (h : Inv s) (hvisible : s.visible = true) (heditor : s.editor = none) :
    ∃ t, cloneRoute s = some t ∧ Inv t := by
  unfold ManageRoutes.cloneRoute
  cases hrow : s.row with
  | none => exact ⟨s, rfl, h⟩
  | some idx =>
    have hidx := (h.shown hvisible).filled.row idx hrow
    have hlisted := (h.shown hvisible).listed
    have hmax := h.keyed.max_nonneg
    obtain ⟨item, hitem⟩ : ∃ item, s.chainList[idx]? = some item :=
      ⟨_, List.getElem?_eq_getElem hidx⟩
    dsimp only
    rw [hitem, Option.map_some]
    refine ⟨_, rfl, inv_reload (h.keyed.make h.old (by omega)) (fun e he => (h.old e he).succ)
      ⟨List.append_ne_nil_of_left_ne_nil hlisted.nonempty _, ?_, fun r hr => ?_, fun r hr => ?_⟩
      heditor⟩
    · refine hlisted.make.distinct.concat (fun hmem => (hlisted.old _ hmem).ne rfl) ?_
      show (s.make _ (-1)).id (.made s.made) < 0
      rw [make_id_self]
      decide
    · rcases List.mem_append.mp hr with hr | hr
      · exact (hlisted.old r hr).succ
      · rw [List.mem_singleton.mp hr]
        exact old_made s.made
    · exact List.mem_append_left _ (hlisted.current r hr)

theorem Inv.deleteRoute (h : Inv s) (hvisible : s.visible = true) (heditor : s.editor = none) :
    ∃ t, deleteRoute s = some t ∧ Inv t := by
  unfold ManageRoutes.deleteRoute
  cases hrow : s.row with
  | none => exact ⟨s, rfl, h⟩
  | some idx =>
    have hidx := (h.shown hvisible).filled.row idx hrow
    have hlisted := (h.shown hvisible).listed
    obtain ⟨profileToDel, hdel⟩ : ∃ r, s.chainList[idx]? = some r :=
      ⟨_, List.getElem?_eq_getElem hidx⟩
    dsimp only
    split_ifs with hone
    · exact ⟨s, rfl, h⟩
    have hsub : (s.chainList.eraseIdx idx).Sublist s.chainList := List.eraseIdx_sublist _ _
    rw [hdel, Option.map_some]
    refine ⟨_, rfl, inv_reload h.keyed h.old ⟨fun hnil => ?_, ⟨hlisted.distinct.nodup.sublist hsub,
      fun r hr r' hr' => hlisted.distinct.id_inj r (hsub.subset hr) r' (hsub.subset hr')⟩,
      fun r hr => hlisted.old r (hsub.subset hr), fun r hr => ?_⟩ heditor⟩
    · have hlength := List.length_eraseIdx_of_lt hidx
      rw [show s.chainList.eraseIdx idx = [] from hnil, List.length_nil] at hlength
      omega
    · replace hr : (if s.currentRoute = some profileToDel then (s.chainList.eraseIdx idx)[0]?
        else s.currentRoute) = some r := hr
      split_ifs at hr with hcurrent
      · exact List.mem_of_getElem? hr
      · obtain ⟨i, hi⟩ := List.mem_iff_getElem?.mp (hlisted.current r hr)
        refine List.mem_eraseIdx_iff_getElem?.mpr ⟨i, fun heq => ?_, hi⟩
        rw [← heq, hi] at hdel
        exact hcurrent (hr.trans hdel)

/-- The chain edited has the identifier of the one it replaces. -/
theorem Inv.settingsChanged (h : Inv s) (hvisible : s.visible = true) (edited : Chain R) :
    ∃ t, settingsChanged edited s = some t ∧ Inv t := by
  unfold ManageRoutes.settingsChanged
  cases heditor : s.editor with
  | none => exact ⟨s, rfl, h⟩
  | some editor =>
    have hlisted := (h.shown hvisible).listed
    obtain ⟨hold, hnot, hnew, hcopy⟩ := (h.shown hvisible).edits editor heditor
    dsimp only
    cases hidx : editor.idx with
    | none =>
      refine ⟨_, rfl, inv_reload (h.keyed.setChain _ _) h.old
        ⟨List.append_ne_nil_of_left_ne_nil hlisted.nonempty _, ?_, fun r hr => ?_, fun r hr => ?_⟩
        rfl⟩
      · exact (hlisted.setChain _ _).distinct.concat hnot (hnew hidx)
      · rcases List.mem_append.mp hr with hr | hr
        · exact hlisted.old r hr
        · rw [List.mem_singleton.mp hr]
          exact hold
      · exact List.mem_append_left _ (hlisted.current r hr)
    | some idx =>
      obtain ⟨item, hitem, hid⟩ := hcopy idx hidx
      have hat : (State.setChain { s with editor := none } editor.chain
          { edited with
            enabled := (s.manager.chain editor.chain).enabled
            priority := (s.manager.chain editor.chain).priority }).chainList[idx]? = some item :=
        hitem
      refine ⟨_, congrArg (Option.map _) hat, inv_reload (h.keyed.setChain _ _) h.old
        ⟨fun hnil => ?_, ?_, fun r hr => ?_, fun r hr => ?_⟩ rfl⟩
      · exact hlisted.nonempty (List.eq_nil_of_length_eq_zero
          (List.length_set.symm.trans (congrArg List.length hnil)))
      · exact (hlisted.setChain _ _).distinct.set hitem hnot hid
      · rcases mem_set_of_nodup hlisted.distinct.nodup hitem hr with rfl | ⟨hr, -⟩
        · exact hold
        · exact hlisted.old r hr
      · replace hr : (if s.currentRoute = some item then some editor.chain else s.currentRoute) =
          some r := hr
        split_ifs at hr with hcurrent
        · obtain rfl := Option.some.inj hr
          exact List.mem_set (List.getElem?_eq_some_iff.mp hitem).1 _
        · exact mem_set_of_ne hitem (hlisted.current r hr) fun heq => hcurrent (hr.trans (heq ▸ rfl))

theorem Inv.timeout (h : Inv s) (hvisible : s.visible = true) (n : ℕ) :
    Inv (reloadProfileItems { s with timers := n }) := by
  have hshown := h.shown hvisible
  have hlisted : Listed { s with timers := n } :=
    ⟨hshown.listed.nonempty, hshown.listed.distinct, hshown.listed.old, hshown.listed.current⟩
  have hlist : (reloadProfileItems { s with timers := n }).chainList = s.chainList :=
    (reload_chainList _).trans hshown.filled.sorted_eq
  refine ⟨?_, ?_, fun _ => hlisted.shown_reload fun editor heditor => ?_⟩
  · rw [reload_manager]
    exact h.keyed
  · rw [reload_manager, reload_made]
    exact h.old
  · -- the list was in order already, so that the row of the editor is still its own
    obtain ⟨hold, hnot, hnew, hcopy⟩ := hshown.edits editor heditor
    have hid : (reloadProfileItems { s with timers := n }).id = s.id := by
      unfold State.id
      rw [reload_manager]
    refine ⟨?_, ?_, ?_, ?_⟩
    · rw [reload_made]
      exact hold
    · rw [hlist]
      exact hnot
    · rw [hid]
      exact hnew
    · rw [hlist, hid]
      exact hcopy

theorem exists_of_find {routes : List (ℤ × Ref)} {id : ℤ} {r : Ref}
    (h : OrderedMap.find OrderedMap.less id routes = some r) : r ∈ routes.map Prod.snd := by
  induction routes with
  | nil => exact absurd h.symm (Option.some_ne_none r)
  | cons e routes ih =>
    unfold OrderedMap.find at h
    split_ifs at h
    · exact List.mem_cons_of_mem _ (ih h)
    · obtain rfl := Option.some.inj h
      exact List.mem_cons_self

/-- The chains of the map. -/
theorem Keyed.distinct (h : Keyed m) : Distinct m (m.routes.map Prod.snd) := by
  have hne : m.routes.Pairwise fun e e' => e.2 ≠ e'.2 := by
    refine h.ordered.imp_of_mem fun {e e'} he he' hless heq => ?_
    have hlt : e.1 < e'.1 := of_decide_eq_true hless
    rw [← h.key e he, ← h.key e' he', heq] at hlt
    exact lt_irrefl _ hlt
  have hkeys : (m.routes.map Prod.fst).Nodup :=
    List.pairwise_map.mpr (h.ordered.imp fun hless => (of_decide_eq_true hless).ne)
  refine ⟨List.pairwise_map.mpr hne, fun r hr r' hr' _ heq => ?_⟩
  obtain ⟨e, he, rfl⟩ := List.mem_map.mp hr
  obtain ⟨e', he', rfl⟩ := List.mem_map.mp hr'
  rw [h.key e he, h.key e' he'] at heq
  exact congrArg Prod.snd (List.inj_on_of_nodup_map hkeys he he' heq)

theorem Inv.openDialog (h : Inv s) (fields : Chain R) :
    ∃ t, openDialog fields s = some t ∧ Inv t := by
  have hne : s.manager.routes.map Prod.snd ≠ [] := fun hnil =>
    h.keyed.nonempty (List.map_eq_nil_iff.mp hnil)
  unfold ManageRoutes.openDialog
  dsimp only
  rw [if_neg hne]
  refine ⟨_, rfl, inv_reload h.keyed h.old ⟨hne, h.keyed.distinct, fun r hr => ?_, fun r hr => ?_⟩
    rfl⟩
  · obtain ⟨e, he, rfl⟩ := List.mem_map.mp hr
    exact h.old e he
  · replace hr : (if s.manager.route s.currentRouteId = none then
      (s.manager.routes.map Prod.snd)[0]? else s.manager.route s.currentRouteId) = some r := hr
    split_ifs at hr
    · exact List.mem_of_getElem? hr
    · exact exists_of_find hr

/-! ## The property -/

/-- No check box has a timer that is pending. -/
def Idle (s : State R) : Prop := s.visible = true ∧ s.timers = 0

/-- Row `i` of the list widget shows `chainList[i]`, and the current route is an enabled element
    of the list, which the combo box shows, or none when none is enabled. -/
structure Sound (s : State R) : Prop where
  rows : s.routeProfiles = s.chainList.map s.listItem
  current_none : s.currentRoute = none → ∀ r ∈ s.chainList, s.enabled r = false
  current_enabled : ∀ r, s.currentRoute = some r → r ∈ s.chainList ∧ s.enabled r = true
  index : (s.index.bind fun i => s.routeProf[i]?).bind s.shownBy = s.currentRoute

/-- An accept is to pass the checks. -/
def Accepts (s : State R) : Action R → Prop
  | .accept dnsRulesValid _ => s.visible = true ∧ s.editor.isNone = true ∧ Passes s dnsRulesValid
  | _ => False

/-- What an accept leaves of the list `chainList`. -/
structure Accepted (chainList : List Ref) (s : State R) : Prop where
  /-- `current_route_id` names an enabled chain of the map, -/
  current : ∃ r, s.manager.route s.currentRouteId = some r ∧ s.enabled r = true
  /-- every chain is stored under its identifier, -/
  stored : ∀ r ∈ chainList, 0 ≤ s.id r ∧ s.manager.route (s.id r) = some r ∧
    ((∃ toSave ∈ s.manager.jobs, r ∈ toSave) ∨
      s.manager.stored (s.id r) = some (some (s.manager.chain r)))
  /-- and no two have the same. -/
  nodup : (chainList.map s.id).Nodup

/-- What is claimed of a step. -/
def Safe (s : State R) (a : Action R) : Prop :=
  ∃ s', step s a = some s' ∧ (Idle s' → Sound s') ∧ (Accepts s a → Accepted s.chainList s')

/-- An accept finds the current route enabled if a check box has a timer that is pending, and the
    identifiers that it gives fit. -/
def Harmless (s : State R) (a : Action R) : Prop :=
  Accepts s a →
    (0 < s.timers → s.currentRoute.any s.enabled = true) ∧ Fits s.manager s.chainList

theorem Shown.sound (h : Shown s) (htimers : s.timers = 0) : Sound s where
  rows := h.filled.rows
  current_none := (h.settled htimers).current_none
  current_enabled := fun r hr => ⟨h.listed.current r hr, (h.settled htimers).current_enabled r hr⟩
  index := (h.settled htimers).index

theorem Inv.sound (h : Inv s) (hidle : Idle s) : Sound s := (h.shown hidle.1).sound hidle.2

/-! ### `accept` -/

theorem switched (s : State R) (switch : Bool) :
    ∃ m, Alike s.manager m ∧ (if switch then switchDefaultRoute s else s) = { s with manager := m } := by
  cases switch with
  | false => exact ⟨s.manager, Alike.refl _, rfl⟩
  | true =>
    refine ⟨_, alike_switchDefaultRoute s, ?_⟩
    show switchDefaultRoute s = _
    unfold switchDefaultRoute
    split <;> rfl

theorem Alike.fits (hm : Alike m m') (list : List Ref) : Fits m' list ↔ Fits m list := by
  unfold Fits newIds
  rw [hm.entId, hm.maxRouteChainId]

/-- An accept hands over the list, unless there is no current route or an identifier does not
    fit. -/
theorem Inv.accept (h : Inv s) (hvisible : s.visible = true) {dnsRulesValid : Bool}
    (hpasses : Passes s dnsRulesValid) (switch : Bool) :
    (accept dnsRulesValid switch s = none ∧
      (s.currentRoute = none ∨ ¬ Fits s.manager s.chainList)) ∨
    ∃ r t, s.currentRoute = some r ∧ Fits s.manager s.chainList ∧
      accept dnsRulesValid switch s = some t ∧ t.visible = false ∧ Inv t ∧
      (Accepted s.chainList t ↔ s.enabled r = true) := by
  obtain ⟨m, hm, hswitched⟩ := switched s switch
  have hlisted := (h.shown hvisible).listed
  have hkeyed : Keyed m := hm.keyed h.keyed
  have hdistinct : Distinct m s.chainList := hm.distinct hlisted.distinct
  have hfits := (updateRouteChains_ne_none hkeyed hdistinct).trans (hm.fits s.chainList)
  unfold ManageRoutes.accept
  rw [if_pos hpasses, hswitched]
  dsimp only
  cases hmanager : Database.RouteChains.updateRouteChains s.chainList m with
  | none => exact Or.inl ⟨rfl, Or.inr fun hfit => hfits.mpr hfit hmanager⟩
  | some manager =>
    have hfit := hfits.mp (hmanager ▸ Option.some_ne_none manager)
    cases hcurrent : s.currentRoute with
    | none => exact Or.inl ⟨rfl, Or.inl rfl⟩
    | some r =>
      have hupdated := updated hkeyed hlisted.nonempty hdistinct hmanager
      obtain ⟨-, hroute, -⟩ := hupdated.stored r (hlisted.current r hcurrent)
      have henabled : (manager.chain r).enabled = s.enabled r := by
        rw [hupdated.chain]
        exact hm.enabled r
      refine Or.inr ⟨r, _, rfl, hfit, rfl, rfl,
        ⟨hupdated.keyed, fun e he => hlisted.old _ (hupdated.mem e he),
          fun hfalse => absurd hfalse Bool.false_ne_true⟩, fun haccepted => ?_, fun hon => ?_⟩
      · obtain ⟨r', hr', hon⟩ := haccepted.current
        obtain rfl := Option.some.inj (hroute.symm.trans hr')
        exact henabled.symm.trans hon
      · exact ⟨⟨r, hroute, henabled.trans hon⟩, hupdated.stored, hupdated.nodup⟩

/-- Whenever no timer is pending an accept that passes the checks finds an enabled chain. -/
theorem Shown.current_of_passes (h : Shown s) {dnsRulesValid : Bool}
    (hpasses : Passes s dnsRulesValid)
    (htimers : 0 < s.timers → s.currentRoute.any s.enabled = true) :
    ∃ r, s.currentRoute = some r ∧ s.enabled r = true := by
  obtain ⟨-, ⟨route, hroute, hon⟩, -⟩ := hpasses
  rcases Nat.eq_zero_or_pos s.timers with hzero | hpending
  · cases hcurrent : s.currentRoute with
    | none =>
      have hoff := (h.settled hzero).current_none hcurrent route hroute
      exact absurd (hon.symm.trans hoff) (Bool.false_ne_true ∘ Eq.symm)
    | some r => exact ⟨r, rfl, (h.settled hzero).current_enabled r hcurrent⟩
  · cases hcurrent : s.currentRoute with
    | none =>
      have hany := htimers hpending
      rw [hcurrent] at hany
      exact absurd hany Bool.false_ne_true
    | some r =>
      have hany := htimers hpending
      rw [hcurrent] at hany
      exact ⟨r, rfl, hany⟩

/-- An accept apart, every handler of the dialog leaves it as it should be. -/
theorem Inv.act (h : Inv s) (hvisible : s.visible = true) (heditor : s.editor.isNone = true)
    {a : Action R} (ha : ¬ Accepts s a) : ∃ s', act s a = some s' ∧ Inv s' := by
  have hnone : s.editor = none := Option.isNone_iff_eq_none.mp heditor
  cases a with
  | selectRow row => exact ⟨_, rfl, h.selectRow row⟩
  | itemChanged idx checked => exact ⟨_, rfl, h.itemChanged idx checked⟩
  | toggleRoute => exact ⟨_, rfl, h.toggleRoute hvisible hnone⟩
  | routePriority priority => exact ⟨_, rfl, h.routePriority hvisible hnone priority⟩
  | updateCurrentRouteProfile idx => exact ⟨_, rfl, h.updateCurrentRouteProfile hvisible idx⟩
  | newRoute fields => exact ⟨_, rfl, h.newRoute hvisible hnone fields⟩
  | cloneRoute => exact h.cloneRoute hvisible hnone
  | editRoute => exact h.editRoute hvisible hnone
  | deleteRoute => exact h.deleteRoute hvisible hnone
  | reject => exact ⟨_, rfl, h.keyed, h.old, fun hfalse => absurd hfalse Bool.false_ne_true⟩
  | accept dnsRulesValid switch =>
    have hrefused : ¬ Passes s dnsRulesValid := fun hpasses => ha ⟨hvisible, heditor, hpasses⟩
    exact ⟨s, if_neg hrefused, h⟩
  | _ => exact ⟨s, rfl, h⟩

theorem Inv.guarded (h : Inv s) {a : Action R} (ha : ¬ Accepts s a) :
    ∃ s', (if s.visible = true ∧ s.editor.isNone = true then ManageRoutes.act s a else some s) =
      some s' ∧ Inv s' := by
  split_ifs with hopen
  · exact h.act hopen.1 hopen.2 ha
  · exact ⟨s, rfl, h⟩

/-- **One step**, but for an accept that passes the checks. -/
theorem Inv.step_other (h : Inv s) {a : Action R} (ha : ¬ Accepts s a) :
    ∃ s', step s a = some s' ∧ Inv s' := by
  cases a with
  | runJob i => exact ⟨_, rfl, h.alike (alike_runJob s.manager i)⟩
  | startUpdate => exact ⟨_, rfl, h.alike ⟨rfl, rfl, rfl, fun _ => rfl, fun _ => rfl, fun _ => rfl⟩⟩
  | updateNext i parsed => exact ⟨_, rfl, h.alike (alike_updateNext s.manager i parsed)⟩
  | rejectEditor => exact ⟨_, rfl, h.noEditor⟩
  | openDialog fields =>
    show ∃ s', (if s.visible then some s else ManageRoutes.openDialog fields s) = some s' ∧ Inv s'
    split_ifs
    · exact ⟨s, rfl, h⟩
    · exact h.openDialog fields
  | timeout =>
    show ∃ s', (if s.visible = true ∧ 0 < s.timers then
      some (reloadProfileItems { s with timers := s.timers - 1 }) else some s) = some s' ∧ Inv s'
    split_ifs with hpending
    · exact ⟨_, rfl, h.timeout hpending.1 _⟩
    · exact ⟨s, rfl, h⟩
  | settingsChanged edited =>
    show ∃ s', (if s.visible then ManageRoutes.settingsChanged edited s else some s) = some s' ∧ _
    split_ifs with hvisible
    · exact h.settingsChanged hvisible edited
    · exact ⟨s, rfl, h⟩
  | selectRow row => exact h.guarded ha
  | itemChanged idx checked => exact h.guarded ha
  | toggleRoute => exact h.guarded ha
  | routePriority priority => exact h.guarded ha
  | updateCurrentRouteProfile idx => exact h.guarded ha
  | newRoute fields => exact h.guarded ha
  | cloneRoute => exact h.guarded ha
  | editRoute => exact h.guarded ha
  | deleteRoute => exact h.guarded ha
  | accept dnsRulesValid switch => exact h.guarded ha
  | reject => exact h.guarded ha

/-- **An accept** that passes the checks. -/
theorem Inv.step_accept (h : Inv s) {a : Action R} (ha : Accepts s a) :
    (step s a = none ∧ (s.currentRoute = none ∨ ¬ Fits s.manager s.chainList)) ∨
    ∃ r t, s.currentRoute = some r ∧ Fits s.manager s.chainList ∧
      step s a = some t ∧ t.visible = false ∧ Inv t ∧
      (Accepted s.chainList t ↔ s.enabled r = true) := by
  cases a with
  | accept dnsRulesValid switch =>
    obtain ⟨hvisible, heditor, hpasses⟩ := ha
    have hstep : step s (.accept dnsRulesValid switch) = ManageRoutes.accept dnsRulesValid switch s :=
      if_pos ⟨hvisible, heditor⟩
    rw [hstep]
    exact h.accept hvisible hpasses switch
  | _ => exact ha.elim

theorem Accepts.visible {a : Action R} (ha : Accepts s a) : s.visible = true := by
  cases a with
  | accept dnsRulesValid switch => exact ha.1
  | _ => exact ha.elim

theorem Accepts.passes {a : Action R} (ha : Accepts s a) :
    ∃ dnsRulesValid, Passes s dnsRulesValid := by
  cases a with
  | accept dnsRulesValid switch => exact ⟨dnsRulesValid, ha.2.2⟩
  | _ => exact ha.elim

theorem Inv.safe_iff_harmless (h : Inv s) (a : Action R) : Safe s a ↔ Harmless s a := by
  by_cases ha : Accepts s a
  · rcases h.step_accept ha with ⟨hnone, hreason⟩ | ⟨r, t, hcurrent, hfits, ht, hclosed, -, hiff⟩
    · refine ⟨fun ⟨t, ht, _⟩ => absurd (hnone.symm.trans ht).symm (Option.some_ne_none t),
        fun hharmless => ?_⟩
      obtain ⟨htimers, hfits⟩ := hharmless ha
      obtain ⟨dnsRulesValid, hpasses⟩ := ha.passes
      obtain ⟨r, hr, -⟩ := (h.shown ha.visible).current_of_passes hpasses htimers
      rcases hreason with hnocurrent | hpast
      · exact absurd (hnocurrent.symm.trans hr).symm (Option.some_ne_none r)
      · exact absurd hfits hpast
    · constructor
      · rintro ⟨t', ht', -, haccepted⟩ -
        obtain rfl := Option.some.inj (ht.symm.trans ht')
        refine ⟨fun _ => ?_, hfits⟩
        rw [hcurrent]
        exact hiff.mp (haccepted ha)
      · intro hharmless
        obtain ⟨dnsRulesValid, hpasses⟩ := ha.passes
        obtain ⟨r', hr', hon⟩ :=
          (h.shown ha.visible).current_of_passes hpasses (hharmless ha).1
        obtain rfl := Option.some.inj (hcurrent.symm.trans hr')
        refine ⟨t, ht, fun hidle => ?_, fun _ => hiff.mpr hon⟩
        exact absurd (hclosed.symm.trans hidle.1) Bool.false_ne_true
  · obtain ⟨t, ht, hinv⟩ := h.step_other ha
    exact ⟨fun _ haccepts => absurd haccepts ha,
      fun _ => ⟨t, ht, hinv.sound, fun haccepts => absurd haccepts ha⟩⟩

theorem Inv.step {a : Action R} (h : Inv s) (hstep : ManageRoutes.step s a = some s') : Inv s' := by
  by_cases ha : Accepts s a
  · rcases h.step_accept ha with ⟨hnone, -⟩ | ⟨r, t, -, -, ht, -, hinv, -⟩
    · exact absurd (hnone.symm.trans hstep).symm (Option.some_ne_none s')
    · exact Option.some.inj (ht.symm.trans hstep) ▸ hinv
  · obtain ⟨t, ht, hinv⟩ := h.step_other ha
    exact Option.some.inj (ht.symm.trans hstep) ▸ hinv

/-! ### The start -/

section Start

open Database.RouteChains (start loadRoute unloaded addRouteChain_cases)

/-- The loop over the records. -/
structure LoadedInv (m : Database.RouteChains.State R) : Prop where
  le_max : ∀ r, m.entId r ≤ m.maxRouteChainId
  max_nonneg : 0 ≤ m.maxRouteChainId
  ordered : m.routes.Pairwise fun e e' => OrderedMap.less e.1 e'.1 = true
  key : ∀ e ∈ m.routes, e.2 = .loaded e.1 ∧ m.entId e.2 = e.1
  made : ∀ n, m.entId (.made n) = -1

theorem LoadedInv.load (h : LoadedInv m) (record : ℤ × Option (Chain R)) :
    LoadedInv (loadRoute m record) := by
  obtain ⟨id, held⟩ := record
  cases held with
  | none => exact h
  | some chain =>
    have hmax : m.maxRouteChainId ≤ (loadRoute m (id, some chain)).maxRouteChainId ∧
        id ≤ (loadRoute m (id, some chain)).maxRouteChainId := by
      show _ ≤ (if id > m.maxRouteChainId then id else m.maxRouteChainId) ∧
        _ ≤ (if id > m.maxRouteChainId then id else m.maxRouteChainId)
      split_ifs <;> omega
    refine ⟨fun r => ?_, h.max_nonneg.trans hmax.1, pairwise_assign_less _ _ h.ordered,
      fun e he => ?_, fun n => ?_⟩
    · show Function.update m.entId (.loaded id) id r ≤ _
      by_cases hr : r = .loaded id
      · rw [hr, Function.update_self]
        exact hmax.2
      · rw [Function.update_of_ne hr]
        exact (h.le_max r).trans hmax.1
    · show e.2 = .loaded e.1 ∧ Function.update m.entId (.loaded id) id e.2 = e.1
      rcases mem_assign_less he with he | rfl
      · obtain ⟨href, hkey⟩ := h.key e he
        refine ⟨href, ?_⟩
        rw [Function.update_apply]
        split_ifs with heq
        · exact Ref.loaded.inj (heq.symm.trans href)
        · exact hkey
      · exact ⟨rfl, Function.update_self _ _ _⟩
    · show Function.update m.entId (.loaded id) id (.made n) = -1
      rw [Function.update_of_ne (by simp)]
      exact h.made n

theorem loadedInv_foldl (records : List (ℤ × Option (Chain R))) :
    ∀ m : Database.RouteChains.State R, LoadedInv m → LoadedInv (records.foldl loadRoute m) := by
  induction records with
  | nil => exact fun _ h => h
  | cons record records ih => exact fun m h => ih _ (h.load record)

theorem inv_init {fields : Chain R} {records : List (ℤ × Option (Chain R))} {currentRouteId : ℤ}
    (hs : init fields records currentRouteId = some s) : Inv s := by
  obtain ⟨m, hm, rfl⟩ := Option.map_eq_some_iff.mp hs
  have hunloaded : LoadedInv (unloaded fields records) :=
    ⟨fun _ => (by decide : (-1 : ℤ) ≤ 0), le_rfl, List.Pairwise.nil,
      fun _ he => absurd he List.not_mem_nil, fun _ => rfl⟩
  have hloaded := loadedInv_foldl records _ hunloaded
  suffices hkeyed : Keyed m ∧ ∀ e ∈ m.routes, Old 1 e.2 from
    ⟨hkeyed.1, hkeyed.2, fun hfalse => absurd hfalse Bool.false_ne_true⟩
  unfold start at hm
  dsimp only at hm
  split_ifs at hm with hroutes
  · -- no record has been loaded
    obtain ⟨⟨added, t⟩, ht, rfl⟩ := Option.map_eq_some_iff.mp hm
    rcases addRouteChain_cases ht with ⟨hgiven, -, -⟩ | ⟨-, -, rfl⟩
    · rw [hloaded.made 0] at hgiven
      exact absurd hgiven (by decide)
    have hmax := hloaded.max_nonneg
    generalize records.foldl loadRoute (unloaded fields records) = m at hloaded hroutes hmax
    have hone : OrderedMap.assign OrderedMap.less (m.maxRouteChainId + 1) (.made 0) m.routes =
        [(m.maxRouteChainId + 1, .made 0)] := by
      rw [hroutes]
      rfl
    refine ⟨⟨fun r => ?_, ?_, ?_, pairwise_assign_less _ _ hloaded.ordered, fun e he => ?_⟩,
      fun e he => ?_⟩
    · show Function.update m.entId (.made 0) (m.maxRouteChainId + 1) r ≤ m.maxRouteChainId + 1
      have hle := hloaded.le_max r
      rw [Function.update_apply]
      split_ifs <;> omega
    · show 0 ≤ m.maxRouteChainId + 1
      omega
    · show OrderedMap.assign _ _ _ m.routes ≠ []
      rw [hone]
      exact List.cons_ne_nil _ _
    · replace he : e ∈ OrderedMap.assign OrderedMap.less (m.maxRouteChainId + 1) (.made 0) m.routes :=
        he
      rw [hone, List.mem_singleton] at he
      rw [he]
      show Function.update m.entId (.made 0) (m.maxRouteChainId + 1) (.made 0) = _
      rw [Function.update_self]
    · replace he : e ∈ OrderedMap.assign OrderedMap.less (m.maxRouteChainId + 1) (.made 0) m.routes :=
        he
      rw [hone, List.mem_singleton] at he
      rw [he]
      exact old_made 0
  · obtain rfl := Option.some.inj hm
    refine ⟨⟨hloaded.le_max, hloaded.max_nonneg, hroutes, hloaded.ordered,
      fun e he => (hloaded.key e he).2⟩, fun e he n hn => ?_⟩
    rw [(hloaded.key e he).1] at hn
    exact absurd hn Ref.noConfusion

end Start

/-- **Active routing profile.** -/
theorem sound_iff {fields : Chain R} {records : List (ℤ × Option (Chain R))}
    {currentRouteId : ℤ} {s₀ : State R} (hinit : init fields records currentRouteId = some s₀)
    (is : List (Action R)) :
    machine.Along Safe s₀ is ↔ machine.Along Harmless s₀ is :=
  Machine.along_iff Inv (fun _ a h => h.safe_iff_harmless a)
    (fun _ _ _ h _ hstep => h.step hstep) (inv_init hinit)

instance [DecidableEq R] (s : State R) (a : Action R) : Decidable (Accepts s a) := by
  unfold Accepts
  split <;> infer_instance

instance [DecidableEq R] (s : State R) (a : Action R) : Decidable (Harmless s a) := by
  unfold Harmless
  infer_instance

/-- What the samples start with: two chains, of which the first is the current route. -/
def sampleStart : Option (State String) :=
  init (Database.RouteChains.sampleChain "Default" "")
    [(1, some (Database.RouteChains.sampleChain "a" "x")),
      (2, some (Database.RouteChains.sampleChain "b" "x"))] 1

/-- The current route is edited and disabled, a clone of it gets a lower priority, and a new
    chain is added before the accept. -/
def sampleRun : List (Action String) :=
  [.openDialog (Database.RouteChains.sampleChain "Default" ""), .selectRow 0, .editRoute,
    .settingsChanged (Database.RouteChains.sampleChain "c" "y"), .cloneRoute, .routePriority 50,
    .newRoute (Database.RouteChains.sampleChain "" ""),
    .settingsChanged (Database.RouteChains.sampleChain "d" "y"), .itemChanged 0 false, .timeout,
    .updateCurrentRouteProfile 1, .accept true true, .runJob 0]

theorem sound_sampleRun :
    ∃ s₀, sampleStart = some s₀ ∧ machine.Along Safe s₀ sampleRun ∧
      (machine.run s₀ sampleRun).map (fun s => (s.currentRouteId, s.manager.routes.map Prod.fst)) =
        some (3, [1, 2, 3, 4]) := by
  have hstart : ∀ s₀, sampleStart = some s₀ → machine.Along Harmless s₀ sampleRun →
      machine.Along Safe s₀ sampleRun := fun s₀ hs₀ => (sound_iff hs₀ sampleRun).mpr
  refine ⟨_, rfl, hstart _ rfl ?_, ?_⟩
  · decide +kernel
  · decide +kernel

/-- The check box disables the current route, and the accept comes before the timer. -/
def earlyAccept : List (Action String) :=
  [.openDialog (Database.RouteChains.sampleChain "Default" ""), .itemChanged 0 false,
    .accept true false]

theorem accept_before_timeout :
    ¬ ∀ (fields : Chain String) (records : List (ℤ × Option (Chain String)))
        (currentRouteId : ℤ) (s₀ : State String) (is : List (Action String)),
      init fields records currentRouteId = some s₀ → machine.Along Safe s₀ is := by
  intro h
  have hoff : ((sampleStart.bind fun s₀ => machine.run s₀ earlyAccept).map fun s =>
      (s.manager.route s.currentRouteId).any s.enabled) = some false := by decide +kernel
  have hsafe := h (Database.RouteChains.sampleChain "Default" "")
    [(1, some (Database.RouteChains.sampleChain "a" "x")),
      (2, some (Database.RouteChains.sampleChain "b" "x"))] 1 _ earlyAccept rfl
  obtain ⟨s, hs, -, haccepted⟩ := ((hsafe.2 _ rfl).2 _ rfl).1
  obtain ⟨r, hr, hon⟩ := (haccepted (by decide +kernel)).current
  replace hoff : some ((s.manager.route s.currentRouteId).any s.enabled) = some false :=
    (congrArg (fun o => (o.bind some).map fun s : State String =>
      (s.manager.route s.currentRouteId).any s.enabled) hs).symm.trans hoff
  rw [hr] at hoff
  exact absurd (hon.symm.trans (Option.some.inj hoff)) (Bool.false_ne_true ∘ Eq.symm)

end ManageRoutes

end NekoBox.Window
