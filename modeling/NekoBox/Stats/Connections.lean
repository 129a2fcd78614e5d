import NekoBox.Lib.Feed
import NekoBox.Lib.Machine
import NekoBox.Lib.OrderedMap
import NekoBox.Qt.Strings
import NekoBox.Store.Compare

/-!
# The table of connections

`ConnectionLister` (`connectionLister.cpp`) asks the core for its connections, on a thread of
its own or when a header is clicked, and posts what the table is to show to the window, which
takes the calls in their order (`UpdateConnectionList` and `UpdateConnectionListWithRecreate`,
`mainwindow.cpp`, lines 2850–2966). `profile_stop` empties the table at once
(`mainwindow_rpc.cpp`, line 1063) and tells the lister nothing. The two threads are the
steps of one machine.

* `mem_keys_view_update`: what a listing adds to the table;
* `missing_iff`: when all calls are taken, the table has one row for each connection of the
  last listing but those listed at a stop and in the default order ever since.
-/

namespace NekoBox.Stats

open NekoBox.Lib NekoBox.Store

/-! ## The lister -/

structure ConnectionMetadata where
  id : String
  createdAtMs : ℤ
  upload : ℤ
  download : ℤ
  outbound : String
  network : String
  dest : String
  protocol : String
  domain : String
  process : String
deriving DecidableEq

inductive ConnectionSort
  | default | byDownload | byUpload | byProcess | byTraffic | byOutbound | byProtocol
deriving DecidableEq

structure ConnectionLister where
  /-- the identifiers of the last listing -/
  state : List String := []
  sort : ConnectionSort := .default
  asc : Bool := false

/-- `setSort` (lines 207–243) -/
def ConnectionLister.setSort (l : ConnectionLister) (newSort : ConnectionSort) : ConnectionLister :=
  if newSort = .byTraffic then
    if l.sort = .byDownload ∧ l.asc then { l with sort := .byUpload, asc := false }
    else if l.sort = .byUpload ∧ l.asc then { l with sort := .byDownload, asc := false }
    else if l.sort = .byDownload then { l with asc := true }
    else if l.sort = .byUpload then { l with asc := true }
    else { l with sort := .byDownload, asc := false }
  else if l.sort = newSort then { l with asc := !l.asc }
  else { l with sort := newSort, asc := false }

def textLess (s t : String) : Bool := decide (units16 s < units16 t)

/-- Equal values are in the order of the identifiers, which is turned around too. -/
def tieLess (asc : Bool) (a b : ConnectionMetadata) : Bool :=
  if asc then textLess b.id a.id else textLess a.id b.id

def numberOrder (value : ConnectionMetadata → ℤ) (asc : Bool) (a b : ConnectionMetadata) : Bool :=
  if value a = value b then tieLess asc a b
  else if asc then decide (value a < value b) else decide (value a > value b)

def textOrder (value : ConnectionMetadata → String) (asc : Bool) (a b : ConnectionMetadata) : Bool :=
  if value a = value b then tieLess asc a b
  else if asc then textLess (value b) (value a) else textLess (value a) (value b)

/-- The comparators of `update` (lines 155–194). -/
def connectionOrder (asc : Bool) : ConnectionSort → Option (ConnectionMetadata → ConnectionMetadata → Bool)
  | .byDownload => some (numberOrder (·.download) asc)
  | .byUpload => some (numberOrder (·.upload) asc)
  | .byProcess => some (textOrder (·.process) asc)
  | .byOutbound => some (textOrder (·.outbound) asc)
  | .byProtocol => some (textOrder (·.protocol) asc)
  | .default | .byTraffic => none

/-- `std::sort`. The identifiers differ, and the comparators with them. -/
def sortConnections (l : ConnectionLister) (conns : List ConnectionMetadata) : List ConnectionMetadata :=
  match connectionOrder l.asc l.sort with
  | some less => conns.mergeSort fun a b => !less b a
  | none => conns

/-- `QMap<QString, ConnectionMetadata>` -/
abbrev ConnectionMap := List (List ℕ × ConnectionMetadata)

/-- `map[c.id] = c` for the connections of a list. -/
def ConnectionMap.ofList (conns : List ConnectionMetadata) : ConnectionMap :=
  conns.foldl (fun m c => OrderedMap.assign OrderedMap.less (units16 c.id) c m) []

def ConnectionMap.find (m : ConnectionMap) (id : String) : Option ConnectionMetadata :=
  OrderedMap.find OrderedMap.less (units16 id) m

/-! ## The table -/

/-- A row: `IDKEY` of its first cell, and the texts. -/
structure Row where
  id : String
  dest : String
  process : String
  protocol : String
  outbound : String
  traffic : String
deriving DecidableEq

/-- `DisplayDest` (`Utils.cpp`, lines 618–622) -/
def displayDest (dest domain : String) : String :=
  if domain = "" ∨ (Qt.split ':' dest).head? = some domain then dest
  else dest ++ " (" ++ domain ++ ")"

/-- The calls posted to the window. -/
inductive UiCall
  | updateConnectionList (toUpdate toAdd : ConnectionMap)
  | updateConnectionListWithRecreate (connections : List ConnectionMetadata)

section

-- `ReadableSize` computes with floating point numbers
variable (readableSize : ℤ → String)

/-- The texts of a row. -/
def rowOf (conn : ConnectionMetadata) : Row where
  id := conn.id
  dest := displayDest conn.dest conn.domain
  process := conn.process
  protocol := if conn.protocol = "" then conn.network else conn.network ++ " (" ++ conn.protocol ++ ")"
  outbound := conn.outbound
  traffic := readableSize conn.upload ++ "↑" ++ " " ++ readableSize conn.download ++ "↓"

/-- `UpdateConnectionList` (lines 2850–2922): a row keeps its `IDKEY`. -/
def updateConnectionList (toUpdate toAdd : ConnectionMap) (table : List Row) : List Row :=
  (table.filterMap fun row =>
    (toUpdate.find row.id).map fun conn => { rowOf readableSize conn with id := row.id }) ++
  toAdd.map fun e => rowOf readableSize e.2

/-- `UpdateConnectionListWithRecreate` (lines 2924–2966) -/
def updateConnectionListWithRecreate (connections : List ConnectionMetadata) : List Row :=
  connections.map (rowOf readableSize)

def UiCall.run (table : List Row) : UiCall → List Row
  | .updateConnectionList toUpdate toAdd =>
    Stats.updateConnectionList readableSize toUpdate toAdd table
  | .updateConnectionListWithRecreate connections =>
    Stats.updateConnectionListWithRecreate readableSize connections

end

/-- `update` (lines 95–200) with an answer of the core: the new state, and the call. -/
def ConnectionLister.update (l : ConnectionLister) (conns : List ConnectionMetadata) :
    ConnectionLister × UiCall :=
  ({ l with state := conns.map (·.id) },
    if l.sort = .default then
      .updateConnectionList (ConnectionMap.ofList (conns.filter fun c => c.id ∈ l.state))
        (ConnectionMap.ofList (conns.filter fun c => c.id ∉ l.state))
    else .updateConnectionListWithRecreate (sortConnections l conns))

/-! ## The two threads -/

structure Connections where
  lister : ConnectionLister := {}
  /-- posted with `runOnUiThread`, not run yet -/
  calls : List UiCall := []
  table : List Row := []

inductive Event
  /-- the core has answered -/
  | update (conns : List ConnectionMetadata)
  /-- a header is clicked -/
  | setSort (newSort : ConnectionSort)
  /-- the window runs the first call -/
  | call
  | profileStop

section

variable (readableSize : ℤ → String)

def step (s : Connections) : Event → Option Connections
  | .update conns =>
    some { s with lister := (s.lister.update conns).1, calls := s.calls ++ [(s.lister.update conns).2] }
  | .setSort newSort => some { s with lister := s.lister.setSort newSort }
  | .call =>
    match s.calls with
    | [] => none
    | call :: calls => some { s with calls, table := call.run readableSize s.table }
  | .profileStop => some { s with table := updateConnectionListWithRecreate readableSize [] }

def machine : Machine Connections Event := ⟨step readableSize⟩

/-- The table when the calls have been run. -/
def Connections.view (s : Connections) : List Row :=
  s.calls.foldl (fun table call => call.run readableSize table) s.table

end

def lastListing (es : List Event) : List ConnectionMetadata :=
  es.foldl (fun last e => match e with
    | .update conns => conns
    | _ => last) []

/-! ## The maps -/

theorem equivalent_less {a b : List ℕ} : OrderedMap.Equivalent OrderedMap.less a b ↔ a = b := by
  constructor
  · rintro ⟨hab, hba⟩
    simp only [OrderedMap.less, decide_eq_false_iff_not, not_lt] at hab hba
    exact le_antisymm hba hab
  · rintro rfl
    simp [OrderedMap.Equivalent, OrderedMap.less]

theorem ofList_concat (conns : List ConnectionMetadata) (c : ConnectionMetadata) :
    ConnectionMap.ofList (conns ++ [c]) =
      OrderedMap.assign OrderedMap.less (units16 c.id) c (ConnectionMap.ofList conns) := by
  rw [ConnectionMap.ofList, List.foldl_append]
  rfl

/-- An entry is a connection under its identifier. -/
theorem mem_ofList {conns : List ConnectionMetadata} {e : List ℕ × ConnectionMetadata}
    (h : e ∈ ConnectionMap.ofList conns) : e.1 = units16 e.2.id ∧ e.2 ∈ conns := by
  induction conns using List.reverseRecOn generalizing e with
  | nil => cases h
  | append_singleton conns c ih =>
    rw [ofList_concat] at h
    have hc : c ∈ conns ++ [c] := List.mem_append_right _ (List.mem_singleton_self c)
    rcases OrderedMap.mem_assign h with hold | rfl | ⟨e', -, hequiv, rfl⟩
    · exact ⟨(ih hold).1, List.mem_append_left _ (ih hold).2⟩
    · exact ⟨rfl, hc⟩
    · exact ⟨equivalent_less.mp hequiv, hc⟩

theorem pairwise_ofList (conns : List ConnectionMetadata) :
    (ConnectionMap.ofList conns).Pairwise fun e e' => OrderedMap.less e.1 e'.1 = true := by
  induction conns using List.reverseRecOn with
  | nil => exact List.Pairwise.nil
  | append_singleton conns c ih =>
    rw [ofList_concat]
    refine OrderedMap.pairwise_assign ?_ ih
    intro a b c hab hbc
    simp only [OrderedMap.less, decide_eq_true_eq] at *
    exact hab.trans hbc

theorem find_ofList {conns : List ConnectionMetadata} (hconns : (conns.map (·.id)).Nodup)
    {id : String} {c : ConnectionMetadata} :
    (ConnectionMap.ofList conns).find id = some c ↔ c ∈ conns ∧ c.id = id := by
  induction conns using List.reverseRecOn with
  | nil =>
    show none = some c ↔ _
    simp
  | append_singleton conns d ih =>
    rw [List.map_append, List.nodup_append'] at hconns
    obtain ⟨hconns, -, hdisjoint⟩ := hconns
    rw [ConnectionMap.find, ofList_concat, OrderedMap.find_assign_less]
    by_cases hd : d.id = id
    · rw [if_pos (congrArg units16 hd), Option.some.injEq, List.mem_append, List.mem_singleton]
      constructor
      · rintro rfl
        exact ⟨.inr rfl, hd⟩
      · rintro ⟨hc | rfl, hid⟩
        · exact absurd (List.mem_singleton.mpr (hid.trans hd.symm))
            (hdisjoint (List.mem_map_of_mem hc))
        · rfl
    · rw [if_neg fun h => hd (units16_inj.mp h)]
      have hfind := ih hconns
      rw [ConnectionMap.find] at hfind
      rw [hfind, List.mem_append, List.mem_singleton]
      constructor
      · rintro ⟨hc, hid⟩
        exact ⟨.inl hc, hid⟩
      · rintro ⟨hc | rfl, hid⟩
        · exact ⟨hc, hid⟩
        · exact absurd hid hd

theorem exists_of_find {m : ConnectionMap} {id : String} {c : ConnectionMetadata}
    (h : m.find id = some c) : ∃ e ∈ m, e.2 = c := by
  rw [ConnectionMap.find] at h
  induction m with
  | nil => cases h
  | cons e m ih =>
    unfold OrderedMap.find at h
    split_ifs at h with hless hgreater
    · obtain ⟨e', he', hc⟩ := ih h
      exact ⟨e', List.mem_cons_of_mem _ he', hc⟩
    · exact ⟨e, List.mem_cons_self, Option.some.inj h⟩

theorem nodup_ids_ofList (conns : List ConnectionMetadata) :
    ((ConnectionMap.ofList conns).map fun e => e.2.id).Nodup := by
  refine List.pairwise_map.mpr ((pairwise_ofList conns).imp_of_mem ?_)
  intro e e' he he' hless hid
  rw [(mem_ofList he).1, (mem_ofList he').1, hid] at hless
  simp [OrderedMap.less] at hless

/-! ## The calls as messages -/

section

variable (readableSize : ℤ → String)

def UiCall.message : UiCall → Feed.Message String Row
  | .updateConnectionList toUpdate toAdd =>
    .patch (fun id => (toUpdate.find id).map fun conn => { rowOf readableSize conn with id })
      (toAdd.map fun e => rowOf readableSize e.2)
  | .updateConnectionListWithRecreate connections => .replace (connections.map (rowOf readableSize))

theorem run_eq_apply (call : UiCall) (table : List Row) :
    call.run readableSize table = Feed.apply Row.id (call.message readableSize) table := by
  cases call <;> rfl

theorem view_eq_applyAll (s : Connections) :
    s.view readableSize = Feed.applyAll Row.id (s.calls.map (UiCall.message readableSize)) s.table := by
  rw [Connections.view, Feed.applyAll, List.foldl_map]
  exact congrArg (fun f => s.calls.foldl f s.table)
    (funext₂ fun table call => run_eq_apply readableSize call table)

theorem perm_sortConnections (l : ConnectionLister) (conns : List ConnectionMetadata) :
    (sortConnections l conns).Perm conns := by
  unfold sortConnections
  cases connectionOrder l.asc l.sort with
  | none => exact List.Perm.refl conns
  | some less => exact List.mergeSort_perm conns _

/-- The patch of a listing in the default order. -/
theorem update_patch {l : ConnectionLister} {conns : List ConnectionMetadata}
    (hconns : (conns.map (·.id)).Nodup) (id : String) (row : Row) :
    ((ConnectionMap.ofList (conns.filter fun c => c.id ∈ l.state)).find id).map
        (fun conn => { rowOf readableSize conn with id }) = some row ↔
      row ∈ conns.map (rowOf readableSize) ∧ row.id = id ∧ id ∈ l.state := by
  have hknown : ((conns.filter fun c => c.id ∈ l.state).map (·.id)).Nodup :=
    (List.filter_sublist.map _).nodup hconns
  rw [Option.map_eq_some_iff]
  simp only [find_ofList hknown, List.mem_filter, decide_eq_true_eq, List.mem_map]
  constructor
  · rintro ⟨c, ⟨⟨hc, hstate⟩, rfl⟩, rfl⟩
    exact ⟨⟨c, hc, rfl⟩, rfl, hstate⟩
  · rintro ⟨⟨c, hc, rfl⟩, rfl, hstate⟩
    exact ⟨c, ⟨⟨hc, hstate⟩, rfl⟩, rfl⟩

theorem update_new {l : ConnectionLister} {conns : List ConnectionMetadata}
    (hconns : (conns.map (·.id)).Nodup) (row : Row) :
    row ∈ (ConnectionMap.ofList (conns.filter fun c => c.id ∉ l.state)).map
        (fun e => rowOf readableSize e.2) ↔
      row ∈ conns.map (rowOf readableSize) ∧ row.id ∉ l.state := by
  have hnew : ((conns.filter fun c => c.id ∉ l.state).map (·.id)).Nodup :=
    (List.filter_sublist.map _).nodup hconns
  simp only [List.mem_map]
  constructor
  · rintro ⟨e, he, rfl⟩
    obtain ⟨hc, hstate⟩ := List.mem_filter.mp (mem_ofList he).2
    exact ⟨⟨e.2, hc, rfl⟩, of_decide_eq_true hstate⟩
  · rintro ⟨⟨c, hc, rfl⟩, hstate⟩
    have hmem : c ∈ conns.filter fun c => c.id ∉ l.state :=
      List.mem_filter.mpr ⟨hc, decide_eq_true hstate⟩
    obtain ⟨e, he, rfl⟩ := exists_of_find ((find_ofList hnew).mpr ⟨hmem, rfl⟩)
    exact ⟨e, he, rfl⟩

theorem nodup_new (l : ConnectionLister) (conns : List ConnectionMetadata) :
    (((ConnectionMap.ofList (conns.filter fun c => c.id ∉ l.state)).map
      fun e => rowOf readableSize e.2).map Row.id).Nodup := by
  rw [List.map_map]
  exact nodup_ids_ofList _

theorem announces_update {l : ConnectionLister} {conns : List ConnectionMetadata}
    (hconns : (conns.map (·.id)).Nodup) :
    Feed.Announces Row.id (· ∈ l.state) (conns.map (rowOf readableSize))
      ((l.update conns).2.message readableSize) := by
  unfold ConnectionLister.update
  dsimp only
  split_ifs with hsort
  · exact .patch (update_patch readableSize hconns) (update_new readableSize hconns)
      (nodup_new readableSize l conns)
  · exact .replace ((perm_sortConnections l conns).map _)

theorem ids_rows (conns : List ConnectionMetadata) :
    (conns.map (rowOf readableSize)).map Row.id = conns.map (·.id) := by
  rw [List.map_map]
  rfl

/-! ## One step -/

/-- The table of a stop, with the calls that are still to be run. -/
def Connections.stopped (s : Connections) : Connections := { s with table := [] }

variable {readableSize} {s s' : Connections} {conns : List ConnectionMetadata} {id : String}

/-- What a step does to the lister and the table to come. -/
theorem step_cases {e : Event} (h : step readableSize s e = some s') :
    (∃ conns, e = .update conns ∧ s'.lister = (s.lister.update conns).1 ∧ s'.view readableSize =
      Feed.apply Row.id ((s.lister.update conns).2.message readableSize) (s.view readableSize)) ∨
    (e = .profileStop ∧ s' = s.stopped) ∨
    ((∀ conns, e ≠ .update conns) ∧ e ≠ .profileStop ∧ s'.lister.state = s.lister.state ∧
      s'.view readableSize = s.view readableSize) := by
  cases e with
  | update conns =>
    obtain rfl := Option.some.inj h
    refine .inl ⟨conns, rfl, rfl, ?_⟩
    rw [view_eq_applyAll, view_eq_applyAll, List.map_append]
    exact Feed.applyAll_concat _ _ _
  | setSort newSort =>
    obtain rfl := Option.some.inj h
    refine .inr (.inr ⟨by simp, by simp, ?_, rfl⟩)
    show (s.lister.setSort newSort).state = s.lister.state
    unfold ConnectionLister.setSort
    split_ifs <;> rfl
  | call =>
    unfold step at h
    cases hcalls : s.calls with
    | nil =>
      rw [hcalls] at h
      cases h
    | cons call calls =>
      rw [hcalls] at h
      obtain rfl := Option.some.inj h
      refine .inr (.inr ⟨by simp, by simp, rfl, ?_⟩)
      rw [Connections.view, Connections.view, hcalls, List.foldl_cons]
  | profileStop =>
    obtain rfl := Option.some.inj h
    exact .inr (.inl ⟨rfl, rfl⟩)

/-- A listing in the default order shows what it adds, and what was shown. -/
theorem mem_keys_view_update (hconns : (conns.map (·.id)).Nodup) (hsort : s.lister.sort = .default) :
    id ∈ (Feed.apply Row.id ((s.lister.update conns).2.message readableSize)
        (s.view readableSize)).map Row.id ↔
      id ∈ conns.map (·.id) ∧ (id ∈ s.lister.state → id ∈ (s.view readableSize).map Row.id) := by
  rw [ConnectionLister.update, if_pos hsort, ← ids_rows readableSize conns]
  exact Feed.mem_keys_patch (update_patch readableSize hconns) (update_new readableSize hconns)

theorem mem_keys_view_recreate (hsort : s.lister.sort ≠ .default) :
    id ∈ (Feed.apply Row.id ((s.lister.update conns).2.message readableSize)
        (s.view readableSize)).map Row.id ↔ id ∈ conns.map (·.id) := by
  rw [ConnectionLister.update, if_neg hsort, ← ids_rows readableSize conns]
  exact Feed.mem_keys_replace ((perm_sortConnections s.lister conns).map _)

theorem sublist_view_stopped : (s.stopped.view readableSize).Sublist (s.view readableSize) := by
  rw [view_eq_applyAll, view_eq_applyAll]
  exact Feed.sublist_applyAll _ (List.nil_sublist _)

/-! ## Whole runs -/

/-- The identifiers of every answer differ. -/
def Distinct (es : List Event) : Prop := ∀ conns, .update conns ∈ es → (conns.map (·.id)).Nodup

/-- The state is that of the last listing, of which the table to come shows rows. -/
structure Coherent (readableSize : ℤ → String) (es : List Event) (s : Connections) : Prop where
  state_eq : s.lister.state = (lastListing es).map (·.id)
  reflects : Feed.Reflects Row.id ((lastListing es).map (rowOf readableSize)) (s.view readableSize)

theorem Coherent.mem_state {es : List Event} (h : Coherent readableSize es s) :
    ∀ id ∈ (s.view readableSize).map Row.id, id ∈ s.lister.state := by
  intro id hid
  rw [h.state_eq, ← ids_rows readableSize]
  exact List.map_subset _ h.reflects.subset hid

@[simp] theorem lastListing_concat_update (es : List Event) (conns : List ConnectionMetadata) :
    lastListing (es ++ [.update conns]) = conns := by
  rw [lastListing, List.foldl_append]
  rfl

theorem lastListing_concat {es : List Event} {e : Event} (he : ∀ conns, e ≠ .update conns) :
    lastListing (es ++ [e]) = lastListing es := by
  rw [lastListing, List.foldl_append]
  cases e with
  | update conns => exact absurd rfl (he conns)
  | setSort => rfl
  | call => rfl
  | profileStop => rfl

theorem coherent_run {es : List Event} (hes : Distinct es)
    (hrun : (machine readableSize).run {} es = some s) : Coherent readableSize es s := by
  induction es using List.reverseRecOn generalizing s with
  | nil =>
    obtain rfl := Option.some.inj hrun
    exact ⟨rfl, List.nodup_nil, List.Subset.refl []⟩
  | append_singleton es e ih =>
    obtain ⟨t, ht, hstep⟩ := Machine.run_concat_eq_some.mp hrun
    have h := ih (fun conns hmem => hes conns (List.mem_append_left _ hmem)) ht
    rcases step_cases hstep with ⟨conns, rfl, hlister, hview⟩ | ⟨rfl, rfl⟩ | ⟨he, -, hstate, hview⟩
    · have hconns := hes conns (List.mem_append_right _ (List.mem_singleton_self _))
      refine ⟨by rw [hlister, lastListing_concat_update]; rfl, ?_⟩
      rw [hview, lastListing_concat_update]
      refine Feed.reflects_apply (announces_update readableSize hconns) ?_ h.mem_state
        h.reflects.nodup
      rwa [ids_rows]
    · have hlast : lastListing (es ++ [.profileStop]) = lastListing es :=
        lastListing_concat fun conns h => by cases h
      exact ⟨by rw [hlast]; exact h.state_eq,
        by rw [hlast]; exact h.reflects.sublist sublist_view_stopped⟩
    · exact ⟨by rw [hstate, lastListing_concat he, h.state_eq],
        by rw [hview, lastListing_concat he]; exact h.reflects⟩

variable (readableSize)

/-- An answer of the core has the connection and is not sorted. -/
def Keeps (id : String) (s : Connections) (e : Event) : Prop :=
  ∀ conns, e = .update conns → s.lister.sort = .default ∧ id ∈ conns.map (·.id)

/-- There was a stop at which the connection was in the last listing, and no call still to be
    run added it; every listing since has it, in the default order. -/
def Missed (id : String) (es : List Event) : Prop :=
  ∃ pre post s, es = pre ++ .profileStop :: post ∧ (machine readableSize).run {} pre = some s ∧
    id ∈ s.lister.state ∧ id ∉ (s.stopped.view readableSize).map Row.id ∧
    (machine readableSize).Along (Keeps id) s.stopped post

variable {readableSize}

theorem run_stop {pre post : List Event} (hpre : (machine readableSize).run {} pre = some s) :
    (machine readableSize).run {} (pre ++ .profileStop :: post) =
      (machine readableSize).run s.stopped post := by
  rw [Machine.run_append, hpre]
  rfl

/-- The last event of a run in which a connection is missed. -/
theorem missed_concat {es : List Event} {e : Event}
    (hrun : (machine readableSize).run {} es = some s) :
    Missed readableSize id (es ++ [e]) ↔
      (e = .profileStop ∧ id ∈ s.lister.state ∧ id ∉ (s.stopped.view readableSize).map Row.id) ∨
        (Missed readableSize id es ∧ Keeps id s e) := by
  constructor
  · rintro ⟨pre, post, t, hes, hpre, hstate, hview, hpost⟩
    rcases List.eq_nil_or_concat post with rfl | ⟨post, e', rfl⟩
    · obtain ⟨rfl, he⟩ := List.append_inj' hes rfl
      obtain rfl := Option.some.inj (hpre.symm.trans hrun)
      exact .inl ⟨List.head_eq_of_cons_eq he, hstate, hview⟩
    · rw [List.concat_eq_append] at hes hpost
      rw [← List.cons_append, ← List.append_assoc] at hes
      obtain ⟨rfl, he⟩ := List.append_inj' hes rfl
      obtain rfl := List.head_eq_of_cons_eq he
      obtain ⟨hpost, hlast⟩ := Machine.along_concat.mp hpost
      rw [run_stop hpre] at hrun
      exact .inr ⟨⟨pre, post, t, rfl, hpre, hstate, hview, hpost⟩, hlast s hrun⟩
  · rintro (⟨rfl, hstate, hview⟩ | ⟨⟨pre, post, t, rfl, hpre, hstate, hview, hpost⟩, hlast⟩)
    · exact ⟨es, [], s, rfl, hrun, hstate, hview, trivial⟩
    · refine ⟨pre, post ++ [e], t, by rw [List.append_assoc, List.cons_append], hpre, hstate, hview,
        Machine.along_concat.mpr ⟨hpost, fun s' hs' => ?_⟩⟩
      rw [run_stop hpre] at hrun
      obtain rfl := Option.some.inj (hrun.symm.trans hs')
      exact hlast

/-- **What is missing** when the window has run all calls. -/
theorem missing_iff {es : List Event} (hes : Distinct es)
    (hrun : (machine readableSize).run {} es = some s) :
    (id ∈ s.lister.state ∧ id ∉ (s.view readableSize).map Row.id) ↔ Missed readableSize id es := by
  induction es using List.reverseRecOn generalizing s with
  | nil =>
    obtain rfl := Option.some.inj hrun
    constructor
    · rintro ⟨hstate, -⟩
      cases hstate
    · rintro ⟨pre, post, t, hnil, -⟩
      simp at hnil
  | append_singleton es e ih =>
    obtain ⟨t, ht, hstep⟩ := Machine.run_concat_eq_some.mp hrun
    have hes' : Distinct es := fun conns hmem => hes conns (List.mem_append_left _ hmem)
    rw [missed_concat ht, ← ih hes' ht]
    rcases step_cases hstep with ⟨conns, rfl, hlister, hview⟩ | ⟨rfl, rfl⟩ | ⟨he, hstop, hstate, hview⟩
    · have hconns := hes conns (List.mem_append_right _ (List.mem_singleton_self _))
      have hkeeps : Keeps id t (.update conns) ↔ t.lister.sort = .default ∧ id ∈ conns.map (·.id) :=
        ⟨fun h => h conns rfl, fun h conns' heq => by obtain rfl := Event.update.inj heq; exact h⟩
      have hstate : s.lister.state = conns.map (·.id) := by rw [hlister]; rfl
      rw [hkeeps, hview, hstate]
      by_cases hsort : t.lister.sort = .default
      · rw [mem_keys_view_update hconns hsort]
        simp only [hsort, reduceCtorEq, false_and, true_and, false_or]
        tauto
      · rw [mem_keys_view_recreate hsort]
        simp only [hsort, reduceCtorEq, false_and, and_false, or_false, iff_false]
        exact fun h => h.2 h.1
    · have hkeeps : Keeps id t .profileStop := fun conns h => by cases h
      simp only [hkeeps, and_true, true_and]
      constructor
      · exact .inl
      · rintro (h | ⟨hstate, hview⟩)
        · exact h
        · exact ⟨hstate, fun h => hview (List.map_subset _ sublist_view_stopped.subset h)⟩
    · have hkeeps : Keeps id t e := fun conns heq => absurd heq (he conns)
      simp only [hkeeps, hstop, hstate, hview, false_and, false_or, and_true]

/-- **The table of a run**, when the window has run all calls: rows of the last listing, no
    connection twice, and none missing but for a stop. -/
theorem table_run (es : List Event) (hes : Distinct es)
    (hrun : (machine readableSize).run {} es = some s) :
    ((s.view readableSize).map Row.id).Nodup ∧
      (∀ row ∈ s.view readableSize, ∃ conn ∈ lastListing es, row = rowOf readableSize conn) ∧
      ∀ conn ∈ lastListing es, conn.id ∉ (s.view readableSize).map Row.id ↔
        Missed readableSize conn.id es := by
  have h := coherent_run hes hrun
  refine ⟨h.reflects.nodup, fun row hrow => ?_, fun conn hconn => ?_⟩
  · obtain ⟨conn, hconn, hrow⟩ := List.mem_map.mp (h.reflects.subset hrow)
    exact ⟨conn, hconn, hrow.symm⟩
  · have hstate : conn.id ∈ s.lister.state := by
      rw [h.state_eq]
      exact List.mem_map_of_mem hconn
    rw [← missing_iff hes hrun]
    exact ⟨fun hview => ⟨hstate, hview⟩, fun hmissing => hmissing.2⟩

end

/-- A connection that the core has just opened. -/
def openedConnection (id : String) : ConnectionMetadata where
  id
  createdAtMs := 0
  upload := 0
  download := 0
  outbound := "proxy"
  network := "tcp"
  dest := "1.2.3.4:443"
  protocol := "tls"
  domain := "example.org"
  process := "curl"

/-- The profile is stopped, but the core still answers. -/
def stoppedRun : List Event :=
  [.update [openedConnection "1"], .call, .profileStop,
    .update [openedConnection "1", openedConnection "2"], .call]

theorem table_run_stoppedRun : ∃ s, (machine fun _ => "0.00 B").run {} stoppedRun = some s ∧
    s.calls = [] ∧ s.table.map Row.id = ["2"] ∧
      (s.view fun _ => "0.00 B").map Row.id = ["2"] ∧
      ((openedConnection "1").id ∉ (s.view fun _ => "0.00 B").map Row.id ↔
        Missed (fun _ => "0.00 B") (openedConnection "1").id stoppedRun) := by
  have hdistinct : Distinct stoppedRun := by
    intro conns h
    simp only [stoppedRun, List.mem_cons, Event.update.injEq, reduceCtorEq, List.not_mem_nil,
      or_false, false_or] at h
    rcases h with rfl | rfl <;> decide
  have hrun : (machine fun _ => "0.00 B").run {} stoppedRun = some _ := rfl
  exact ⟨_, hrun, rfl, rfl, rfl, (table_run stoppedRun hdistinct hrun).2.2 _ List.mem_cons_self⟩

end NekoBox.Stats
