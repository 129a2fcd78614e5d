import NekoBox.Lib.Machine

/-!
# The order of the group tabs

`ProfileManager` keeps the groups in a map and the order of their tabs in the list
`groupsTabOrder`. `LoadManager` (`Database.cpp`, lines 739–850) takes the list from its
record and the map from the records of the groups; `AddGroupBatch` and
`BatchDeleteGroups` (lines 1200–1254) change both; the handler of `tabMoved`
(`mainwindow.cpp`, lines 1063–1072) replaces the list by the data of the tabs, which
`refresh_groups` (lines 3142–3199) has set. The job of `BatchDeleteGroups` changes neither:
the groups are out of the map when it asks for them.

A step has no result where an identifier overflows, or a group that is not in the map is
dereferenced.

* `enumerates_harmless`: in a run in which no group is repeated in a stored order and tabs
  are only moved while they show the groups there are, the list enumerates the map.
* `enumerates_load_iff`: `LoadManager` leaves an enumeration exactly when no group is
  repeated in the stored order.
-/

namespace NekoBox.Database

open NekoBox.Lib

namespace TabOrder

/-! ## The code -/

structure State where
  /-- The keys of `groups`. -/
  groups : Finset ℤ
  groupsTabOrder : List ℤ
  maxGroupId : ℤ
  /-- `ent->id`, for the group objects made by `NewGroup`. -/
  entId : ℕ → ℤ
  /-- The data of the tabs, from left to right. -/
  tabData : List ℤ

/-- Before `LoadManager`. There is one tab, without data. -/
def init : State := ⟨∅, [], 1, fun _ => -1, [0]⟩

/-- The largest `int`. -/
def maxInt : ℤ := 2147483647

/-- A group without an identifier is given one and added. -/
def addGroup (s : State) : Option State :=
  let id := s.maxGroupId + 1
  if id > maxInt then none
  else some { s with
    maxGroupId := id
    groups := insert id s.groups
    groupsTabOrder := s.groupsTabOrder ++ [id] }

/-- The loop body of `AddGroupBatch` (lines 1202–1212), for a group object. -/
def addEnt (s : State) (ent : ℕ) : Option State :=
  if 0 ≤ s.entId ent then some s
  else (addGroup s).map fun s' => { s' with entId := Function.update s.entId ent s'.maxGroupId }

/-- The loop body of `BatchDeleteGroups` (lines 1233–1237). -/
def deleteGroup (s : State) (gid : ℤ) : State :=
  { s with
    groupsTabOrder := s.groupsTabOrder.filter (· ≠ gid)
    groups := s.groups.erase gid }

/-- What the loop over the records of groups has: `groups`, `max` and `loadedOrder`. -/
structure Loading where
  groups : Finset ℤ
  max : ℤ
  loadedOrder : List ℤ

/-- The loop body for a record (lines 782–796), with its identifier and the one it holds. -/
def loadGroup (l : Loading) (record : ℤ × ℤ) : Loading :=
  let id := record.1
  if record.2 ≠ id then l
  else
    { groups := insert id l.groups
      max := if id > l.max then id else l.max
      loadedOrder := if id ∈ l.loadedOrder then l.loadedOrder else l.loadedOrder ++ [id] }

/-- `LoadManager` (lines 739–850): `stored` is the list after `JsonStore::Load`. -/
def loadManager (stored : List ℤ) (records : List (ℤ × ℤ)) (s : State) : Option State :=
  let l := records.foldl loadGroup ⟨∅, 0, stored⟩
  let s := { s with
    groups := l.groups
    maxGroupId := l.max
    groupsTabOrder := l.loadedOrder.filter (· ∈ l.groups) }
  if s.groups = ∅ then addGroup s else some s

/-- `refresh_groups` (lines 3142–3181). The first tab is never removed. -/
def refreshGroups (s : State) : Option State :=
  (if s.groups = ∅ then addGroup s else some s).bind fun s =>
    if ∀ gid ∈ s.groupsTabOrder, gid ∈ s.groups then
      some { s with tabData :=
        if s.groupsTabOrder = [] then s.tabData.take 1 else s.groupsTabOrder }
    else none

/-- A tab is moved, and `tabMoved` handled (lines 1063–1072). -/
def tabMoved (source target : ℕ) (s : State) : Option State :=
  if h : source < s.tabData.length ∧ target < s.tabData.length then
    let tabData := (s.tabData.eraseIdx source).insertIdx target (s.tabData.get ⟨source, h.1⟩)
    some { s with tabData := tabData, groupsTabOrder := tabData }
  else none

inductive Action where
  /-- `LoadManager`, for a list and records that are found. -/
  | loadManager (stored : List ℤ) (records : List (ℤ × ℤ))
  | addGroupBatch (ents : List ℕ)
  | batchDeleteGroups (ids : List ℤ)
  | refreshGroups
  | tabMoved (source target : ℕ)

def step (s : State) : Action → Option State
  | .loadManager stored records => loadManager stored records s
  | .addGroupBatch ents => ents.foldlM addEnt s
  | .batchDeleteGroups ids => some (ids.foldl deleteGroup s)
  | .refreshGroups => refreshGroups s
  | .tabMoved source target => tabMoved source target s

def machine : Machine State Action := ⟨step⟩

/-! ## The property -/

/-- Every group is in the list once, and nothing else is. -/
def Enumerates (s : State) : Prop :=
  s.groupsTabOrder.Nodup ∧ ∀ id, id ∈ s.groupsTabOrder ↔ id ∈ s.groups

/-- The record of the group says it is that group. -/
def Loads (records : List (ℤ × ℤ)) (id : ℤ) : Prop := (id, id) ∈ records

instance (records : List (ℤ × ℤ)) : DecidablePred (Loads records) :=
  fun id => inferInstanceAs (Decidable ((id, id) ∈ records))

/-- The stored order repeats no group that is loaded; tabs are moved while they show the
    groups there are. -/
def Harmless (s : State) : Action → Prop
  | .loadManager stored records => (stored.filter fun id => Loads records id).Nodup
  | .tabMoved _ _ => ∀ id, id ∈ s.tabData ↔ id ∈ s.groups
  | _ => True

/-! ## The invariant -/

/-- The list enumerates the groups, none of which is past the counter, and no two tabs are
    of one group. -/
structure Inv (s : State) : Prop where
  nodup : s.groupsTabOrder.Nodup
  mem : ∀ id, id ∈ s.groupsTabOrder ↔ id ∈ s.groups
  le_max : ∀ id ∈ s.groups, id ≤ s.maxGroupId
  tabs : s.tabData.Nodup

theorem inv_init : Inv init where
  nodup := List.nodup_nil
  mem := by simp [init]
  le_max := by simp [init]
  tabs := List.nodup_singleton 0

theorem Inv.addGroup {s s' : State} (h : Inv s) (hs' : addGroup s = some s') : Inv s' := by
  unfold TabOrder.addGroup at hs'
  dsimp only at hs'
  split_ifs at hs' with hmax
  obtain rfl := Option.some.inj hs'
  have hnew : s.maxGroupId + 1 ∉ s.groups := fun hmem => by
    have hle := h.le_max _ hmem
    omega
  refine ⟨?_, fun id => ?_, fun id hid => ?_, h.tabs⟩
  · refine List.nodup_append.mpr ⟨h.nodup, List.nodup_singleton _, ?_⟩
    rintro a ha b hb rfl
    rw [List.mem_singleton] at hb
    exact hnew (hb ▸ (h.mem a).mp ha)
  · show id ∈ s.groupsTabOrder ++ [s.maxGroupId + 1] ↔ id ∈ insert (s.maxGroupId + 1) s.groups
    rw [List.mem_append, List.mem_singleton, h.mem, Finset.mem_insert, or_comm]
  · rcases Finset.mem_insert.mp hid with rfl | hid
    · exact le_rfl
    · exact (h.le_max id hid).trans (by show s.maxGroupId ≤ s.maxGroupId + 1; omega)

theorem Inv.addEnt {s s' : State} {ent : ℕ} (h : Inv s) (hs' : addEnt s ent = some s') :
    Inv s' := by
  unfold TabOrder.addEnt at hs'
  split_ifs at hs' with hgiven
  · obtain rfl := Option.some.inj hs'
    exact h
  · obtain ⟨t, ht, rfl⟩ := Option.map_eq_some_iff.mp hs'
    have hadded := h.addGroup ht
    exact ⟨hadded.nodup, hadded.mem, hadded.le_max, hadded.tabs⟩

theorem Inv.deleteGroup {s : State} (h : Inv s) (gid : ℤ) : Inv (deleteGroup s gid) where
  nodup := h.nodup.filter _
  mem := by
    intro id
    show id ∈ s.groupsTabOrder.filter (· ≠ gid) ↔ id ∈ s.groups.erase gid
    rw [List.mem_filter, Finset.mem_erase, h.mem, decide_eq_true_iff, and_comm]
  le_max := fun id hid => h.le_max id (Finset.mem_of_mem_erase hid)
  tabs := h.tabs

/-! ### Loading -/

/-- The loop over the records `done`. -/
structure LoadInv (stored : List ℤ) (done : List (ℤ × ℤ)) (l : Loading) : Prop where
  mem : ∀ id, id ∈ l.groups ↔ Loads done id
  le_max : ∀ id ∈ l.groups, id ≤ l.max
  /-- What is added to the stored order is in it once. -/
  order : ∃ added : List ℤ, l.loadedOrder = stored ++ added ∧ added.Nodup ∧
    (∀ id ∈ added, id ∉ stored) ∧ ∀ id ∈ l.groups, id ∈ stored ++ added

theorem loadInv_nil (stored : List ℤ) : LoadInv stored [] ⟨∅, 0, stored⟩ where
  mem := by simp [Loads]
  le_max := by simp
  order := ⟨[], by simp⟩

theorem LoadInv.loadGroup {stored : List ℤ} {done : List (ℤ × ℤ)} {l : Loading}
    (h : LoadInv stored done l) (record : ℤ × ℤ) :
    LoadInv stored (done ++ [record]) (loadGroup l record) := by
  obtain ⟨id, held⟩ := record
  unfold TabOrder.loadGroup
  dsimp only
  by_cases hheld : held = id
  · subst hheld
    rw [if_neg (not_not.mpr rfl)]
    refine ⟨fun id => ?_, fun id hid => ?_, ?_⟩
    · rw [Finset.mem_insert, h.mem, Loads, Loads, List.mem_append, List.mem_singleton, or_comm,
        Prod.mk.injEq, and_self]
    · rcases Finset.mem_insert.mp hid with rfl | hid
      · dsimp only
        split_ifs <;> omega
      · have hle := h.le_max id hid
        dsimp only
        split_ifs <;> omega
    · obtain ⟨added, horder, hnodup, hfresh, hall⟩ := h.order
      dsimp only
      rw [horder]
      split_ifs with hmem
      · refine ⟨added, rfl, hnodup, hfresh, fun id hid => ?_⟩
        rcases Finset.mem_insert.mp hid with rfl | hid
        · exact hmem
        · exact hall id hid
      · rw [List.mem_append, not_or] at hmem
        refine ⟨added ++ [held], List.append_assoc _ _ _, ?_, fun id hid => ?_, fun id hid => ?_⟩
        · exact List.nodup_append.mpr ⟨hnodup, List.nodup_singleton _, by
            rintro a ha b hb rfl
            exact hmem.2 (List.mem_singleton.mp hb ▸ ha)⟩
        · rcases List.mem_append.mp hid with hid | hid
          · exact hfresh id hid
          · exact List.mem_singleton.mp hid ▸ hmem.1
        · rw [← List.append_assoc, List.mem_append, List.mem_singleton]
          exact (Finset.mem_insert.mp hid).symm.imp_left (hall id)
  · rw [if_pos hheld]
    refine ⟨fun i => ?_, h.le_max, h.order⟩
    rw [h.mem, Loads, Loads, List.mem_append, List.mem_singleton]
    refine ⟨Or.inl, fun hi => hi.resolve_right fun heq => hheld ?_⟩
    rw [← (Prod.mk.inj heq).1, ← (Prod.mk.inj heq).2]

theorem loadInv_foldl {stored : List ℤ} {done : List (ℤ × ℤ)} {l : Loading}
    (h : LoadInv stored done l) (more : List (ℤ × ℤ)) :
    LoadInv stored (done ++ more) (more.foldl TabOrder.loadGroup l) := by
  induction more generalizing done l with
  | nil => rwa [List.append_nil]
  | cons record more ih =>
    have hmore := ih (h.loadGroup record)
    rwa [List.append_assoc] at hmore

theorem loadInv_all (stored : List ℤ) (records : List (ℤ × ℤ)) :
    LoadInv stored records (records.foldl TabOrder.loadGroup ⟨∅, 0, stored⟩) := by
  have h := loadInv_foldl (loadInv_nil stored) records
  rwa [List.nil_append] at h

/-- "Ensure groups contains order": the filtered order repeats what the stored order
    repeats of the groups loaded. -/
theorem LoadInv.nodup_iff {stored : List ℤ} {records : List (ℤ × ℤ)} {l : Loading}
    (h : LoadInv stored records l) :
    (l.loadedOrder.filter (· ∈ l.groups)).Nodup ↔
      (stored.filter fun id => Loads records id).Nodup := by
  obtain ⟨added, horder, hnodup, hfresh, -⟩ := h.order
  have hstored : (stored.filter fun id => decide (id ∈ l.groups)) =
      stored.filter fun id => Loads records id :=
    List.filter_congr fun id _ => decide_eq_decide.mpr (h.mem id)
  rw [horder, List.filter_append, hstored, List.nodup_append]
  refine ⟨fun hall => hall.1, fun hall => ⟨hall, hnodup.filter _, ?_⟩⟩
  rintro a ha b hb rfl
  exact hfresh a (List.mem_of_mem_filter hb) (List.mem_of_mem_filter ha)

theorem LoadInv.mem_order {stored : List ℤ} {records : List (ℤ × ℤ)} {l : Loading}
    (h : LoadInv stored records l) (id : ℤ) :
    id ∈ l.loadedOrder.filter (· ∈ l.groups) ↔ id ∈ l.groups := by
  obtain ⟨added, horder, -, -, hall⟩ := h.order
  rw [List.mem_filter, decide_eq_true_iff, horder]
  exact ⟨fun hid => hid.2, fun hid => ⟨hall id hid, hid⟩⟩

theorem Inv.loadManager {stored : List ℤ} {records : List (ℤ × ℤ)} {s s' : State} (h : Inv s)
    (hharmless : (stored.filter fun id => Loads records id).Nodup)
    (hs' : loadManager stored records s = some s') : Inv s' := by
  have hload := loadInv_all stored records
  unfold TabOrder.loadManager at hs'
  dsimp only at hs'
  generalize records.foldl TabOrder.loadGroup ⟨∅, 0, stored⟩ = l at hload hs'
  have hloaded : Inv { s with
      groups := l.groups
      maxGroupId := l.max
      groupsTabOrder := l.loadedOrder.filter (· ∈ l.groups) } :=
    ⟨hload.nodup_iff.mpr hharmless, hload.mem_order, hload.le_max, h.tabs⟩
  split_ifs at hs'
  · exact hloaded.addGroup hs'
  · obtain rfl := Option.some.inj hs'
    exact hloaded

/-- **`LoadManager`** enumerates the groups exactly when the stored order repeats none. -/
theorem enumerates_load_iff {stored : List ℤ} {records : List (ℤ × ℤ)} {s s' : State}
    (hs' : loadManager stored records s = some s') :
    Enumerates s' ↔ (stored.filter fun id => Loads records id).Nodup := by
  have hload := loadInv_all stored records
  unfold TabOrder.loadManager at hs'
  dsimp only at hs'
  generalize records.foldl TabOrder.loadGroup ⟨∅, 0, stored⟩ = l at hload hs'
  rw [← hload.nodup_iff]
  split_ifs at hs' with hempty
  · -- without groups nothing is left of the stored order
    have hnil : l.loadedOrder.filter (· ∈ l.groups) = [] := by
      rw [hempty]
      simp
    unfold addGroup at hs'
    dsimp only at hs'
    split_ifs at hs' with hmax
    obtain rfl := Option.some.inj hs'
    unfold Enumerates
    dsimp only
    rw [hnil, hempty]
    simp
  · obtain rfl := Option.some.inj hs'
    exact and_iff_left hload.mem_order

/-! ### Steps -/

theorem Inv.refreshGroups {s s' : State} (h : Inv s) (hs' : refreshGroups s = some s') : Inv s' := by
  obtain ⟨t, ht, hs'⟩ := Option.bind_eq_some_iff.mp hs'
  have hinv : Inv t := by
    split_ifs at ht
    · exact h.addGroup ht
    · exact Option.some.inj ht ▸ h
  split_ifs at hs' with hall hempty
  · obtain rfl := Option.some.inj hs'
    exact ⟨hinv.nodup, hinv.mem, hinv.le_max, (List.take_sublist 1 _).nodup hinv.tabs⟩
  · obtain rfl := Option.some.inj hs'
    exact ⟨hinv.nodup, hinv.mem, hinv.le_max, hinv.nodup⟩

/-- A tab that is moved stays the one it is. -/
theorem perm_moved {α : Type*} (l : List α) (source target : ℕ) (h : source < l.length)
    (htarget : target < l.length) :
    ((l.eraseIdx source).insertIdx target (l.get ⟨source, h⟩)).Perm l := by
  have hlength : target ≤ (l.eraseIdx source).length := by
    rw [List.length_eraseIdx_of_lt h]
    omega
  exact (List.perm_insertIdx _ _ hlength).trans (List.getElem_cons_eraseIdx_perm h)

theorem Inv.tabMoved {source target : ℕ} {s s' : State} (h : Inv s)
    (hharmless : ∀ id, id ∈ s.tabData ↔ id ∈ s.groups)
    (hs' : tabMoved source target s = some s') : Inv s' := by
  unfold TabOrder.tabMoved at hs'
  split_ifs at hs' with hvalid
  obtain rfl := Option.some.inj hs'
  have hperm := perm_moved s.tabData source target hvalid.1 hvalid.2
  exact ⟨hperm.nodup_iff.mpr h.tabs, fun id => hperm.mem_iff.trans (hharmless id), h.le_max,
    hperm.nodup_iff.mpr h.tabs⟩

theorem inv_step {s s' : State} {a : Action} (h : Inv s) (hharmless : Harmless s a)
    (hstep : step s a = some s') : Inv s' := by
  cases a with
  | loadManager stored records => exact h.loadManager hharmless hstep
  | addGroupBatch ents =>
    change ents.foldlM TabOrder.addEnt s = some s' at hstep
    induction ents generalizing s with
    | nil => exact Option.some.inj hstep ▸ h
    | cons ent ents ih =>
      rw [List.foldlM_cons] at hstep
      obtain ⟨t, ht, hrest⟩ := Option.bind_eq_some_iff.mp hstep
      exact ih (h.addEnt ht) trivial hrest
  | batchDeleteGroups ids =>
    obtain rfl := Option.some.inj hstep
    clear hstep hharmless
    induction ids generalizing s with
    | nil => exact h
    | cons gid ids ih => exact ih (h.deleteGroup gid)
  | refreshGroups => exact h.refreshGroups hstep
  | tabMoved source target => exact h.tabMoved hharmless hstep

/-- **Main theorem.** In a run of harmless steps the list enumerates the groups. -/
theorem enumerates_harmless {is : List Action} {s : State}
    (hharmless : machine.Along Harmless init is) (hrun : machine.run init is = some s) :
    Enumerates s := by
  have h := Machine.run_invariant Harmless Inv (fun _ _ _ h hok hstep => inv_step h hok hstep)
    inv_init hharmless hrun
  exact ⟨h.nodup, h.mem⟩

instance (s : State) (a : Action) : Decidable (Harmless s a) := by
  unfold Harmless
  split
  · infer_instance
  · exact decidable_of_iff (s.tabData.toFinset = s.groups) (by simp [Finset.ext_iff])
  · infer_instance

/-- A stale identifier in the stored order, a record that holds another identifier, a tab
    moved, a group added and one deleted. -/
def sampleRun : List Action :=
  [.loadManager [2, 9, 1] [(1, 1), (2, 2), (3, 3), (4, 7)], .refreshGroups, .tabMoved 0 2,
    .addGroupBatch [0, 0], .batchDeleteGroups [3, 3], .refreshGroups, .tabMoved 1 0]

theorem enumerates_sampleRun :
    ∃ s, machine.run init sampleRun = some s ∧ Enumerates s ∧ s.groupsTabOrder = [2, 1, 4] := by
  have hharmless : machine.Along Harmless init sampleRun := by decide
  exact ⟨_, rfl, enumerates_harmless hharmless rfl, rfl⟩

/-- A group that the stored order names twice stays in the list twice. -/
theorem repeated_group_stays :
    ¬ ∀ is s, machine.run init is = some s → Enumerates s := by
  intro h
  have hrepeated := (h [.loadManager [1, 1] [(1, 1)]] _ rfl).1
  revert hrepeated
  decide

end TabOrder

end NekoBox.Database
