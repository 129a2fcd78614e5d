import Mathlib

/-!
# A view kept by messages

A publisher announces one snapshot of keyed items after another: with a patch, which
updates the items whose keys the last snapshot had and adds the others, or with all its
items. A view applies the messages in their order, and loses what it cannot update.

* `reflects_apply`: a view shows items of the last snapshot, none of them twice;
* `mem_keys_patch`: after a patch it lacks what it lacked before, as long as that lasts;
* `sublist_applyAll`: a view that starts with less does not overtake the other.
-/

namespace NekoBox.Lib.Feed

variable {κ ρ : Type*}

inductive Message (κ ρ : Type*)
  | patch (update : κ → Option ρ) (add : List ρ)
  | replace (items : List ρ)

section

variable (key : ρ → κ)

/-- A patch drops what it does not update. -/
def apply : Message κ ρ → List ρ → List ρ
  | .patch update add, view => view.filterMap (fun r => update (key r)) ++ add
  | .replace items, _ => items

def applyAll (messages : List (Message κ ρ)) (view : List ρ) : List ρ :=
  messages.foldl (fun view m => apply key m view) view

/-- The message tells a view that knows some keys of a snapshot. -/
inductive Announces (known : κ → Prop) (snapshot : List ρ) : Message κ ρ → Prop
  | patch {update : κ → Option ρ} {add : List ρ}
      (hupdate : ∀ k r, update k = some r ↔ r ∈ snapshot ∧ key r = k ∧ known k)
      (hadd : ∀ r, r ∈ add ↔ r ∈ snapshot ∧ ¬ known (key r))
      (hnodup : (add.map key).Nodup) : Announces known snapshot (.patch update add)
  | replace {items : List ρ} (hperm : items.Perm snapshot) : Announces known snapshot (.replace items)

/-- Items of the snapshot, each once. -/
structure Reflects (snapshot view : List ρ) : Prop where
  nodup : (view.map key).Nodup
  subset : view ⊆ snapshot

end

variable {key : ρ → κ} {known : κ → Prop} {snapshot view : List ρ}

@[simp] theorem applyAll_nil (view : List ρ) : applyAll key [] view = view := rfl

@[simp] theorem applyAll_cons (m : Message κ ρ) (messages : List (Message κ ρ)) (view : List ρ) :
    applyAll key (m :: messages) view = applyAll key messages (apply key m view) := rfl

theorem applyAll_concat (messages : List (Message κ ρ)) (m : Message κ ρ) (view : List ρ) :
    applyAll key (messages ++ [m]) view = apply key m (applyAll key messages view) := by
  rw [applyAll, List.foldl_append]
  rfl

/-! ## Less to start with -/

theorem sublist_apply (m : Message κ ρ) {view view' : List ρ} (h : view.Sublist view') :
    (apply key m view).Sublist (apply key m view') := by
  cases m with
  | patch update add => exact (h.filterMap _).append (List.Sublist.refl add)
  | replace items => exact List.Sublist.refl items

theorem sublist_applyAll (messages : List (Message κ ρ)) {view view' : List ρ}
    (h : view.Sublist view') :
    (applyAll key messages view).Sublist (applyAll key messages view') := by
  induction messages generalizing view view' with
  | nil => exact h
  | cons m messages ih => exact ih (sublist_apply m h)

theorem Reflects.sublist {view' : List ρ} (h : Reflects key snapshot view)
    (hsub : view'.Sublist view) : Reflects key snapshot view' :=
  ⟨(hsub.map key).nodup h.nodup, fun _ hr => h.subset (hsub.subset hr)⟩

/-! ## One message -/

/-- The items that a patch updates keep their keys. -/
theorem map_key_filterMap {update : κ → Option ρ} (hkey : ∀ k r, update k = some r → key r = k)
    (view : List ρ) :
    (view.filterMap fun r => update (key r)).map key =
      (view.map key).filter fun k => (update k).isSome := by
  induction view with
  | nil => rfl
  | cons r view ih =>
    rw [List.map_cons]
    cases hr : update (key r) with
    | none =>
      rw [List.filterMap_cons_none (f := fun r => update (key r)) hr,
        List.filter_cons_of_neg (by simp [hr])]
      exact ih
    | some r' =>
      rw [List.filterMap_cons_some (f := fun r => update (key r)) hr,
        List.filter_cons_of_pos (by simp [hr]), List.map_cons, ih, hkey _ _ hr]

/-- What a view shows after a patch: of the known keys those it showed before. -/
theorem mem_keys_patch {update : κ → Option ρ} {add : List ρ}
    (hupdate : ∀ k r, update k = some r ↔ r ∈ snapshot ∧ key r = k ∧ known k)
    (hadd : ∀ r, r ∈ add ↔ r ∈ snapshot ∧ ¬ known (key r)) {k : κ} : k ∈ (apply key (.patch update add) view).map key ↔
      k ∈ snapshot.map key ∧ (known k → k ∈ view.map key) := by
  rw [apply, List.map_append, map_key_filterMap (fun k r h => ((hupdate k r).mp h).2.1),
    List.mem_append, List.mem_filter]
  constructor
  · rintro (⟨hk, hsome⟩ | hk)
    · obtain ⟨r, hr⟩ := Option.isSome_iff_exists.mp hsome
      obtain ⟨hmem, rfl, -⟩ := (hupdate k r).mp hr
      exact ⟨List.mem_map_of_mem hmem, fun _ => hk⟩
    · obtain ⟨r, hr, rfl⟩ := List.mem_map.mp hk
      obtain ⟨hmem, hnew⟩ := (hadd r).mp hr
      exact ⟨List.mem_map_of_mem hmem, fun h => absurd h hnew⟩
  · rintro ⟨hk, hold⟩
    obtain ⟨r, hr, rfl⟩ := List.mem_map.mp hk
    by_cases hknown : known (key r)
    · have hsome : update (key r) = some r := (hupdate _ _).mpr ⟨hr, rfl, hknown⟩
      exact .inl ⟨hold hknown, by rw [hsome]; rfl⟩
    · exact .inr (List.mem_map_of_mem ((hadd r).mpr ⟨hr, hknown⟩))

theorem reflects_patch {update : κ → Option ρ} {add : List ρ}
    (hupdate : ∀ k r, update k = some r ↔ r ∈ snapshot ∧ key r = k ∧ known k)
    (hadd : ∀ r, r ∈ add ↔ r ∈ snapshot ∧ ¬ known (key r)) (hnodup : (add.map key).Nodup)
    (hview : ∀ k ∈ view.map key, known k) (hview' : (view.map key).Nodup) :
    Reflects key snapshot (apply key (.patch update add) view) where
  nodup := by
    rw [apply, List.map_append, map_key_filterMap (fun k r h => ((hupdate k r).mp h).2.1)]
    refine List.Nodup.append (hview'.filter _) hnodup ?_
    intro k hk hk'
    obtain ⟨r, hr, rfl⟩ := List.mem_map.mp hk'
    exact ((hadd r).mp hr).2 (hview _ (List.mem_of_mem_filter hk))
  subset := by
    intro r hr
    rcases List.mem_append.mp hr with hr | hr
    · obtain ⟨old, -, hold⟩ := List.mem_filterMap.mp hr
      exact ((hupdate _ r).mp hold).1
    · exact ((hadd r).mp hr).1

/-- **A message announces the snapshot** to a view that shows known keys only. -/
theorem reflects_apply {m : Message κ ρ} (h : Announces key known snapshot m)
    (hsnapshot : (snapshot.map key).Nodup) (hview : ∀ k ∈ view.map key, known k)
    (hview' : (view.map key).Nodup) : Reflects key snapshot (apply key m view) := by
  cases h with
  | patch hupdate hadd hnodup => exact reflects_patch hupdate hadd hnodup hview hview'
  | replace hperm => exact ⟨(hperm.map key).nodup_iff.mpr hsnapshot, hperm.subset⟩

/-- A snapshot sent as a whole is shown as a whole. -/
theorem mem_keys_replace {items : List ρ} (hperm : items.Perm snapshot) {k : κ} :
    k ∈ (apply key (.replace items) view).map key ↔ k ∈ snapshot.map key :=
  (hperm.map key).mem_iff

end NekoBox.Lib.Feed
