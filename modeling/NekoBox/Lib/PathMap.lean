import Mathlib

/-!
# Maps from paths to values

A finite map whose keys are paths, as a hierarchical settings file or a
directory tree has them: the keys and the groups directly below a path, and the
removal of everything at and below a path.

* `mem_childKeys`, `mem_childGroups`, and that neither list repeats a name;
* `Agree p m m'`: the maps have the same values at and below `p`; then they
  have the same children there (`Agree.childKeys`, `Agree.childGroups`);
* `childKeys_of_depth_le`, `childGroups_of_depth_le`: below `depth` there is
  nothing.
-/

set_option linter.unusedSectionVars false

namespace NekoBox.Lib

variable {σ β : Type*} [Ord σ] [Std.TransOrd σ] [Std.LawfulEqOrd σ] [DecidableEq σ]

abbrev PathMap (σ β : Type*) [Ord σ] := Std.ExtTreeMap (List σ) β compare

namespace PathMap

/-! ## Children -/

/-- The last element of a path directly below `p`. -/
def keyBelow (p q : List σ) : Option σ :=
  if p <+: q then
    match q.drop p.length with
    | [x] => some x
    | _ => none
  else none

/-- The element after `p` of a path at least two levels below `p`. -/
def groupBelow (p q : List σ) : Option σ :=
  if p <+: q then
    match q.drop p.length with
    | x :: _ :: _ => some x
    | _ => none
  else none

/-- The names of the values directly below `p`. -/
def childKeys (m : PathMap σ β) (p : List σ) : List σ := m.keys.filterMap (keyBelow p)

/-- The names of the groups directly below `p`: those with values below them. -/
def childGroups (m : PathMap σ β) (p : List σ) : List σ := (m.keys.filterMap (groupBelow p)).dedup

theorem keyBelow_eq_some {p q : List σ} {x : σ} : keyBelow p q = some x ↔ q = p ++ [x] := by
  unfold keyBelow
  split_ifs with h
  · obtain ⟨r, rfl⟩ := h
    rw [List.drop_left, List.append_right_inj]
    rcases r with _ | ⟨y, _ | ⟨z, r⟩⟩ <;> simp
  · simp only [false_iff]
    rintro rfl
    exact h (List.prefix_append _ _)

theorem groupBelow_eq_some {p q : List σ} {x : σ} :
    groupBelow p q = some x ↔ ∃ r, r ≠ [] ∧ q = p ++ x :: r := by
  unfold groupBelow
  split_ifs with h
  · obtain ⟨r, rfl⟩ := h
    rw [List.drop_left]
    rcases r with _ | ⟨y, _ | ⟨z, r⟩⟩ <;> simp
  · simp only [false_iff]
    rintro ⟨r, -, rfl⟩
    exact h (List.prefix_append _ _)

theorem mem_childKeys {m : PathMap σ β} {p : List σ} {x : σ} :
    x ∈ childKeys m p ↔ (m[p ++ [x]]?).isSome := by
  unfold childKeys
  rw [List.mem_filterMap, Std.ExtTreeMap.isSome_getElem?_iff_mem]
  constructor
  · rintro ⟨q, hq, hx⟩
    rw [← keyBelow_eq_some.mp hx]
    exact Std.ExtTreeMap.mem_keys.mp hq
  · intro h
    exact ⟨_, Std.ExtTreeMap.mem_keys.mpr h, keyBelow_eq_some.mpr rfl⟩

theorem mem_childGroups {m : PathMap σ β} {p : List σ} {x : σ} :
    x ∈ childGroups m p ↔ ∃ r, r ≠ [] ∧ (m[p ++ x :: r]?).isSome := by
  unfold childGroups
  rw [List.mem_dedup, List.mem_filterMap]
  constructor
  · rintro ⟨q, hq, hx⟩
    obtain ⟨r, hr, rfl⟩ := groupBelow_eq_some.mp hx
    exact ⟨r, hr, Std.ExtTreeMap.isSome_getElem?_iff_mem.mpr (Std.ExtTreeMap.mem_keys.mp hq)⟩
  · rintro ⟨r, hr, h⟩
    exact ⟨_, Std.ExtTreeMap.mem_keys.mpr (Std.ExtTreeMap.isSome_getElem?_iff_mem.mp h),
      groupBelow_eq_some.mpr ⟨r, hr, rfl⟩⟩

theorem nodup_childKeys (m : PathMap σ β) (p : List σ) : (childKeys m p).Nodup := by
  refine List.Nodup.filterMap ?_ Std.ExtTreeMap.nodup_keys
  intro q q' x hx hx'
  rw [Option.mem_def, keyBelow_eq_some] at hx hx'
  rw [hx, hx']

theorem nodup_childGroups (m : PathMap σ β) (p : List σ) : (childGroups m p).Nodup :=
  List.nodup_dedup _

/-! ## Removing a group -/

/-- Remove the values at and below `p`. -/
def removeGroup (m : PathMap σ β) (p : List σ) : PathMap σ β :=
  m.filter fun q _ => !p.isPrefixOf q

theorem getElem?_removeGroup (m : PathMap σ β) (p q : List σ) :
    (removeGroup m p)[q]? = if p <+: q then none else m[q]? := by
  unfold removeGroup
  rw [Std.ExtTreeMap.getElem?_filter]
  by_cases h : p <+: q
  · simp [h]
  · have hfalse : p.isPrefixOf q = false :=
      Bool.eq_false_iff.mpr fun h' => h (List.isPrefixOf_iff_prefix.mp h')
    simp only [Std.ExtTreeMap.getKey_eq, hfalse, if_neg h, Option.pfilter_eq_filter]
    cases m[q]? <;> rfl

/-! ## Maps that agree below a path -/

/-- The same values at and below `p`. -/
def Agree (p : List σ) (m m' : PathMap σ β) : Prop := ∀ q, m[p ++ q]? = m'[p ++ q]?

section Agree

variable {p : List σ} {m m' m'' : PathMap σ β}

theorem Agree.refl (p : List σ) (m : PathMap σ β) : Agree p m m := fun _ => rfl

theorem Agree.symm (h : Agree p m m') : Agree p m' m := fun q => (h q).symm

theorem Agree.trans (h : Agree p m m') (h' : Agree p m' m'') : Agree p m m'' := fun q =>
  (h q).trans (h' q)

theorem Agree.below (h : Agree p m m') (r : List σ) : Agree (p ++ r) m m' := by
  intro q
  rw [List.append_assoc]
  exact h (r ++ q)

theorem Agree.here (h : Agree p m m') : m[p]? = m'[p]? := by simpa using h []

theorem Agree.mem_childKeys (h : Agree p m m') {x : σ} : x ∈ childKeys m p ↔ x ∈ childKeys m' p := by
  rw [PathMap.mem_childKeys, PathMap.mem_childKeys, h]

theorem Agree.mem_childGroups (h : Agree p m m') {x : σ} :
    x ∈ childGroups m p ↔ x ∈ childGroups m' p := by
  simp only [PathMap.mem_childGroups, h _]

end Agree

/-! ## Depth -/

/-- The length of the longest path. -/
def depth (m : PathMap σ β) : ℕ := (m.keys.map List.length).foldr max 0

theorem length_le_depth {m : PathMap σ β} {q : List σ} (h : (m[q]?).isSome) : q.length ≤ m.depth := by
  have hle : ∀ l : List ℕ, ∀ n ∈ l, n ≤ l.foldr max 0 := by
    intro l
    induction l with
    | nil => simp
    | cons k l ih =>
      intro n hn
      rcases List.mem_cons.mp hn with rfl | hn
      · exact le_max_left _ _
      · exact (ih n hn).trans (le_max_right _ _)
  refine hle _ _ (List.mem_map_of_mem ?_)
  exact Std.ExtTreeMap.mem_keys.mpr (Std.ExtTreeMap.isSome_getElem?_iff_mem.mp h)

theorem childKeys_of_depth_le {m : PathMap σ β} {p : List σ} (h : m.depth ≤ p.length) :
    childKeys m p = [] := by
  refine List.eq_nil_iff_forall_not_mem.mpr fun x hx => ?_
  have := length_le_depth (mem_childKeys.mp hx)
  rw [List.length_append, List.length_singleton] at this
  omega

theorem childGroups_of_depth_le {m : PathMap σ β} {p : List σ} (h : m.depth ≤ p.length) :
    childGroups m p = [] := by
  refine List.eq_nil_iff_forall_not_mem.mpr fun x hx => ?_
  obtain ⟨r, -, hr⟩ := mem_childGroups.mp hx
  have := length_le_depth hr
  rw [List.length_append, List.length_cons] at this
  omega

end PathMap

end NekoBox.Lib
