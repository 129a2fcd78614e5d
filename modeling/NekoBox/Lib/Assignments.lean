import NekoBox.Lib.OrderedMap

/-!
# A map filled by assignments

The entries of a list are assigned one after another to a map whose keys are compared by an
image of theirs in a linear order, so that keys with the same image are one.

* `assignAll_perm`: if no two keys are one, the map has the entries of the list;
* `length_assignAll_eq_iff`: and otherwise it has fewer;
* `assignAll_of_perm`: a list in the order of its keys is what is made of its entries in any order.
-/

namespace NekoBox.Lib.OrderedMap

variable {κ β ι : Type*} [LinearOrder ι] (f : κ → ι)

/-- Keys are compared by their images. -/
def byKey (a b : κ) : Bool := decide (f a < f b)

def assignAll (l : List (κ × β)) : List (κ × β) :=
  l.foldl (fun m e => assign (byKey f) e.1 e.2 m) []

variable {f} {k : κ} {v : β} {m l : List (κ × β)}

theorem equivalent_byKey {a b : κ} : Equivalent (byKey f) a b ↔ f a = f b := by
  unfold Equivalent byKey
  rw [decide_eq_false_iff_not, decide_eq_false_iff_not, not_lt, not_lt]
  exact ⟨fun h => le_antisymm h.2 h.1, fun h => ⟨h.ge, h.le⟩⟩

theorem assign_perm (h : ∀ e ∈ m, f e.1 ≠ f k) :
    (assign (byKey f) k v m).Perm ((k, v) :: m) := by
  induction m with
  | nil => exact .refl _
  | cons e m ih =>
    obtain ⟨hne, hrest⟩ := List.forall_mem_cons.mp h
    unfold assign
    split_ifs with hlt hgt
    · exact ((ih hrest).cons e).trans (.swap _ _ _)
    · exact .refl _
    · exact absurd (equivalent_byKey.mp ⟨by simpa using hlt, by simpa using hgt⟩) hne

theorem mem_keys_assign {x : ι} (h : x ∈ (assign (byKey f) k v m).map fun e => f e.1) :
    x = f k ∨ x ∈ m.map fun e => f e.1 := by
  obtain ⟨e, he, rfl⟩ := List.mem_map.mp h
  rcases mem_assign he with hmem | rfl | ⟨e', he', -, rfl⟩
  · exact .inr (List.mem_map_of_mem hmem)
  · exact .inl rfl
  · exact .inr (List.mem_map_of_mem (f := fun e => f e.1) he')

/-- The keys are in order. -/
def Ordered (f : κ → ι) (m : List (κ × β)) : Prop := m.Pairwise fun e e' => f e.1 < f e'.1

theorem Ordered.assign (h : Ordered f m) (k : κ) (v : β) :
    Ordered f (OrderedMap.assign (byKey f) k v m) := by
  have hbool : (OrderedMap.assign (byKey f) k v m).Pairwise fun e e' =>
      byKey f e.1 e'.1 = true := by
    refine pairwise_assign ?_ (h.imp fun hlt => decide_eq_true hlt)
    intro a b c hab hbc
    exact decide_eq_true ((of_decide_eq_true hab).trans (of_decide_eq_true hbc))
  exact hbool.imp fun hlt => of_decide_eq_true hlt

theorem Ordered.nodup (h : Ordered f m) : (m.map fun e => f e.1).Nodup :=
  List.pairwise_map.mpr (h.imp fun hlt => hlt.ne)

/-- What a run of assignments keeps. -/
theorem foldl_assign (hm : Ordered f m) :
    Ordered f (l.foldl (fun m e => assign (byKey f) e.1 e.2 m) m) ∧
      (l.foldl (fun m e => assign (byKey f) e.1 e.2 m) m).map (fun e => f e.1) ⊆
        m.map (fun e => f e.1) ++ l.map (fun e => f e.1) ∧
      (((m ++ l).map fun e => f e.1).Nodup →
        (l.foldl (fun m e => assign (byKey f) e.1 e.2 m) m).Perm (m ++ l)) := by
  induction l generalizing m with
  | nil => exact ⟨hm, by simp, fun _ => by simp⟩
  | cons e l ih =>
    obtain ⟨hordered, hkeys, hperm⟩ := ih (hm.assign e.1 e.2)
    refine ⟨hordered, fun x hx => ?_, fun hnodup => ?_⟩
    · rcases List.mem_append.mp (hkeys hx) with hmem | hmem
      · rcases mem_keys_assign hmem with rfl | hmem
        · exact List.mem_append_right _ List.mem_cons_self
        · exact List.mem_append_left _ hmem
      · exact List.mem_append_right _ (List.mem_cons_of_mem _ hmem)
    · have hstep : (assign (byKey f) e.1 e.2 m ++ l).Perm (m ++ e :: l) := by
        refine ((assign_perm fun e' he' heq => ?_).append_right l).trans List.perm_middle.symm
        rw [List.map_append, List.map_cons] at hnodup
        exact (List.nodup_append.mp hnodup).2.2 _ (List.mem_map_of_mem he') _
          List.mem_cons_self heq
      refine (hperm ?_).trans hstep
      exact (hstep.map _).nodup_iff.mpr hnodup

theorem ordered_assignAll : Ordered f (assignAll f l) := (foldl_assign List.Pairwise.nil).1

/-- If no two keys are one, the map has the entries of the list. -/
theorem assignAll_perm (h : (l.map fun e => f e.1).Nodup) : (assignAll f l).Perm l :=
  (foldl_assign List.Pairwise.nil).2.2 h

theorem subperm_keys :
    List.Subperm ((assignAll f l).map fun e => f e.1) (l.map fun e => f e.1) :=
  ordered_assignAll.nodup.subperm (foldl_assign List.Pairwise.nil).2.1

theorem length_assignAll_le : (assignAll f l).length ≤ l.length := by
  simpa using (subperm_keys (f := f) (l := l)).length_le

/-- The map has as many entries as the list exactly if no two keys are one. -/
theorem length_assignAll_eq_iff :
    (assignAll f l).length = l.length ↔ (l.map fun e => f e.1).Nodup := by
  constructor
  · intro h
    exact (subperm_keys.perm_of_length_le (by simp [h])).nodup_iff.mp ordered_assignAll.nodup
  · intro h
    exact (assignAll_perm h).length_eq

/-- A list in the order of its keys is what is made of its entries in any order. -/
theorem assignAll_of_perm (hm : Ordered f m) (h : l.Perm m) : assignAll f l = m := by
  have hnodup := (h.map fun e => f e.1).nodup_iff.mpr hm.nodup
  refine ((assignAll_perm hnodup).trans h).eq_of_pairwise ?_ ordered_assignAll hm
  intro a b _ _ hab hba
  exact absurd hab hba.asymm

end NekoBox.Lib.OrderedMap
