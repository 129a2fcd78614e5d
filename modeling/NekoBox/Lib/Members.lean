import NekoBox.Lib.Blocks

/-!
# Lists with members left out

A list of keys with values, of which some are absent. If the keys are the same
and differ from one another, the list that is left determines the values.
-/

namespace NekoBox.Lib.Members

variable {κ β : Type*}

/-- The members that are there. -/
def present (l : List (κ × Option β)) : List (κ × β) :=
  l.filterMap fun e => e.2.map fun v => (e.1, v)

theorem present_cons (k : κ) (v : Option β) (l : List (κ × Option β)) :
    present ((k, v) :: l) = (v.map fun v => (k, v)).toList ++ present l := by
  cases v <;> rfl

theorem key_of_mem_present {l : List (κ × Option β)} {m : κ × β} (h : m ∈ present l) :
    m.1 ∈ l.map Prod.fst := by
  obtain ⟨e, he, hm⟩ := List.mem_filterMap.mp h
  obtain ⟨v, hv, rfl⟩ := Option.map_eq_some_iff.mp hm
  exact List.mem_map_of_mem he

theorem toList_map_inj {k : κ} {v v' : Option β}
    (h : (v.map fun v => (k, v)).toList = (v'.map fun v => (k, v)).toList) : v = v' := by
  cases v <;> cases v' <;> simp_all

/-- The members that are there determine the values. -/
theorem present_inj [DecidableEq κ] {l l' : List (κ × Option β)}
    (hkeys : l.map Prod.fst = l'.map Prod.fst) (hnodup : (l.map Prod.fst).Nodup) :
    present l = present l' ↔ l = l' := by
  induction l generalizing l' with
  | nil =>
    obtain rfl : l' = [] := List.map_eq_nil_iff.mp hkeys.symm
    exact iff_of_true rfl rfl
  | cons e l ih =>
    obtain ⟨e', l', rfl⟩ : ∃ e' t, l' = e' :: t := by
      cases l' with
      | nil => cases hkeys
      | cons e' t => exact ⟨e', t, rfl⟩
    obtain ⟨k, v⟩ := e
    obtain ⟨k', v'⟩ := e'
    simp only [List.map_cons, List.cons.injEq] at hkeys
    obtain ⟨rfl, hrest⟩ := hkeys
    rw [List.map_cons, List.nodup_cons] at hnodup
    constructor
    · intro h
      rw [present_cons, present_cons] at h
      have hfirst : ∀ (w : Option β), ∀ m ∈ (w.map fun v => (k, v)).toList,
          decide (m.1 = k) = true := by
        intro w m hm
        cases w with
        | none => cases hm
        | some w =>
          rw [Option.map_some, Option.toList_some, List.mem_singleton] at hm
          simp [hm]
      have hothers : ∀ t : List (κ × Option β), k ∉ t.map Prod.fst → ∀ m ∈ present t,
          decide (m.1 = k) = false := by
        intro t ht m hm
        exact decide_eq_false fun heq => ht (heq ▸ key_of_mem_present hm)
      obtain ⟨hv, hl⟩ := Blocks.append_inj (fun m => decide (m.1 = k)) (hfirst v)
        (hothers l hnodup.1) (hfirst v') (hothers l' (hrest ▸ hnodup.1)) h
      rw [toList_map_inj hv, (ih hrest hnodup.2).mp hl]
    · intro h
      rw [h]

end NekoBox.Lib.Members
