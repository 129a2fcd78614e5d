import Mathlib

/-!
# Sorting by a comparator

What ECMAScript promises of `Array.prototype.sort`: it permutes the array, and when the
comparator is consistent on its values no value is greater than one behind it.

* `ArraySort.getLast_ge`: the last value is then the greatest;
* `exists_getLast`: when the comparator is not consistent, the last value may be any one.
-/

namespace NekoBox.Lib.ComparatorSort

variable {α : Type}

/-- A consistent comparator for the values of a list. -/
structure Consistent (cmp : α → α → ℤ) (l : List α) : Prop where
  refl : ∀ a ∈ l, cmp a a = 0
  symm : ∀ a ∈ l, ∀ b ∈ l, cmp a b = 0 → cmp b a = 0
  trans_eq : ∀ a ∈ l, ∀ b ∈ l, ∀ c ∈ l, cmp a b = 0 → cmp b c = 0 → cmp a c = 0
  trans_lt : ∀ a ∈ l, ∀ b ∈ l, ∀ c ∈ l, cmp a b < 0 → cmp b c < 0 → cmp a c < 0
  trans_gt : ∀ a ∈ l, ∀ b ∈ l, ∀ c ∈ l, 0 < cmp a b → 0 < cmp b c → 0 < cmp a c

/-- A sort as the language documents it. -/
structure ArraySort (sort : (α → α → ℤ) → List α → List α) : Prop where
  perm : ∀ cmp l, (sort cmp l).Perm l
  sorted : ∀ cmp l, Consistent cmp l → (sort cmp l).Pairwise fun a b => cmp a b ≤ 0

namespace Consistent

variable {cmp : α → α → ℤ} {l : List α} (h : Consistent cmp l)
include h

theorem gt_of_lt {a b : α} (ha : a ∈ l) (hb : b ∈ l) (hlt : cmp a b < 0) : 0 < cmp b a := by
  rcases lt_trichotomy (cmp b a) 0 with hba | hba | hba
  · have hself := h.trans_lt a ha b hb a ha hlt hba
    have hrefl := h.refl a ha
    omega
  · have hab := h.symm b hb a ha hba
    omega
  · exact hba

theorem lt_of_gt {a b : α} (ha : a ∈ l) (hb : b ∈ l) (hgt : 0 < cmp a b) : cmp b a < 0 := by
  rcases lt_trichotomy (cmp b a) 0 with hba | hba | hba
  · exact hba
  · have hab := h.symm b hb a ha hba
    omega
  · have hself := h.trans_gt a ha b hb a ha hgt hba
    have hrefl := h.refl a ha
    omega

theorem total {a b : α} (ha : a ∈ l) (hb : b ∈ l) : cmp a b ≤ 0 ∨ cmp b a ≤ 0 := by
  by_cases hab : cmp a b ≤ 0
  · exact .inl hab
  · exact .inr (h.lt_of_gt ha hb (by omega)).le

theorem trans {a b c : α} (ha : a ∈ l) (hb : b ∈ l) (hc : c ∈ l) (hab : cmp a b ≤ 0)
    (hbc : cmp b c ≤ 0) : cmp a c ≤ 0 := by
  by_contra hac
  have hca := h.lt_of_gt ha hc (by omega)
  rcases hab.lt_or_eq with hab | hab
  · have hcb := h.trans_lt c hc a ha b hb hca hab
    have hgt := h.gt_of_lt hc hb hcb
    omega
  · rcases hbc.lt_or_eq with hbc | hbc
    · have hba := h.trans_lt b hb c hc a ha hbc hca
      have hgt := h.gt_of_lt hb ha hba
      omega
    · have hac := h.trans_eq a ha b hb c hc hab hbc
      omega

/-- The sorted list of a consistent comparator. -/
theorem exists_sorted : ∃ l' : List α, l'.Perm l ∧ l'.Pairwise fun a b => cmp a b ≤ 0 := by
  let le : {a // a ∈ l} → {a // a ∈ l} → Bool := fun a b => decide (cmp a.1 b.1 ≤ 0)
  refine ⟨(l.attach.mergeSort le).map (·.1), ?_, ?_⟩
  · have hperm := (List.mergeSort_perm l.attach le).map (·.1)
    rwa [List.attach_map_subtype_val] at hperm
  · rw [List.pairwise_map]
    have hsorted : (l.attach.mergeSort le).Pairwise fun a b => le a b := List.pairwise_mergeSort
      (fun a b c hab hbc => by
        simp only [le, decide_eq_true_eq] at *
        exact h.trans a.2 b.2 c.2 hab hbc)
      (fun a b => by
        simp only [le, Bool.or_eq_true, decide_eq_true_eq]
        exact h.total a.2 b.2) l.attach
    exact hsorted.imp fun hab => of_decide_eq_true hab

end Consistent

/-- No value is greater than the last one. -/
theorem ArraySort.getLast_ge {sort : (α → α → ℤ) → List α → List α} (hsort : ArraySort sort)
    {cmp : α → α → ℤ} {l : List α} (h : Consistent cmp l) (hl : l ≠ []) :
    ∃ m ∈ l, (sort cmp l).getLast? = some m ∧ ∀ a ∈ l, cmp a m ≤ 0 := by
  have hne : sort cmp l ≠ [] := by
    intro hnil
    have hperm := hsort.perm cmp l
    rw [hnil] at hperm
    exact hl hperm.nil_eq.symm
  obtain ⟨front, m, hlast⟩ : ∃ front m, sort cmp l = front ++ [m] :=
    ⟨_, _, (List.dropLast_append_getLast hne).symm⟩
  have hmem : ∀ a, a ∈ l ↔ a ∈ front ++ [m] := fun a => by rw [← hlast, (hsort.perm cmp l).mem_iff]
  have hm : m ∈ l := (hmem m).mpr (List.mem_append_right _ (List.mem_singleton_self m))
  refine ⟨m, hm, by rw [hlast, List.getLast?_concat], ?_⟩
  intro a ha
  have hsorted := hsort.sorted cmp l h
  rw [hlast, List.pairwise_append] at hsorted
  rcases List.mem_append.mp ((hmem a).mp ha) with ha | ha
  · exact hsorted.2.2 a ha m (List.mem_singleton_self m)
  · obtain rfl := List.mem_singleton.mp ha
    exact (h.refl a hm).le

open Classical in
/-- Some sort leaves any given value at the end of a list its comparator is not consistent for. -/
theorem exists_getLast (m : α) : ∃ sort : (α → α → ℤ) → List α → List α, ArraySort sort ∧
    ∀ cmp l, ¬ Consistent cmp l → m ∈ l → (sort cmp l).getLast? = some m := by
  refine ⟨fun cmp l => if h : Consistent cmp l then h.exists_sorted.choose
    else if m ∈ l then l.erase m ++ [m] else l, ⟨fun cmp l => ?_, fun cmp l h => ?_⟩, ?_⟩
  · split_ifs with h hm
    · exact h.exists_sorted.choose_spec.1
    · have hperm := List.perm_cons_erase hm
      exact (List.perm_append_singleton m _).trans hperm.symm
    · exact List.Perm.refl l
  · rw [dif_pos h]
    exact h.exists_sorted.choose_spec.2
  · intro cmp l h hm
    beta_reduce
    rw [dif_neg h, if_pos hm, List.getLast?_concat]

end NekoBox.Lib.ComparatorSort
