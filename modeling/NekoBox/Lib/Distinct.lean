import Mathlib

/-!
# Lists without repetitions, and lists in groups

An element is appended unless the list has it already (`addNew`). A list that is
sorted by a key is put together again from the parts of each key (`flatMap_filter`).
-/

namespace NekoBox.Lib.Distinct

section

variable {α : Type*} [DecidableEq α] {a b : α} {l acc : List α}

def addNew (l : List α) (a : α) : List α := if a ∈ l then l else l ++ [a]

theorem mem_addNew : b ∈ addNew l a ↔ b ∈ l ∨ b = a := by
  unfold addNew
  split_ifs with h
  · exact ⟨.inl, fun hb => hb.elim id fun hb => hb ▸ h⟩
  · rw [List.mem_append, List.mem_singleton]

theorem nodup_addNew (h : l.Nodup) : (addNew l a).Nodup := by
  unfold addNew
  split_ifs with ha
  · exact h
  · exact List.nodup_append.mpr ⟨h, List.nodup_singleton a, fun x hx y hy heq =>
      ha (List.mem_singleton.mp hy ▸ heq ▸ hx)⟩

theorem mem_foldl_addNew : b ∈ l.foldl addNew acc ↔ b ∈ acc ∨ b ∈ l := by
  induction l generalizing acc with
  | nil => simp
  | cons a l ih => rw [List.foldl_cons, ih, mem_addNew, List.mem_cons, or_assoc]

theorem nodup_foldl_addNew (h : acc.Nodup) : (l.foldl addNew acc).Nodup := by
  induction l generalizing acc with
  | nil => exact h
  | cons a l ih => exact ih (nodup_addNew h)

/-- What has no repetitions is appended as it is. -/
theorem foldl_addNew_of_nodup (h : (acc ++ l).Nodup) : l.foldl addNew acc = acc ++ l := by
  induction l generalizing acc with
  | nil => exact (List.append_nil acc).symm
  | cons a l ih =>
    have hassoc : acc ++ a :: l = (acc ++ [a]) ++ l := by rw [List.append_assoc, List.singleton_append]
    have hnew : a ∉ acc := fun ha => (List.nodup_append.mp h).2.2 a ha a List.mem_cons_self rfl
    rw [List.foldl_cons, addNew, if_neg hnew, hassoc]
    exact ih (hassoc ▸ h)

end

section

variable {α κ : Type*} [LinearOrder κ] {key : α → κ} {l : List α} {ks : List κ} {k : κ}

/-- The least key comes first. -/
theorem filter_append_filter (hsorted : l.Pairwise fun a b => key a ≤ key b)
    (hleast : ∀ a ∈ l, k ≤ key a) :
    (l.filter fun a => key a = k) ++ l.filter (fun a => ¬ key a = k) = l := by
  induction l with
  | nil => rfl
  | cons a l ih =>
    obtain ⟨hhead, hsorted⟩ := List.pairwise_cons.mp hsorted
    obtain ⟨ha, hleast⟩ := List.forall_mem_cons.mp hleast
    by_cases hk : key a = k
    · simp only [List.filter_cons, hk, decide_true, if_true, not_true_eq_false, decide_false,
        Bool.false_eq_true, if_false, List.cons_append]
      rw [ih hsorted hleast]
    · have hlater : ∀ b ∈ l, ¬ key b = k := fun b hb heq =>
        hk (le_antisymm ((hhead b hb).trans heq.le) ha)
      have hnone : l.filter (fun b => key b = k) = [] :=
        List.filter_eq_nil_iff.mpr fun b hb h => hlater b hb (of_decide_eq_true h)
      have hall : l.filter (fun b => ¬ key b = k) = l :=
        List.filter_eq_self.mpr fun b hb => decide_eq_true (hlater b hb)
      simp only [List.filter_cons, hk, decide_false, Bool.false_eq_true, if_false,
        not_false_eq_true, decide_true, if_true]
      rw [hnone, hall, List.nil_append]

/-- A sorted list, from its parts. -/
theorem flatMap_filter (hks : ks.Pairwise (· < ·)) (hkeys : ∀ a ∈ l, key a ∈ ks)
    (hsorted : l.Pairwise fun a b => key a ≤ key b) :
    (ks.flatMap fun k => l.filter fun a => key a = k) = l := by
  induction ks generalizing l with
  | nil =>
    cases l with
    | nil => rfl
    | cons a l => exact absurd (hkeys a List.mem_cons_self) List.not_mem_nil
  | cons k ks ih =>
    obtain ⟨hk, hks⟩ := List.pairwise_cons.mp hks
    have hleast : ∀ a ∈ l, k ≤ key a := fun a ha => by
      rcases List.mem_cons.mp (hkeys a ha) with h | h
      · exact h.ge
      · exact (hk _ h).le
    have hrest : ∀ a ∈ l.filter (fun a => ¬ key a = k), key a ∈ ks := fun a ha =>
      (List.mem_cons.mp (hkeys a (List.mem_of_mem_filter ha))).resolve_left
        (of_decide_eq_true (List.mem_filter.mp ha).2)
    have hparts : (ks.flatMap fun k' => (l.filter fun a => ¬ key a = k).filter fun a => key a = k') =
        ks.flatMap fun k' => l.filter fun a => key a = k' := by
      refine List.flatMap_congr fun k' hk' => ?_
      rw [List.filter_filter]
      refine List.filter_congr fun a _ => ?_
      by_cases heq : key a = k'
      · simp [heq, (hk k' hk').ne']
      · simp [heq]
    rw [List.flatMap_cons, ← hparts, ih hks hrest (hsorted.filter _), filter_append_filter hsorted hleast]

end

end NekoBox.Lib.Distinct
