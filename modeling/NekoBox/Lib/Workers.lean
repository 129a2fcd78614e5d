import Mathlib

/-!
# Lists of which one element changes

The workers of a pool are a list, and a step changes one of them. What an invariant
says of all of them is a count, and these rules say what a step does to it.

* `countP_set_add`: a count after a step;
* `sum_set_lt`: a sum that a step makes smaller;
* `mem_or_mem_set`: the elements that did not change.
-/

namespace NekoBox.Lib.Workers

variable {α : Type*} {l : List α} {k : ℕ} {a b v : α}

/-- The count of the list and of the new element is that of the old one and of the new
    list. -/
theorem countP_set_add (ha : l[k]? = some a) (p : α → Bool) (b : α) :
    (l.set k b).countP p + (p a).toNat = l.countP p + (p b).toNat := by
  induction l generalizing k with
  | nil => cases ha
  | cons c l ih =>
    cases k with
    | zero =>
      obtain rfl : c = a := Option.some.inj ha
      rw [List.set_cons_zero, List.countP_cons, List.countP_cons]
      cases p c <;> cases p b <;> simp
    | succ k =>
      have hrest := ih ha
      rw [List.set_cons_succ, List.countP_cons, List.countP_cons]
      omega

theorem count_set_add [DecidableEq α] (ha : l[k]? = some a) (b c : α) :
    (l.set k b).count c + (a == c).toNat = l.count c + (b == c).toNat :=
  countP_set_add ha (· == c) b

theorem one_le_countP (ha : l[k]? = some a) {p : α → Bool} (hp : p a = true) : 1 ≤ l.countP p :=
  List.countP_pos_iff.mpr ⟨a, List.mem_of_getElem? ha, hp⟩

/-- An element that is counted. -/
theorem exists_of_one_le_countP {p : α → Bool} (h : 1 ≤ l.countP p) :
    ∃ (k : ℕ) (a : α), l[k]? = some a ∧ p a = true := by
  obtain ⟨a, hmem, hp⟩ := List.countP_pos_iff.mp h
  obtain ⟨k, hk⟩ := List.mem_iff_getElem?.mp hmem
  exact ⟨k, a, hk, hp⟩

/-- The other elements stay. -/
theorem mem_or_mem_set (ha : l[k]? = some a) (hv : v ∈ l) (b : α) : v = a ∨ v ∈ l.set k b := by
  obtain ⟨j, hj⟩ := List.mem_iff_getElem?.mp hv
  by_cases hjk : j = k
  · subst hjk
    exact .inl (Option.some.inj (hj.symm.trans ha))
  · refine .inr (List.mem_iff_getElem?.mpr ⟨j, ?_⟩)
    rw [List.getElem?_set_ne (Ne.symm hjk)]
    exact hj

theorem mem_set_self (ha : l[k]? = some a) (b : α) : b ∈ l.set k b := by
  obtain ⟨hk, -⟩ := List.getElem?_eq_some_iff.mp ha
  exact List.mem_iff_getElem?.mpr ⟨k, List.getElem?_set_self hk⟩

/-- A sum gets smaller with one of its terms. -/
theorem sum_set_lt (f : α → ℕ) (ha : l[k]? = some a) (hlt : f b < f a) :
    ((l.set k b).map f).sum < (l.map f).sum := by
  induction l generalizing k with
  | nil => cases ha
  | cons c l ih =>
    cases k with
    | zero =>
      obtain rfl : c = a := Option.some.inj ha
      simpa using hlt
    | succ k => simpa using ih ha

end NekoBox.Lib.Workers
