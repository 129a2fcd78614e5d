import Mathlib.Data.List.Basic

/-!
# Lists made of blocks

A list whose first block holds only elements of one kind and whose other blocks
hold none has one such decomposition.
-/

namespace NekoBox.Lib.Blocks

variable {α : Type*} (kind : α → Bool) {a b a' b' : List α}

theorem filter_append_of_kind (ha : ∀ x ∈ a, kind x = true) (hb : ∀ x ∈ b, kind x = false) :
    (a ++ b).filter kind = a := by
  have hnone : b.filter kind = [] := by
    rw [List.filter_eq_nil_iff]
    intro x hx
    rw [hb x hx]
    exact Bool.false_ne_true
  rw [List.filter_append, List.filter_eq_self.mpr ha, hnone, List.append_nil]

/-- The blocks of equal lists are equal. -/
theorem append_inj (ha : ∀ x ∈ a, kind x = true) (hb : ∀ x ∈ b, kind x = false)
    (ha' : ∀ x ∈ a', kind x = true) (hb' : ∀ x ∈ b', kind x = false)
    (h : a ++ b = a' ++ b') : a = a' ∧ b = b' := by
  have hfirst : a = a' := by
    rw [← filter_append_of_kind kind ha hb, h, filter_append_of_kind kind ha' hb']
  rw [hfirst] at h
  exact ⟨hfirst, List.append_cancel_left h⟩

end NekoBox.Lib.Blocks
