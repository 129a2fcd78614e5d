import Mathlib.Data.List.Basic

/-!
# Ordered rules

A list whose first element of interest decides. `Decides good bad l` says that some
element is good and none before it is bad; when no element is both, this is so if
and only if there is a good one and every bad one has a good one before it
(`decides_iff`).
-/

namespace NekoBox.Lib.FirstMatch

variable {α : Type} {good bad : α → Prop} {l : List α}

def Decides (good bad : α → Prop) (l : List α) : Prop :=
  ∃ before a after, l = before ++ a :: after ∧ good a ∧ ∀ b ∈ before, ¬ bad b

/-- The first good element. -/
theorem exists_first (h : ∃ a ∈ l, good a) :
    ∃ before a after, l = before ++ a :: after ∧ good a ∧ ∀ b ∈ before, ¬ good b := by
  induction l with
  | nil =>
    obtain ⟨a, ha, -⟩ := h
    exact absurd ha List.not_mem_nil
  | cons x l ih =>
    by_cases hx : good x
    · exact ⟨[], x, l, rfl, hx, fun b hb => absurd hb List.not_mem_nil⟩
    · obtain ⟨a, ha, hgood⟩ := h
      have hne : a ≠ x := fun heq => hx (heq ▸ hgood)
      obtain ⟨before, a, after, rfl, hgood, hbefore⟩ :=
        ih ⟨a, (List.mem_cons.mp ha).resolve_left hne, hgood⟩
      refine ⟨x :: before, a, after, rfl, hgood, ?_⟩
      intro b hb
      rcases List.mem_cons.mp hb with rfl | hb
      · exact hx
      · exact hbefore b hb

/-- Of two elements at marked places, one comes before the other or they are one. -/
theorem before_or_after {before before' after after' : List α} {a b : α}
    (h : before ++ a :: after = before' ++ b :: after') :
    a ∈ before' ∨ b ∈ before ∨ a = b := by
  rcases List.append_eq_append_iff.mp h with ⟨m, rfl, hm⟩ | ⟨m, rfl, hm⟩
  · cases m with
    | nil => exact .inr (.inr (List.cons.inj hm).1)
    | cons x m =>
      obtain ⟨rfl, -⟩ := List.cons.inj hm
      exact .inl (List.mem_append_right before List.mem_cons_self)
  · cases m with
    | nil => exact .inr (.inr (List.cons.inj hm).1.symm)
    | cons x m =>
      obtain ⟨rfl, -⟩ := List.cons.inj hm
      exact .inr (.inl (List.mem_append_right before' List.mem_cons_self))

theorem decides_iff (hdisjoint : ∀ a, good a → ¬ bad a) :
    Decides good bad l ↔ (∃ a ∈ l, good a) ∧
      ∀ before b after, l = before ++ b :: after → bad b → ∃ a ∈ before, good a := by
  constructor
  · rintro ⟨before, a, after, rfl, hgood, hbefore⟩
    refine ⟨⟨a, List.mem_append_right before List.mem_cons_self, hgood⟩, ?_⟩
    intro before' b after' heq hbad
    rcases before_or_after heq with hmem | hmem | rfl
    · exact ⟨a, hmem, hgood⟩
    · exact absurd hbad (hbefore b hmem)
    · exact absurd hbad (hdisjoint a hgood)
  · rintro ⟨hgood, hbacked⟩
    obtain ⟨before, a, after, rfl, ha, hbefore⟩ := exists_first hgood
    refine ⟨before, a, after, rfl, ha, ?_⟩
    intro b hb hbad
    obtain ⟨first, last, rfl⟩ := List.append_of_mem hb
    obtain ⟨c, hc, hcgood⟩ := hbacked first b (last ++ a :: after) (by simp) hbad
    exact hbefore c (List.mem_append_left _ hc) hcgood

end NekoBox.Lib.FirstMatch
