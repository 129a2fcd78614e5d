import Mathlib.Data.List.Basic

/-!
# Failure in the middle of a list

Entries are handled one after another; each changes the state or is refused, and
the first refusal ends it. `Reaches bad step l s` says that a bad entry is
reached: all the entries before it are let through.

* `reaches_append`: over two lists, the second from the state the first leaves.
-/

namespace NekoBox.Lib.Reach

variable {σ ε : Type*} {bad : ε → Prop} {step : σ → ε → Option σ} {l l' : List ε} {e : ε} {s : σ}

/-- A bad entry follows entries that are all let through. -/
def Reaches (bad : ε → Prop) (step : σ → ε → Option σ) (l : List ε) (s : σ) : Prop :=
  ∃ before e after, l = before ++ e :: after ∧ bad e ∧ (before.foldlM step s).isSome

theorem not_reaches_nil : ¬ Reaches bad step [] s := by
  rintro ⟨before, e, after, h, -⟩
  exact absurd h.symm (List.append_ne_nil_of_right_ne_nil _ (List.cons_ne_nil _ _))

theorem reaches_cons :
    Reaches bad step (e :: l) s ↔ bad e ∨ ∃ s', step s e = some s' ∧ Reaches bad step l s' := by
  constructor
  · rintro ⟨before, b, after, hl, hbad, hbefore⟩
    cases before with
    | nil =>
      obtain ⟨rfl, -⟩ := List.cons.inj hl
      exact .inl hbad
    | cons x before =>
      obtain ⟨rfl, htail⟩ := List.cons.inj hl
      rw [List.foldlM_cons] at hbefore
      obtain ⟨s', hs'⟩ : ∃ s', step s e = some s' := by
        cases h : step s e with
        | none => rw [h] at hbefore; exact absurd hbefore Bool.false_ne_true
        | some s' => exact ⟨s', rfl⟩
      rw [hs'] at hbefore
      exact .inr ⟨s', hs', before, b, after, htail, hbad, hbefore⟩
  · rintro (hbad | ⟨s', hs', before, b, after, rfl, hbad, hbefore⟩)
    · exact ⟨[], e, l, rfl, hbad, rfl⟩
    · refine ⟨e :: before, b, after, rfl, hbad, ?_⟩
      rw [List.foldlM_cons, hs']
      exact hbefore

theorem reaches_append :
    Reaches bad step (l ++ l') s ↔
      Reaches bad step l s ∨ ∃ s', l.foldlM step s = some s' ∧ Reaches bad step l' s' := by
  induction l generalizing s with
  | nil =>
    refine Iff.trans ⟨fun h => .inr ⟨s, rfl, h⟩, ?_⟩ Iff.rfl
    rintro (h | ⟨s', hs', h⟩)
    · exact absurd h not_reaches_nil
    · rwa [Option.some.inj hs']
  | cons x l ih =>
    rw [List.cons_append, reaches_cons, reaches_cons, or_assoc]
    refine or_congr Iff.rfl ?_
    simp only [ih, List.foldlM_cons]
    constructor
    · rintro ⟨s', hs', h | ⟨s'', hs'', h⟩⟩
      · exact .inl ⟨s', hs', h⟩
      · exact .inr ⟨s'', by rw [hs']; exact hs'', h⟩
    · rintro (⟨s', hs', h⟩ | ⟨s'', hs'', h⟩)
      · exact ⟨s', hs', .inl h⟩
      · obtain ⟨s', hs', hrest⟩ := Option.bind_eq_some_iff.mp hs''
        exact ⟨s', hs', .inr ⟨s'', hrest, h⟩⟩

theorem reaches_singleton : Reaches bad step [e] s ↔ bad e := by
  rw [reaches_cons]
  exact ⟨fun h => h.resolve_right fun ⟨_, _, h⟩ => not_reaches_nil h, .inl⟩

theorem foldlM_singleton (step : σ → ε → Option σ) (e : ε) (s : σ) :
    [e].foldlM step s = step s e := by
  rw [List.foldlM_cons]
  cases step s e <;> rfl

end NekoBox.Lib.Reach
