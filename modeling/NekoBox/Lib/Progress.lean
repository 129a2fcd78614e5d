import NekoBox.Lib.Machine

/-!
# Progress of machines

A machine completes if its runs cannot go on for ever and, as long as it has not
finished, one of its own actions is enabled; other actions are those of the
surroundings, for which it need not wait.

* `reachable_invariant`: the invariant rule for reachable states;
* `completes_of_measure`: a machine completes if a measure drops in each step and
  no state of an invariant is stuck;
* `Completes.exists_finished`: it then does finish.
-/

namespace NekoBox.Lib.Machine

variable {σ ι : Type*} (M : Machine σ ι)

/-- A run leads from `s` to `t`. -/
def Reachable (s t : σ) : Prop := ∃ is, M.run s is = some t

/-- Every run from `s` ends, and one that is not finished does not wait for the
    surroundings. -/
structure Completes (Own : ι → Prop) (Finished : σ → Prop) (s : σ) : Prop where
  bounded : ∃ n, ∀ is t, M.run s is = some t → is.length ≤ n
  continues : ∀ t, M.Reachable s t → ¬ Finished t → ∃ i, Own i ∧ (M.step t i).isSome = true

variable {M}

theorem Reachable.refl (s : σ) : M.Reachable s s := ⟨[], rfl⟩

theorem Reachable.step {s t u : σ} {i : ι} (hstep : M.step s i = some t) (h : M.Reachable t u) :
    M.Reachable s u := by
  obtain ⟨is, hrun⟩ := h
  exact ⟨i :: is, run_cons_eq_some.mpr ⟨t, hstep, hrun⟩⟩

theorem Reachable.trans {s t u : σ} (h : M.Reachable s t) (h' : M.Reachable t u) :
    M.Reachable s u := by
  obtain ⟨is, hrun⟩ := h
  obtain ⟨js, hrun'⟩ := h'
  refine ⟨is ++ js, ?_⟩
  rw [run_append, hrun]
  exact hrun'

theorem reachable_invariant (Inv : σ → Prop)
    (hstep : ∀ s i s', Inv s → M.step s i = some s' → Inv s') {s t : σ} (hs : Inv s)
    (h : M.Reachable s t) : Inv t := by
  obtain ⟨is, hrun⟩ := h
  exact run_invariant' Inv hstep hs hrun

/-- A measure that drops in each step bounds the runs. -/
theorem length_le_measure (Inv : σ → Prop) (μ : σ → ℕ)
    (hstep : ∀ s i s', Inv s → M.step s i = some s' → Inv s')
    (hdrop : ∀ s i s', Inv s → M.step s i = some s' → μ s' < μ s) :
    ∀ {is : List ι} {s t : σ}, Inv s → M.run s is = some t → is.length ≤ μ s := by
  intro is
  induction is with
  | nil => intro s t _ _; exact Nat.zero_le _
  | cons i is ih =>
    intro s t hs h
    obtain ⟨s', hs', ht⟩ := run_cons_eq_some.mp h
    have hrest : is.length ≤ μ s' := ih (hstep s i s' hs hs') ht
    have hlt : μ s' < μ s := hdrop s i s' hs hs'
    rw [List.length_cons]
    omega

/-- **Completion rule.** -/
theorem completes_of_measure {Own : ι → Prop} {Finished : σ → Prop} (Inv : σ → Prop) (μ : σ → ℕ)
    (hstep : ∀ s i s', Inv s → M.step s i = some s' → Inv s')
    (hdrop : ∀ s i s', Inv s → M.step s i = some s' → μ s' < μ s)
    (hprogress : ∀ s, Inv s → ¬ Finished s → ∃ i, Own i ∧ (M.step s i).isSome = true)
    {s : σ} (hs : Inv s) : M.Completes Own Finished s where
  bounded := ⟨μ s, fun _ _ hrun => length_le_measure Inv μ hstep hdrop hs hrun⟩
  continues t ht hunfinished :=
    hprogress t (reachable_invariant Inv hstep hs ht) hunfinished

/-- A machine that completes has a run that finishes. -/
theorem Completes.exists_finished {Own : ι → Prop} {Finished : σ → Prop} {s : σ}
    (h : M.Completes Own Finished s) : ∃ t, M.Reachable s t ∧ Finished t := by
  by_contra hnever
  push Not at hnever
  have hlong : ∀ n, ∃ is t, M.run s is = some t ∧ is.length = n := by
    intro n
    induction n with
    | zero => exact ⟨[], s, rfl, rfl⟩
    | succ n ih =>
      obtain ⟨is, t, hrun, hlength⟩ := ih
      obtain ⟨i, -, hsome⟩ := h.continues t ⟨is, hrun⟩ (hnever t ⟨is, hrun⟩)
      obtain ⟨u, hu⟩ := Option.isSome_iff_exists.mp hsome
      refine ⟨is ++ [i], u, ?_, by rw [List.length_append, hlength, List.length_singleton]⟩
      rw [run_append, hrun]
      exact run_cons_eq_some.mpr ⟨u, hu, rfl⟩
  obtain ⟨n, hbound⟩ := h.bounded
  obtain ⟨is, t, hrun, hlength⟩ := hlong (n + 1)
  have hle := hbound is t hrun
  omega

end NekoBox.Lib.Machine
