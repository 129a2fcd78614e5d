import Mathlib

/-!
# Deterministic machines and their runs

A machine maps a state and an action to the next state, or to `none` when the
action is not enabled. A run is a list of actions. The rules below reduce a
statement about every run to one about a single step:

* `run_invariant`: an invariant preserved by every step that meets a side
  condition holds at the end of every run whose steps meet it;
* `run_invariant'`: the same without a side condition;
* `along_iff`: two step conditions that agree wherever an invariant holds, and
  that the invariant survives, hold along the same runs.
-/

namespace NekoBox.Lib

/-- A machine with states `σ` and actions `ι`. -/
structure Machine (σ ι : Type*) where
  step : σ → ι → Option σ

namespace Machine

variable {σ ι : Type*} (M : Machine σ ι)

/-- Perform the actions of a list in order. -/
def run : σ → List ι → Option σ
  | s, [] => some s
  | s, i :: is => (M.step s i).bind fun s' => run s' is

/-- Every step of the run satisfies `P` in the state in which it is taken. -/
def Along (P : σ → ι → Prop) : σ → List ι → Prop
  | _, [] => True
  | s, i :: is => P s i ∧ ∀ s', M.step s i = some s' → Along P s' is

instance decidableAlong (P : σ → ι → Prop) [∀ s i, Decidable (P s i)] :
    ∀ s is, Decidable (M.Along P s is)
  | _, [] => isTrue trivial
  | s, i :: is =>
    match hstep : M.step s i with
    | none => decidable_of_iff (P s i) (by simp [Along, hstep])
    | some s' =>
      have := decidableAlong P s' is
      decidable_of_iff (P s i ∧ M.Along P s' is) (by simp [Along, hstep])

variable {M}

@[simp] theorem run_nil (s : σ) : M.run s [] = some s := rfl

theorem run_cons (s : σ) (i : ι) (is : List ι) :
    M.run s (i :: is) = (M.step s i).bind fun s' => M.run s' is := rfl

theorem run_append (s : σ) (is js : List ι) :
    M.run s (is ++ js) = (M.run s is).bind fun s' => M.run s' js := by
  induction is generalizing s with
  | nil => rfl
  | cons i is ih =>
    simp only [List.cons_append, run_cons]
    cases M.step s i with
    | none => rfl
    | some s' => exact ih s'

/-- A run splits at its first step. -/
theorem run_cons_eq_some {s t : σ} {i : ι} {is : List ι} :
    M.run s (i :: is) = some t ↔ ∃ s', M.step s i = some s' ∧ M.run s' is = some t := by
  rw [run_cons, Option.bind_eq_some_iff]

/-- A run splits at its last step. -/
theorem run_concat_eq_some {s t : σ} {is : List ι} {i : ι} :
    M.run s (is ++ [i]) = some t ↔ ∃ s', M.run s is = some s' ∧ M.step s' i = some t := by
  rw [run_append, Option.bind_eq_some_iff]
  simp only [run_cons, run_nil, Option.bind_fun_some]

theorem along_concat {P : σ → ι → Prop} {s : σ} {is : List ι} {i : ι} :
    M.Along P s (is ++ [i]) ↔ M.Along P s is ∧ ∀ s', M.run s is = some s' → P s' i := by
  induction is generalizing s with
  | nil => simp [Along]
  | cons j is ih =>
    simp only [List.cons_append, Along, ih, run_cons, Option.bind_eq_some_iff]
    constructor
    · rintro ⟨hP, hrest⟩
      exact ⟨⟨hP, fun t ht => (hrest t ht).1⟩, fun s' ⟨t, ht, hrun⟩ => (hrest t ht).2 s' hrun⟩
    · rintro ⟨⟨hP, hrest⟩, hlast⟩
      exact ⟨hP, fun t ht => ⟨hrest t ht, fun s' hrun => hlast s' ⟨t, ht, hrun⟩⟩⟩

/-- **Invariant rule.** -/
theorem run_invariant (P : σ → ι → Prop) (Inv : σ → Prop)
    (hstep : ∀ s i s', Inv s → P s i → M.step s i = some s' → Inv s') :
    ∀ {is : List ι} {s t : σ}, Inv s → M.Along P s is → M.run s is = some t → Inv t := by
  intro is
  induction is with
  | nil => intro s t hs _ h; cases h; exact hs
  | cons i is ih =>
    intro s t hs halong h
    obtain ⟨s', hs', ht⟩ := run_cons_eq_some.mp h
    exact ih (hstep s i s' hs halong.1 hs') (halong.2 s' hs') ht

/-- The invariant rule without a side condition. -/
theorem run_invariant' (Inv : σ → Prop)
    (hstep : ∀ s i s', Inv s → M.step s i = some s' → Inv s') :
    ∀ {is : List ι} {s t : σ}, Inv s → M.run s is = some t → Inv t := by
  intro is
  induction is with
  | nil => intro s t hs h; cases h; exact hs
  | cons i is ih =>
    intro s t hs h
    obtain ⟨s', hs', ht⟩ := run_cons_eq_some.mp h
    exact ih (hstep s i s' hs hs') ht

/-- Step conditions that agree in the states of an invariant, which a step that
    meets them preserves, hold along the same runs. -/
theorem along_iff {P Q : σ → ι → Prop} (Inv : σ → Prop)
    (hiff : ∀ s i, Inv s → (P s i ↔ Q s i))
    (hstep : ∀ s i s', Inv s → Q s i → M.step s i = some s' → Inv s') :
    ∀ {is : List ι} {s : σ}, Inv s → (M.Along P s is ↔ M.Along Q s is) := by
  intro is
  induction is with
  | nil => intro s _; exact Iff.rfl
  | cons i is ih =>
    intro s hs
    constructor
    · rintro ⟨hP, hrest⟩
      have hQ : Q s i := (hiff s i hs).mp hP
      exact ⟨hQ, fun s' h => (ih (hstep s i s' hs hQ h)).mp (hrest s' h)⟩
    · rintro ⟨hQ, hrest⟩
      exact ⟨(hiff s i hs).mpr hQ, fun s' h => (ih (hstep s i s' hs hQ h)).mpr (hrest s' h)⟩

end Machine

end NekoBox.Lib
