import Mathlib.Data.List.Basic

/-!
# Loops

A loop over a list whose body may end it with an error. What the body preserves
holds after the loop (`invariant`), and what the body establishes for an item and
never undoes holds of every item afterwards (`visits`). For a loop that cannot fail,
`foldl_invariant` takes a side condition that holds along the loop.
-/

namespace NekoBox.Lib.Loop

variable {α σ ε : Type} {f : σ → α → Except ε σ} {xs : List α} {s t : σ}

/-- A computation that ends well has done so in its first step. -/
theorem bind_eq_ok {β γ : Type} {x : Except ε β} {g : β → Except ε γ} {c : γ} :
    x >>= g = .ok c ↔ ∃ b, x = .ok b ∧ g b = .ok c := by
  constructor
  · intro h
    cases x with
    | error e => cases h
    | ok b => exact ⟨b, rfl, h⟩
  · rintro ⟨b, rfl, h⟩
    exact h

theorem foldlM_cons_eq_ok {x : α} :
    (x :: xs).foldlM f s = .ok t ↔ ∃ u, f s x = .ok u ∧ xs.foldlM f u = .ok t := by
  rw [List.foldlM_cons, bind_eq_ok]

theorem invariant {P : σ → Prop} (h : xs.foldlM f s = .ok t) (hs : P s)
    (step : ∀ s x t, x ∈ xs → P s → f s x = .ok t → P t) : P t := by
  induction xs generalizing s with
  | nil =>
    obtain rfl : s = t := Except.ok.inj h
    exact hs
  | cons x xs ih =>
    obtain ⟨u, hu, ht⟩ := foldlM_cons_eq_ok.mp h
    apply ih ht (step s x u List.mem_cons_self hs hu)
    intro s y t hy
    exact step s y t (List.mem_cons_of_mem x hy)

theorem visits {Q : α → σ → Prop} (h : xs.foldlM f s = .ok t)
    (establish : ∀ x ∈ xs, ∀ s t, f s x = .ok t → Q x t)
    (keep : ∀ x s y t, Q x s → f s y = .ok t → Q x t) : ∀ x ∈ xs, Q x t := by
  induction xs generalizing s with
  | nil => exact fun x hx => absurd hx List.not_mem_nil
  | cons y ys ih =>
    obtain ⟨u, hu, ht⟩ := foldlM_cons_eq_ok.mp h
    intro x hx
    rcases List.mem_cons.mp hx with rfl | hx
    · apply invariant ht (establish x List.mem_cons_self s u hu)
      intro s y t _
      exact keep x s y t
    · apply ih ht ?_ x hx
      intro z hz
      exact establish z (List.mem_cons_of_mem y hz)

/-! ## Loops that cannot fail -/

/-- Every iteration satisfies `P` in the state before it. -/
def Along (f : σ → α → σ) (P : σ → α → Prop) : σ → List α → Prop
  | _, [] => True
  | s, x :: xs => P s x ∧ Along f P (f s x) xs

instance decidableAlong (f : σ → α → σ) (P : σ → α → Prop) [∀ s x, Decidable (P s x)] :
    ∀ s xs, Decidable (Along f P s xs)
  | _, [] => isTrue trivial
  | s, x :: xs =>
    have := decidableAlong f P (f s x) xs
    inferInstanceAs (Decidable (P s x ∧ Along f P (f s x) xs))

theorem foldl_invariant {f : σ → α → σ} {P : σ → α → Prop} {Inv : σ → Prop}
    (step : ∀ s x, Inv s → P s x → Inv (f s x)) :
    ∀ {xs : List α} {s : σ}, Inv s → Along f P s xs → Inv (xs.foldl f s) := by
  intro xs
  induction xs with
  | nil => exact fun hs _ => hs
  | cons x xs ih =>
    rintro s hs ⟨hx, hxs⟩
    exact ih (step s x hs hx) hxs

end NekoBox.Lib.Loop
