import Mathlib

/-!
# Three-way comparison and orders by components

Comparisons that answer less, equal or greater, and relations that hold when
some component is less.

* `compareValue_eq_eq`, `compareValue_swap`: the comparison of a linear order;
* `compareValue_append`: lists of equal lengths are compared piece by piece;
* `then_eq_swap_iff`: when a chain of two comparisons is antisymmetric;
* `strictWeakOn_not_le_iff`: "some component is less" is a strict weak order on
  a set exactly when any two of its members are comparable in the product
  order; incomparability is equality in any case (`not_le_incomp_iff`).
-/

namespace NekoBox.Lib

/-! ## Comparing values -/

section Values

variable {α : Type*} [LinearOrder α]

/-- The three-way comparison of a linear order. -/
def compareValue (a b : α) : Ordering :=
  if b < a then .gt else if a = b then .eq else .lt

theorem compareValue_eq_eq {a b : α} : compareValue a b = .eq ↔ a = b := by
  unfold compareValue
  split_ifs with hlt heq
  · simp [hlt.ne']
  · simp [heq]
  · simp [heq]

theorem compareValue_eq_gt {a b : α} : compareValue a b = .gt ↔ b < a := by
  unfold compareValue
  split_ifs with hlt heq <;> simp [hlt]

theorem compareValue_eq_lt {a b : α} : compareValue a b = .lt ↔ a < b := by
  unfold compareValue
  split_ifs with hlt heq
  · simp [hlt.le]
  · simp [heq]
  · simpa using lt_of_le_of_ne (not_lt.mp hlt) heq

@[simp] theorem compareValue_self (a : α) : compareValue a a = .eq := compareValue_eq_eq.mpr rfl

theorem compareValue_swap (a b : α) : compareValue b a = (compareValue a b).swap := by
  rcases lt_trichotomy a b with hlt | heq | hgt
  · rw [compareValue_eq_lt.mpr hlt, compareValue_eq_gt.mpr hlt]
    rfl
  · rw [heq, compareValue_self]
    rfl
  · rw [compareValue_eq_lt.mpr hgt, compareValue_eq_gt.mpr hgt]
    rfl

theorem compareValue_cons (a b : α) (as bs : List α) :
    compareValue (a :: as) (b :: bs) = (compareValue a b).then (compareValue as bs) := by
  rcases lt_trichotomy a b with hlt | heq | hgt
  · rw [compareValue_eq_lt.mpr hlt, compareValue_eq_lt.mpr (List.Lex.rel hlt)]
    rfl
  · subst heq
    rw [compareValue_self]
    show compareValue (a :: as) (a :: bs) = compareValue as bs
    rcases lt_trichotomy as bs with hlt | heq | hgt
    · rw [compareValue_eq_lt.mpr hlt, compareValue_eq_lt.mpr (List.Lex.cons hlt)]
    · rw [heq, compareValue_self, compareValue_self]
    · rw [compareValue_eq_gt.mpr hgt, compareValue_eq_gt.mpr (List.Lex.cons hgt)]
  · rw [compareValue_eq_gt.mpr hgt, compareValue_eq_gt.mpr (List.Lex.rel hgt)]
    rfl

/-- Lists that agree in the length of their first pieces are compared by the
    first pieces, then by the rest. -/
theorem compareValue_append {as bs cs ds : List α} (h : as.length = bs.length) :
    compareValue (as ++ cs) (bs ++ ds) = (compareValue as bs).then (compareValue cs ds) := by
  induction as generalizing bs with
  | nil =>
    obtain rfl : bs = [] := List.length_eq_zero_iff.mp h.symm
    rw [compareValue_self]
    rfl
  | cons a as ih =>
    cases bs with
    | nil => cases h
    | cons b bs =>
      rw [List.cons_append, List.cons_append, compareValue_cons, compareValue_cons,
        ih (Nat.succ.inj h), Ordering.then_assoc]

end Values

/-! ## Chains of comparisons -/

/-- A chain of two comparisons, the first of which is equal in both directions
    or in neither, is antisymmetric exactly when the first is and, where it is
    equal, the second is. -/
theorem then_eq_swap_iff {o₁ o₂ o₁' o₂' : Ordering} (h : o₁' = .eq ↔ o₁ = .eq) :
    o₁'.then o₂' = (o₁.then o₂).swap ↔ o₁' = o₁.swap ∧ (o₁ = .eq → o₂' = o₂.swap) := by
  cases o₁ <;> cases o₁' <;> simp_all [Ordering.then, Ordering.swap]

/-! ## Orders by components -/

/-- `r` is a strict weak order on the members of `S`. -/
structure StrictWeakOn {α : Type*} (r : α → α → Prop) (S : Set α) : Prop where
  irrefl : ∀ x ∈ S, ¬ r x x
  asymm : ∀ x ∈ S, ∀ y ∈ S, r x y → ¬ r y x
  trans : ∀ x ∈ S, ∀ y ∈ S, ∀ z ∈ S, r x y → r y z → r x z
  incomp_trans : ∀ x ∈ S, ∀ y ∈ S, ∀ z ∈ S,
    ¬ r x y ∧ ¬ r y x → ¬ r y z ∧ ¬ r z y → ¬ r x z ∧ ¬ r z x

section Components

variable {α P : Type*} [PartialOrder P] {f : α → P} {x y : α}

/-- Neither has a component that is less: all components are equal. -/
theorem not_le_incomp_iff : (¬ ¬ f y ≤ f x ∧ ¬ ¬ f x ≤ f y) ↔ f x = f y := by
  rw [not_not, not_not]
  constructor
  · rintro ⟨hyx, hxy⟩
    exact le_antisymm hxy hyx
  · intro h
    exact ⟨h.ge, h.le⟩

/-- "Some component is less" is a strict weak order exactly on chains. -/
theorem strictWeakOn_not_le_iff (S : Set α) :
    StrictWeakOn (fun x y => ¬ f y ≤ f x) S ↔ ∀ x ∈ S, ∀ y ∈ S, f x ≤ f y ∨ f y ≤ f x := by
  constructor
  · intro h x hx y hy
    by_contra hnot
    obtain ⟨hxy, hyx⟩ := not_or.mp hnot
    exact h.asymm x hx y hy hyx hxy
  · intro hchain
    constructor
    · intro x _ h
      exact h le_rfl
    · intro x hx y hy hxy hyx
      rcases hchain x hx y hy with h | h
      · exact hyx h
      · exact hxy h
    · intro x hx y hy z hz hxy hyz hzx
      have hle : f y ≤ f z := (hchain y hy z hz).resolve_right hyz
      exact hxy (hle.trans hzx)
    · intro x _ y _ z _ hxy hyz
      have hxy' : f x = f y := not_le_incomp_iff.mp hxy
      have hyz' : f y = f z := not_le_incomp_iff.mp hyz
      exact not_le_incomp_iff.mpr (hxy'.trans hyz')

end Components

end NekoBox.Lib
