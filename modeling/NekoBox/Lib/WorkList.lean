import Mathlib

/-!
# Work lists

A work list takes its first element and appends what the element expands to.

* `done_iff_acc`: it becomes empty exactly when every element is accessible for
  "is one of the elements that … expands to";
* `acc_iff_of_measure`: when an element expands to smaller elements only, or to
  itself, it is accessible exactly when no element reached from it expands to
  itself.
-/

namespace NekoBox.Lib.WorkList

variable {α : Type*} (expand : α → List α)

/-- Take the first element and append what it expands to. -/
def step : List α → List α
  | [] => []
  | a :: l => l ++ expand a

/-- The list becomes empty. -/
def Done (l : List α) : Prop := ∃ n : ℕ, (step expand)^[n] l = []

/-- `b` is one of the elements `a` expands to. -/
def Below (b a : α) : Prop := b ∈ expand a

variable {expand}

theorem acc_of_iterate_eq_nil {n : ℕ} : ∀ {l : List α}, (step expand)^[n] l = [] →
    ∀ a ∈ l, Acc (Below expand) a := by
  induction n with
  | zero =>
    intro l h a ha
    obtain rfl : l = [] := h
    cases ha
  | succ n ih =>
    intro l h a ha
    cases l with
    | nil => cases ha
    | cons b l =>
      have hnext : ∀ c ∈ l ++ expand b, Acc (Below expand) c :=
        ih (by simpa [Function.iterate_succ_apply, step] using h)
      rcases List.mem_cons.mp ha with rfl | ha
      · exact Acc.intro _ fun c hc => hnext c (List.mem_append_right _ hc)
      · exact hnext a (List.mem_append_left _ ha)

/-- `Below` from accessible elements. -/
def BelowAcc (expand : α → List α) (b a : α) : Prop := b ∈ expand a ∧ Acc (Below expand) a

theorem belowAcc_irrefl (a : α) : ¬ BelowAcc expand a a := by
  rintro ⟨hself, hacc⟩
  induction hacc with
  | intro a _ ih => exact ih a hself hself

theorem acc_belowAcc {a : α} (h : Acc (Below expand) a) : Acc (BelowAcc expand) a := by
  induction h with
  | intro a _ ih => exact Acc.intro a fun b hb => ih b hb.1

/-- The multiset of a list of accessible elements is accessible for replacing
    one element by elements below it. -/
theorem acc_cutExpand {l : List α} (h : ∀ a ∈ l, Acc (Below expand) a) :
    Acc (Relation.CutExpand (BelowAcc expand)) (l : Multiset α) := by
  have hirrefl : Std.Irrefl (BelowAcc expand) := ⟨belowAcc_irrefl⟩
  exact Relation.acc_of_singleton fun a ha => (acc_belowAcc (h a ha)).cutExpand

theorem done_of_acc {l : List α} (h : ∀ a ∈ l, Acc (Below expand) a) : Done expand l := by
  have hmultiset := acc_cutExpand h
  generalize hm : (l : Multiset α) = m at hmultiset
  induction hmultiset generalizing l with
  | intro m _ ih =>
    subst hm
    cases l with
    | nil => exact ⟨0, rfl⟩
    | cons a l =>
      have ha : Acc (Below expand) a := h a (List.mem_cons.mpr (Or.inl rfl))
      have hnext : ∀ b ∈ l ++ expand a, Acc (Below expand) b := by
        intro b hb
        rcases List.mem_append.mp hb with hb | hb
        · exact h b (List.mem_cons_of_mem _ hb)
        · exact ha.inv hb
      have hcut : Relation.CutExpand (BelowAcc expand) (↑(l ++ expand a) : Multiset α)
          (↑(a :: l) : Multiset α) := by
        refine ⟨(expand a : Multiset α), a, fun b hb => ⟨hb, ha⟩, ?_⟩
        rw [← Multiset.coe_add, ← Multiset.cons_coe, ← Multiset.singleton_add]
        abel
      obtain ⟨n, hn⟩ := ih _ hcut hnext rfl
      exact ⟨n + 1, hn⟩

/-- **When a work list becomes empty.** -/
theorem done_iff_acc {l : List α} : Done expand l ↔ ∀ a ∈ l, Acc (Below expand) a := by
  constructor
  · rintro ⟨n, hn⟩
    exact acc_of_iterate_eq_nil hn
  · exact done_of_acc

/-- `b` is reached from `a` by expanding. -/
def Reaches (expand : α → List α) : α → α → Prop :=
  Relation.ReflTransGen fun a b => b ∈ expand a

theorem Reaches.head {a b c : α} (hb : b ∈ expand a) (h : Reaches expand b c) :
    Reaches expand a c := Relation.ReflTransGen.head hb h

theorem acc_of_reaches {a b : α} (h : Acc (Below expand) a) (hab : Reaches expand a b) :
    Acc (Below expand) b := by
  induction hab with
  | refl => exact h
  | tail _ hc ih => exact ih.inv hc

/-- **When an element is accessible**, if it expands to itself or to smaller
    elements. -/
theorem acc_iff_of_measure (μ : α → ℕ) (hμ : ∀ a, ∀ b ∈ expand a, b = a ∨ μ b < μ a) (a : α) :
    Acc (Below expand) a ↔ ∀ b, Reaches expand a b → b ∉ expand b := by
  constructor
  · intro h b hab hself
    have hacc := acc_of_reaches h hab
    exact belowAcc_irrefl b ⟨hself, hacc⟩
  · intro h
    induction hn : μ a using Nat.strong_induction_on generalizing a with
    | _ n ih =>
      refine Acc.intro a fun b hb => ?_
      rcases hμ a b hb with rfl | hlt
      · exact absurd hb (h b Relation.ReflTransGen.refl)
      · exact ih (μ b) (hn ▸ hlt) b (fun c hc => h c (Reaches.head hb hc)) rfl

end NekoBox.Lib.WorkList
