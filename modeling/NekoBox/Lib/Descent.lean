import Mathlib.Data.Set.Finite.Basic
import Mathlib.Data.Fintype.EquivFin
import Mathlib.Order.WellFounded
import Mathlib.Logic.Relation

/-!
# Recursion through references

A function that calls itself on the records a record refers to, and keeps no list
of those it has visited. `f fuel a` is `none` when the fuel runs out. The function
returns if and only if every path of calls ends (`returns_iff_acc`); where only
finitely many records can be reached, this is so if and only if none of them leads
back to itself (`returns_iff_no_cycle`).
-/

namespace NekoBox.Lib.Descent

variable {α β : Type} {f : ℕ → α → Option β} {calls : α → α → Prop} {a b : α}

/-- The function returns on `a` if it returns on all records that it calls itself on,
    of which there are finitely many. -/
structure Recursion (f : ℕ → α → Option β) (calls : α → α → Prop) : Prop where
  zero : ∀ a, f 0 a = none
  succ : ∀ n a, (f (n + 1) a).isSome ↔ ∀ b, calls a b → (f n b).isSome
  finite : ∀ a, {b | calls a b}.Finite

def Returns (f : ℕ → α → Option β) (a : α) : Prop := ∃ n, (f n a).isSome

theorem isSome_succ (h : Recursion f calls) (n : ℕ) (a : α) (hn : (f n a).isSome) :
    (f (n + 1) a).isSome := by
  induction n generalizing a with
  | zero =>
    rw [h.zero] at hn
    cases hn
  | succ n ih =>
    rw [h.succ]
    intro b hb
    exact ih b ((h.succ n a).mp hn b hb)

theorem isSome_of_le (h : Recursion f calls) {n m : ℕ} (hle : n ≤ m) (hn : (f n a).isSome) :
    (f m a).isSome := by
  induction hle with
  | refl => exact hn
  | step _ ih => exact isSome_succ h _ a ih

/-- Fuel for all of finitely many records. -/
theorem exists_fuel (h : Recursion f calls) {s : Set α} (hs : s.Finite)
    (hreturns : ∀ b ∈ s, Returns f b) : ∃ n, ∀ b ∈ s, (f n b).isSome := by
  induction s, hs using Set.Finite.induction_on with
  | empty => exact ⟨0, fun b hb => absurd hb (Set.notMem_empty b)⟩
  | @insert c s _ _ ih =>
    obtain ⟨n, hn⟩ := ih fun b hb => hreturns b (Set.mem_insert_of_mem c hb)
    obtain ⟨m, hm⟩ := hreturns c (Set.mem_insert c s)
    refine ⟨max n m, ?_⟩
    intro b hb
    rcases Set.mem_insert_iff.mp hb with rfl | hb
    · exact isSome_of_le h (le_max_right n m) hm
    · exact isSome_of_le h (le_max_left n m) (hn b hb)

theorem returns_iff_acc (h : Recursion f calls) :
    Returns f a ↔ Acc (fun b a => calls a b) a := by
  constructor
  · rintro ⟨n, hn⟩
    induction n generalizing a with
    | zero =>
      rw [h.zero] at hn
      cases hn
    | succ n ih => exact ⟨a, fun b hb => ih ((h.succ n a).mp hn b hb)⟩
  · intro hacc
    induction hacc with
    | intro a _ ih =>
      obtain ⟨n, hn⟩ := exists_fuel h (h.finite a) ih
      exact ⟨n + 1, (h.succ n a).mpr hn⟩

/-- A record that is called from itself, directly or through others. -/
def Cyclic (calls : α → α → Prop) (a : α) : Prop := Relation.TransGen calls a a

def Reaches (calls : α → α → Prop) (a b : α) : Prop := Relation.ReflTransGen calls a b

theorem not_acc_of_cyclic (h : Cyclic calls b) : ¬ Acc (fun b a => calls a b) b := by
  intro hacc
  have htrans : Acc (Relation.TransGen fun b a => calls a b) b := hacc.transGen
  clear hacc
  induction htrans with
  | intro b _ ih => exact ih b (Relation.transGen_swap.mpr h) h

theorem acc_of_reaches (hacc : Acc (fun b a => calls a b) a) (h : Reaches calls a b) :
    Acc (fun b a => calls a b) b := by
  induction h with
  | refl => exact hacc
  | tail _ hstep ih => exact ih.inv hstep

theorem acc_of_no_cycle (hfinite : {b | Reaches calls a b}.Finite)
    (h : ∀ b, Reaches calls a b → ¬ Cyclic calls b) : Acc (fun b a => calls a b) a := by
  have : Finite {b | Reaches calls a b} := hfinite
  let r : {b | Reaches calls a b} → {b | Reaches calls a b} → Prop :=
    fun c b => Relation.TransGen calls b.1 c.1
  have : IsTrans _ r := ⟨fun _ _ _ hab hbc => hbc.trans hab⟩
  have : Std.Irrefl r := ⟨fun b => h b.1 b.2⟩
  have hwell : WellFounded r := Finite.wellFounded_of_trans_of_irrefl r
  have hacc (b : {b | Reaches calls a b}) : Acc (fun b a => calls a b) b.1 := by
    induction b using hwell.induction with
    | h b ih =>
      refine ⟨b.1, ?_⟩
      intro c hc
      exact ih ⟨c, b.2.tail hc⟩ (.single hc)
  exact hacc ⟨a, .refl⟩

theorem returns_iff_no_cycle (h : Recursion f calls) (hfinite : {b | Reaches calls a b}.Finite) :
    Returns f a ↔ ∀ b, Reaches calls a b → ¬ Cyclic calls b := by
  rw [returns_iff_acc h]
  constructor
  · intro hacc b hb hcycle
    exact not_acc_of_cyclic hcycle (acc_of_reaches hacc hb)
  · exact acc_of_no_cycle hfinite

/-! ## Walks

A walk has at most one way on from each place. -/

/-- A walk that comes to an end is finite. -/
theorem acc_of_reaches_end (hwalk : Relator.RightUnique calls) (h : Reaches calls a b)
    (hend : ∀ c, ¬ calls b c) : Acc (fun b a => calls a b) a := by
  induction h using Relation.ReflTransGen.head_induction_on with
  | refl => exact ⟨b, fun c hc => absurd hc (hend c)⟩
  | head hstep _ ih =>
    refine ⟨_, fun c hc => ?_⟩
    rw [hwalk hc hstep]
    exact ih

/-- It has one end. -/
theorem eq_of_ends {c : α} (hwalk : Relator.RightUnique calls) (hb : Reaches calls a b)
    (hc : Reaches calls a c) (hbend : ∀ d, ¬ calls b d) (hcend : ∀ d, ¬ calls c d) : b = c := by
  have hstay : ∀ {x y : α}, Reaches calls x y → (∀ d, ¬ calls x d) → x = y := by
    intro x y h hend
    rcases Relation.ReflTransGen.cases_head h with rfl | ⟨d, hd, -⟩
    · rfl
    · exact absurd hd (hend d)
  rcases Relation.ReflTransGen.total_of_right_unique hwalk hb hc with h | h
  · exact hstay h hbend
  · exact (hstay h hcend).symm

end NekoBox.Lib.Descent
