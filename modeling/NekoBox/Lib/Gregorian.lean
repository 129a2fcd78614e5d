import Mathlib.Algebra.BigOperators.Intervals
import Mathlib.Data.Nat.Basic
import Mathlib.Tactic.IntervalCases

/-!
# The Gregorian calendar

The calendar is the rule for the day after a day (`Date.next`), so the date of an
instant is the one reached from a first day by as many steps as there are days in
between.

* `iterate_next_day`: within a month;
* `iterate_next_month`: from the first of a month to the first of the next one;
* `iterate_next_year`: from New Year to New Year.
-/

namespace NekoBox.Lib.Gregorian

/-- Every fourth year is a leap year, of the centuries only every fourth. -/
def IsLeap (year : ℕ) : Prop := 4 ∣ year ∧ ¬ 100 ∣ year ∨ 400 ∣ year

instance (year : ℕ) : Decidable (IsLeap year) := inferInstanceAs (Decidable (_ ∨ _))

/-- The days of a month; January is 1. -/
def monthLength (year month : ℕ) : ℕ :=
  if month = 2 then if IsLeap year then 29 else 28
  else if month = 4 ∨ month = 6 ∨ month = 9 ∨ month = 11 then 30
  else 31

def yearLength (year : ℕ) : ℕ := if IsLeap year then 366 else 365

structure Date where
  year : ℕ
  month : ℕ
  day : ℕ
  deriving DecidableEq, Repr

/-- The day after. -/
def Date.next (d : Date) : Date :=
  if d.day < monthLength d.year d.month then { d with day := d.day + 1 }
  else if d.month < 12 then ⟨d.year, d.month + 1, 1⟩
  else ⟨d.year + 1, 1, 1⟩

variable {year month k : ℕ}

theorem monthLength_pos : 0 < monthLength year month := by
  unfold monthLength
  split_ifs
  · omega
  · omega
  · omega
  · omega

/-- The months make up the year. -/
theorem sum_monthLength :
    ∑ i ∈ Finset.range 12, monthLength year (i + 1) = yearLength year := by
  by_cases h : IsLeap year
  · simp [Finset.sum_range_succ, monthLength, yearLength, h]
  · simp [Finset.sum_range_succ, monthLength, yearLength, h]

theorem iterate_next_day (h : k < monthLength year month) :
    Date.next^[k] ⟨year, month, 1⟩ = ⟨year, month, k + 1⟩ := by
  induction k with
  | zero => rfl
  | succ k ih =>
    have hday : k + 1 < monthLength year month := h
    rw [Function.iterate_succ_apply', ih (by omega), Date.next, if_pos hday]

theorem iterate_next_month :
    Date.next^[monthLength year month] ⟨year, month, 1⟩ =
      if month < 12 then ⟨year, month + 1, 1⟩ else ⟨year + 1, 1, 1⟩ := by
  have hpos := @monthLength_pos year month
  obtain ⟨k, hk⟩ : ∃ k, monthLength year month = k + 1 := ⟨_, (Nat.succ_pred hpos.ne').symm⟩
  have hlast : ¬ k + 1 < monthLength year month := by omega
  rw [hk, Function.iterate_succ_apply', iterate_next_day (by omega), Date.next, if_neg hlast]

theorem iterate_next_months (h : k < 12) :
    Date.next^[∑ i ∈ Finset.range k, monthLength year (i + 1)] ⟨year, 1, 1⟩ =
      ⟨year, k + 1, 1⟩ := by
  induction k with
  | zero => rfl
  | succ k ih =>
    rw [Finset.sum_range_succ, Nat.add_comm, Function.iterate_add_apply, ih (by omega),
      iterate_next_month, if_pos h]

theorem iterate_next_year : Date.next^[yearLength year] ⟨year, 1, 1⟩ = ⟨year + 1, 1, 1⟩ := by
  rw [← sum_monthLength, Finset.sum_range_succ, Nat.add_comm, Function.iterate_add_apply,
    iterate_next_months (by omega), iterate_next_month, if_neg (by omega)]

example : Date.next^[59] ⟨1972, 1, 1⟩ = ⟨1972, 2, 29⟩ := by decide +kernel

end NekoBox.Lib.Gregorian
