import Mathlib.Tactic.IntervalCases
import SignedPdf.Time.Calendar

/-!
# Days counted one by one

The place of a date in the sequence of days is computed without a loop. This file
counts the days of the years and months before it, and shows that both agree.

* `daysBeforeYear_eq`: the days before a year without counting them.
* `dayNumber_eq`: the place of a date is the count of the days before it, up to the
  days before 1970.
-/

namespace SignedPdf.Date

/-- The number of days in the years from 0 up to the one before `year`. -/
def daysBeforeYear : (year : Nat) → Nat
  | 0 => 0
  | year + 1 => daysBeforeYear year + if isLeapYear year then 366 else 365

/-- The number of days in the months of a year before `month`, where January is 1. -/
def daysBeforeMonth (year : Int) : (month : Nat) → Nat
  | 0 => 0
  | month + 1 => daysBeforeMonth year month + daysInMonth year month

/-- The number of days from 0000-01-01 to a date. -/
def daysFromYearZero (year month day : Nat) : Nat :=
  daysBeforeYear year + daysBeforeMonth year month + (day - 1)

/-- The number of days from 0000-01-01 to 1970-01-01. -/
def daysBefore1970 : Nat := 719528

theorem isLeapYear_iff {year : Int} :
    isLeapYear year = true ↔ year % 4 = 0 ∧ (year % 100 ≠ 0 ∨ year % 400 = 0) := by
  simp [isLeapYear]

/-- Every fourth of the years before has a day more, but of the centuries only every
fourth; the year 0 is one of them. -/
theorem daysBeforeYear_eq (year : Nat) :
    (daysBeforeYear year : Int) = 365 * (year - 1) + (year - 1) / 4 - (year - 1) / 100 +
      (year - 1) / 400 + 366 := by
  induction year with
  | zero => rfl
  | succ year ih =>
    rw [daysBeforeYear, Nat.cast_add, ih]
    by_cases hleap : isLeapYear year = true
    · rw [if_pos hleap]
      rw [isLeapYear_iff] at hleap
      push_cast
      omega
    · have hcommon : (year : Int) % 4 ≠ 0 ∨ (year : Int) % 100 = 0 ∧ (year : Int) % 400 ≠ 0 := by
        rw [isLeapYear_iff] at hleap
        tauto
      rw [if_neg hleap]
      push_cast
      rcases hcommon with h4 | ⟨h100, h400⟩
      · omega
      · omega

theorem daysBeforeMonth_of_le_two (year : Int) {month : Nat} (h1 : 1 ≤ month) (h2 : month ≤ 2) :
    daysBeforeMonth year month = 31 * (month - 1) := by
  interval_cases month <;> rfl

/-- From March on, five months have 153 days. -/
theorem daysBeforeMonth_of_three_le (year : Int) {month : Nat} (h3 : 3 ≤ month)
    (h12 : month ≤ 12) :
    daysBeforeMonth year month =
      (153 * (month - 3) + 2) / 5 + if isLeapYear year then 60 else 59 := by
  by_cases hleap : isLeapYear year = true
  · interval_cases month <;> simp [daysBeforeMonth, daysInMonth, hleap]
  · interval_cases month <;> simp [daysBeforeMonth, daysInMonth, hleap]

/-- The place of a date is the number of days before it. -/
theorem dayNumber_eq {year month day : Nat} (h : inCalendar ⟨year, month, day⟩ = true) :
    dayNumber ⟨year, month, day⟩ = daysFromYearZero year month day - daysBefore1970 := by
  obtain ⟨hfirst, hlast⟩ := month_of_inCalendar h
  have hday : 1 ≤ day := by
    simp only [inCalendar, Bool.and_eq_true, decide_eq_true_eq] at h
    exact h.1
  dsimp only at hfirst hlast
  by_cases hmonth : month ≤ 2
  · have hyears := daysBeforeYear_eq year
    have hmonths := daysBeforeMonth_of_le_two year hfirst hmonth
    simp only [dayNumber, if_pos hmonth, daysFromYearZero, daysBefore1970, hmonths]
    omega
  · -- Counted from March, a leap day of the year itself has passed.
    have hyears := daysBeforeYear_eq (year + 1)
    have hmonths := daysBeforeMonth_of_three_le year (by omega) hlast
    simp only [daysBeforeYear, Nat.cast_add, Nat.cast_one, Int.add_sub_cancel] at hyears
    simp only [dayNumber, if_neg hmonth, daysFromYearZero, daysBefore1970, hmonths]
    by_cases hleap : isLeapYear year = true
    · rw [if_pos hleap] at hyears ⊢
      omega
    · rw [if_neg hleap] at hyears ⊢
      omega

end SignedPdf.Date
