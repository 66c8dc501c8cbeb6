/-!
# Calendar dates

Dates of the Gregorian calendar, carried on over all years, and their place in
the sequence of days that counts 1970-01-01 as zero. `dayNumber` goes from a
date to its place and `ofDayNumber` back; both count the year from March, so
that a leap day comes last.
-/

namespace SignedPdf

/-- A year, a month and a day of the month. -/
structure Date where
  year : Int
  month : Nat
  day : Nat
deriving DecidableEq, Repr

namespace Date

/-! ## Which dates exist -/

/-- Every fourth year is a leap year, but of the centuries only every fourth. -/
def isLeapYear (year : Int) : Bool :=
  year % 4 == 0 && (year % 100 != 0 || year % 400 == 0)

/-- The number of days of a month; a month that does not exist has none. -/
def daysInMonth (year : Int) : (month : Nat) → Nat
  | 2 => if isLeapYear year then 29 else 28
  | 4 | 6 | 9 | 11 => 30
  | 1 | 3 | 5 | 7 | 8 | 10 | 12 => 31
  | _ => 0

/-- Whether the calendar has the date. -/
def inCalendar (d : Date) : Bool := 1 ≤ d.day && d.day ≤ daysInMonth d.year d.month

/-- A date that exists lies in one of the twelve months. -/
theorem month_of_inCalendar {d : Date} (h : d.inCalendar = true) : 1 ≤ d.month ∧ d.month ≤ 12 := by
  simp only [inCalendar, Bool.and_eq_true, decide_eq_true_eq] at h
  by_cases hm : 1 ≤ d.month ∧ d.month ≤ 12
  · exact hm
  · have : daysInMonth d.year d.month = 0 := by
      unfold daysInMonth
      split <;> omega
    omega

/-! ## Counting days -/

/-- The number of days from 1970-01-01 to the date. -/
def dayNumber (d : Date) : Int :=
  let year := if d.month ≤ 2 then d.year - 1 else d.year
  let month : Int := if d.month ≤ 2 then d.month + 9 else d.month - 3
  365 * year + year / 4 - year / 100 + year / 400 + (153 * month + 2) / 5 + d.day - 719469

/-- The date that is `n` days after 1970-01-01. -/
def ofDayNumber (n : Int) : Date :=
  let day := n + 719468
  let era := day / 146097
  let dayOfEra := day % 146097
  let yearOfEra :=
    (dayOfEra - dayOfEra / 1460 + dayOfEra / 36524 - dayOfEra / 146096) / 365
  let dayOfYear := dayOfEra - (365 * yearOfEra + yearOfEra / 4 - yearOfEra / 100)
  let month := (5 * dayOfYear + 2) / 153
  let year := yearOfEra + era * 400
  { year := if month < 10 then year else year + 1
    month := (if month < 10 then month + 3 else month - 9).toNat
    day := (dayOfYear - (153 * month + 2) / 5 + 1).toNat }

end Date

end SignedPdf
