import SignedPdf.Time.Calendar

/-!
# Instants and their text

An `Instant` is a count of seconds from 1970-01-01T00:00:00Z and a fraction in
nanoseconds, which goes on above 10^9 through a leap second. A `ZonedTime` is a
local date and time with its distance from UTC; it keeps the fields as they were
written, and a leap second is its own second 60.

Both are written in the format of RFC 3339, extended to years outside 0 to
9999, which carry a sign.
-/

namespace SignedPdf

/-! ## Numerals -/

/-- The decimal digits of a number, with zeros in front to make `width`. -/
def paddedNumeral (width n : Nat) : String :=
  let digits := Nat.toDigits 10 n
  String.ofList (List.replicate (width - digits.length) '0' ++ digits)

/-- Four digits for the years 0 to 9999; a sign and at least four digits for
every other year. -/
def yearNumeral (year : Int) : String :=
  if 0 ≤ year ∧ year ≤ 9999 then paddedNumeral 4 year.toNat
  else (if year < 0 then "-" else "+") ++ paddedNumeral 4 year.natAbs

/-- A date with its parts joined by hyphens. -/
def Date.text (d : Date) : String :=
  yearNumeral d.year ++ "-" ++ paddedNumeral 2 d.month ++ "-" ++ paddedNumeral 2 d.day

/-- A time of the day with its parts joined by colons. -/
def clockText (hour minute second : Nat) : String :=
  paddedNumeral 2 hour ++ ":" ++ paddedNumeral 2 minute ++ ":" ++ paddedNumeral 2 second

/-- A fraction of a second in as few groups of three digits as it needs. -/
def fractionText (nanos : Nat) : String :=
  if nanos = 0 then ""
  else if nanos % 1000000 = 0 then "." ++ paddedNumeral 3 (nanos / 1000000)
  else if nanos % 1000 = 0 then "." ++ paddedNumeral 6 (nanos / 1000)
  else "." ++ paddedNumeral 9 nanos

/-! ## Instants -/

/-- A point in time. -/
structure Instant where
  /-- Whole seconds from 1970-01-01T00:00:00Z; a leap second shares the count of
  the second before it. -/
  seconds : Int
  /-- Nanoseconds after that second, at least 10^9 in a leap second. -/
  nanos : Nat := 0
deriving DecidableEq, Repr

namespace Instant

/-- Whether `a` comes before `b`. -/
def before (a b : Instant) : Bool :=
  a.seconds < b.seconds || (a.seconds == b.seconds && a.nanos < b.nanos)

/-- The date in UTC. -/
def date (t : Instant) : Date := Date.ofDayNumber (t.seconds / 86400)

/-- The second of the day in UTC. -/
def secondOfDay (t : Instant) : Nat := (t.seconds % 86400).toNat

/-- Whether the instant lies in a leap second. -/
def inLeapSecond (t : Instant) : Bool := 1000000000 ≤ t.nanos

/-- Date and time up to the second, in UTC; a leap second is one second later than
the second whose count it shares. -/
def localText (t : Instant) : String :=
  let s := t.secondOfDay
  let second := if t.inLeapSecond then s % 60 + 1 else s % 60
  t.date.text ++ "T" ++ clockText (s / 3600) (s / 60 % 60) second

/-- The instant in UTC, down to whole seconds. -/
def textInSeconds (t : Instant) : String := t.localText ++ "Z"

/-- The instant in UTC with its fraction. -/
def text (t : Instant) : String := t.localText ++ fractionText (t.nanos % 1000000000) ++ "Z"

/-- The first year of the calendar that instants are written in. -/
def firstYear : Int := -262143

/-- The last year of the calendar that instants are written in. -/
def lastYear : Int := 262142

/-- Whether a second lies in a year that can be written. -/
def isRepresentable (seconds : Int) : Bool :=
  Date.dayNumber ⟨firstYear, 1, 1⟩ ≤ seconds / 86400 &&
    seconds / 86400 ≤ Date.dayNumber ⟨lastYear, 12, 31⟩

end Instant

/-! ## Local times with an offset -/

/-- A date and time as shown by a clock that is `offset` seconds ahead of UTC. -/
structure ZonedTime where
  date : Date
  hour : Nat
  minute : Nat
  /-- 60 in a leap second. -/
  second : Nat
  /-- Seconds ahead of UTC. -/
  offset : Int
deriving DecidableEq, Repr

namespace ZonedTime

/-- Whole seconds from 1970-01-01T00:00:00Z; a leap second shares the count of
the second before it. -/
def unixSeconds (t : ZonedTime) : Int :=
  t.date.dayNumber * 86400 + t.hour * 3600 + t.minute * 60 + min t.second 59 - t.offset

/-- Nanoseconds after that second: a leap second is one second later. -/
def nanos (t : ZonedTime) : Nat := if t.second = 60 then 1000000000 else 0

/-- The instant shown by the clock. -/
def instant (t : ZonedTime) : Instant := ⟨t.unixSeconds, t.nanos⟩

/-- Hours and minutes of the offset with its sign. -/
def offsetText (t : ZonedTime) : String :=
  let minutes := t.offset.natAbs / 60
  (if t.offset < 0 then "-" else "+") ++ paddedNumeral 2 (minutes / 60) ++ ":" ++
    paddedNumeral 2 (minutes % 60)

/-- Date and time as the clock shows them. -/
def localText (t : ZonedTime) : String :=
  t.date.text ++ "T" ++ clockText t.hour t.minute t.second

/-- The time with its offset in figures. -/
def text (t : ZonedTime) : String := t.localText ++ t.offsetText

/-- The time with its offset in figures, where UTC is written `Z`. -/
def textOrZulu (t : ZonedTime) : String :=
  t.localText ++ if t.offset = 0 then "Z" else t.offsetText

end ZonedTime

end SignedPdf
