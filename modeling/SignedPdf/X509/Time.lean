import SignedPdf.Asn1.Element
import SignedPdf.Time.Instant
import SignedPdf.X509.Fault

/-!
# Dates of validity

A certificate gives the start and the end of its validity in one of two forms.

* UTC time has a year of two digits, which stands for 1950 to 2049, and ends
  with `Z` or an offset.
* Generalized time has a year of four digits, may have a fraction of up to three
  digits, which is dropped, and ends with `Z`.

In both the seconds may be left out, but only just before the final `Z`.
-/

namespace SignedPdf.X509

open SignedPdf.Asn1

/-! ## Digits -/

/-- The value of a decimal digit. -/
def decimalDigit? (b : UInt8) : Option Nat :=
  if 0x30 ≤ b.toNat ∧ b.toNat ≤ 0x39 then some (b.toNat - 0x30) else none

/-- Exactly two decimal digits, and what follows them. -/
def digitPair? : Bytes → Option (Nat × Bytes)
  | a :: b :: rest =>
    match decimalDigit? a, decimalDigit? b with
    | some a, some b => some (a * 10 + b, rest)
    | _, _ => none
  | _ => none

/-! ## The two forms -/

/-- The seconds; before the last octet they are left out. -/
def seconds? : Bytes → Option (Nat × Bytes)
  | [b] => some (0, [b])
  | bs => digitPair? bs

/-- Hours and minutes of an offset. -/
def offsetParts? (bs : Bytes) : Option (Nat × Nat) := do
  let (hours, bs) ← digitPair? bs
  let (minutes, bs) ← digitPair? bs
  guard (bs = [] ∧ hours ≤ 25 ∧ minutes ≤ 59)
  return (hours, minutes)

/-- The end of a UTC time: `Z` or an offset, in seconds. Minutes go west only
together with hours. -/
def zone? : Bytes → Option Int
  | [0x5A] => some 0
  | 0x2B :: bs => (offsetParts? bs).map fun (hours, minutes) => (hours * 3600 + minutes * 60 : Nat)
  | 0x2D :: bs =>
    (offsetParts? bs).map fun (hours, minutes) =>
      if hours = 0 then ((minutes * 60 : Nat) : Int) else -((hours * 3600 + minutes * 60 : Nat) : Int)
  | _ => none

/-- The end of a generalized time: a fraction of at most three digits, if any,
and `Z`. -/
def fractionEnd? : Bytes → Option Int
  | 0x2E :: bs =>
    let digits := bs.takeWhile fun b => (decimalDigit? b).isSome
    if digits.length ≤ 3 ∧ bs.drop digits.length = [0x5A] then some 0 else none
  | bs => if bs = [0x5A] then some 0 else none

/-- What both forms have in common after the year; `ending` reads what follows
the seconds. -/
def afterYear? (year : Nat) (ending : Bytes → Option Int) (bs : Bytes) : Option ZonedTime := do
  let (month, bs) ← digitPair? bs
  let (day, bs) ← digitPair? bs
  let (hour, bs) ← digitPair? bs
  let (minute, bs) ← digitPair? bs
  let (second, bs) ← seconds? bs
  let offset ← ending bs
  let date : Date := ⟨year, month, day⟩
  guard (date.inCalendar ∧ hour ≤ 23 ∧ minute ≤ 59 ∧ second ≤ 59)
  return { date, hour, minute, second, offset }

/-- The year that two digits stand for. -/
def fullYear (year : Nat) : Nat := if 50 ≤ year then 1900 + year else 2000 + year

/-- The contents of a UTC time. -/
def utcTime? (bs : Bytes) : Option ZonedTime := do
  let (year, bs) ← digitPair? bs
  afterYear? (fullYear year) zone? bs

/-- The contents of a generalized time. -/
def generalizedTime? (bs : Bytes) : Option ZonedTime := do
  let (century, bs) ← digitPair? bs
  let (year, bs) ← digitPair? bs
  afterYear? (century * 100 + year) fractionEnd? bs

/-! ## Validity -/

/-- The tag number of a UTC time. -/
def utcTimeTag : Nat := 23

/-- The tag number of a generalized time. -/
def generalizedTimeTag : Nat := 24

/-- The time at the start, in seconds from 1970-01-01T00:00:00Z, and what
follows it. -/
def time? (bs : Bytes) : Option (Int × Bytes) :=
  match Element.read bs with
  | .error _ => none
  | .ok (e, rest) =>
    let time :=
      if e.identifier.number = utcTimeTag then utcTime? e.contents
      else if e.identifier.number = generalizedTimeTag then generalizedTime? e.contents
      else none
    time.map fun t => (t.unixSeconds, rest)

/-- When a certificate is valid; both ends belong to the interval. -/
structure Validity where
  /-- The first second. -/
  notBefore : Int
  /-- The last second. -/
  notAfter : Int
deriving DecidableEq, Repr

/-- The validity at the start, and what follows it. -/
def Validity.read (bs : Bytes) : Except Fault (Validity × Bytes) := do
  let c ← element (Container.read sequenceTag bs)
  let (notBefore, bs) ← orFault .date (time? c.contents)
  let (notAfter, _) ← orFault .date (time? bs)
  return (⟨notBefore, notAfter⟩, c.rest)

end SignedPdf.X509
