import SignedPdf.Text.Blank
import SignedPdf.Time.Instant

/-!
# Dates of a PDF document

A document writes a date as `D:YYYYMMDDHHmmSSOHH'mm'`, and writers differ in
which trailing parts they give. Five layouts are known; `PdfDate.read?` removes
the surrounding blanks, the mark `D:` and the closing apostrophes, and takes
the first layout that reads all of what is left.

Blanks may stand before each number. A year without a sign has at most four
digits and one with a sign any number of them; the other numbers have at most
two digits.
-/

namespace SignedPdf.PdfDate

/-! ## Numbers -/

/-- Whether a character is a decimal digit of ASCII. -/
def isDigit (c : Char) : Bool := '0' ≤ c && c ≤ '9'

/-- The value of a decimal digit. -/
def digitValue (c : Char) : Nat := c.toNat - 0x30

/-- The value of a sequence of decimal digits. -/
def numeralValue (ds : List Char) : Nat := ds.foldl (fun n d => n * 10 + digitValue d) 0

/-- The digits at the start, and what follows them. -/
def digitsOf (cs : List Char) : List Char × List Char :=
  (cs.takeWhile isDigit, cs.dropWhile isDigit)

/-- A number of at least one digit, as long as the digits go on. -/
def longNumber? (cs : List Char) : Option (Nat × List Char) :=
  match digitsOf cs with
  | ([], _) => none
  | (ds, rest) => some (numeralValue ds, rest)

/-- A number of at least one and at most `width` digits. -/
def number? (width : Nat) (cs : List Char) : Option (Nat × List Char) :=
  match (digitsOf (cs.take width)).1 with
  | [] => none
  | ds => some (numeralValue ds, cs.drop ds.length)

/-- Blanks and then a number of at most two digits. -/
def twoDigits? (cs : List Char) : Option (Nat × List Char) := number? 2 (Text.trimStart cs)

/-- Blanks and then a year. -/
def year? (cs : List Char) : Option (Int × List Char) :=
  match Text.trimStart cs with
  | '-' :: rest => (longNumber? rest).map fun r => (-(r.1 : Int), r.2)
  | '+' :: rest => (longNumber? rest).map fun r => ((r.1 : Int), r.2)
  | rest => (number? 4 rest).map fun r => ((r.1 : Int), r.2)

/-! ## Parts of a date -/

/-- Year, month and day of a date of the calendar in a year that can be
written. -/
def date? (cs : List Char) : Option (Date × List Char) := do
  let (year, cs) ← year? cs
  let (month, cs) ← twoDigits? cs
  let (day, cs) ← twoDigits? cs
  let date : Date := ⟨year, month, day⟩
  guard (Instant.firstYear ≤ year ∧ year ≤ Instant.lastYear ∧ date.inCalendar)
  return (date, cs)

/-- Hour, minute and second, where the second 60 is a leap second. -/
def clock? (cs : List Char) : Option ((Nat × Nat × Nat) × List Char) := do
  let (hour, cs) ← twoDigits? cs
  let (minute, cs) ← twoDigits? cs
  let (second, cs) ← twoDigits? cs
  guard (hour ≤ 23 ∧ minute ≤ 59 ∧ second ≤ 60)
  return ((hour, minute, second), cs)

/-- Exactly two digits. -/
def digitPair? : List Char → Option (Nat × List Char)
  | a :: b :: rest =>
    if isDigit a && isDigit b then some (digitValue a * 10 + digitValue b, rest) else none
  | _ => none

/-- Whether a character may stand between the hours and the minutes of an
offset. -/
def isOffsetGap (c : Char) : Bool := c == ':' || Text.isBlank c

/-- A sign and the characters after it; the minus sign of typography counts as
a minus. -/
def sign? : List Char → Option (Int × List Char)
  | '+' :: rest => some (1, rest)
  | '-' :: rest => some (-1, rest)
  | '\u2212' :: rest => some (-1, rest)
  | _ => none

/-- An offset of less than a day, in seconds. -/
def offset? (cs : List Char) : Option (Int × List Char) := do
  let (sign, cs) ← sign? (Text.trimStart cs)
  let (hours, cs) ← digitPair? cs
  let (minutes, cs) ← digitPair? (cs.dropWhile isOffsetGap)
  guard (hours ≤ 23 ∧ minutes ≤ 59)
  return (sign * (hours * 3600 + minutes * 60), cs)

/-! ## Layouts -/

/-- The known ways of writing a date, without `D:` and closing apostrophes. -/
inductive Layout where
  /-- As in `20240315143000+05'30`. -/
  | quotedOffset
  /-- As in `20240315143000-0700`. -/
  | offset
  /-- As in `20240315143000Z`. -/
  | utc
  /-- As in `20240315143000`, read as UTC. -/
  | bare
  /-- As in `20240315`, read as midnight in UTC. -/
  | dateOnly
deriving DecidableEq, Repr

/-- The layouts in the order in which they are tried. -/
def layouts : List Layout := [.quotedOffset, .offset, .utc, .bare, .dateOnly]

/-- A date and time that is followed by `rest`, and what stands there. -/
def withClock (cs : List Char) (rest : List Char → Option Int) : Option ZonedTime := do
  let (date, cs) ← date? cs
  let ((hour, minute, second), cs) ← clock? cs
  let offset ← rest cs
  return { date, hour, minute, second, offset }

/-- A date and time with an offset at the end; its instant, too, lies in a year
that can be written. -/
def withOffset (cs : List Char) : Option ZonedTime := do
  let time ← withClock cs fun cs =>
    match offset? cs with
    | some (offset, []) => some offset
    | _ => none
  guard (Instant.isRepresentable time.unixSeconds)
  return time

/-- Reads all of `cs` in one layout. -/
def Layout.read? : Layout → List Char → Option ZonedTime
  | .quotedOffset, cs => if '\'' ∈ cs then withOffset (cs.filter (· != '\'')) else none
  | .offset, cs => withOffset cs
  | .utc, cs => withClock cs fun rest => if rest = ['Z'] then some 0 else none
  | .bare, cs => withClock cs fun rest => if rest = [] then some 0 else none
  | .dateOnly, cs =>
    match date? cs with
    | some (date, []) => some ⟨date, 0, 0, 0, 0⟩
    | _ => none

/-! ## Reading -/

/-- Removes the mark `D:` at the start. -/
def dropMark : List Char → List Char
  | 'D' :: ':' :: rest => rest
  | cs => cs

/-- The characters of a date that the layouts read. -/
def body (text : String) : List Char :=
  Text.trimEndWhile (· == '\'') (dropMark (Text.trim text.toList))

/-- The time that the text gives in the first layout that fits. -/
def read? (text : String) : Option ZonedTime := layouts.findSome? fun l => l.read? (body text)

end SignedPdf.PdfDate
