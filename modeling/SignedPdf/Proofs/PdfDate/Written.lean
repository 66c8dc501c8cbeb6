import Mathlib.Data.List.Induction
import Mathlib.Data.List.TakeWhile
import SignedPdf.Proofs.Calendar
import SignedPdf.Proofs.PdfDate.Parts

/-!
# Written dates, clocks and zones

The documented layouts give each number of a date a fixed count of digits. Here are the
parts that can be written so, and what they say.

* `date?_append`, `clock?_append` and `offset?_append`: each part is read as what it says,
  if the calendar has the date and a clock shows the time and the offset.
-/

namespace SignedPdf.PdfDate

/-! ## Numerals -/

/-- A number written with a fixed count of digits. -/
structure Numeral (width : Nat) where
  chars : List Char
  length_chars : chars.length = width
  all_isDigit : chars.all isDigit = true

namespace Numeral

variable {width : Nat}

/-- The number that is written. -/
def value (n : Numeral width) : Nat := numeralValue n.chars

theorem isDigit_chars (n : Numeral width) : ∀ c ∈ n.chars, isDigit c = true :=
  List.all_eq_true.1 n.all_isDigit

theorem apostrophe_notMem (n : Numeral width) : '\'' ∉ n.chars := by
  intro hmem
  exact ne_apostrophe_of_isDigit (n.isDigit_chars _ hmem) rfl

theorem chars_ne_nil (n : Numeral (width + 1)) : n.chars ≠ [] := by
  intro hnil
  have hlength := n.length_chars
  rw [hnil] at hlength
  cases hlength

theorem exists_cons (n : Numeral (width + 1)) :
    ∃ c cs, n.chars = c :: cs ∧ isDigit c = true := by
  obtain ⟨c, cs, hchars⟩ := List.exists_cons_of_ne_nil n.chars_ne_nil
  exact ⟨c, cs, hchars, n.isDigit_chars c (by simp [hchars])⟩

theorem exists_getLast? (n : Numeral (width + 1)) :
    ∃ c, n.chars.getLast? = some c ∧ isDigit c = true := by
  refine ⟨n.chars.getLast n.chars_ne_nil, List.getLast?_eq_some_getLast _, ?_⟩
  exact n.isDigit_chars _ (List.getLast_mem _)

end Numeral

theorem isDigit_digitChar (d : Fin 10) : isDigit d.val.digitChar = true := by
  revert d
  decide

/-- The numeral with the given digits. -/
def Numeral.ofDigits (ds : List (Fin 10)) : Numeral ds.length where
  chars := ds.map fun d => d.val.digitChar
  length_chars := List.length_map _
  all_isDigit := by
    rw [List.all_map]
    exact List.all_eq_true.2 fun d _ => isDigit_digitChar d

theorem digitValue_le {c : Char} (h : isDigit c = true) : digitValue c ≤ 9 := by
  have hle := of_isDigit (p := fun c => decide (digitValue c ≤ 9)) (by decide) h
  exact of_decide_eq_true hle

theorem numeralValue_concat (ds : List Char) (d : Char) :
    numeralValue (ds ++ [d]) = numeralValue ds * 10 + digitValue d := by
  simp [numeralValue]

theorem numeralValue_lt {ds : List Char} (h : ∀ d ∈ ds, isDigit d = true) :
    numeralValue ds < 10 ^ ds.length := by
  induction ds using List.reverseRecOn with
  | nil => decide
  | append_singleton ds d ih =>
    have hds := ih fun c hc => h c (by simp [hc])
    have hd := digitValue_le (h d (by simp))
    rw [numeralValue_concat, List.length_append, List.length_singleton, Nat.pow_succ]
    omega

theorem Numeral.value_lt {width : Nat} (n : Numeral width) : n.value < 10 ^ width := by
  have hlt := numeralValue_lt n.isDigit_chars
  rwa [n.length_chars] at hlt

section Reading

variable {width : Nat} (rest : List Char)

/-- A numeral of the width that is read is read as its value. -/
theorem number?_append (n : Numeral (width + 1)) :
    number? (width + 1) (n.chars ++ rest) = some (n.value, rest) := by
  have htake : (n.chars ++ rest).take (width + 1) = n.chars := List.take_left' n.length_chars
  have hdigits : (digitsOf n.chars).1 = n.chars :=
    List.takeWhile_eq_self_iff.2 n.isDigit_chars
  unfold number?
  rw [htake, hdigits]
  split
  · next hnil => exact absurd hnil n.chars_ne_nil
  · rw [List.drop_left]
    rfl

/-- No blank stands before a numeral. -/
theorem trimStart_append (n : Numeral (width + 1)) :
    Text.trimStart (n.chars ++ rest) = n.chars ++ rest := by
  obtain ⟨c, cs, hchars, hdigit⟩ := n.exists_cons
  rw [hchars]
  exact List.dropWhile_cons_of_neg (by simp [isBlank_of_isDigit hdigit])

theorem twoDigits?_append (n : Numeral 2) :
    twoDigits? (n.chars ++ rest) = some (n.value, rest) := by
  rw [twoDigits?, trimStart_append, number?_append]

theorem year?_append (n : Numeral 4) : year? (n.chars ++ rest) = some ((n.value : Int), rest) := by
  obtain ⟨c, cs, hchars, hdigit⟩ := n.exists_cons
  unfold year?
  rw [trimStart_append]
  split
  · next heq =>
    rw [hchars] at heq
    cases heq
    exact absurd hdigit (by decide)
  · next heq =>
    rw [hchars] at heq
    cases heq
    exact absurd hdigit (by decide)
  · rw [number?_append]
    rfl

theorem digitPair?_append (n : Numeral 2) :
    digitPair? (n.chars ++ rest) = some (n.value, rest) := by
  obtain ⟨a, b, hchars⟩ := List.length_eq_two.1 n.length_chars
  have ha := n.isDigit_chars a (by simp [hchars])
  have hb := n.isDigit_chars b (by simp [hchars])
  simp [digitPair?, hchars, ha, hb, Numeral.value, numeralValue]

end Reading

/-! ## Written dates, clocks and offsets -/

/-- A date as in `20240315`. -/
structure WrittenDate where
  year : Numeral 4
  month : Numeral 2
  day : Numeral 2

namespace WrittenDate

def chars (d : WrittenDate) : List Char := d.year.chars ++ d.month.chars ++ d.day.chars

/-- The date that is written. -/
def date (d : WrittenDate) : Date := ⟨d.year.value, d.month.value, d.day.value⟩

/-- The number of days from 0000-01-01. -/
def days (d : WrittenDate) : Nat :=
  Date.daysFromYearZero d.year.value d.month.value d.day.value

end WrittenDate

/-- A time of the day as in `143000`. -/
structure WrittenClock where
  hour : Numeral 2
  minute : Numeral 2
  second : Numeral 2

namespace WrittenClock

def chars (c : WrittenClock) : List Char := c.hour.chars ++ c.minute.chars ++ c.second.chars

/-- Whether a clock shows this; it may show a leap second. -/
def isShown (c : WrittenClock) : Bool :=
  c.hour.value ≤ 23 && c.minute.value ≤ 59 && c.second.value ≤ 60

/-- Seconds from midnight; a leap second counts as the second before it. -/
def seconds (c : WrittenClock) : Nat :=
  c.hour.value * 3600 + c.minute.value * 60 + min c.second.value 59

end WrittenClock

/-- The sign of an offset. -/
inductive Sign where
  | plus
  | minus

namespace Sign

def char : Sign → Char
  | plus => '+'
  | minus => '-'

def factor : Sign → Int
  | plus => 1
  | minus => -1

end Sign

/-- How the apostrophes of an offset are written. -/
inductive Quoting where
  /-- As in `+0530`. -/
  | none
  /-- As in `+05'30`. -/
  | between
  /-- As in `+05'30'`. -/
  | both

namespace Quoting

/-- Between the hours and the minutes. -/
def gap : Quoting → List Char
  | none => []
  | between | both => ['\'']

/-- After the minutes. -/
def closing : Quoting → List Char
  | none | between => []
  | both => ['\'']

end Quoting

/-- What may follow a clock. -/
inductive Zone where
  | absent
  /-- A lone `Z`. -/
  | zulu
  | offset (sign : Sign) (hours minutes : Numeral 2) (quoting : Quoting)

namespace Zone

/-- Up to an apostrophe at the end. -/
def opening : Zone → List Char
  | absent => []
  | zulu => ['Z']
  | offset sign hours minutes quoting =>
    sign.char :: (hours.chars ++ (quoting.gap ++ minutes.chars))

/-- An apostrophe at the end. -/
def closing : Zone → List Char
  | absent | zulu => []
  | offset _ _ _ quoting => quoting.closing

/-- Whether a clock shows the hours and minutes of an offset. -/
def isShown : Zone → Bool
  | absent | zulu => true
  | offset _ hours minutes _ => hours.value ≤ 23 && minutes.value ≤ 59

/-- Seconds ahead of UTC, which is meant where no offset is written. -/
def seconds : Zone → Int
  | absent | zulu => 0
  | offset sign hours minutes _ => sign.factor * (hours.value * 3600 + minutes.value * 60)

end Zone

/-! ## Each part is read as what it says -/

section Parts

variable (rest : List Char)

theorem date?_append (d : WrittenDate) :
    date? (d.chars ++ rest) = if d.date.inCalendar then some (d.date, rest) else none := by
  have hlt := d.year.value_lt
  have hfirst : Instant.firstYear ≤ (d.year.value : Int) := by
    unfold Instant.firstYear
    omega
  have hlast : (d.year.value : Int) ≤ Instant.lastYear := by
    unfold Instant.lastYear
    omega
  simp only [date?, WrittenDate.chars, List.append_assoc, year?_append, twoDigits?_append,
    Option.bind_eq_bind, Option.bind_some, hfirst, hlast, true_and]
  by_cases hdate : d.date.inCalendar = true
  · rw [if_pos hdate]
    rw [WrittenDate.date] at hdate ⊢
    simp [guard, hdate]
  · rw [if_neg hdate]
    rw [WrittenDate.date] at hdate
    simp [guard, hdate]

theorem date?_chars (d : WrittenDate) :
    date? d.chars = if d.date.inCalendar then some (d.date, []) else none := by
  have hdate := date?_append [] d
  rwa [List.append_nil] at hdate

theorem clock?_append (c : WrittenClock) :
    clock? (c.chars ++ rest) =
      if c.isShown then some ((c.hour.value, c.minute.value, c.second.value), rest) else none := by
  simp only [clock?, WrittenClock.chars, WrittenClock.isShown, List.append_assoc,
    twoDigits?_append, Option.bind_eq_bind, Option.bind_some, Bool.and_eq_true,
    decide_eq_true_eq, and_assoc]
  split
  · next hclock => simp [guard, hclock]
  · next hclock => simp [guard, hclock]

theorem isOffsetGap_of_isDigit {c : Char} (h : isDigit c = true) : isOffsetGap c = false := by
  have hnot := of_isDigit (p := fun c => !isOffsetGap c) (by decide) h
  simpa using hnot

theorem offset?_append (sign : Sign) (hours minutes : Numeral 2) :
    offset? (sign.char :: (hours.chars ++ (minutes.chars ++ rest))) =
      if hours.value ≤ 23 ∧ minutes.value ≤ 59 then
        some (sign.factor * (hours.value * 3600 + minutes.value * 60), rest) else none := by
  have hsign : ∀ cs, sign? (Text.trimStart (sign.char :: cs)) = some (sign.factor, cs) := by
    intro cs
    cases sign <;> rfl
  have hgap : (minutes.chars ++ rest).dropWhile isOffsetGap = minutes.chars ++ rest := by
    obtain ⟨c, cs, hchars, hdigit⟩ := minutes.exists_cons
    rw [hchars]
    exact List.dropWhile_cons_of_neg (by simp [isOffsetGap_of_isDigit hdigit])
  simp only [offset?, hsign, digitPair?_append, hgap, Option.bind_eq_bind, Option.bind_some]
  split
  · next hshown => simp [guard, hshown]
  · next hshown => simp [guard, hshown]

end Parts

theorem WrittenDate.apostrophe_notMem (d : WrittenDate) : '\'' ∉ d.chars := by
  simp [chars, d.year.apostrophe_notMem, d.month.apostrophe_notMem, d.day.apostrophe_notMem]

theorem WrittenClock.apostrophe_notMem (c : WrittenClock) : '\'' ∉ c.chars := by
  simp [chars, c.hour.apostrophe_notMem, c.minute.apostrophe_notMem, c.second.apostrophe_notMem]

theorem WrittenClock.chars_ne_nil (c : WrittenClock) : c.chars ≠ [] := by
  simp [chars, c.hour.chars_ne_nil]

end SignedPdf.PdfDate
