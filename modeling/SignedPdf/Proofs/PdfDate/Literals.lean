import SignedPdf.Proofs.PdfDate.Layouts
import SignedPdf.Proofs.PdfDate.Written
import SignedPdf.Proofs.Validity

/-!
# Dates as they are written

A date in one of the documented layouts is a written date, often with a clock after it,
and often with a zone after that. `Literal` holds these parts, and `Literal.said` is the
time that they say.

* `Literal.of_reads` and `Literal.exists_reads`: a literal is read in some layout exactly
  when it is a time, and then as the time that it says.
* `read?_literal`: so are texts that hold a literal among blanks, closing apostrophes and
  the mark, and literals are the same instant exactly when their local times less their
  offsets agree.
-/

namespace SignedPdf.PdfDate

/-! ## Literals -/

/-- A date in one of the documented layouts. -/
inductive Literal where
  /-- As in `20240315`. -/
  | day (date : WrittenDate)
  /-- As in `20240315143000`, and maybe a zone after that. -/
  | time (date : WrittenDate) (clock : WrittenClock) (zone : Zone)

namespace Literal

/-- Up to an apostrophe at the end. -/
def opening : Literal → List Char
  | day date => date.chars
  | time date clock zone => date.chars ++ (clock.chars ++ zone.opening)

/-- An apostrophe at the end. -/
def closing : Literal → List Char
  | day _ => []
  | time _ _ zone => zone.closing

def chars (l : Literal) : List Char := l.opening ++ l.closing

/-- Whether the calendar has the date and a clock shows the time and the offset. -/
def isTime : Literal → Bool
  | day date => date.date.inCalendar
  | time date clock zone => date.date.inCalendar && clock.isShown && zone.isShown

/-- What is written; a date alone is its midnight. -/
def said : Literal → ZonedTime
  | day date => ⟨date.date, 0, 0, 0, 0⟩
  | time date clock zone =>
    ⟨date.date, clock.hour.value, clock.minute.value, clock.second.value, zone.seconds⟩

/-- Seconds of the local time from 0000-01-01; a leap second counts as the one before. -/
def localSeconds : Literal → Nat
  | day date => date.days * 86400
  | time date clock _ => date.days * 86400 + clock.seconds

/-- Whether the local time is a leap second. -/
def isLeap : Literal → Bool
  | day _ => false
  | time _ clock _ => clock.second.value == 60

/-- Seconds of the offset that is written. -/
def offset : Literal → Int
  | day _ => 0
  | time _ _ zone => zone.seconds

/-- The text holds the literal among blanks, after the mark or not, and with any number of
apostrophes right after it. -/
def StandsIn (l : Literal) (text : String) : Prop :=
  ∃ before start count after, before.all Text.isBlank = true ∧ after.all Text.isBlank = true ∧
    (start = mark ∨ start = []) ∧
    text.toList = before ++ (start ++ (l.chars ++ (List.replicate count '\'' ++ after)))

end Literal

/-! ## Dates and times in the layouts -/

/-- The date and the time that are written, read as UTC. -/
def stamped (d : WrittenDate) (c : WrittenClock) : ZonedTime :=
  ⟨d.date, c.hour.value, c.minute.value, c.second.value, 0⟩

theorem stamp?_append (d : WrittenDate) (c : WrittenClock) (rest : List Char) :
    stamp? (d.chars ++ (c.chars ++ rest)) =
      if d.date.inCalendar ∧ c.isShown then some (stamped d c, rest) else none := by
  unfold stamp?
  rw [date?_append]
  by_cases hdate : d.date.inCalendar = true
  · by_cases hclock : c.isShown = true
    · simp [hdate, hclock, clock?_append, stamped]
    · simp [hdate, hclock, clock?_append]
  · simp [hdate]

/-- A date alone has no time. -/
theorem stamp?_date (d : WrittenDate) : stamp? d.chars = none := by
  by_cases hdate : d.date.inCalendar = true
  · apply stamp?_of_date?
    rw [date?_chars, if_pos hdate]
  · rw [stamp?, date?_chars, if_neg hdate]
    rfl

/-! ## Zones -/

/-- What the layouts read after the clock, as seconds ahead of UTC. -/
def IsZone (tail : List Char) (offset : Int) : Prop :=
  (tail = [] ∨ tail = ['Z']) ∧ offset = 0 ∨ offset? tail = some (offset, [])

namespace Zone

/-- The zone without apostrophes. -/
def bare : Zone → List Char
  | absent => []
  | zulu => ['Z']
  | offset sign hours minutes _ => sign.char :: (hours.chars ++ minutes.chars)

theorem withoutApostrophes_opening (z : Zone) : withoutApostrophes z.opening = z.bare := by
  cases z with
  | absent => rfl
  | zulu => rfl
  | offset sign hours minutes quoting =>
    have hsign : (sign.char != '\'') = true := by
      cases sign <;> rfl
    have hgap : withoutApostrophes quoting.gap = [] := by
      cases quoting <;> rfl
    have hrest : withoutApostrophes (hours.chars ++ (quoting.gap ++ minutes.chars)) =
        hours.chars ++ minutes.chars := by
      rw [withoutApostrophes_append, withoutApostrophes_append, hgap, List.nil_append,
        withoutApostrophes_of_notMem hours.apostrophe_notMem,
        withoutApostrophes_of_notMem minutes.apostrophe_notMem]
    rw [opening, bare, ← hrest]
    exact List.filter_cons_of_pos hsign

theorem offset?_bare (sign : Sign) (hours minutes : Numeral 2) (quoting : Quoting) :
    offset? (Zone.offset sign hours minutes quoting).bare =
      if (Zone.offset sign hours minutes quoting).isShown then
        some ((Zone.offset sign hours minutes quoting).seconds, []) else none := by
  have hoffset := offset?_append [] sign hours minutes
  rw [List.append_nil] at hoffset
  simpa only [bare, isShown, seconds, Bool.and_eq_true, decide_eq_true_eq] using hoffset

/-- What stands for a zone is read as the zone. -/
theorem isZone_bare_iff {z : Zone} {o : Int} :
    IsZone z.bare o ↔ z.isShown = true ∧ o = z.seconds := by
  cases z with
  | absent =>
    have hnil : offset? [] = none := by decide
    simp [IsZone, bare, isShown, seconds, hnil]
  | zulu =>
    have hzulu : offset? ['Z'] = none := by decide
    simp [IsZone, bare, isShown, seconds, hzulu]
  | offset sign hours minutes quoting =>
    have hzulu : (Zone.offset sign hours minutes quoting).bare ≠ ['Z'] := by
      cases sign <;> simp [bare, Sign.char]
    have hnil : (Zone.offset sign hours minutes quoting).bare ≠ [] := by simp [bare]
    simp only [IsZone, hnil, hzulu, false_or, false_and, offset?_bare]
    by_cases hshown : (Zone.offset sign hours minutes quoting).isShown = true
    · simp [hshown, eq_comm]
    · simp [hshown]

/-- An offset is less than a day. -/
theorem seconds_bounds {z : Zone} (h : z.isShown = true) : -86400 < z.seconds ∧ z.seconds < 86400 := by
  cases z with
  | absent => decide
  | zulu => decide
  | offset sign hours minutes quoting =>
    simp only [isShown, Bool.and_eq_true, decide_eq_true_eq] at h
    cases sign with
    | plus => simp only [seconds, Sign.factor]; omega
    | minus => simp only [seconds, Sign.factor]; omega

end Zone

/-! ## Literals in the layouts -/

/-- Times in the years 0 to 9999 can be written. -/
theorem isRepresentable_stamped {d : WrittenDate} {c : WrittenClock} {o : Int}
    (hdate : d.date.inCalendar = true) (hclock : c.isShown = true) (h0 : -86400 < o)
    (h1 : o < 86400) : Instant.isRepresentable { stamped d c with offset := o }.unixSeconds := by
  have hlt := d.year.value_lt
  have hdays := Date.dayNumber_bounds hdate (by simp [WrittenDate.date])
    (by simp only [WrittenDate.date]; omega)
  simp only [WrittenClock.isShown, Bool.and_eq_true, decide_eq_true_eq] at hclock
  apply Instant.isRepresentable_of_bounds
  · simp only [ZonedTime.unixSeconds, stamped]
    omega
  · simp only [ZonedTime.unixSeconds, stamped]
    omega

section Tails

variable {layout : Layout} {d : WrittenDate} {c : WrittenClock} {tail : List Char} {t : ZonedTime}

theorem Layout.Reads.of_date (h : layout.Reads d.chars t) :
    d.date.inCalendar = true ∧ t = ⟨d.date, 0, 0, 0, 0⟩ := by
  cases h with
  | dateOnly hdate =>
    rw [date?_chars] at hdate
    split at hdate
    · next hcalendar =>
      cases hdate
      exact ⟨hcalendar, rfl⟩
    · cases hdate
  | bare hstamp | utc hstamp | offset hstamp =>
    rw [stamp?_date] at hstamp
    cases hstamp
  | quotedOffset hmem => exact absurd hmem d.apostrophe_notMem

theorem Layout.Reads.of_stamp (h : layout.Reads (d.chars ++ (c.chars ++ tail)) t)
    (hno : '\'' ∉ tail) :
    d.date.inCalendar = true ∧ c.isShown = true ∧
      ∃ offset, IsZone tail offset ∧ t = { stamped d c with offset } := by
  have hstamped : ∀ {s : ZonedTime} {after : List Char},
      stamp? (d.chars ++ (c.chars ++ tail)) = some (s, after) →
        (d.date.inCalendar = true ∧ c.isShown = true) ∧ s = stamped d c ∧ after = tail := by
    intro s after hstamp
    rw [stamp?_append] at hstamp
    split at hstamp
    · next hshown =>
      cases hstamp
      exact ⟨hshown, rfl, rfl⟩
    · cases hstamp
  cases h with
  | dateOnly hdate =>
    rw [date?_append] at hdate
    split at hdate
    · simp [c.chars_ne_nil] at hdate
    · cases hdate
  | bare hstamp =>
    obtain ⟨⟨hdate, hclock⟩, rfl, rfl⟩ := hstamped hstamp
    exact ⟨hdate, hclock, 0, .inl ⟨.inl rfl, rfl⟩, rfl⟩
  | utc hstamp =>
    obtain ⟨⟨hdate, hclock⟩, rfl, rfl⟩ := hstamped hstamp
    exact ⟨hdate, hclock, 0, .inl ⟨.inr rfl, rfl⟩, rfl⟩
  | offset hstamp hoffset =>
    obtain ⟨⟨hdate, hclock⟩, rfl, rfl⟩ := hstamped hstamp
    exact ⟨hdate, hclock, _, .inr hoffset, rfl⟩
  | quotedOffset hmem =>
    simp [d.apostrophe_notMem, c.apostrophe_notMem, hno] at hmem

end Tails

namespace Literal

theorem withoutApostrophes_opening (d : WrittenDate) (c : WrittenClock) (z : Zone) :
    withoutApostrophes (time d c z).opening = d.chars ++ (c.chars ++ z.bare) := by
  rw [opening, withoutApostrophes_append, withoutApostrophes_append, z.withoutApostrophes_opening,
    withoutApostrophes_of_notMem d.apostrophe_notMem,
    withoutApostrophes_of_notMem c.apostrophe_notMem]

/-- What is read as a literal is a time, and it is the one that is written. -/
theorem of_reads {l : Literal} {layout : Layout} {t : ZonedTime} (h : layout.Reads l.opening t) :
    l.isTime = true ∧ t = l.said := by
  obtain ⟨layout', h'⟩ := h.exists_withoutApostrophes
  cases l with
  | day d =>
    rw [opening, withoutApostrophes_of_notMem d.apostrophe_notMem] at h'
    exact h'.of_date
  | time d c z =>
    have hno : '\'' ∉ z.bare := by
      rw [← z.withoutApostrophes_opening]
      exact notMem_withoutApostrophes _
    rw [withoutApostrophes_opening] at h'
    obtain ⟨hdate, hclock, offset, hzone, rfl⟩ := h'.of_stamp hno
    obtain ⟨hshown, rfl⟩ := Zone.isZone_bare_iff.1 hzone
    exact ⟨by simp [isTime, hdate, hclock, hshown], rfl⟩

/-- A literal that is a time is read as it. -/
theorem exists_reads {l : Literal} (h : l.isTime = true) :
    ∃ layout : Layout, layout.Reads l.opening l.said := by
  cases l with
  | day d =>
    have hdate : date? d.chars = some (d.date, []) := by
      rw [date?_chars]
      exact if_pos h
    exact ⟨.dateOnly, .dateOnly hdate⟩
  | time d c z =>
    simp only [isTime, Bool.and_eq_true] at h
    obtain ⟨⟨hdate, hclock⟩, hshown⟩ := h
    have hstamp : ∀ rest, stamp? (d.chars ++ (c.chars ++ rest)) = some (stamped d c, rest) := by
      intro rest
      rw [stamp?_append, if_pos ⟨hdate, hclock⟩]
    cases z with
    | absent => exact ⟨.bare, .bare (hstamp [])⟩
    | zulu => exact ⟨.utc, .utc (hstamp ['Z'])⟩
    | offset sign hours minutes quoting =>
      have hoffset := Zone.offset?_bare sign hours minutes quoting
      rw [if_pos hshown] at hoffset
      obtain ⟨h0, h1⟩ := Zone.seconds_bounds hshown
      have hreads : Layout.Reads .offset _ (time d c (.offset sign hours minutes quoting)).said :=
        .offset (hstamp _) hoffset (isRepresentable_stamped hdate hclock h0 h1)
      cases quoting with
      | none => exact ⟨.offset, hreads⟩
      | between | both =>
        refine ⟨.quotedOffset, .quotedOffset ?_ ?_⟩
        · simp [opening, Zone.opening, Quoting.gap]
        · rwa [withoutApostrophes_opening]

/-! ## Texts that hold a literal -/

theorem exists_cons (l : Literal) : ∃ c cs, l.opening = c :: cs ∧ isDigit c = true := by
  have hdate : ∀ (d : WrittenDate) (rest : List Char),
      ∃ c cs, d.chars ++ rest = c :: cs ∧ isDigit c = true := by
    intro d rest
    obtain ⟨c, cs, hchars, hdigit⟩ := d.year.exists_cons
    exact ⟨c, _, by rw [WrittenDate.chars, hchars]; rfl, hdigit⟩
  cases l with
  | day d =>
    rw [opening, ← List.append_nil d.chars]
    exact hdate d []
  | time d c z => exact hdate d _

/-- A literal without the apostrophe at its end ends with a digit or with `Z`. -/
theorem exists_getLast? (l : Literal) :
    ∃ c, l.opening.getLast? = some c ∧ Text.isBlank c = false ∧ c ≠ '\'' := by
  have hnumeral : ∀ (part : List Char) (n : Numeral 2),
      ∃ c, (part ++ n.chars).getLast? = some c ∧ Text.isBlank c = false ∧ c ≠ '\'' := by
    intro part n
    obtain ⟨c, hlast, hdigit⟩ := n.exists_getLast?
    refine ⟨c, ?_, isBlank_of_isDigit hdigit, ne_apostrophe_of_isDigit hdigit⟩
    rw [List.getLast?_append_of_ne_nil _ n.chars_ne_nil, hlast]
  cases l with
  | day d => exact hnumeral _ d.day
  | time d c z =>
    cases z with
    | absent =>
      have hsecond := hnumeral (d.chars ++ (c.hour.chars ++ c.minute.chars)) c.second
      simpa [opening, Zone.opening, WrittenClock.chars] using hsecond
    | zulu => exact ⟨'Z', by simp [opening, Zone.opening], by decide, by decide⟩
    | offset sign hours minutes quoting =>
      have hminutes := hnumeral
        (d.chars ++ (c.chars ++ sign.char :: (hours.chars ++ quoting.gap))) minutes
      simpa [opening, Zone.opening] using hminutes

theorem eq_apostrophe_of_mem_closing {l : Literal} {c : Char} (h : c ∈ l.closing) : c = '\'' := by
  cases l with
  | day d => cases h
  | time d clock z =>
    cases z with
    | absent | zulu => cases h
    | offset sign hours minutes quoting =>
      cases quoting with
      | none | between => cases h
      | both => simpa [closing, Zone.closing, Quoting.closing] using h

theorem body_eq {l : Literal} {text : String} (h : l.StandsIn text) : body text = l.opening := by
  obtain ⟨before, start, count, after, hbefore, hafter, hstart, htext⟩ := h
  obtain ⟨c, cs, hopening, hdigit⟩ := l.exists_cons
  have hfirst : c ≠ 'D' := by
    rintro rfl
    exact absurd hdigit (by decide)
  have hquotes : ∀ c ∈ l.closing ++ List.replicate count '\'', c = '\'' := by
    intro c hc
    rcases List.mem_append.1 hc with hc | hc
    · exact eq_apostrophe_of_mem_closing hc
    · exact List.eq_of_mem_replicate hc
  have hstart' : start = mark ∨ start = [] ∧
      ∃ c rest, l.opening = c :: rest ∧ Text.isBlank c = false ∧ c ≠ 'D' := by
    rcases hstart with hstart | hstart
    · exact .inl hstart
    · exact .inr ⟨hstart, c, cs, hopening, isBlank_of_isDigit hdigit, hfirst⟩
  refine PdfDate.body_eq (List.all_eq_true.1 hbefore) (List.all_eq_true.1 hafter) hquotes hstart'
    l.exists_getLast? ?_
  simpa [chars] using htext

theorem read?_of_standsIn {l : Literal} {text : String} (h : l.StandsIn text) :
    read? text = if l.isTime then some l.said else none := by
  by_cases htime : l.isTime = true
  · rw [if_pos htime, read?_eq_some_iff, body_eq h]
    exact exists_reads htime
  · rw [if_neg htime]
    cases hread : read? text with
    | none => rfl
    | some t =>
      obtain ⟨layout, hreads⟩ := read?_eq_some_iff.1 hread
      rw [body_eq h] at hreads
      exact absurd (of_reads hreads).1 htime

/-! ## Instants -/

/-- The instant of a literal is its local time less its offset. -/
theorem instant_said {l : Literal} (h : l.isTime = true) :
    l.said.instant = ⟨l.localSeconds - l.offset - Date.daysBefore1970 * 86400,
      if l.isLeap then 1000000000 else 0⟩ := by
  rw [ZonedTime.instant, ZonedTime.unixSeconds, ZonedTime.nanos, Instant.mk.injEq]
  cases l with
  | day d =>
    have hdays : d.date.dayNumber = d.days - Date.daysBefore1970 := Date.dayNumber_eq h
    refine ⟨?_, rfl⟩
    simp only [said, localSeconds, offset, hdays]
    omega
  | time d c z =>
    simp only [isTime, Bool.and_eq_true] at h
    have hdays : d.date.dayNumber = d.days - Date.daysBefore1970 := Date.dayNumber_eq h.1.1
    constructor
    · simp only [said, localSeconds, offset, WrittenClock.seconds, hdays]
      omega
    · by_cases hleap : c.second.value = 60
      · simp [said, isLeap, hleap]
      · simp [said, isLeap, hleap]

end Literal

/-- **Dates are read as they are written.** A text that holds a literal in one of the
documented layouts reads as the local time and the offset that are written, if the calendar
has its date and a clock shows its time and the hours and minutes of its offset; else it
does not read. The instant is the local time less the offset, a second later in a leap
second, so two literals are the same instant exactly when these agree. -/
theorem read?_literal :
    (∀ (l : Literal) (text : String), l.StandsIn text →
      read? text = if l.isTime then some l.said else none) ∧
    (∀ l : Literal, l.isTime →
      l.said.instant = ⟨l.localSeconds - l.offset - Date.daysBefore1970 * 86400,
        if l.isLeap then 1000000000 else 0⟩) ∧
    ∀ l l' : Literal, l.isTime → l'.isTime →
      (l.said.instant = l'.said.instant ↔
        l.localSeconds - l.offset = l'.localSeconds - l'.offset ∧ l.isLeap = l'.isLeap) := by
  refine ⟨fun l text h => l.read?_of_standsIn h, fun l h => l.instant_said h, ?_⟩
  intro l l' h h'
  have hnanos : ((if l.isLeap then 1000000000 else 0) = if l'.isLeap then 1000000000 else 0) ↔
      l.isLeap = l'.isLeap := by
    cases l.isLeap <;> cases l'.isLeap <;> decide
  rw [Literal.instant_said h, Literal.instant_said h', Instant.mk.injEq, hnanos]
  constructor
  · rintro ⟨hseconds, hleap⟩
    exact ⟨by omega, hleap⟩
  · rintro ⟨hseconds, hleap⟩
    exact ⟨by omega, hleap⟩

/-- The 15th of March 2024. -/
def sampleDate : WrittenDate := ⟨.ofDigits [2, 0, 2, 4], .ofDigits [0, 3], .ofDigits [1, 5]⟩

/-- `20240315143000+05'30'`. -/
def sampleQuoted : Literal :=
  .time sampleDate ⟨.ofDigits [1, 4], .ofDigits [3, 0], .ofDigits [0, 0]⟩
    (.offset .plus (.ofDigits [0, 5]) (.ofDigits [3, 0]) .both)

/-- `20240315090000Z`. -/
def sampleZulu : Literal :=
  .time sampleDate ⟨.ofDigits [0, 9], .ofDigits [0, 0], .ofDigits [0, 0]⟩ .zulu

/-- `19000229`, where 1900 is no leap year. -/
def sampleNoDay : Literal :=
  .day ⟨.ofDigits [1, 9, 0, 0], .ofDigits [0, 2], .ofDigits [2, 9]⟩

/-- Half past two in the afternoon is nine o'clock in UTC where clocks are five and a half
hours ahead. -/
theorem read?_literal_sample :
    read? "\t D:20240315143000+05'30'''\n" = some ⟨⟨2024, 3, 15⟩, 14, 30, 0, 19800⟩ ∧
      read? "19000229'" = none ∧
      sampleZulu.said.instant = ⟨1710493200, 0⟩ ∧
      sampleQuoted.said.instant = sampleZulu.said.instant := by
  obtain ⟨hread, hinstant, hsame⟩ := read?_literal
  have hquoted : sampleQuoted.StandsIn "\t D:20240315143000+05'30'''\n" :=
    ⟨"\t ".toList, mark, 2, "\n".toList, by decide, by decide, .inl rfl, by decide⟩
  have hnoDay : sampleNoDay.StandsIn "19000229'" :=
    ⟨[], [], 1, [], by decide, by decide, .inr rfl, by decide⟩
  refine ⟨?_, ?_, ?_, ?_⟩
  · rw [hread _ _ hquoted, if_pos (by decide)]
    rfl
  · rw [hread _ _ hnoDay, if_neg (by decide)]
  · rw [hinstant _ (by decide)]
    decide +kernel
  · exact (hsame _ _ (by decide) (by decide)).2 (by decide +kernel)

end SignedPdf.PdfDate
