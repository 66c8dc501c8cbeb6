import Mathlib.Data.Option.Basic
import SignedPdf.Certificate

/-!
# Dates of validity lie in the calendar

A certificate writes its years with two or four digits and its offsets with
four, so every date that can be read lies within a few days of the years 0 to
9999. The calendar of instants is much wider. Hence a certificate whose octets
can be read is never refused for its dates:

* `Certificate.exists_ofSigned`: what has been read as a signed certificate
  has a summary.
-/

namespace SignedPdf

/-! ## The years 0 to 9999 -/

/-- The days of the years 0 to 9999 have numbers of at most seven digits. -/
theorem Date.dayNumber_bounds {d : Date} (h : d.inCalendar = true) (h0 : 0 ≤ d.year)
    (h1 : d.year ≤ 9999) : -800000 ≤ d.dayNumber ∧ d.dayNumber ≤ 3000000 := by
  obtain ⟨hm0, hm1⟩ := month_of_inCalendar h
  have hd : d.day ≤ 31 := by
    simp only [inCalendar, Bool.and_eq_true, decide_eq_true_eq] at h
    have : daysInMonth d.year d.month ≤ 31 := by
      unfold daysInMonth
      split <;> try split
      all_goals omega
    omega
  unfold dayNumber
  by_cases hm : d.month ≤ 2
  · simp only [hm, if_true]
    omega
  · simp only [hm, if_false]
    omega

/-- Seconds of at most thirteen digits lie in the calendar of instants. -/
theorem Instant.isRepresentable_of_bounds {s : Int} (h0 : -1000000000000 ≤ s)
    (h1 : s ≤ 1000000000000) : isRepresentable s = true := by
  have hfirst : Date.dayNumber ⟨firstYear, 1, 1⟩ = -96465292 := by decide
  have hlast : Date.dayNumber ⟨lastYear, 12, 31⟩ = 95026236 := by decide
  simp only [isRepresentable, hfirst, hlast, Bool.and_eq_true, decide_eq_true_eq]
  omega

namespace X509

/-! ## Fields of a date -/

theorem decimalDigit?_le {b : UInt8} {n : Nat} (h : decimalDigit? b = some n) : n ≤ 9 := by
  unfold decimalDigit? at h
  split at h
  · cases h
    omega
  · cases h

theorem digitPair?_le {bs rest : Bytes} {n : Nat} (h : digitPair? bs = some (n, rest)) :
    n ≤ 99 := by
  unfold digitPair? at h
  split at h
  · split at h
    · next ha hb =>
      cases h
      have := decimalDigit?_le ha
      have := decimalDigit?_le hb
      omega
    · cases h
  · cases h

theorem offsetParts?_le {bs : Bytes} {hours minutes : Nat}
    (h : offsetParts? bs = some (hours, minutes)) : hours ≤ 25 ∧ minutes ≤ 59 := by
  simp only [offsetParts?, Option.bind_eq_bind, Option.bind_eq_some_iff] at h
  obtain ⟨⟨a, _⟩, _, ⟨b, _⟩, _, _, hg, hr⟩ := h
  obtain ⟨_, ha, hb⟩ := (Option.guard_eq_some' _).1 hg
  cases hr
  exact ⟨ha, hb⟩

/-- An offset is little more than a day. -/
theorem zone?_bounds {bs : Bytes} {offset : Int} (h : zone? bs = some offset) :
    -100000 ≤ offset ∧ offset ≤ 100000 := by
  unfold zone? at h
  split at h
  · cases h
    omega
  · obtain ⟨⟨hours, minutes⟩, hp, rfl⟩ := Option.map_eq_some_iff.1 h
    have := offsetParts?_le hp
    dsimp only
    omega
  · obtain ⟨⟨hours, minutes⟩, hp, rfl⟩ := Option.map_eq_some_iff.1 h
    have := offsetParts?_le hp
    dsimp only
    split <;> omega
  · cases h

theorem fractionEnd?_eq_zero {bs : Bytes} {offset : Int} (h : fractionEnd? bs = some offset) :
    offset = 0 := by
  unfold fractionEnd? at h
  split at h
  · dsimp only at h
    split at h <;> cases h
    rfl
  · split at h <;> cases h
    rfl

/-! ## Dates -/

/-- What both forms have in common gives seconds that lie in the calendar, if
the offset is small. -/
theorem afterYear?_bounds {year : Nat} {ending : Bytes → Option Int} {bs : Bytes} {t : ZonedTime}
    (hyear : year ≤ 9999)
    (hending : ∀ {bs : Bytes} {o : Int}, ending bs = some o → -100000 ≤ o ∧ o ≤ 100000)
    (h : afterYear? year ending bs = some t) :
    -1000000000000 ≤ t.unixSeconds ∧ t.unixSeconds ≤ 1000000000000 := by
  simp only [afterYear?, Option.bind_eq_bind, Option.bind_eq_some_iff] at h
  obtain ⟨⟨month, _⟩, _, ⟨day, _⟩, _, ⟨hour, _⟩, _, ⟨minute, _⟩, _, ⟨second, _⟩, _, offset, ho, _,
    hg, hr⟩ := h
  dsimp only at hg
  obtain ⟨hdate, hhour, hminute, hsecond⟩ := (Option.guard_eq_some' _).1 hg
  cases hr
  have hday := Date.dayNumber_bounds hdate (by dsimp only; omega) (by dsimp only; omega)
  have hoff := hending ho
  unfold ZonedTime.unixSeconds
  dsimp only
  omega

theorem utcTime?_bounds {bs : Bytes} {t : ZonedTime} (h : utcTime? bs = some t) :
    -1000000000000 ≤ t.unixSeconds ∧ t.unixSeconds ≤ 1000000000000 := by
  simp only [utcTime?, Option.bind_eq_bind, Option.bind_eq_some_iff] at h
  obtain ⟨⟨year, _⟩, hy, h⟩ := h
  refine afterYear?_bounds ?_ zone?_bounds h
  have := digitPair?_le hy
  dsimp only [fullYear]
  split <;> omega

theorem generalizedTime?_bounds {bs : Bytes} {t : ZonedTime} (h : generalizedTime? bs = some t) :
    -1000000000000 ≤ t.unixSeconds ∧ t.unixSeconds ≤ 1000000000000 := by
  simp only [generalizedTime?, Option.bind_eq_bind, Option.bind_eq_some_iff] at h
  obtain ⟨⟨century, _⟩, hc, ⟨year, _⟩, hy, h⟩ := h
  refine afterYear?_bounds ?_ (fun ho => ?_) h
  · have := digitPair?_le hc
    have := digitPair?_le hy
    dsimp only
    omega
  · rw [fractionEnd?_eq_zero ho]
    omega

/-- Every date of validity lies in the calendar of instants. -/
theorem isRepresentable_of_time? {bs rest : Bytes} {s : Int} (h : time? bs = some (s, rest)) :
    Instant.isRepresentable s = true := by
  unfold time? at h
  split at h
  · cases h
  · obtain ⟨t, ht, hr⟩ := Option.map_eq_some_iff.1 h
    cases hr
    have hb : -1000000000000 ≤ t.unixSeconds ∧ t.unixSeconds ≤ 1000000000000 := by
      split at ht
      · exact utcTime?_bounds ht
      · split at ht
        · exact generalizedTime?_bounds ht
        · cases ht
    exact Instant.isRepresentable_of_bounds hb.1 hb.2

theorem Validity.read_isRepresentable {bs rest : Bytes} {v : Validity}
    (h : Validity.read bs = .ok (v, rest)) :
    Instant.isRepresentable v.notBefore = true ∧ Instant.isRepresentable v.notAfter = true := by
  simp only [Validity.read, bind_eq_ok_iff] at h
  obtain ⟨_, _, ⟨notBefore, _⟩, h0, ⟨notAfter, _⟩, h1, hr⟩ := h
  cases hr
  exact ⟨isRepresentable_of_time? (orFault_eq_ok.1 h0), isRepresentable_of_time? (orFault_eq_ok.1 h1)⟩

theorem Statement.read_validity {bs rest : Bytes} {s : Statement}
    (h : Statement.read bs = .ok (s, rest)) :
    Instant.isRepresentable s.validity.notBefore = true ∧
      Instant.isRepresentable s.validity.notAfter = true := by
  simp only [Statement.read, bind_eq_ok_iff] at h
  obtain ⟨_, _, _, _, _, _, _, _, _, _, ⟨v, _⟩, hv, _, _, _, _, _, _, _, _, _, _, hr⟩ := h
  cases hr
  exact Validity.read_isRepresentable hv

end X509

/-! ## Summaries -/

/-- What has been read as a signed certificate has a summary: no date of
validity lies outside the calendar. -/
theorem Certificate.exists_ofSigned {bs rest : Bytes} {s : X509.SignedCertificate}
    (h : X509.SignedCertificate.read bs = .ok (s, rest)) : ∃ c, ofSigned s = .ok c := by
  simp only [X509.SignedCertificate.read, bind_eq_ok_iff] at h
  obtain ⟨_, _, ⟨st, _⟩, hst, _, _, _, _, hr⟩ := h
  cases hr
  obtain ⟨h0, h1⟩ := X509.Statement.read_validity hst
  simp only [ofSigned, instant, h0, h1, if_true]
  exact ⟨_, rfl⟩

/-- Octets hold a certificate exactly if they can be read as a signed one. -/
theorem Certificate.exists_ofDer_iff {bs : Bytes} :
    (∃ c, ofDer bs = .ok c) ↔ ∃ s rest, X509.SignedCertificate.read bs = .ok (s, rest) := by
  constructor
  · rintro ⟨c, h⟩
    obtain ⟨s, rest, hr, _⟩ := ofDer_eq_ok_iff.1 h
    exact ⟨s, rest, hr⟩
  · rintro ⟨s, rest, hr⟩
    obtain ⟨c, hc⟩ := exists_ofSigned hr
    exact ⟨c, ofDer_eq_ok_iff.2 ⟨s, rest, hr, hc⟩⟩

end SignedPdf
