import Mathlib.Data.List.Basic
import Mathlib.Data.Option.Basic
import SignedPdf.PdfDate
import SignedPdf.Proofs.Trimming

/-!
# Parts of a date

Blanks may stand before each number of a date, numbers differ in how many digits they
take, and a year with a sign takes any number of them. But each part is read up to its
last digit, and no part takes an apostrophe.

* `Passes`: what is read holds no apostrophe and ends with a digit. `passes_date?`,
  `passes_clock?` and `passes_offset?` say so for each part.
-/

namespace SignedPdf.PdfDate

/-! ## Characters -/

/-- The characters other than apostrophes. -/
def withoutApostrophes (cs : List Char) : List Char := cs.filter (· != '\'')

theorem withoutApostrophes_of_notMem {cs : List Char} (h : '\'' ∉ cs) :
    withoutApostrophes cs = cs := by
  refine List.filter_eq_self.2 ?_
  intro c hc
  rw [bne_iff_ne]
  rintro rfl
  exact h hc

theorem notMem_withoutApostrophes (cs : List Char) : '\'' ∉ withoutApostrophes cs := by
  simp [withoutApostrophes]

theorem withoutApostrophes_append (as bs : List Char) :
    withoutApostrophes (as ++ bs) = withoutApostrophes as ++ withoutApostrophes bs := by
  simp [withoutApostrophes]

/-- Digits are the ten characters from 0 to 9. -/
theorem isDigit_iff {c : Char} : isDigit c = true ↔ c ∈ "0123456789".toList := by
  constructor
  · intro h
    have hall : ∀ n < 58, 48 ≤ n → Char.ofNat n ∈ "0123456789".toList := by decide
    simp only [isDigit, Bool.and_eq_true, decide_eq_true_eq] at h
    have hlow : 48 ≤ c.toNat := UInt32.le_iff_toNat_le.1 h.1
    have hhigh : c.toNat ≤ 57 := UInt32.le_iff_toNat_le.1 h.2
    have hc := hall c.toNat (by omega) hlow
    rwa [Char.ofNat_toNat] at hc
  · intro h
    have hall : ("0123456789".toList.all isDigit) = true := by decide
    exact List.all_eq_true.1 hall c h

/-- What holds of the ten digits holds of a digit. -/
theorem of_isDigit {p : Char → Bool} (hall : ("0123456789".toList.all p) = true) {c : Char}
    (h : isDigit c = true) : p c = true :=
  List.all_eq_true.1 hall c (isDigit_iff.1 h)

theorem isBlank_of_isDigit {c : Char} (h : isDigit c = true) : Text.isBlank c = false := by
  have hnot := of_isDigit (p := fun c => !Text.isBlank c) (by decide) h
  simpa using hnot

theorem ne_apostrophe_of_isDigit {c : Char} (h : isDigit c = true) : c ≠ '\'' := by
  rintro rfl
  exact absurd h (by decide)

/-! ## What is read -/

/-- Reading goes on from `cs` to `rest`, and what is read in between holds no
apostrophe and ends with a digit. -/
def Passes (cs rest : List Char) : Prop :=
  ∃ part digit, cs = part ++ digit :: rest ∧ '\'' ∉ part ∧ isDigit digit = true

section Passing

variable {cs mid rest part : List Char}

theorem Passes.prepend (h : Passes cs rest) (part : List Char) (hpart : '\'' ∉ part) :
    Passes (part ++ cs) rest := by
  obtain ⟨inner, digit, rfl, hinner, hdigit⟩ := h
  refine ⟨part ++ inner, digit, by simp, ?_, hdigit⟩
  simp [hpart, hinner]

theorem Passes.trans (h : Passes cs mid) (h' : Passes mid rest) : Passes cs rest := by
  obtain ⟨part, digit, rfl, hpart, hdigit⟩ := h
  have hno : '\'' ∉ part ++ [digit] := by
    simp [hpart, (ne_apostrophe_of_isDigit hdigit).symm]
  simpa using h'.prepend _ hno

/-- Blanks before what is read do not matter. -/
theorem Passes.of_trimStart (h : Passes (Text.trimStart cs) rest) : Passes cs rest := by
  have hblank : '\'' ∉ cs.takeWhile Text.isBlank := by
    intro hmem
    have hall := List.all_eq_true.1 List.all_takeWhile _ hmem
    exact absurd hall (by decide)
  have hprepend := h.prepend _ hblank
  rwa [Text.trimStart, List.takeWhile_append_dropWhile] at hprepend

/-- Digits are passed, if there are any. -/
theorem passes_digits (hne : part ≠ []) (hdigits : ∀ c ∈ part, isDigit c = true)
    (rest : List Char) : Passes (part ++ rest) rest := by
  obtain ⟨init, last, rfl⟩ := List.eq_nil_or_concat part |>.resolve_left hne
  simp only [List.concat_eq_append] at hdigits ⊢
  refine ⟨init, last, by simp, ?_, hdigits last (by simp)⟩
  intro hmem
  exact ne_apostrophe_of_isDigit (hdigits '\'' (by simp [hmem])) rfl

/-- What is passed holds no apostrophe. -/
theorem Passes.notMem (h : Passes cs rest) (hrest : '\'' ∉ rest) : '\'' ∉ cs := by
  obtain ⟨part, digit, rfl, hpart, hdigit⟩ := h
  simp [hpart, hrest, (ne_apostrophe_of_isDigit hdigit).symm]

end Passing

section Readers

variable {cs rest : List Char}

theorem passes_number? {width n : Nat} (h : number? width cs = some (n, rest)) :
    Passes cs rest := by
  unfold number? at h
  split at h
  · cases h
  · next digits hne =>
    simp only [Option.some.injEq, Prod.mk.injEq] at h
    obtain ⟨_, rfl⟩ := h
    have hprefix : (digitsOf (cs.take width)).1 <+: cs :=
      (List.takeWhile_prefix isDigit).trans (List.take_prefix width cs)
    have hpasses := passes_digits hne (List.all_eq_true.1 List.all_takeWhile)
      (cs.drop (digitsOf (cs.take width)).1.length)
    rwa [List.prefix_iff_eq_append.1 hprefix] at hpasses

theorem passes_longNumber? {n : Nat} (h : longNumber? cs = some (n, rest)) : Passes cs rest := by
  simp only [longNumber?, digitsOf] at h
  split at h
  · cases h
  · next digits after hne heq =>
    simp only [Option.some.injEq, Prod.mk.injEq] at h heq
    obtain ⟨rfl, rfl⟩ := heq
    obtain ⟨_, rfl⟩ := h
    have hpasses := passes_digits hne (List.all_eq_true.1 List.all_takeWhile)
      (cs.dropWhile isDigit)
    rwa [List.takeWhile_append_dropWhile] at hpasses

theorem passes_twoDigits? {n : Nat} (h : twoDigits? cs = some (n, rest)) : Passes cs rest :=
  (passes_number? h).of_trimStart

theorem passes_year? {y : Int} (h : year? cs = some (y, rest)) : Passes cs rest := by
  have hsigned : ∀ {sign : Char} {after : List Char} {n : Nat}, sign ≠ '\'' →
      Text.trimStart cs = sign :: after → longNumber? after = some (n, rest) →
        Passes cs rest := by
    intro sign after n hsign hcs hn
    have hprepend := (passes_longNumber? hn).prepend [sign] (by simpa using hsign.symm)
    apply Passes.of_trimStart
    rw [hcs]
    exact hprepend
  unfold year? at h
  split at h
  · next after hcs =>
    obtain ⟨⟨n, after'⟩, hn, heq⟩ := Option.map_eq_some_iff.1 h
    simp only [Prod.mk.injEq] at heq
    exact hsigned (by decide) hcs (heq.2 ▸ hn)
  · next after hcs =>
    obtain ⟨⟨n, after'⟩, hn, heq⟩ := Option.map_eq_some_iff.1 h
    simp only [Prod.mk.injEq] at heq
    exact hsigned (by decide) hcs (heq.2 ▸ hn)
  · obtain ⟨⟨n, after'⟩, hn, heq⟩ := Option.map_eq_some_iff.1 h
    simp only [Prod.mk.injEq] at heq
    exact (passes_number? (heq.2 ▸ hn)).of_trimStart

theorem passes_date? {date : Date} (h : date? cs = some (date, rest)) : Passes cs rest := by
  simp only [date?, Option.bind_eq_bind, Option.bind_eq_some_iff] at h
  obtain ⟨⟨year, _⟩, hyear, ⟨month, _⟩, hmonth, ⟨day, _⟩, hday, _, _, heq⟩ := h
  simp only [pure, Option.some.injEq, Prod.mk.injEq] at heq
  obtain ⟨_, rfl⟩ := heq
  exact ((passes_year? hyear).trans (passes_twoDigits? hmonth)).trans (passes_twoDigits? hday)

theorem passes_clock? {clock : Nat × Nat × Nat} (h : clock? cs = some (clock, rest)) :
    Passes cs rest := by
  simp only [clock?, Option.bind_eq_bind, Option.bind_eq_some_iff] at h
  obtain ⟨⟨hour, _⟩, hhour, ⟨minute, _⟩, hminute, ⟨second, _⟩, hsecond, _, _, heq⟩ := h
  simp only [pure, Option.some.injEq, Prod.mk.injEq] at heq
  obtain ⟨_, rfl⟩ := heq
  exact ((passes_twoDigits? hhour).trans (passes_twoDigits? hminute)).trans
    (passes_twoDigits? hsecond)

theorem passes_digitPair? {n : Nat} (h : digitPair? cs = some (n, rest)) : Passes cs rest := by
  unfold digitPair? at h
  split at h
  · next a b after =>
    split at h
    · next hdigits =>
      simp only [Bool.and_eq_true] at hdigits
      simp only [Option.some.injEq, Prod.mk.injEq] at h
      obtain ⟨_, rfl⟩ := h
      exact ⟨[a], b, rfl, by simpa using (ne_apostrophe_of_isDigit hdigits.1).symm, hdigits.2⟩
    · cases h
  · cases h

/-- A sign is one character, and no apostrophe. -/
theorem eq_cons_of_sign? {sign : Int} (h : sign? cs = some (sign, rest)) :
    ∃ c, c ≠ '\'' ∧ cs = c :: rest := by
  unfold sign? at h
  split at h
  · cases h
    exact ⟨'+', by decide, rfl⟩
  · cases h
    exact ⟨'-', by decide, rfl⟩
  · cases h
    exact ⟨'\u2212', by decide, rfl⟩
  · cases h

theorem passes_offset? {offset : Int} (h : offset? cs = some (offset, rest)) :
    Passes cs rest := by
  simp only [offset?, Option.bind_eq_bind, Option.bind_eq_some_iff] at h
  obtain ⟨⟨sign, afterSign⟩, hsign, ⟨hours, afterHours⟩, hhours, ⟨minutes, _⟩, hminutes, _, _,
    heq⟩ := h
  simp only [pure, Option.some.injEq, Prod.mk.injEq] at heq
  obtain ⟨_, rfl⟩ := heq
  have hgap : '\'' ∉ afterHours.takeWhile isOffsetGap := by
    intro hmem
    have hall := List.all_eq_true.1 List.all_takeWhile _ hmem
    exact absurd hall (by decide)
  have hlast := (passes_digitPair? hminutes).prepend _ hgap
  rw [List.takeWhile_append_dropWhile] at hlast
  have hafter := (passes_digitPair? hhours).trans hlast
  obtain ⟨c, hc, hcs⟩ := eq_cons_of_sign? hsign
  have hprepend := hafter.prepend [c] (by simpa using hc.symm)
  apply Passes.of_trimStart
  rw [hcs]
  exact hprepend

/-- A date starts with a digit or a sign, after any blanks. -/
theorem ne_mark_of_date? {date : Date} (h : date? cs = some (date, rest)) :
    ∃ c after, Text.trimStart cs = c :: after ∧ c ≠ 'D' := by
  simp only [date?, Option.bind_eq_bind, Option.bind_eq_some_iff] at h
  obtain ⟨⟨year, _⟩, hyear, _⟩ := h
  cases hcs : Text.trimStart cs with
  | nil => simp [year?, hcs, number?, digitsOf] at hyear
  | cons c after =>
    refine ⟨c, after, rfl, ?_⟩
    rintro rfl
    have hdigit : isDigit 'D' = false := by decide
    simp [year?, hcs, number?, digitsOf, hdigit] at hyear

theorem date?_trimStart (cs : List Char) : date? (Text.trimStart cs) = date? cs := by
  have htwice : Text.trimStart (Text.trimStart cs) = Text.trimStart cs :=
    Text.dropWhile_of_head fun _ hc => Text.head_dropWhile hc
  have hyear : year? (Text.trimStart cs) = year? cs := by
    unfold year?
    rw [htwice]
  unfold date?
  rw [hyear]

end Readers

end SignedPdf.PdfDate
