import SignedPdf.Proofs.PdfDate.Parts

/-!
# One layout at most

The shape of a text does not tell its layout, since its numbers may have blanks before
them and differ in how many digits they take. What tells it is what is left over: an
apostrophe, which no number takes; nothing after the date; nothing after the clock; or a
lone `Z` there. So no text fits two layouts, and their order does not matter.

* `Layout.Reads` says what each layout reads, and `Layout.read?_eq_some_iff` that this
  is what it does.
* `suited` is the only layout that a text can fit (`Layout.Reads.eq_suited`), and
  `read?_eq_some_iff` says that this layout is found.
* `layouts_exclusive`: all of this, and that a text without its apostrophes reads as
  the same time.
-/

namespace SignedPdf.PdfDate

/-! ## What each layout reads -/

/-- The date and the time at the start, read as UTC, and what follows them. -/
def stamp? (cs : List Char) : Option (ZonedTime × List Char) := do
  let (date, cs) ← date? cs
  let ((hour, minute, second), cs) ← clock? cs
  return (⟨date, hour, minute, second, 0⟩, cs)

/-- The layouts as rules: what must follow the date, or the date and the time. -/
inductive Layout.Reads : Layout → List Char → ZonedTime → Prop
  | dateOnly {cs : List Char} {date : Date} (hdate : date? cs = some (date, [])) :
    Reads .dateOnly cs ⟨date, 0, 0, 0, 0⟩
  | bare {cs : List Char} {t : ZonedTime} (hstamp : stamp? cs = some (t, [])) : Reads .bare cs t
  | utc {cs : List Char} {t : ZonedTime} (hstamp : stamp? cs = some (t, ['Z'])) : Reads .utc cs t
  | offset {cs tail : List Char} {t : ZonedTime} {offset : Int} (hstamp : stamp? cs = some (t, tail))
    (hoffset : offset? tail = some (offset, []))
    (hrepresentable : Instant.isRepresentable { t with offset }.unixSeconds = true) :
    Reads .offset cs { t with offset }
  | quotedOffset {cs : List Char} {t : ZonedTime} (hmem : '\'' ∈ cs)
    (h : Reads .offset (withoutApostrophes cs) t) : Reads .quotedOffset cs t

variable {cs rest : List Char} {t : ZonedTime} {l l' : Layout}

theorem stamp?_eq_some_iff {s : ZonedTime} :
    stamp? cs = some (s, rest) ↔
      ∃ after, date? cs = some (s.date, after) ∧
        clock? after = some ((s.hour, s.minute, s.second), rest) ∧ s.offset = 0 := by
  simp only [stamp?, Option.bind_eq_bind, Option.bind_eq_some_iff, pure, Option.some.injEq,
    Prod.mk.injEq]
  constructor
  · rintro ⟨⟨date, after⟩, hdate, ⟨⟨hour, minute, second⟩, rest'⟩, hclock, rfl, rfl⟩
    exact ⟨after, hdate, hclock, rfl⟩
  · rintro ⟨after, hdate, hclock, hoffset⟩
    obtain ⟨date, hour, minute, second, offset⟩ := s
    obtain rfl : offset = 0 := hoffset
    exact ⟨(date, after), hdate, ((hour, minute, second), rest), hclock, rfl, rfl⟩

theorem withClock_eq_some_iff {f : List Char → Option Int} :
    withClock cs f = some t ↔
      ∃ s tail offset, stamp? cs = some (s, tail) ∧ f tail = some offset ∧
        t = { s with offset } := by
  simp only [withClock, Option.bind_eq_bind, Option.bind_eq_some_iff, pure, Option.some.injEq,
    stamp?_eq_some_iff]
  constructor
  · rintro ⟨⟨date, after⟩, hdate, ⟨⟨hour, minute, second⟩, tail⟩, hclock, offset, hoffset, rfl⟩
    exact ⟨⟨date, hour, minute, second, 0⟩, tail, offset, ⟨after, hdate, hclock, rfl⟩, hoffset, rfl⟩
  · rintro ⟨s, tail, offset, ⟨after, hdate, hclock, _⟩, hoffset, rfl⟩
    exact ⟨_, hdate, _, hclock, offset, hoffset, rfl⟩

/-- Read as UTC, a time with a certain ending is what stands before the ending. -/
theorem withClock_ending_eq_some_iff {ending : List Char} :
    withClock cs (fun rest => if rest = ending then some 0 else none) = some t ↔
      stamp? cs = some (t, ending) := by
  rw [withClock_eq_some_iff]
  constructor
  · rintro ⟨s, tail, offset, hstamp, hoffset, rfl⟩
    obtain ⟨_, _, _, hutc⟩ := stamp?_eq_some_iff.1 hstamp
    split at hoffset
    · next htail =>
      cases hoffset
      rw [hstamp, htail, ← hutc]
    · cases hoffset
  · intro hstamp
    obtain ⟨_, _, _, hutc⟩ := stamp?_eq_some_iff.1 hstamp
    exact ⟨t, ending, 0, hstamp, if_pos rfl, by rw [← hutc]⟩

theorem withOffset_eq_some_iff : withOffset cs = some t ↔ Layout.Reads .offset cs t := by
  simp only [withOffset, Option.bind_eq_bind, Option.bind_eq_some_iff, withClock_eq_some_iff,
    Option.guard_eq_some', pure, Option.some.injEq]
  constructor
  · rintro ⟨_, ⟨s, tail, offset, hstamp, hoffset, rfl⟩, _, hrepresentable, rfl⟩
    split at hoffset
    · next o heq =>
      cases hoffset
      exact .offset hstamp heq hrepresentable
    · cases hoffset
  · rintro (_ | _ | _ | ⟨hstamp, hoffset, hrepresentable⟩)
    exact ⟨_, ⟨_, _, _, hstamp, by rw [hoffset], rfl⟩, (), hrepresentable, rfl⟩

/-- The layouts read what the rules say. -/
theorem Layout.read?_eq_some_iff : l.read? cs = some t ↔ l.Reads cs t := by
  cases l with
  | quotedOffset =>
    simp only [Layout.read?]
    by_cases hmem : '\'' ∈ cs
    · rw [if_pos hmem, withOffset_eq_some_iff]
      constructor
      · intro h
        exact .quotedOffset hmem h
      · rintro (_ | _ | _ | _ | ⟨_, h⟩)
        exact h
    · rw [if_neg hmem]
      constructor
      · intro h
        cases h
      · rintro (_ | _ | _ | _ | ⟨hmem', _⟩)
        exact absurd hmem' hmem
  | offset => exact withOffset_eq_some_iff
  | utc =>
    rw [Layout.read?, withClock_ending_eq_some_iff]
    constructor
    · intro hstamp
      exact .utc hstamp
    · rintro (_ | _ | hstamp)
      exact hstamp
  | bare =>
    rw [Layout.read?, withClock_ending_eq_some_iff]
    constructor
    · intro hstamp
      exact .bare hstamp
    · rintro (_ | hstamp)
      exact hstamp
  | dateOnly =>
    simp only [Layout.read?]
    constructor
    · intro h
      split at h
      · next date hdate =>
        cases h
        exact .dateOnly hdate
      · cases h
    · rintro ⟨hdate⟩
      rw [hdate]

/-! ## The layout that suits -/

/-- The only layout that a text can fit. It is told by an apostrophe and by what
follows the time. -/
def suited (cs : List Char) : Layout :=
  if '\'' ∈ cs then .quotedOffset
  else
    match stamp? cs with
    | none => .dateOnly
    | some (_, []) => .bare
    | some (_, ['Z']) => .utc
    | some _ => .offset

theorem passes_stamp? (h : stamp? cs = some (t, rest)) : Passes cs rest := by
  obtain ⟨after, hdate, hclock, _⟩ := stamp?_eq_some_iff.1 h
  exact (passes_date? hdate).trans (passes_clock? hclock)

/-- A date with nothing after it has no time. -/
theorem stamp?_of_date? {date : Date} (h : date? cs = some (date, [])) : stamp? cs = none := by
  have hclock : clock? [] = none := by decide
  simp [stamp?, h, hclock]

/-- What is left for an offset is neither nothing nor a lone `Z`. -/
theorem suited_of_offset? {tail : List Char} {offset : Int} (hno : '\'' ∉ cs)
    (hstamp : stamp? cs = some (t, tail)) (hoffset : offset? tail = some (offset, [])) :
    suited cs = .offset := by
  have hnil : offset? [] = none := by decide
  have hZulu : offset? ['Z'] = none := by decide
  rw [suited, if_neg hno, hstamp]
  split
  · next heq => cases heq
  · next heq =>
    cases heq
    rw [hnil] at hoffset
    cases hoffset
  · next heq =>
    cases heq
    rw [hZulu] at hoffset
    cases hoffset
  · rfl

namespace Layout.Reads

theorem eq_suited (h : l.Reads cs t) : l = suited cs := by
  cases h with
  | dateOnly hdate =>
    have hno := (passes_date? hdate).notMem List.not_mem_nil
    rw [suited, if_neg hno, stamp?_of_date? hdate]
  | bare hstamp =>
    have hno := (passes_stamp? hstamp).notMem List.not_mem_nil
    rw [suited, if_neg hno, hstamp]
  | utc hstamp =>
    have hno := (passes_stamp? hstamp).notMem (by decide)
    rw [suited, if_neg hno, hstamp]
    rfl
  | offset hstamp hoffset =>
    have hno := ((passes_stamp? hstamp).trans (passes_offset? hoffset)).notMem List.not_mem_nil
    rw [suited_of_offset? hno hstamp hoffset]
  | quotedOffset hmem => rw [suited, if_pos hmem]

/-- What is read ends with a digit or with `Z`, if it has no apostrophe. -/
theorem passes (h : l.Reads cs t) (hno : '\'' ∉ cs) : Passes cs [] ∨ Passes cs ['Z'] := by
  cases h with
  | dateOnly hdate => exact .inl (passes_date? hdate)
  | bare hstamp => exact .inl (passes_stamp? hstamp)
  | utc hstamp => exact .inr (passes_stamp? hstamp)
  | offset hstamp hoffset => exact .inl ((passes_stamp? hstamp).trans (passes_offset? hoffset))
  | quotedOffset hmem => exact absurd hmem hno

/-- So its last character is neither blank nor an apostrophe. -/
theorem exists_getLast? (h : l.Reads cs t) (hno : '\'' ∉ cs) :
    ∃ c, cs.getLast? = some c ∧ Text.isBlank c = false ∧ c ≠ '\'' := by
  rcases h.passes hno with ⟨part, digit, rfl, _, hdigit⟩ | ⟨part, digit, rfl, _, _⟩
  · exact ⟨digit, by simp, isBlank_of_isDigit hdigit, ne_apostrophe_of_isDigit hdigit⟩
  · exact ⟨'Z', by simp, by decide, by decide⟩

/-- And its first character after any blanks is no letter of the mark. -/
theorem exists_trimStart (h : l.Reads cs t) (hno : '\'' ∉ cs) :
    ∃ c after, Text.trimStart cs = c :: after ∧ c ≠ 'D' := by
  cases h with
  | dateOnly hdate => exact ne_mark_of_date? hdate
  | bare hstamp | utc hstamp | offset hstamp =>
    obtain ⟨_, hdate, _⟩ := stamp?_eq_some_iff.1 hstamp
    exact ne_mark_of_date? hdate
  | quotedOffset hmem => exact absurd hmem hno

/-- Blanks at the start do not matter. -/
theorem trimStart (h : l.Reads cs t) (hno : '\'' ∉ cs) : l.Reads (Text.trimStart cs) t := by
  have hstamp' : stamp? (Text.trimStart cs) = stamp? cs := by
    unfold stamp?
    rw [date?_trimStart]
  cases h with
  | dateOnly hdate => exact .dateOnly (by rw [date?_trimStart, hdate])
  | bare hstamp => exact .bare (by rw [hstamp', hstamp])
  | utc hstamp => exact .utc (by rw [hstamp', hstamp])
  | offset hstamp hoffset hrepresentable =>
    exact .offset (by rw [hstamp', hstamp]) hoffset hrepresentable
  | quotedOffset hmem => exact absurd hmem hno

/-- Without its apostrophes a text reads as the same time. -/
theorem exists_withoutApostrophes (h : l.Reads cs t) :
    ∃ l' : Layout, l'.Reads (withoutApostrophes cs) t := by
  by_cases hmem : '\'' ∈ cs
  · have hquoted : l = .quotedOffset := by rw [h.eq_suited, suited, if_pos hmem]
    subst hquoted
    obtain _ | _ | _ | _ | ⟨_, hoffset⟩ := h
    exact ⟨.offset, hoffset⟩
  · exact ⟨l, by rwa [withoutApostrophes_of_notMem hmem]⟩

end Layout.Reads

/-! ## The order of the layouts -/

/-- If only one alternative can succeed, it is found wherever it stands. -/
theorem findSome?_eq_of_only {α β : Type} {f : α → Option β} {a : α} {as : List α} (hmem : a ∈ as)
    (honly : ∀ b ∈ as, b ≠ a → f b = none) : as.findSome? f = f a := by
  cases hfound : f a with
  | none =>
    refine List.findSome?_eq_none_iff.2 ?_
    intro b hb
    by_cases hba : b = a
    · rw [hba, hfound]
    · exact honly b hb hba
  | some x =>
    obtain ⟨before, after, heq, hbefore⟩ := List.eq_append_cons_of_mem hmem
    refine List.findSome?_eq_some_iff.2 ⟨before, a, after, heq, hfound, ?_⟩
    intro b hb
    refine honly b (by simp [heq, hb]) ?_
    rintro rfl
    exact hbefore hb

theorem mem_layouts (l : Layout) : l ∈ layouts := by
  cases l <;> decide

/-- In whatever order the layouts are tried, the one that suits decides. -/
theorem findSome?_read? {ls : List Layout} (hmem : suited cs ∈ ls) :
    (ls.findSome? fun l => l.read? cs) = (suited cs).read? cs := by
  refine findSome?_eq_of_only hmem ?_
  intro l _ hne
  cases hread : l.read? cs with
  | none => rfl
  | some t => exact absurd (Layout.read?_eq_some_iff.1 hread).eq_suited hne

theorem read?_eq (text : String) : read? text = (suited (body text)).read? (body text) :=
  findSome?_read? (mem_layouts _)

/-- A text reads as the time that any of the layouts reads. -/
theorem read?_eq_some_iff {text : String} :
    read? text = some t ↔ ∃ l : Layout, l.Reads (body text) t := by
  rw [read?_eq, Layout.read?_eq_some_iff]
  constructor
  · intro h
    exact ⟨_, h⟩
  · rintro ⟨l, h⟩
    rwa [← h.eq_suited]

/-! ## Marks, blanks and closing apostrophes -/

/-- The mark at the start of a date. -/
def mark : List Char := ['D', ':']

theorem dropMark_of_ne {c : Char} (h : c ≠ 'D') (cs : List Char) : dropMark (c :: cs) = c :: cs := by
  unfold dropMark
  split
  · next heq =>
    cases heq
    exact absurd rfl h
  · rfl

/-- What is left after the mark, if there is one. -/
theorem exists_dropMark (cs : List Char) :
    ∃ start, (start = mark ∨ start = []) ∧ cs = start ++ dropMark cs := by
  unfold dropMark
  split
  · exact ⟨mark, .inl rfl, rfl⟩
  · exact ⟨[], .inr rfl, rfl⟩

section Body

variable {text : String} {before start quotes after : List Char}

/-- The body of a date stands between blanks, after the mark or not, and before closing
apostrophes. -/
theorem exists_body (text : String) :
    ∃ before start quotes after, (∀ c ∈ before, Text.isBlank c = true) ∧
      (∀ c ∈ after, Text.isBlank c = true) ∧ (∀ c ∈ quotes, c = '\'') ∧
      (start = mark ∨ start = []) ∧
      text.toList = before ++ (start ++ (body text ++ (quotes ++ after))) := by
  obtain ⟨before, after, hbefore, hafter, htext⟩ := Text.exists_trim text.toList
  obtain ⟨start, hstart, htrim⟩ := exists_dropMark (Text.trim text.toList)
  obtain ⟨quotes, hquotes, hbody⟩ :=
    Text.exists_trimEndWhile (· == '\'') (dropMark (Text.trim text.toList))
  refine ⟨before, start, quotes, after, hbefore, hafter, ?_, hstart, ?_⟩
  · intro c hc
    simpa using hquotes c hc
  · have hleft : dropMark (Text.trim text.toList) = body text ++ quotes := hbody
    rw [htrim, hleft] at htext
    simpa using htext

/-- What stands there is the body, if it ends with no blank and no apostrophe. Without a
mark it may not start with a blank or the first letter of the mark. -/
theorem body_eq {cs : List Char} (hbefore : ∀ c ∈ before, Text.isBlank c = true)
    (hafter : ∀ c ∈ after, Text.isBlank c = true) (hquotes : ∀ c ∈ quotes, c = '\'')
    (hstart : start = mark ∨
      start = [] ∧ ∃ c rest, cs = c :: rest ∧ Text.isBlank c = false ∧ c ≠ 'D')
    (hlast : ∃ c, cs.getLast? = some c ∧ Text.isBlank c = false ∧ c ≠ '\'')
    (htext : text.toList = before ++ (start ++ (cs ++ (quotes ++ after)))) : body text = cs := by
  obtain ⟨last, hlast, hblank, hquote⟩ := hlast
  have hne : cs ≠ [] := by
    rintro rfl
    cases hlast
  have hquoted : ∀ c, (cs ++ quotes).getLast? = some c → Text.isBlank c = false := by
    intro c hc
    rcases List.eq_nil_or_concat quotes with rfl | ⟨init, q, rfl⟩
    · rw [List.append_nil, hlast] at hc
      cases hc
      exact hblank
    · obtain rfl : q = c := by simpa using hc
      rw [hquotes q (by simp)]
      decide
  have htrimmed : Text.IsTrimmed (start ++ (cs ++ quotes)) := by
    constructor
    · rcases hstart with rfl | ⟨rfl, c, rest, rfl, hc, _⟩
      · intro c hc
        cases hc
        decide
      · intro d hd
        cases hd
        exact hc
    · intro c hc
      rw [List.getLast?_append_of_ne_nil _ (by simp [hne])] at hc
      exact hquoted c hc
  have htrim : Text.trim text.toList = start ++ (cs ++ quotes) := by
    have hall := Text.trim_append hbefore hafter (by simp [hne]) htrimmed
    rwa [htext, show start ++ (cs ++ (quotes ++ after)) = start ++ (cs ++ quotes) ++ after by simp]
  have hdrop : dropMark (start ++ (cs ++ quotes)) = cs ++ quotes := by
    rcases hstart with rfl | ⟨rfl, c, rest, rfl, _, hc⟩
    · rfl
    · exact dropMark_of_ne hc _
  rw [body, htrim, hdrop]
  refine Text.trimEndWhile_append ?_ ?_
  · intro c hc
    rw [hlast] at hc
    cases hc
    simpa using hquote
  · intro c hc
    simpa using hquotes c hc

/-- What a layout reads is read wherever it stands between blanks, after the mark or
not, and before closing apostrophes. -/
theorem read?_of_reads {cs : List Char} (h : l.Reads cs t) (hno : '\'' ∉ cs)
    (hbefore : ∀ c ∈ before, Text.isBlank c = true) (hafter : ∀ c ∈ after, Text.isBlank c = true)
    (hquotes : ∀ c ∈ quotes, c = '\'') (hstart : start = mark ∨ start = [])
    (htext : text.toList = before ++ (start ++ (cs ++ (quotes ++ after)))) :
    read? text = some t := by
  obtain ⟨last, hlast, hlastChar⟩ := h.exists_getLast? hno
  rcases hstart with rfl | rfl
  · -- After the mark, blanks are left to the layout.
    have hbody := body_eq hbefore hafter hquotes (.inl rfl) ⟨last, hlast, hlastChar⟩ htext
    exact read?_eq_some_iff.2 ⟨l, by rwa [hbody]⟩
  · -- Without a mark, they are trimmed with those around the text.
    obtain ⟨c, rest, hcore, hc⟩ := h.exists_trimStart hno
    have hblank : Text.isBlank c = false := Text.head_dropWhile (congrArg List.head? hcore)
    have hsplit : cs = cs.takeWhile Text.isBlank ++ Text.trimStart cs :=
      List.takeWhile_append_dropWhile.symm
    have hbefore' : ∀ c ∈ before ++ cs.takeWhile Text.isBlank, Text.isBlank c = true := by
      intro c hc
      rcases List.mem_append.1 hc with hc | hc
      · exact hbefore c hc
      · exact List.all_eq_true.1 List.all_takeWhile c hc
    have hlast' : (Text.trimStart cs).getLast? = some last := by
      rwa [hsplit, List.getLast?_append_of_ne_nil _ (by simp [hcore])] at hlast
    have htext' : text.toList = (before ++ cs.takeWhile Text.isBlank) ++
        ([] ++ (Text.trimStart cs ++ (quotes ++ after))) := by
      rw [htext, List.nil_append, List.nil_append, List.append_assoc,
        ← List.append_assoc _ (Text.trimStart cs), ← hsplit]
    have hbody := body_eq hbefore' hafter hquotes (.inr ⟨rfl, c, rest, hcore, hblank, hc⟩)
      ⟨last, hlast', hlastChar⟩ htext'
    exact read?_eq_some_iff.2 ⟨l, by rw [hbody]; exact h.trimStart hno⟩

end Body

/-! ## Texts without apostrophes -/

theorem withoutApostrophes_of_blank {cs : List Char} (h : ∀ c ∈ cs, Text.isBlank c = true) :
    withoutApostrophes cs = cs := by
  apply withoutApostrophes_of_notMem
  intro hmem
  exact absurd (h _ hmem) (by decide)

theorem withoutApostrophes_of_apostrophes {cs : List Char} (h : ∀ c ∈ cs, c = '\'') :
    withoutApostrophes cs = [] := by
  simpa [withoutApostrophes] using h

/-- A date reads as the same time without its apostrophes. -/
theorem read?_withoutApostrophes {text : String} (h : read? text = some t) :
    read? (String.ofList (withoutApostrophes text.toList)) = some t := by
  obtain ⟨l, hl⟩ := read?_eq_some_iff.1 h
  obtain ⟨l', hl'⟩ := hl.exists_withoutApostrophes
  obtain ⟨before, start, quotes, after, hbefore, hafter, hquotes, hstart, htext⟩ := exists_body text
  have hstart' : withoutApostrophes start = start := by
    apply withoutApostrophes_of_notMem
    rcases hstart with rfl | rfl
    · decide
    · exact List.not_mem_nil
  have htext' : (String.ofList (withoutApostrophes text.toList)).toList =
      before ++ (start ++ (withoutApostrophes (body text) ++ ([] ++ after))) := by
    rw [String.toList_ofList, htext]
    simp only [withoutApostrophes_append, withoutApostrophes_of_blank hbefore,
      withoutApostrophes_of_blank hafter, withoutApostrophes_of_apostrophes hquotes, hstart',
      List.nil_append]
  exact read?_of_reads hl' (notMem_withoutApostrophes _) hbefore hafter (by simp) hstart htext'

/-- **One layout at most.** No characters fit two layouts, so dates read the same in
whatever order the layouts are tried. And every date that can be read reads as the same
local time with the same offset when all of its apostrophes are left out. -/
theorem layouts_exclusive :
    (∀ (cs : List Char) (l l' : Layout) (t t' : ZonedTime),
      l.read? cs = some t → l'.read? cs = some t' → l = l') ∧
    (∀ ls : List Layout, ls.Perm layouts →
      ∀ text, (ls.findSome? fun l => l.read? (body text)) = read? text) ∧
    ∀ (text : String) (t : ZonedTime), read? text = some t →
      read? (String.ofList (withoutApostrophes text.toList)) = some t := by
  refine ⟨?_, ?_, fun text t h => read?_withoutApostrophes h⟩
  · intro cs l l' t t' h h'
    rw [(Layout.read?_eq_some_iff.1 h).eq_suited, (Layout.read?_eq_some_iff.1 h').eq_suited]
  · intro ls hperm text
    have hmem : suited (body text) ∈ ls := hperm.mem_iff.2 (mem_layouts _)
    rw [findSome?_read? hmem, read?_eq]

/-- A date alone fits no other layout. Apostrophes may stand anywhere in a date with an
offset, and a blank before a number. -/
theorem layouts_exclusive_sample :
    Layout.bare.read? "20240315".toList = none ∧
      (([.dateOnly, .bare, .utc, .offset, .quotedOffset] : List Layout).findSome?
        fun l => l.read? (body "D:2024'03 15143000+05'30'")) =
          some ⟨⟨2024, 3, 15⟩, 14, 30, 0, 19800⟩ ∧
      read? "D:202403 15143000+0530" = some ⟨⟨2024, 3, 15⟩, 14, 30, 0, 19800⟩ := by
  obtain ⟨hone, horder, hbare⟩ := layouts_exclusive
  have hdate : Layout.dateOnly.read? "20240315".toList = some ⟨⟨2024, 3, 15⟩, 0, 0, 0, 0⟩ := by
    decide
  have hread : read? "D:2024'03 15143000+05'30'" =
      some ⟨⟨2024, 3, 15⟩, 14, 30, 0, 19800⟩ := by decide
  have htext : String.ofList (withoutApostrophes "D:2024'03 15143000+05'30'".toList) =
      "D:202403 15143000+0530" := by decide
  refine ⟨?_, (horder _ (by decide) _).trans hread, ?_⟩
  · cases h : Layout.bare.read? "20240315".toList with
    | none => rfl
    | some t => cases hone _ _ _ _ _ h hdate
  · rw [← htext]
    exact hbare _ _ hread

end SignedPdf.PdfDate
