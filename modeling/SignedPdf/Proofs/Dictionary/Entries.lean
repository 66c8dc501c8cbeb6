import SignedPdf.Proofs.Dictionary.Fields
import SignedPdf.Proofs.Hex

/-!
# Complete entries

A look-up takes the leftmost entry that is complete: its key, blanks, and a value
of the right form between its brackets, all of it within the window. A key that
something else follows, or that the end of the window cuts off from its value, is
passed over.

* `Key.read?_eq_some_iff`: what is accepted at an offset is a complete entry, and
  every complete entry is accepted.
* `Leftmost` says which value the complete entries of a window give for a key, and
  `leftmost_iff` that this is the value which a look-up takes.
* `ofWindow_leftmost`: what a dictionary tells, key by key.
-/

namespace SignedPdf

namespace SignatureDictionary

/-! ## Values between brackets -/

/-- A literal goes up to the first closing bracket. -/
theorem literal?_eq_some_iff {bs value : Bytes} :
    literal? bs = some value ↔
      0x29 ∉ value ∧ ∃ rest, bs = 0x28 :: (value ++ 0x29 :: rest) := by
  constructor
  · intro h
    unfold literal? at h
    split at h
    · next rest =>
      split at h
      · cases h
      · next b after hdrop =>
        cases h
        obtain ⟨hrest, hall, hb⟩ := Search.run_of_dropWhile hdrop
        have hclosing : b = 0x29 := by simpa using hb
        subst hclosing
        refine ⟨fun hmem => ?_, after, ?_⟩
        · simpa using hall _ hmem
        · rw [← hrest]
    · cases h
  · rintro ⟨hvalue, rest, rfl⟩
    exact literal?_append hvalue rest

/-- A hexadecimal string holds something, and nothing but digits and blanks. -/
theorem hexString?_eq_some_iff {bs value : Bytes} :
    hexString? bs = some value ↔
      (value ≠ [] ∧ ∀ b ∈ value, isHexOctet b = true) ∧
        ∃ rest, bs = 0x3C :: (value ++ 0x3E :: rest) := by
  constructor
  · intro h
    unfold hexString? at h
    split at h
    · next rest =>
      split at h
      · next b bs' after htake hdrop =>
        cases h
        obtain ⟨hrest, hall, _⟩ := Search.run_of_dropWhile hdrop
        rw [htake] at hrest hall
        exact ⟨⟨List.cons_ne_nil b bs', hall⟩, after, by rw [hrest]⟩
      · cases h
    · cases h
  · rintro ⟨⟨hne, hvalue⟩, rest, rfl⟩
    exact hexString?_append hne hvalue rest

namespace Key

/-- A value is read exactly if it stands between its brackets. -/
theorem value?_eq_some_iff (k : Key) {bs value : Bytes} :
    k.value? bs = some value ↔
      k.Allows value ∧ ∃ rest, bs = k.opening :: (value ++ k.closing :: rest) := by
  cases k with
  | contents => exact hexString?_eq_some_iff
  | name => exact literal?_eq_some_iff
  | reason => exact literal?_eq_some_iff
  | date => exact literal?_eq_some_iff

/-- A look-up accepts the complete entries of its key and nothing else. -/
theorem read?_eq_some_iff (k : Key) {bs value : Bytes} :
    k.read? bs = some value ↔
      ∃ blanks rest, (∀ b ∈ blanks, b ∈ blankOctets) ∧ k.Allows value ∧
        bs = k.octets ++ (blanks ++ k.opening :: (value ++ k.closing :: rest)) := by
  constructor
  · intro h
    simp only [read?, entryAt?, Option.bind_eq_some_iff, Bytes.dropStart?_eq_some_iff] at h
    obtain ⟨after, rfl, hvalue⟩ := h
    obtain ⟨hallows, rest, hrest⟩ := k.value?_eq_some_iff.1 hvalue
    obtain ⟨blanks, hblanks, rfl⟩ := exists_blanks_of_dropWhile hrest
    exact ⟨blanks, rest, hblanks, hallows, rfl⟩
  · rintro ⟨blanks, rest, hblanks, hallows, rfl⟩
    exact k.read?_append hblanks hallows rest

end Key

/-! ## Entries in a window -/

/-- A complete entry stands at an offset of a window: the key, blanks, and the
value between its brackets. -/
def StandsAt (k : Key) (window : Bytes) (o : Nat) (value : Bytes) : Prop :=
  ∃ blanks rest, (∀ b ∈ blanks, b ∈ blankOctets) ∧ k.Allows value ∧
    window.drop o = k.octets ++ (blanks ++ k.opening :: (value ++ k.closing :: rest))

/-- The value that the entries of a window give for a key: that of the leftmost
complete entry, and none if there is no such entry. -/
inductive Leftmost (k : Key) (window : Bytes) : Option Bytes → Prop
  | found {o : Nat} {value : Bytes} (h : StandsAt k window o value)
    (hleast : ∀ j < o, ∀ value', ¬ StandsAt k window j value') : Leftmost k window (some value)
  | absent (h : ∀ o value, ¬ StandsAt k window o value) : Leftmost k window none

section Windows

variable {k : Key} {window : Bytes}

theorem standsAt_iff {o : Nat} {value : Bytes} :
    StandsAt k window o value ↔ k.read? (window.drop o) = some value :=
  k.read?_eq_some_iff.symm

theorem forall_not_standsAt_iff {o : Nat} :
    (∀ value, ¬ StandsAt k window o value) ↔ k.read? (window.drop o) = none := by
  simp only [standsAt_iff, Option.eq_none_iff_forall_ne_some]

/-- An entry is not empty, so it starts within the window. -/
theorem StandsAt.lt_length {o : Nat} {value : Bytes} (h : StandsAt k window o value) :
    o < window.length := by
  by_contra hle
  rw [standsAt_iff, List.drop_eq_nil_of_le (by omega)] at h
  cases k <;> cases h

/-- A look-up takes the value of the leftmost complete entry. -/
theorem leftmost_iff {found : Option Bytes} :
    Leftmost k window found ↔ field? k.octets k.value? window = found := by
  constructor
  · intro h
    cases h with
    | found h hleast =>
      refine field?_eq_some_iff.2 ⟨_, h.lt_length.le, standsAt_iff.1 h, fun j hj => ?_⟩
      exact forall_not_standsAt_iff.1 (hleast j hj)
    | absent h =>
      rw [field?, Option.map_eq_none_iff, Search.first?_eq_none_iff]
      intro o _
      exact forall_not_standsAt_iff.1 (h o)
  · rintro rfl
    cases hfield : field? k.octets k.value? window with
    | none =>
      rw [field?, Option.map_eq_none_iff, Search.first?_eq_none_iff] at hfield
      refine .absent fun o value h => ?_
      exact forall_not_standsAt_iff.2 (hfield o h.lt_length.le) value h
    | some value =>
      obtain ⟨o, _, h, hleast⟩ := field?_eq_some_iff.1 hfield
      refine .found (standsAt_iff.2 h) fun j hj => ?_
      exact forall_not_standsAt_iff.2 (hleast j hj)

/-- A complete entry is not hidden by anything but a complete entry before it. -/
theorem StandsAt.exists_leftmost {o : Nat} {value : Bytes} (h : StandsAt k window o value) :
    ∃ o' ≤ o, ∃ value', StandsAt k window o' value' ∧ Leftmost k window (some value') := by
  induction o using Nat.strong_induction_on generalizing value with
  | _ o ih =>
    by_cases hleast : ∀ j < o, ∀ value', ¬ StandsAt k window j value'
    · exact ⟨o, le_rfl, value, h, .found h hleast⟩
    · push Not at hleast
      obtain ⟨j, hj, value', hearlier⟩ := hleast
      obtain ⟨o', ho', hfound⟩ := ih j hj hearlier
      exact ⟨o', by omega, hfound⟩

/-- Windows with the same complete entries of a key give the same value for it. -/
theorem Leftmost.of_standsAt_iff {other : Bytes} {found : Option Bytes}
    (h : Leftmost k window found)
    (hsame : ∀ o value, StandsAt k other o value ↔ StandsAt k window o value) :
    Leftmost k other found := by
  cases h with
  | found hstands hleast =>
    refine .found ((hsame _ _).2 hstands) fun j hj value' hearlier => ?_
    exact hleast j hj value' ((hsame j value').1 hearlier)
  | absent hno =>
    refine .absent fun o value hstands => ?_
    exact hno o value ((hsame o value).1 hstands)

end Windows

/-! ## What a dictionary tells -/

/-- What a dictionary tells for a key; it always tells its contents, if only that
there are none. -/
def told (d : SignatureDictionary) : Key → Option String
  | .contents => some d.contents
  | .name => d.name
  | .reason => d.reason
  | .date => d.date

/-- What is told if an entry with that value has been found, or no entry. -/
def Key.reading : Key → Option Bytes → Option String
  | .contents, found =>
    some (Bytes.asciiText ((found.getD []).filter fun b => !Text.isAsciiBlank b))
  | .name, found | .reason, found => found.bind textValue
  | .date, found => found.map fun value => String.ofList (Utf8.decodeLossy value)

theorem told_ofWindow (k : Key) (window : Bytes) :
    (ofWindow window).told k = k.reading (field? k.octets k.value? window) := by
  cases k with
  | contents =>
    show some (ofWindow window).contents = _
    simp only [ofWindow, rawContents?, Key.octets, Key.value?]
    cases field? contentsKey hexString? window <;> rfl
  | name => rfl
  | reason => rfl
  | date => rfl

/-- Hexadecimal strings hold digits of either letter case and blanks. -/
theorem isHexOctet_iff {b : UInt8} :
    isHexOctet b = true ↔ b ∈ Hex.digitOctets ∨ b ∈ blankOctets := by
  rw [isHexOctet, Bool.or_eq_true, Hex.isDigit_iff, isSeparator_iff]

/-- **The leftmost complete entry counts, for each key on its own.** An entry is
complete if its key, blanks, and a value of the right form between its brackets
stand in the window. For every key exactly one value is to be found, that of the
leftmost complete entry or none at all, and the dictionary tells this value. So no
complete entry is hidden by a key that does not start one, be it cut off by the end
of the window or followed by a value of another form; and windows that have the
same complete entries of a key tell the same for it, whatever they hold for the
other keys. -/
theorem ofWindow_leftmost (window : Bytes) :
    (∀ value, Key.contents.Allows value ↔ value ≠ [] ∧
      ∀ b ∈ value, b ∈ Hex.digitOctets ∨ b ∈ blankOctets) ∧
    (∀ k, ∃ found, Leftmost k window found ∧
      (∀ found', Leftmost k window found' → found' = found) ∧
      (ofWindow window).told k = k.reading found) ∧
    (∀ k o value, StandsAt k window o value →
      ∃ o' ≤ o, ∃ value', StandsAt k window o' value' ∧ Leftmost k window (some value')) ∧
    ∀ k other, (∀ o value, StandsAt k other o value ↔ StandsAt k window o value) →
      (ofWindow other).told k = (ofWindow window).told k := by
  refine ⟨fun value => ?_, fun k => ?_, fun k o value => StandsAt.exists_leftmost, ?_⟩
  · simp only [Key.Allows, isHexOctet_iff]
  · refine ⟨_, leftmost_iff.2 rfl, fun found' h => ?_, told_ofWindow k window⟩
    exact (leftmost_iff.1 h).symm
  · intro k other hsame
    have hwindow : Leftmost k window (field? k.octets k.value? window) := leftmost_iff.2 rfl
    have hother := leftmost_iff.1 (hwindow.of_standsAt_iff hsame)
    rw [told_ofWindow, told_ofWindow, hother]

/-- A window in which the first entry with contents has a letter that is no digit,
the second one a value of another form, and the time ends with the window. -/
def entriesSample : Bytes :=
  Bytes.ofText
    "/Type/Sig/Contents<30 8x>/Contents(0)/Name\t(A)/Contents\x0b< 30\n82 >/Name(B)/M(D:2"

/-- The contents are those of the third entry, the first that is complete. Of two
complete entries with a name the second one counts for nothing. -/
theorem ofWindow_leftmost_sample :
    StandsAt .contents entriesSample 46 (Bytes.ofText " 30\n82 ") ∧
      (ofWindow entriesSample).told .contents = some "3082" ∧
      StandsAt .name entriesSample 65 (Bytes.ofText "B") ∧
      ∃ o ≤ 65, ∃ value, StandsAt .name entriesSample o value ∧
        Leftmost .name entriesSample (some value) := by
  have hcontents : StandsAt .contents entriesSample 46 (Bytes.ofText " 30\n82 ") :=
    standsAt_iff.2 (by decide)
  have hname : StandsAt .name entriesSample 65 (Bytes.ofText "B") := standsAt_iff.2 (by decide)
  have hleast : ∀ j < 46, Key.contents.read? (entriesSample.drop j) = none := by decide
  obtain ⟨_, hfields, hfound, _⟩ := ofWindow_leftmost entriesSample
  obtain ⟨found, _, hunique, htold⟩ := hfields .contents
  obtain rfl := hunique _ (.found hcontents fun j hj => forall_not_standsAt_iff.2 (hleast j hj))
  exact ⟨hcontents, htold.trans (by decide), hname, hfound _ _ _ hname⟩

end SignatureDictionary

end SignedPdf
