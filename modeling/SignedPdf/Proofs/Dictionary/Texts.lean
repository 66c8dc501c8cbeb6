import SignedPdf.Proofs.Dictionary.Entries
import SignedPdf.Proofs.Utf16

/-!
# Texts that are read back

A text value goes up to the first closing bracket, whatever the encoding of the text.
In UTF-8 this bracket is a character of the text. In UTF-16 it may be half of a code
unit, and then the text is cut off there, even within a surrogate pair. Either way,
what is left is too short to be the text.

* `OpensWith` says what follows the leftmost key with an opening bracket, and
  `OpensWith.told_eq` what is told then.
* `textValue_cut_utf8_iff` and `textValue_cut_utf16_iff`: which texts read back.
* `ofWindow_texts`: both together, and that what is told is trimmed.
-/

namespace SignedPdf

namespace SignatureDictionary

/-! ## Keys that are followed by an opening bracket -/

/-- The keys of texts. -/
def textKeys : List Key := [.name, .reason]

theorem mem_textKeys_iff {k : Key} : k ∈ textKeys ↔ k = .name ∨ k = .reason := by
  simp [textKeys]

/-- A key, blanks and the opening bracket stand at the start. -/
def Opens (k : Key) (bs : Bytes) : Prop :=
  ∃ blanks rest, (∀ b ∈ blanks, b ∈ blankOctets) ∧ bs = k.octets ++ (blanks ++ k.opening :: rest)

/-- The leftmost place in the window where a key, blanks and the opening bracket stand
goes on with these octets and the closing bracket. -/
def OpensWith (k : Key) (window octets : Bytes) : Prop :=
  ∃ o blanks rest, (∀ b ∈ blanks, b ∈ blankOctets) ∧
    window.drop o = k.octets ++ (blanks ++ k.opening :: (octets ++ k.closing :: rest)) ∧
    ∀ j < o, ¬ Opens k (window.drop j)

variable {k : Key} {window octets : Bytes}

theorem opens_iff {bs : Bytes} :
    Opens k bs ↔ ((Bytes.dropStart? k.octets bs).any fun after =>
      (after.dropWhile Text.isSeparator).head? == some k.opening) = true := by
  rw [Option.any_eq_true]
  constructor
  · rintro ⟨blanks, rest, hblanks, rfl⟩
    refine ⟨_, Bytes.dropStart?_append _ _, ?_⟩
    rw [dropWhile_blanks hblanks k.opening_notMem_blankOctets]
    simp
  · rintro ⟨after, hafter, hopening⟩
    rw [beq_iff_eq, List.head?_eq_some_iff] at hopening
    obtain ⟨rest, hrest⟩ := hopening
    obtain ⟨blanks, hblanks, rfl⟩ := exists_blanks_of_dropWhile hrest
    exact ⟨blanks, rest, hblanks, Bytes.dropStart?_eq_some_iff.1 hafter⟩

instance (bs : Bytes) : Decidable (Opens k bs) := decidable_of_iff _ opens_iff.symm

theorem StandsAt.opens {o : Nat} {value : Bytes} (h : StandsAt k window o value) :
    Opens k (window.drop o) := by
  obtain ⟨blanks, rest, hblanks, _, hdrop⟩ := h
  exact ⟨blanks, _, hblanks, hdrop⟩

/-- The octets up to the first closing bracket. -/
def cut (octets : Bytes) : Bytes := octets.takeWhile (· != 0x29)

theorem cut_of_notMem (h : 0x29 ∉ octets) : cut octets = octets := by
  rw [cut, List.takeWhile_eq_self_iff]
  intro b hb
  rw [bne_iff_ne]
  rintro rfl
  exact h hb

theorem notMem_cut : 0x29 ∉ cut octets := by
  intro h
  simpa using List.mem_takeWhile_imp h

/-- With a closing bracket after the octets, there is one after the cut. -/
theorem exists_cut_append (octets rest : Bytes) :
    ∃ rest', octets ++ 0x29 :: rest = cut octets ++ 0x29 :: rest' := by
  cases hdrop : octets.dropWhile (· != 0x29) with
  | nil =>
    have hall : octets = cut octets := by
      rw [cut, ← List.append_nil (octets.takeWhile _), ← hdrop, List.takeWhile_append_dropWhile]
    exact ⟨rest, by rw [← hall]⟩
  | cons b after =>
    obtain ⟨hoctets, _, hb⟩ := Search.run_of_dropWhile hdrop
    obtain rfl : b = 0x29 := by simpa using hb
    refine ⟨after ++ 0x29 :: rest, ?_⟩
    conv_lhs => rw [hoctets]
    simp [cut]

/-- What is found for a key of texts is what follows, up to the first closing
bracket. -/
theorem OpensWith.leftmost (hk : k ∈ textKeys) (h : OpensWith k window octets) :
    Leftmost k window (some (cut octets)) := by
  obtain ⟨o, blanks, rest, hblanks, hdrop, hleast⟩ := h
  obtain ⟨hclosing, hallows⟩ : k.closing = 0x29 ∧ k.Allows (cut octets) := by
    rcases mem_textKeys_iff.1 hk with rfl | rfl
    · exact ⟨rfl, notMem_cut⟩
    · exact ⟨rfl, notMem_cut⟩
  obtain ⟨rest', hrest⟩ := exists_cut_append octets rest
  have hstands : StandsAt k window o (cut octets) := by
    refine ⟨blanks, rest', hblanks, hallows, ?_⟩
    rw [hdrop, hclosing, hrest]
  exact .found hstands fun j hj value hearlier => hleast j hj hearlier.opens

/-- What is told for a key of texts is the text value of what is found. -/
theorem told_eq_bind (hk : k ∈ textKeys) :
    (ofWindow window).told k = (field? k.octets k.value? window).bind textValue := by
  rcases mem_textKeys_iff.1 hk with rfl | rfl
  · exact told_ofWindow .name window
  · exact told_ofWindow .reason window

theorem OpensWith.told_eq (hk : k ∈ textKeys) (h : OpensWith k window octets) :
    (ofWindow window).told k = textValue (cut octets) := by
  rw [told_eq_bind hk, leftmost_iff.1 (h.leftmost hk), Option.bind_some]

/-! ## Texts that follow -/

section Texts

variable {s : String}

/-- What is told is part of what is read. -/
theorem textValue_infix {bs : Bytes} (h : textValue bs = some s) : s.toList <:+: textChars bs := by
  rw [(textValue_eq_some h).1]
  exact Text.trim_infix _

/-- A text in UTF-8 is cut off at its first closing bracket, if it has one. -/
theorem cut_ofText {before after : List Char} (hs : s.toList = before ++ ')' :: after)
    (hbefore : ')' ∉ before) : cut (Bytes.ofText s) = Bytes.ofChars before := by
  have hno : 0x29 ∉ Bytes.ofChars before := Utf8.notMem_ofChars (by decide) hbefore
  have hclosing : Bytes.ofChar ')' = [0x29] := rfl
  rw [Bytes.ofText, hs, Bytes.ofChars_append, Bytes.ofChars_cons, hclosing]
  refine Search.takeWhile_run (fun b hb => ?_) (by decide) _
  rw [bne_iff_ne]
  rintro rfl
  exact hno hb

/-- A text in UTF-8 reads back exactly if it has no closing bracket. -/
theorem textValue_cut_utf8_iff (hne : s.toList ≠ []) (hs : Text.IsTrimmed s.toList) :
    textValue (cut (Bytes.ofText s)) = some s ↔ ')' ∉ s.toList := by
  constructor
  · intro hvalue hmem
    obtain ⟨before, after, hsplit, hbefore⟩ := List.eq_append_cons_of_mem hmem
    have hpart := textValue_infix hvalue
    rw [cut_ofText hsplit hbefore, textChars_ofChars] at hpart
    exact hbefore (hpart.subset hmem)
  · intro hno
    have hcut : cut (Bytes.ofText s) = Bytes.ofText s :=
      cut_of_notMem (Utf8.notMem_ofChars (by decide) hno)
    rw [hcut]
    exact textValue_ofText hne hs

/-- A text in UTF-16 reads back exactly if no half of a unit is a closing bracket. -/
theorem textValue_cut_utf16_iff (hne : s.toList ≠ []) (hs : Text.IsTrimmed s.toList) :
    textValue (cut (0xFE :: 0xFF :: Utf16.encode s.toList)) = some s ↔
      0x29 ∉ Utf16.encode s.toList := by
  have hchars : textChars (cut (0xFE :: 0xFF :: Utf16.encode s.toList)) =
      Utf16.decodeLossy (cut (Utf16.encode s.toList)) := rfl
  constructor
  · intro hvalue
    have hpart := textValue_infix hvalue
    rw [hchars] at hpart
    -- What is read from a proper prefix is too short to be the text.
    have hprefix : cut (Utf16.encode s.toList) <+: Utf16.encode s.toList := List.takeWhile_prefix _
    have hwhole := hprefix.eq_of_length_le (Utf16.length_encode_le_of_infix hpart)
    rw [← hwhole]
    exact notMem_cut
  · intro hno
    refine textValue_of_textChars ?_ hne hs
    rw [hchars, cut_of_notMem hno, Utf16.decodeLossy_encode]

/-- Some characters other than the bracket have a half that is one. -/
theorem closing_mem_encode {c : Char} (hc : c = '\u0129' ∨ c = '\u2901') (h : c ∈ s.toList) :
    0x29 ∈ Utf16.encode s.toList := by
  refine List.mem_flatMap.2 ⟨c, h, ?_⟩
  rcases hc with rfl | rfl <;> decide

end Texts

/-- **Which texts read back.** Let the leftmost name or reason in a window that has an
opening bracket go on with a trimmed text and the closing bracket. If the text is
written in UTF-8, it is told exactly if it has no closing bracket; if it is written in
UTF-16 after its mark, exactly if none of the octets is a closing bracket. So a text
with U+0129 or U+2901 is never told in UTF-16. In every window, a name or a reason
that is told is not empty and has no blanks at its ends. -/
theorem ofWindow_texts (window : Bytes) :
    ∀ k ∈ textKeys,
      (∀ s : String, s ≠ "" → Text.IsTrimmed s.toList →
        (OpensWith k window (Bytes.ofText s) →
          ((ofWindow window).told k = some s ↔ ')' ∉ s.toList)) ∧
        (OpensWith k window (0xFE :: 0xFF :: Utf16.encode s.toList) →
          ((ofWindow window).told k = some s ↔ 0x29 ∉ Utf16.encode s.toList) ∧
          ∀ c ∈ s.toList, c = '\u0129' ∨ c = '\u2901' → (ofWindow window).told k ≠ some s)) ∧
      ∀ s, (ofWindow window).told k = some s → s ≠ "" ∧ Text.IsTrimmed s.toList := by
  intro k hk
  refine ⟨fun s hne hs => ?_, fun s htold => ?_⟩
  · have hsome : s.toList ≠ [] := by simpa using hne
    refine ⟨fun h => ?_, fun h => ?_⟩
    · rw [h.told_eq hk]
      exact textValue_cut_utf8_iff hsome hs
    · rw [h.told_eq hk, ne_eq, textValue_cut_utf16_iff hsome hs, not_not]
      exact ⟨Iff.rfl, fun c hmem hc => closing_mem_encode hc hmem⟩
  · rw [told_eq_bind hk, Option.bind_eq_some_iff] at htold
    obtain ⟨value, _, hvalue⟩ := htold
    obtain ⟨hsome, htrimmed⟩ := textValue_trimmed hvalue
    exact ⟨by simpa using hsome, htrimmed⟩

/-- The name is in UTF-16, and the low half of its second unit is a closing bracket.
The reason is in UTF-8. -/
def textsSample : Bytes :=
  Bytes.ofText "/Type/Sig /Name (" ++ (0xFE :: 0xFF :: Utf16.encode "I\u0129".toList) ++
    Bytes.ofText ") /Reason\n(\u0129)"

theorem ofWindow_texts_sample :
    (ofWindow textsSample).told .name ≠ some "I\u0129" ∧
      (ofWindow textsSample).told .reason = some "\u0129" := by
  have hname : OpensWith .name textsSample (0xFE :: 0xFF :: Utf16.encode "I\u0129".toList) :=
    ⟨10, [0x20], Bytes.ofText " /Reason\n(\u0129)", by simp [blankOctets], by decide, by decide⟩
  have hreason : OpensWith .reason textsSample (Bytes.ofText "\u0129") :=
    ⟨25, [0x0A], [], by simp [blankOctets], by decide, by decide⟩
  obtain ⟨hnames, _⟩ := ofWindow_texts textsSample .name (by decide)
  obtain ⟨hreasons, _⟩ := ofWindow_texts textsSample .reason (by decide)
  constructor
  · have htold := (hnames "I\u0129" (by decide) (by decide)).2 hname
    exact htold.2 '\u0129' (by decide) (.inl rfl)
  · have htold := (hreasons "\u0129" (by decide) (by decide)).1 hreason
    exact htold.2 (by decide)

end SignatureDictionary

end SignedPdf
