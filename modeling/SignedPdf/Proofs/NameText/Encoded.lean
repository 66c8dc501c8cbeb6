import SignedPdf.Proofs.Hex.Decoding
import SignedPdf.Proofs.Minimal
import SignedPdf.X509.NameText

/-!
# Values in digits

In the text of a name, a value that is no text is written as the digits of its
encoding. This is the whole element only if it has a minimal form, for which its
identifier must be known and the whole of it shorter than 2^28 octets. Of any other
element the contents alone are written, and they may happen to be the encoding of
another element.

* `Element.IsKnown` says which elements have a minimal form.
* `Attribute.isDer_encoding_iff`: the digits are those of the whole element for these
  and for no others.
* `Attribute.text_alone_eq_iff`: attributes of one type have the same text exactly if
  the octets in it are the same.
* `Attribute.encoding_law`: all of this. `Attribute.text_alone_unknown` shows that two
  values of one type may be written alike.
-/

namespace SignedPdf

namespace Asn1

/-! ## Elements with a minimal form -/

/-- The elements that have a minimal form: the tag number fits into one octet, the
identifier is known if it is of the universal class, and the whole element, with its
identifier and its length, is not too long. -/
def Element.IsKnown (e : Element) : Prop :=
  e.identifier.number < 31 ∧
    (e.identifier.tagClass ≠ .universal ∨
      Minimal.identifierOctet e.identifier ∈ Minimal.knownUniversal) ∧
    Minimal.elementLength e.contents.length < Minimal.lengthLimit

instance (e : Element) : Decidable e.IsKnown := by
  unfold Element.IsKnown
  infer_instance

/-- Outside the universal class all tag numbers that fit into one octet are known. -/
theorem Minimal.isKnown_identifierOctet_iff {i : Identifier} (h : i.number < 31) :
    isKnown (identifierOctet i) = true ↔
      i.tagClass ≠ .universal ∨ identifierOctet i ∈ knownUniversal := by
  have hoctet : identifierOctet i = i.tagClass.number * 64 + (if i.constructed then 32 else 0) +
      i.number := rfl
  have hlow : (if i.constructed then 32 else 0) ≤ 32 ∧
      (if i.constructed then 32 else 0) % 32 = 0 := by
    split <;> decide
  unfold isKnown
  cases hclass : i.tagClass with
  | universal =>
    have hsmall : identifierOctet i < 0x40 := by
      rw [hoctet, hclass, TagClass.number]
      omega
    simp [hsmall]
  | application | contextSpecific | privateUse =>
    have hlarge : ¬ identifierOctet i < 0x40 := by
      rw [hoctet, hclass, TagClass.number]
      omega
    have hnumber : identifierOctet i % 32 ≠ 31 := by
      rw [hoctet, hclass, TagClass.number]
      omega
    simp [hlarge, hnumber]

theorem Minimal.exists_encode?_iff {e : Element} :
    (∃ octets, encode? e = some octets) ↔ e.IsKnown := by
  simp only [encode?_eq_some_iff, exists_and_left, exists_eq, and_true]
  exact and_congr_right fun hnumber => and_congr_left' (isKnown_identifierOctet_iff hnumber)

end Asn1

namespace X509

open SignedPdf.Asn1

namespace Attribute

variable {a b : Attribute}

/-! ## Attributes whose values are written in digits -/

/-- The attribute has no standard type, and it is written as its path with the digits
of some octets. -/
def InDigits (a : Attribute) : Prop :=
  a.standardType? = none ∧ ∃ octets, a.alone = ⟨a.type.text, .encoded octets⟩

theorem InDigits.alone_eq (h : a.InDigits) : a.alone = ⟨a.type.text, .encoded a.encoding⟩ := by
  obtain ⟨_, octets, halone⟩ := h
  revert halone
  simp only [alone]
  split
  · intro halone
    cases halone
  · intro _
    rfl

/-- Such an attribute stands by itself in the text of its name. -/
theorem InDigits.mem_parts {n : Name} (h : a.InDigits) (hmem : a ∈ n.attributes) :
    [a.alone] ∈ n.parts := by
  have hother : [a.alone] ∈ n.others :=
    List.mem_map.2 ⟨a, List.mem_filter.2 ⟨hmem, by simp [h.1]⟩, rfl⟩
  rw [Name.parts, List.mem_reverse]
  exact List.mem_append_left _ hother

theorem InDigits.text_alone (h : a.InDigits) :
    a.alone.text = a.type.text ++ "=#" ++ Bytes.hex a.encoding := by
  have hmark : "=#" = "=" ++ "#" := rfl
  rw [h.alone_eq, hmark]
  simp only [KeyedValue.text, ValueText.text, String.append_assoc]

/-! ## What the digits say -/

/-- The digits are those of an encoding of the value exactly if its element is known. -/
theorem isDer_encoding_iff (a : Attribute) : a.value.IsDer a.encoding ↔ a.value.IsKnown := by
  rw [← Minimal.exists_encode?_iff, encoding]
  cases hencode : Minimal.encode? a.value with
  | none => simpa using a.value.not_isDer_contents
  | some octets => simpa using Minimal.isDer_encode? hencode

/-- Otherwise they are those of the bare contents. -/
theorem encoding_of_not_isKnown (h : ¬ a.value.IsKnown) : a.encoding = a.value.contents := by
  rw [← Minimal.exists_encode?_iff] at h
  rw [encoding]
  cases hencode : Minimal.encode? a.value with
  | none => rfl
  | some octets => exact absurd ⟨octets, hencode⟩ h

/-- Attributes of one type are written alike exactly if their digits are the same. -/
theorem text_alone_eq_iff (ha : a.InDigits) (hb : b.InDigits) (htype : a.type = b.type) :
    a.alone.text = b.alone.text ↔ a.encoding = b.encoding := by
  rw [ha.text_alone, hb.text_alone, htype]
  constructor
  · intro htext
    have hhex : Bytes.hex a.encoding = Bytes.hex b.encoding := String.append_right_inj _ |>.1 htext
    have hdecode := Hex.decode_hex a.encoding
    rw [hhex, Hex.decode_hex] at hdecode
    exact (Except.ok.inj hdecode).symm
  · intro hencoding
    rw [hencoding]

/-- Known elements have the same encoding only if they are the same. -/
theorem encoding_eq_iff (ha : a.value.IsKnown) (hb : b.value.IsKnown) :
    a.encoding = b.encoding ↔ a.value = b.value := by
  constructor
  · intro hencoding
    have hread := ((isDer_encoding_iff a).2 ha).1
    rw [hencoding, ((isDer_encoding_iff b).2 hb).1] at hread
    exact (congrArg Prod.fst (Except.ok.inj hread)).symm
  · intro hvalue
    rw [encoding, encoding, hvalue]

/-- **Values in digits.** An attribute whose value is written in digits stands with
them in the text of its name, and they decode to its octets. These are the
distinguished encoding of the value, with its class, kind, tag number and contents,
exactly if the element is known; otherwise they are the contents alone. Another
attribute of the type is written alike exactly if its octets are the same, and so, if
both elements are known, exactly if its value is the same. -/
theorem encoding_law {n : Name} {a : Attribute} (hmem : a ∈ n.attributes) (ha : a.InDigits) :
    [a.alone] ∈ n.parts ∧ a.alone.text = a.type.text ++ "=#" ++ Bytes.hex a.encoding ∧
      Hex.decode (Bytes.hex a.encoding) = .ok a.encoding ∧
      (a.value.IsDer a.encoding ↔ a.value.IsKnown) ∧
      (¬ a.value.IsKnown → a.encoding = a.value.contents) ∧
      ∀ b : Attribute, b.InDigits → a.type = b.type →
        (a.alone.text = b.alone.text ↔ a.encoding = b.encoding) ∧
          (a.value.IsKnown → b.value.IsKnown →
            (a.alone.text = b.alone.text ↔ a.value = b.value)) := by
  refine ⟨ha.mem_parts hmem, ha.text_alone, Hex.decode_hex _, isDer_encoding_iff a,
    encoding_of_not_isKnown, ?_⟩
  intro b hb htype
  have htext := text_alone_eq_iff ha hb htype
  constructor
  · exact htext
  · intro hka hkb
    exact htext.trans (encoding_eq_iff hka hkb)

/-- A title with a value of some tag number of the universal class. -/
def sampleTitle (number : Nat) (contents : Bytes) : Attribute :=
  ⟨⟨[0x55, 4, 12]⟩, ⟨⟨.universal, false, number⟩, contents⟩⟩

theorem inDigits_sampleTitle (number : Nat) (contents : Bytes) :
    (sampleTitle number contents).InDigits :=
  ⟨rfl, _, rfl⟩

theorem encoding_law_sample :
    (sampleTitle 12 [0x41]).alone.text = "2.5.4.12=#0c0141" ∧
      (sampleTitle 12 [0x41]).alone.text ≠ (sampleTitle 19 [0x41]).alone.text := by
  have hmem : sampleTitle 12 [0x41] ∈ Name.attributes ⟨[[sampleTitle 12 [0x41]]], []⟩ :=
    List.mem_cons_self
  obtain ⟨_, htext, _, _, _, hpair⟩ := encoding_law hmem (inDigits_sampleTitle 12 [0x41])
  obtain ⟨_, hknown⟩ := hpair _ (inDigits_sampleTitle 19 [0x41]) rfl
  constructor
  · exact htext.trans (by decide)
  · rw [ne_eq, hknown (by decide) (by decide)]
    decide

/-- A name with two titles: a universal string, whose identifier is not known, and a
text in UTF-8. The contents of the first are the whole element of the second. -/
def sampleTitles : Bytes :=
  [0x30, 0x1A, 0x31, 0x0C, 0x30, 0x0A, 0x06, 0x03, 0x55, 0x04, 0x0C, 0x1C, 0x03, 0x0C, 0x01, 0x41,
    0x31, 0x0A, 0x30, 0x08, 0x06, 0x03, 0x55, 0x04, 0x0C, 0x0C, 0x01, 0x41]

/-- Two attributes of one type with different values may be written alike: of the
universal string the contents alone are written. -/
theorem text_alone_unknown :
    ∃ a b : Attribute, Name.read sampleTitles = .ok (⟨[[a], [b]], sampleTitles⟩, []) ∧
      a.InDigits ∧ b.InDigits ∧ a.type = b.type ∧ a.value ≠ b.value ∧
      a.alone.text = "2.5.4.12=#0c0141" ∧ b.alone.text = "2.5.4.12=#0c0141" ∧
      ¬ a.value.IsDer a.encoding :=
  ⟨sampleTitle 28 [0x0C, 0x01, 0x41], sampleTitle 12 [0x41], by decide,
    inDigits_sampleTitle _ _, inDigits_sampleTitle _ _, rfl, by decide, by decide, by decide,
    by rw [isDer_encoding_iff]; decide⟩

end Attribute

end X509

end SignedPdf
