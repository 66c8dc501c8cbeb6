import Mathlib.Algebra.Group.Nat.Defs
import Mathlib.Tactic.SplitIfs
import SignedPdf.Asn1.Minimal

/-!
# Elements in minimal form

Two readers look at the same headers: one takes every definite length, the other
only a length in as few octets as it needs. This file shows that they agree where
both read something, and says what the second one takes.

* `length?_eq_some_iff` and `contents?_eq_some_iff`: the strict reader takes what
  is in minimal form and nothing else.
* `Element.read_encode?`: an element in minimal form is the same for the other
  reader, and `Container.read_sequence`: a sequence is a container for it, with the
  same contents.
* `Minimal.isDer_encode?`: no fewer octets read as the element.
-/

namespace SignedPdf.Asn1

variable {n : Nat} {bs rest contents : Bytes}

namespace Minimal

/-! ## Lengths -/

/-- A length that the strict reader takes is written in minimal form. -/
theorem eq_append_of_length? (h : length? bs = some (n, rest)) :
    n < lengthLimit ∧ bs = lengthOctets n ++ rest := by
  cases bs with
  | nil => cases h
  | cons b bs =>
    simp only [length?] at h
    split at h
    · next hshort =>
      simp only [Option.some.injEq, Prod.mk.injEq] at h
      obtain ⟨rfl, rfl⟩ := h
      refine ⟨by unfold lengthLimit; omega, ?_⟩
      rw [lengthOctets, if_pos hshort, UInt8.ofNat_toNat]
      rfl
    · split at h
      · split at h
        · next hminimal =>
          simp only [Option.some.injEq, Prod.mk.injEq] at h
          obtain ⟨rfl, rfl⟩ := h
          refine ⟨hminimal.1, ?_⟩
          rw [hminimal.2, List.cons_append, List.take_append_drop]
        · cases h
      · cases h

/-- The strict reader takes the lengths in minimal form and no others. -/
theorem length?_eq_some_iff :
    length? bs = some (n, rest) ↔ n < lengthLimit ∧ bs = lengthOctets n ++ rest := by
  constructor
  · exact eq_append_of_length?
  · rintro ⟨hlimit, rfl⟩
    exact length?_lengthOctets hlimit rest

/-! ## Sequences -/

/-- What a sequence is. -/
def sequenceIdentifier : Identifier := ⟨.universal, true, sequenceTag⟩

/-- The sequence in minimal form that has some contents. -/
def sequence (contents : Bytes) : Bytes := 0x30 :: lengthOctets contents.length ++ contents

theorem length_lt_length_sequence (contents : Bytes) :
    contents.length < (sequence contents).length := by
  simp only [sequence, List.cons_append, List.length_cons, List.length_append]
  omega

/-- The contents of a sequence in minimal form read back, whatever follows it. -/
theorem contents?_sequence (h : contents.length < lengthLimit) (rest : Bytes) :
    contents? (sequence contents ++ rest) = some contents := by
  have hnumber : sequenceIdentifier.number < 31 := by decide
  have hknown : isKnown (identifierOctet sequenceIdentifier) = true := by decide
  have hform : sequence contents = form ⟨sequenceIdentifier, contents⟩ := rfl
  rw [hform]
  exact contents?_form (e := ⟨sequenceIdentifier, contents⟩) hnumber hknown h rest

/-- Of what starts with the octet of a sequence, the strict reader takes the
sequences in minimal form and nothing else. -/
theorem contents?_eq_some_iff :
    contents? (0x30 :: bs) = some contents ↔
      contents.length < lengthLimit ∧ ∃ rest, 0x30 :: bs = sequence contents ++ rest := by
  constructor
  · intro h
    have hknown : isKnown (0x30 : UInt8).toNat = true := by decide
    simp only [contents?, hknown, if_true] at h
    split at h
    · cases h
    · next n body hlength =>
      split at h
      · next hbody =>
        obtain ⟨hlimit, rfl⟩ := length?_eq_some_iff.1 hlength
        rw [hasAtLeast_iff] at hbody
        cases h
        have htake : (body.take n).length = n := List.length_take_of_le hbody
        refine ⟨by omega, body.drop n, ?_⟩
        rw [sequence, htake, List.append_assoc, List.take_append_drop, List.cons_append]
      · cases h
  · rintro ⟨hlimit, rest, heq⟩
    rw [heq]
    exact contents?_sequence hlimit rest

end Minimal

/-! ## Agreement of the readers -/

open SignedPdf.Asn1.Minimal (length? sequence sequenceIdentifier)

/-- A length that the strict reader takes is the same for the other one. -/
theorem Length.read_of_length? (h : length? bs = some (n, rest)) :
    Length.read bs = .ok (.definite n, bs.length - rest.length) := by
  cases bs with
  | nil => cases h
  | cons b bs =>
    simp only [length?] at h
    split at h
    · next hshort =>
      simp only [Option.some.injEq, Prod.mk.injEq] at h
      obtain ⟨rfl, rfl⟩ := h
      have hsize : (b :: bs).length - bs.length = 1 := by
        rw [List.length_cons]
        omega
      rw [hsize]
      simp only [Length.read, hshort, if_true]
    · next hlong =>
      split at h
      · next hcount =>
        split at h
        · next hminimal =>
          simp only [Option.some.injEq, Prod.mk.injEq] at h
          obtain ⟨rfl, rfl⟩ := h
          obtain ⟨hone, hfour, hthere⟩ := hcount
          have hindefinite : ¬ b.toNat = 128 := by omega
          have hreserved : ¬ b.toNat = 255 := by omega
          have hvalue : Bytes.toNat (bs.take (b.toNat - 128)) < 18446744073709551616 :=
            Nat.lt_trans hminimal.1 (by decide)
          have hle := hasAtLeast_iff.1 hthere
          have hsize : (b :: bs).length - (bs.drop (b.toNat - 128)).length = b.toNat - 127 := by
            rw [List.length_cons, List.length_drop]
            omega
          rw [hsize]
          simp only [Length.read, hlong, hindefinite, hreserved, hthere, hvalue, if_true, if_false]
        · cases h
      · cases h

/-- An identifier with a tag number below 31 reads back from its octet. -/
theorem Identifier.read_identifierOctet {i : Identifier} (h : i.number < 31) (bs : Bytes) :
    Identifier.read (UInt8.ofNat (Minimal.identifierOctet i) :: bs) = .ok (i, 1) := by
  obtain ⟨tagClass, constructed, number⟩ := i
  have hnumber : number < 31 := h
  -- The three fields are the digits of the octet in mixed radix.
  have hfields : Minimal.identifierOctet ⟨tagClass, constructed, number⟩ / 64 = tagClass.number ∧
      Minimal.identifierOctet ⟨tagClass, constructed, number⟩ / 32 % 2 = constructed.toNat ∧
      Minimal.identifierOctet ⟨tagClass, constructed, number⟩ % 32 = number := by
    cases constructed <;> simp [Minimal.identifierOctet] <;> omega
  obtain ⟨hclass, hconstructed, hlow⟩ := hfields
  have hsmall : ¬ number = 31 := by omega
  have hkind : (constructed.toNat == 1) = constructed := by cases constructed <;> rfl
  simp only [Identifier.read, Minimal.toNat_identifierOctet h, hclass, hconstructed, hlow, hsmall,
    if_false, TagClass.ofNumber_number, hkind]

/-- The header of an element in minimal form. -/
theorem Header.read_minimal {i : Identifier} (hi : i.number < 31) (hn : n < Minimal.lengthLimit)
    (bs : Bytes) :
    Header.read (UInt8.ofNat (Minimal.identifierOctet i) :: (Minimal.lengthOctets n ++ bs)) =
      .ok ⟨i, n, (Minimal.lengthOctets n).length + 1⟩ := by
  have hlength := Length.read_of_length? (Minimal.length?_lengthOctets hn bs)
  rw [List.length_append, Nat.add_sub_cancel] at hlength
  rw [Header.read_eq_ok]
  simp only [LooseHeader.read, Identifier.read_identifierOctet hi, List.drop_succ_cons,
    List.drop_zero, hlength, bind, Except.bind, pure, Except.pure, Nat.add_comm 1]

/-- An element in minimal form reads back, whatever follows it. -/
theorem Element.read_encode? {e : Element} {octets : Bytes} (h : Minimal.encode? e = some octets)
    (rest : Bytes) : Element.read (octets ++ rest) = .ok (e, rest) := by
  obtain ⟨⟨hnumber, _, hwhole⟩, rfl⟩ := Minimal.encode?_eq_some_iff.1 h
  have hsize : (UInt8.ofNat (Minimal.identifierOctet e.identifier) ::
      Minimal.lengthOctets e.contents.length).length =
        (Minimal.lengthOctets e.contents.length).length + 1 := rfl
  have hheader := Header.read_minimal hnumber (Minimal.lt_lengthLimit hwhole)
  rw [Minimal.form, List.append_assoc]
  refine Element.read_eq_ok.2 ⟨_, hheader _, ?_, ?_, ?_⟩
  · rw [List.drop_left' hsize, List.length_append]
    exact Nat.le_add_right _ _
  · rw [List.drop_left' hsize, List.take_left]
  · rw [List.drop_left' hsize, List.drop_left]

/-- The header of a sequence in minimal form. -/
theorem Header.read_sequence (h : contents.length < Minimal.lengthLimit) (rest : Bytes) :
    Header.read (sequence contents ++ rest) =
      .ok ⟨sequenceIdentifier, contents.length,
        (Minimal.lengthOctets contents.length).length + 1⟩ := by
  have hnumber : sequenceIdentifier.number < 31 := by decide
  have hheader := Header.read_minimal hnumber h (contents ++ rest)
  rwa [← List.append_assoc] at hheader

/-- A sequence in minimal form is a container with the same contents. -/
theorem Container.read_sequence (h : contents.length < Minimal.lengthLimit) (rest : Bytes) :
    Container.read sequenceTag (sequence contents ++ rest) =
      .ok ⟨0x30 :: Minimal.lengthOctets contents.length, contents, rest⟩ := by
  have hparts : sequence contents ++ rest =
      0x30 :: Minimal.lengthOctets contents.length ++ (contents ++ rest) := by
    rw [← List.append_assoc]
    rfl
  have hsize : (0x30 :: Minimal.lengthOctets contents.length).length =
      (Minimal.lengthOctets contents.length).length + 1 := rfl
  refine Container.read_eq_ok.2 ⟨_, Header.read_sequence h rest, ?_, rfl, ?_⟩
  · rw [hparts, List.drop_left' hsize, List.length_append]
    exact Nat.le_add_right _ _
  · rw [hparts, List.take_left' hsize, List.drop_left' hsize, List.take_left, List.drop_left]

/-! ## As few octets as possible -/

/-- The octets are the distinguished encoding of an element: they read as the element
and nothing is left, and no fewer octets do so. -/
def Element.IsDer (e : Element) (octets : Bytes) : Prop :=
  Element.read octets = .ok (e, []) ∧
    ∀ other, Element.read other = .ok (e, []) → octets.length ≤ other.length

/-- What a count of octets can say is bounded. -/
theorem toNat_lt (bs : Bytes) : Bytes.toNat bs < 256 ^ bs.length := by
  have hfold : ∀ start,
      bs.foldl (fun n b => n * 256 + b.toNat) start < (start + 1) * 256 ^ bs.length := by
    induction bs with
    | nil => intro start; simp
    | cons b bs ih =>
      intro start
      have hb := b.toNat_lt
      have hstep : start * 256 + b.toNat + 1 ≤ (start + 1) * 256 := by omega
      rw [List.foldl_cons, List.length_cons, Nat.pow_succ', ← Nat.mul_assoc]
      exact Nat.lt_of_lt_of_le (ih _) (Nat.mul_le_mul_right _ hstep)
  simpa [Bytes.toNat] using hfold 0

/-- A length takes at least as many octets as it needs. -/
theorem Length.length_lengthOctets_le {count : Nat}
    (h : Length.read bs = .ok (.definite n, count)) :
    (Minimal.lengthOctets n).length ≤ count := by
  cases bs with
  | nil => cases h
  | cons b bs =>
    simp only [Length.read] at h
    split_ifs at h with hshort hindefinite hreserved hthere hvalue
    · cases h
      simp [Minimal.lengthOctets, hshort]
    · cases h
    · simp only [Except.ok.injEq, Prod.mk.injEq, Length.definite.injEq] at h
      obtain ⟨rfl, rfl⟩ := h
      have hbound : ∀ m, b.toNat - 128 ≤ m → Bytes.toNat (bs.take (b.toNat - 128)) < 256 ^ m := by
        intro m hm
        refine Nat.lt_of_lt_of_le (toNat_lt _) (Nat.pow_le_pow_right (by decide) ?_)
        rw [List.length_take]
        omega
      have hone := hbound 1
      have htwo := hbound 2
      have hthree := hbound 3
      unfold Minimal.lengthOctets
      split_ifs <;> simp only [List.length_cons, List.length_nil] <;> omega

/-- An element takes the octets of its contents and those of a header. -/
theorem Element.length_of_read {e : Element} {octets : Bytes}
    (h : Element.read octets = .ok (e, [])) :
    Minimal.elementLength e.contents.length ≤ octets.length := by
  obtain ⟨header, hread, hlength, rfl, hrest⟩ := Element.read_eq_ok.1 h
  obtain ⟨m, count, hidentifier, hcount, hsize⟩ := LooseHeader.read_eq_ok (Header.read_eq_ok.1 hread)
  obtain ⟨_, hm, _⟩ := Identifier.read_take_append hidentifier []
  have hneeded := Length.length_lengthOctets_le hcount
  have hwhole := (Header.read_size hread).2
  have hall : (octets.drop header.size).length ≤ header.length := List.drop_eq_nil_iff.1 hrest.symm
  have htake : ((octets.drop header.size).take header.length).length = header.length :=
    List.length_take_of_le hlength
  have hsizes : header.size = m + count := hsize
  rw [List.length_drop] at hall hlength
  dsimp only
  rw [htake, Minimal.elementLength]
  omega

/-- An element in minimal form is its distinguished encoding. -/
theorem Minimal.isDer_encode? {e : Element} {octets : Bytes} (h : encode? e = some octets) :
    e.IsDer octets := by
  refine ⟨by simpa using Element.read_encode? h [], fun other hother => ?_⟩
  obtain ⟨_, rfl⟩ := encode?_eq_some_iff.1 h
  rw [length_form]
  exact Element.length_of_read hother

/-- The contents of an element are not an encoding of it. -/
theorem Element.not_isDer_contents (e : Element) : ¬ e.IsDer e.contents := by
  intro h
  have hlength := Element.length_of_read h.1
  unfold Minimal.elementLength at hlength
  omega

end SignedPdf.Asn1
