import SignedPdf.Proofs.Extraction.Embedded
import SignedPdf.Proofs.Minimal

/-!
# What walking over sequences finds

The walk leaves out the last four offsets, and takes a layer away only if a strict
reader takes it. This file says what it finds without mentioning either.

* `Walk.HoldsAt` says where a certificate lies, bare or in one layer.
* `walk_least`: the walk finds the certificate of the least offset at which there is
  one, among all offsets.
* `Certificate.IsRead.exists_ofDer_sequence_error`: the layer around a certificate
  reads as no certificate, because a certificate does not read as a statement.
* `walk_unwraps`: so a certificate in one layer is found at once.
-/

namespace SignedPdf

/-! ## A certificate is no statement -/

namespace X509

variable {bs rest : Bytes}

/-- An element with the tag number of a sequence is no version. -/
theorem skipVersion_of_sequence {h : Asn1.Header} (hread : Asn1.Header.read bs = .ok h)
    (hnumber : h.identifier.number = Asn1.sequenceTag) (hskip : skipVersion bs = .ok rest) :
    rest = bs := by
  cases bs with
  | nil => cases hread
  | cons b bs =>
    simp only [skipVersion, bind_eq_ok_iff] at hskip
    obtain ⟨⟨e, after⟩, helement, hskip⟩ := hskip
    obtain ⟨h', hread', _, rfl, _⟩ := Asn1.Element.read_eq_ok.1 (element_eq_ok.1 helement)
    rw [hread] at hread'
    cases hread'
    have hne : ¬ h.identifier.number = 0 := by
      rw [hnumber]
      decide
    simp only [hne, if_false] at hskip
    cases hskip
    rfl

/-- Nor is it a serial number. -/
theorem skipSerialNumber_of_sequence {h : Asn1.Header} (hread : Asn1.Header.read bs = .ok h)
    (hnumber : h.identifier.number = Asn1.sequenceTag) : skipSerialNumber bs ≠ .ok rest := by
  have hne : ¬ Asn1.sequenceTag = integerTag := by decide
  intro hskip
  simp only [skipSerialNumber, Asn1.skipLoose?, Asn1.Header.read_eq_ok.1 hread, hnumber] at hskip
  by_cases hbody : Asn1.hasAtLeast h.length (bs.drop h.size) = true
  · simp [hbody, hne] at hskip
  · simp [hbody] at hskip

/-- A certificate cannot be read as a statement: it starts with a sequence, where a
statement has a version or a serial number. -/
theorem SignedCertificate.statement_read_ne_ok {s : SignedCertificate} {r : Statement × Bytes}
    (h : read bs = .ok (s, rest)) : Statement.read bs ≠ .ok r := by
  intro hstatement
  simp only [read, bind_eq_ok_iff] at h
  obtain ⟨ct, hct, ⟨inner, _⟩, hinner, _⟩ := h
  -- the first element of the certificate is the statement inside it
  simp only [Statement.read, bind_eq_ok_iff] at hinner
  obtain ⟨ct', hct', _⟩ := hinner
  obtain ⟨hd, hread, _, hnumber, _⟩ := Asn1.Container.read_eq_ok.1 (element_eq_ok.1 hct')
  simp only [Statement.read, bind_eq_ok_iff, hct, Except.ok.injEq, exists_eq_left'] at hstatement
  obtain ⟨afterVersion, hversion, afterSerial, hserial, _⟩ := hstatement
  rw [skipVersion_of_sequence hread hnumber hversion] at hserial
  exact skipSerialNumber_of_sequence hread hnumber hserial

end X509

/-- The layer around a certificate reads as no certificate. -/
theorem Certificate.IsRead.exists_ofDer_sequence_error {c : Certificate} (hc : c.IsRead)
    {extra : Bytes} (hlength : (c.der ++ extra).length < Asn1.Minimal.lengthLimit) (post : Bytes) :
    ∃ fault, ofDer (Asn1.Minimal.sequence (c.der ++ extra) ++ post) = .error fault := by
  cases hread : ofDer (Asn1.Minimal.sequence (c.der ++ extra) ++ post) with
  | error fault => exact ⟨fault, rfl⟩
  | ok found =>
    obtain ⟨s, rest, houter, _⟩ := ofDer_eq_ok_iff.1 hread
    obtain ⟨inner, _, hinner⟩ := hc.exists_signed
    have hlayer := X509.element_eq_ok.2 (Asn1.Container.read_sequence hlength post)
    simp only [X509.SignedCertificate.read, bind_eq_ok_iff, hlayer, Except.ok.injEq,
      exists_eq_left'] at houter
    obtain ⟨statement, hstatement, _⟩ := houter
    exact absurd hstatement (X509.SignedCertificate.statement_read_ne_ok (hinner extra))

namespace Extraction

open SignedPdf.Asn1

variable {c : Certificate} {blob bs : Bytes} {o : Nat}

namespace Walk

/-! ## Where a certificate lies -/

/-- A certificate lies at an offset: the octet of a sequence stands there, and the
certificate starts there or else starts the contents of the sequence in minimal form
that starts there. -/
def HoldsAt (blob : Bytes) (o : Nat) (c : Certificate) : Prop :=
  blob[o]? = some sequenceOctet ∧
    (Certificate.ofDer (blob.drop o) = .ok c ∨
      (∃ fault, Certificate.ofDer (blob.drop o) = .error fault) ∧
        ∃ contents rest, blob.drop o = Minimal.sequence contents ++ rest ∧
          Certificate.ofDer contents = .ok c)

/-- Too few octets to be tried hold no certificate. -/
theorem leastSize_le_of_ofDer (h : Certificate.ofDer bs = .ok c) : leastSize ≤ bs.length :=
  Nat.le_trans (Certificate.isRead_of_ofDer h).leastSize_le_length
    (Certificate.ofDer_prefix h).length_le

/-- Of so few octets that all can be counted, a layer is taken whenever it is in
minimal form. -/
theorem unwrap?_of_lt {short : Bool} (h : bs.length < Minimal.lengthLimit) :
    unwrap? short bs = Minimal.contents? bs := by
  have hfew : hasAtLeast Minimal.lengthLimit bs = false := by
    rw [Bool.eq_false_iff, ne_eq, hasAtLeast_iff]
    omega
  simp [unwrap?, hfew]

/-- A layer that is taken is the sequence in minimal form around what it holds. -/
theorem unwrap?_eq_some_iff {short : Bool} {contents : Bytes}
    (h : bs.length < Minimal.lengthLimit) (hstart : bs.head? = some sequenceOctet) :
    unwrap? short bs = some contents ↔ ∃ rest, bs = Minimal.sequence contents ++ rest := by
  cases bs with
  | nil => cases hstart
  | cons b bs =>
    cases hstart
    rw [unwrap?_of_lt h, sequenceOctet, Minimal.contents?_eq_some_iff]
    refine and_iff_right_of_imp ?_
    rintro ⟨rest, heq⟩
    have hlength := congrArg List.length heq
    have hlayer := Minimal.length_lt_length_sequence contents
    rw [List.length_append] at hlength
    rw [sequenceOctet] at h
    omega

/-- What is taken for a certificate: a candidate that reads as one, or else one whose
layer holds one. -/
theorem certificateAt?_eq_some_iff {short : Bool} {p : Place} :
    certificateAt? short bs = some (p, c) ↔
      isCandidate bs = true ∧
        (p = .bare ∧ Certificate.ofDer bs = .ok c ∨
          p = .wrapped ∧ (∃ fault, Certificate.ofDer bs = .error fault) ∧
            ∃ contents, unwrap? short bs = some contents ∧ Certificate.ofDer contents = .ok c) := by
  by_cases hcandidate : isCandidate bs = true
  · cases hbare : Certificate.ofDer bs with
    | ok found => simp [certificateAt?, hcandidate, hbare, eq_comm]
    | error fault =>
      cases hlayer : unwrap? short bs with
      | none => simp [certificateAt?, hcandidate, hbare, hlayer]
      | some contents =>
        cases hinner : Certificate.ofDer contents with
        | ok found => simp [certificateAt?, hcandidate, hbare, hlayer, hinner, eq_comm]
        | error fault' => simp [certificateAt?, hcandidate, hbare, hlayer, hinner]
  · simp [certificateAt?, hcandidate]

/-- What the walk takes for a certificate at an offset is what lies there: the size
of a certificate makes up for the octets that are not tried. -/
theorem exists_certificateAt?_iff (h : blob.length < Minimal.lengthLimit) :
    (∃ p, certificateAt? false (blob.drop o) = some (p, c)) ↔ HoldsAt blob o c := by
  have hlt : (blob.drop o).length < Minimal.lengthLimit := by
    rw [List.length_drop]
    omega
  simp only [HoldsAt, ← List.head?_drop, certificateAt?_eq_some_iff, isCandidate_iff]
  constructor
  · rintro ⟨p, ⟨hstart, _⟩, ⟨_, hbare⟩ | ⟨_, hfault, contents, hlayer, hinner⟩⟩
    · exact ⟨hstart, .inl hbare⟩
    · obtain ⟨rest, heq⟩ := (unwrap?_eq_some_iff hlt hstart).1 hlayer
      exact ⟨hstart, .inr ⟨hfault, contents, rest, heq, hinner⟩⟩
  · rintro ⟨hstart, hbare | ⟨hfault, contents, rest, heq, hinner⟩⟩
    · exact ⟨.bare, ⟨hstart, leastSize_le_of_ofDer hbare⟩, .inl ⟨rfl, hbare⟩⟩
    · have hsize : leastSize ≤ (blob.drop o).length := by
        have hlayer := Minimal.length_lt_length_sequence contents
        have hcontents := leastSize_le_of_ofDer hinner
        rw [heq, List.length_append]
        omega
      have hlayer : unwrap? false (blob.drop o) = some contents :=
        (unwrap?_eq_some_iff hlt hstart).2 ⟨rest, heq⟩
      exact ⟨.wrapped, ⟨hstart, hsize⟩, .inr ⟨rfl, hfault, contents, hlayer, hinner⟩⟩

/-- The octets of a certificate are a part of those that hold it, no sooner than at
its offset. -/
theorem HoldsAt.exists_der_prefix (h : HoldsAt blob o c) : ∃ i, o ≤ i ∧ c.der <+: blob.drop i := by
  obtain ⟨_, hbare | ⟨_, contents, rest, heq, hinner⟩⟩ := h
  · exact ⟨o, Nat.le_refl o, Certificate.ofDer_prefix hbare⟩
  · refine ⟨o + (0x30 :: Minimal.lengthOctets contents.length).length, by omega, ?_⟩
    rw [← List.drop_drop, heq, Minimal.sequence, List.append_assoc, List.drop_left]
    exact (Certificate.ofDer_prefix hinner).trans (List.prefix_append _ _)

/-- The search stops at the least offset at which a certificate lies. -/
theorem exists_find?_iff (h : blob.length < Minimal.lengthLimit) :
    (∃ p, find? blob = some (o, p, c)) ↔
      HoldsAt blob o c ∧ ∀ j < o, ∀ c', ¬ HoldsAt blob j c' := by
  simp only [find?_eq_some_iff, certificateAt?_drop, ← exists_certificateAt?_iff h]
  constructor
  · rintro ⟨p, _, hat, hleast⟩
    refine ⟨⟨p, hat⟩, ?_⟩
    rintro j hj c' ⟨p', hat'⟩
    rw [hleast j hj] at hat'
    cases hat'
  · rintro ⟨⟨p, hat⟩, hleast⟩
    have hlt : o < blob.length := by
      obtain ⟨hoctet, _⟩ := (exists_certificateAt?_iff h).1 ⟨p, hat⟩
      exact (List.getElem?_eq_some_iff.1 hoctet).1
    refine ⟨p, by omega, hat, ?_⟩
    intro j hj
    cases hat' : certificateAt? false (blob.drop j) with
    | none => rfl
    | some r => exact absurd ⟨r.1, hat'⟩ (hleast j hj r.2)

/-- The search finds something as soon as a certificate lies anywhere. -/
theorem exists_find?_of_holdsAt (h : blob.length < Minimal.lengthLimit)
    (hholds : HoldsAt blob o c) : ∃ o p found, find? blob = some (o, p, found) := by
  cases hfind : find? blob with
  | some r => exact ⟨r.1, r.2.1, r.2.2, rfl⟩
  | none =>
    obtain ⟨p, hat⟩ := (exists_certificateAt?_iff h).2 hholds
    have hlt := (List.getElem?_eq_some_iff.1 hholds.1).1
    have hmissed := Search.first?_eq_none_iff.1 hfind o (by omega)
    rw [certificateAt?_drop, hat] at hmissed
    cases hmissed

end Walk

/-! ## The strategy -/

/-- The strategy finds what the search finds. -/
theorem exists_walk_find_iff :
    (∃ f, Strategy.walk.find blob = .ok f ∧ f.certificate = c) ↔
      ∃ o p, Walk.find? blob = some (o, p, c) := by
  simp only [Strategy.walk]
  constructor
  · rintro ⟨f, hf, rfl⟩
    split at hf
    · next o found hfind =>
      cases hf
      exact ⟨o, .bare, hfind⟩
    · next o found hfind =>
      cases hf
      exact ⟨o, .wrapped, hfind⟩
    · cases hf
  · rintro ⟨o, p, hfind⟩
    cases p with
    | bare => exact ⟨⟨c, [.certificateFound o]⟩, by simp [hfind], rfl⟩
    | wrapped => exact ⟨⟨c, [.wrappedFound o]⟩, by simp [hfind], rfl⟩

/-- **Walking is the search for the least offset, and leaving out the last octets
loses nothing.** Of fewer octets than minimal form can count, walking finds a
certificate exactly if one lies at any offset, bare or in one layer. It is the one of
the least such offset, and its octets are a part of the input that starts there or
later. -/
theorem walk_least (hshort : blob.length < Minimal.lengthLimit) :
    ((∃ f, Strategy.walk.find blob = .ok f) ↔ ∃ o c, Walk.HoldsAt blob o c) ∧
      ∀ f, Strategy.walk.find blob = .ok f →
        ∃ o, Walk.HoldsAt blob o f.certificate ∧ (∀ j < o, ∀ c, ¬ Walk.HoldsAt blob j c) ∧
          ∃ i, o ≤ i ∧ f.certificate.der <+: blob.drop i := by
  have hleast : ∀ f, Strategy.walk.find blob = .ok f →
      ∃ o, Walk.HoldsAt blob o f.certificate ∧ ∀ j < o, ∀ c, ¬ Walk.HoldsAt blob j c := by
    intro f hf
    obtain ⟨o, p, hfind⟩ := exists_walk_find_iff.1 ⟨f, hf, rfl⟩
    exact ⟨o, (Walk.exists_find?_iff hshort).1 ⟨p, hfind⟩⟩
  refine ⟨⟨?_, ?_⟩, ?_⟩
  · rintro ⟨f, hf⟩
    obtain ⟨o, hholds, _⟩ := hleast f hf
    exact ⟨o, f.certificate, hholds⟩
  · rintro ⟨o, c, hholds⟩
    obtain ⟨o', p, found, hfind⟩ := Walk.exists_find?_of_holdsAt hshort hholds
    obtain ⟨f, hf, _⟩ := exists_walk_find_iff.2 ⟨o', p, hfind⟩
    exact ⟨f, hf⟩
  · intro f hf
    obtain ⟨o, hholds, hbefore⟩ := hleast f hf
    exact ⟨o, hholds, hbefore, hholds.exists_der_prefix⟩

/-- A certificate in one layer after an octet that announces a sequence and brings
none. -/
theorem walk_least_sample :
    ∃ o, Walk.HoldsAt (0x30 :: Minimal.sequence Certificate.sampleDer) o .sample ∧
      ∀ j < o, ∀ c, ¬ Walk.HoldsAt (0x30 :: Minimal.sequence Certificate.sampleDer) j c := by
  have hfind : Strategy.walk.find (0x30 :: Minimal.sequence Certificate.sampleDer) =
      .ok ⟨.sample, [.wrappedFound 1]⟩ := rfl
  obtain ⟨o, hholds, hbefore, _⟩ := (walk_least (by decide)).2 _ hfind
  exact ⟨o, hholds, hbefore⟩

/-- **One layer is taken away.** A sequence in minimal form whose contents start with
the octets of a certificate yields this certificate, whatever else it holds and
whatever follows it. The sequence reads as no certificate itself, and the walk stops
at it: what other offsets would have to offer does not matter. -/
theorem walk_unwraps (hc : c.IsRead) (extra post : Bytes)
    (hshort : (Minimal.sequence (c.der ++ extra) ++ post).length < Minimal.lengthLimit) :
    (∃ fault, Certificate.ofDer (Minimal.sequence (c.der ++ extra) ++ post) = .error fault) ∧
      Strategy.walk.find (Minimal.sequence (c.der ++ extra) ++ post) =
        .ok ⟨c, [.wrappedFound 0]⟩ ∧
      ∀ matcher, matcher (Minimal.sequence (c.der ++ extra) ++ post) =
          Walk.certificateAt? false (Minimal.sequence (c.der ++ extra) ++ post) →
        Search.first? matcher (Minimal.sequence (c.der ++ extra) ++ post) =
          some (0, .wrapped, c) := by
  have hlength : (c.der ++ extra).length < Minimal.lengthLimit := by
    have hlayer := Minimal.length_lt_length_sequence (c.der ++ extra)
    rw [List.length_append] at hshort
    omega
  obtain ⟨fault, houter⟩ := hc.exists_ofDer_sequence_error hlength post
  have hholds : Walk.HoldsAt (Minimal.sequence (c.der ++ extra) ++ post) 0 c :=
    ⟨rfl, .inr ⟨⟨fault, houter⟩, _, post, rfl, hc.ofDer_append extra⟩⟩
  have hhere : Walk.certificateAt? false (Minimal.sequence (c.der ++ extra) ++ post) =
      some (.wrapped, c) := by
    obtain ⟨p, hat⟩ := (Walk.exists_certificateAt?_iff hshort).2 hholds
    cases p with
    | wrapped => exact hat
    | bare =>
      obtain ⟨_, ⟨_, hbare⟩ | ⟨hplace, _⟩⟩ := Walk.certificateAt?_eq_some_iff.1 hat
      · rw [List.drop_zero, houter] at hbare
        cases hbare
      · cases hplace
  have hstops : ∀ matcher, matcher (Minimal.sequence (c.der ++ extra) ++ post) =
      Walk.certificateAt? false (Minimal.sequence (c.der ++ extra) ++ post) →
      Search.first? matcher (Minimal.sequence (c.der ++ extra) ++ post) =
        some (0, .wrapped, c) := by
    intro matcher hat
    exact Search.first?_eq_some_iff.2 ⟨Nat.zero_le _, hat.trans hhere, by simp⟩
  have hfind : Walk.find? (Minimal.sequence (c.der ++ extra) ++ post) = some (0, .wrapped, c) :=
    hstops _ (Walk.certificateAt?_drop _ 0)
  exact ⟨⟨fault, houter⟩, by simp only [Strategy.walk, hfind], hstops⟩

/-- A certificate with another element beside it in one layer, and an octet after
the layer. -/
theorem walk_unwraps_sample :
    Strategy.walk.find (Minimal.sequence (Certificate.sample.der ++ [0x05, 0x00]) ++ [0x30]) =
      .ok ⟨.sample, [.wrappedFound 0]⟩ :=
  (walk_unwraps Certificate.isRead_sample [0x05, 0x00] [0x30] (by decide)).2.1

end Extraction

end SignedPdf
