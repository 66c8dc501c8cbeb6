import SignedPdf.Chain
import SignedPdf.Proofs.Anchors.Loading
import SignedPdf.Proofs.Certificate

/-!
# What decides on a chain

Validation looks up the subject of the certificate to find it among the
anchors, and its issuer to find an anchor that has signed it; the anchors it
meets have been filed by a history of loads. This file shows that none of this
matters for the decision: it depends on the accepted octet strings alone, not on
their order, their number or the way in which they came in.

* `judge`, `findIssuer` and `findTrust` get one lemma each that says when they
  succeed.
* `exists_validate_ok_iff`: within its validity a certificate is trusted exactly
  if its octets, or the octets of an anchor that vouches for it, have been
  accepted.
-/

namespace SignedPdf

namespace Chain

open Anchors (accepted ofLoads)

/-! ## Decisions -/

/-- What a validation comes to, without the details. -/
inductive Decision where
  | trusted
  | notYetValid
  | expired
  | unknownAuthority
  | malformed
deriving DecidableEq, Repr

/-- The decision of a validation. -/
def decision : Except Fault Trust → Decision
  | .ok _ => .trusted
  | .error (.notYetValid ..) => .notYetValid
  | .error (.expired ..) => .expired
  | .error (.unknownAuthority _) => .unknownAuthority
  | .error (.malformed _) => .malformed

/-- The octets start with an anchor that stands behind a certificate at an
instant: it bears the name of the issuer, its own validity covers the instant,
and its key verifies the signature of the certificate. -/
def Vouches (c : Certificate) (now : Instant) (der : Bytes) : Prop :=
  ∃ leaf anchor : X509.SignedCertificate, ∃ rest summary,
    X509.SignedCertificate.read c.der = .ok (leaf, []) ∧
      X509.SignedCertificate.read der = .ok (anchor, rest) ∧
      Certificate.ofDer der = .ok summary ∧
      anchor.statement.subject.octets = leaf.statement.issuer.octets ∧
      summary.Covers now ∧
      leaf.verify anchor.statement.publicKey = .ok ()

/-- A certificate is trusted by octet strings if it is one of them, or if one of
them vouches for it. -/
def TrustedBy (ders : List Bytes) (c : Certificate) (now : Instant) : Prop :=
  c.der ∈ ders ∨ ∃ der ∈ ders, Vouches c now der

/-- Trust depends on the set of octet strings only. -/
theorem trustedBy_congr {ders ders' : List Bytes} (h : ∀ der, der ∈ ders ↔ der ∈ ders')
    (c : Certificate) (now : Instant) : TrustedBy ders c now ↔ TrustedBy ders' c now := by
  simp only [TrustedBy, h]

/-! ## Validity -/

variable {c : Certificate} {now : Instant}

theorem validate_of_before (h : now.before c.notBefore = true) (a : Anchors) :
    validate c a now = .error (.notYetValid now.textInSeconds c.notBefore.textInSeconds) := by
  simp only [validate, checkValidity, h, if_true]
  rfl

theorem validate_of_after (h : now.before c.notBefore = false)
    (h' : c.notAfter.before now = true) (a : Anchors) :
    validate c a now = .error (.expired now.textInSeconds c.notAfter.textInSeconds) := by
  simp only [validate, checkValidity, h, h', if_true, if_false, Bool.false_eq_true]
  rfl

theorem validate_of_covers (h : c.Covers now) (a : Anchors) :
    validate c a now = findTrust c a now := by
  simp only [validate, checkValidity_eq_ok_iff.2 h]
  rfl

/-- Nothing is trusted outside its validity. -/
theorem covers_of_validate_eq_ok {a : Anchors} {trust : Trust} (h : validate c a now = .ok trust) :
    c.Covers now := by
  simp only [validate, bind_eq_ok_iff] at h
  obtain ⟨_, hvalid, _⟩ := h
  exact checkValidity_eq_ok_iff.1 hvalid

/-! ## Candidates -/

/-- An anchor will do exactly if it can be read, is valid and has signed the
certificate. -/
theorem exists_judge_ok_iff {leaf : X509.SignedCertificate} {der : Bytes} :
    (∃ subject, judge leaf now der = .ok subject) ↔
      ∃ anchor rest summary, X509.SignedCertificate.read der = .ok (anchor, rest) ∧
        Certificate.ofDer der = .ok summary ∧ summary.Covers now ∧
        leaf.verify anchor.statement.publicKey = .ok () := by
  constructor
  · rintro ⟨subject, h⟩
    unfold judge at h
    split at h
    · cases h
    next anchor rest hread =>
    split at h
    · cases h
    next summary hsummary =>
    split at h
    · cases h
    next hvalid =>
    split at h
    · cases h
    next hverify =>
    exact ⟨anchor, rest, summary, hread, Certificate.ofDer_eq_ok_iff.2 ⟨_, _, hread, hsummary⟩,
      checkValidity_eq_ok_iff.1 hvalid, hverify⟩
  · rintro ⟨anchor, rest, summary, hread, hsummary, hvalid, hverify⟩
    obtain ⟨s, rest', hread', hsigned⟩ := Certificate.ofDer_eq_ok_iff.1 hsummary
    rw [hread] at hread'
    cases hread'
    refine ⟨summary.subject, ?_⟩
    simp only [judge, hread, hsigned, checkValidity_eq_ok_iff.2 hvalid, hverify]

/-- An issuer is found exactly if some candidate will do, wherever it stands. -/
theorem exists_findIssuer_ok_iff {leaf : X509.SignedCertificate} {ders : List Bytes} :
    (∃ subject, findIssuer leaf now ders = .ok subject) ↔
      ∃ der ∈ ders, ∃ subject, judge leaf now der = .ok subject := by
  constructor
  · rintro ⟨subject, h⟩
    obtain ⟨before, der, after, rfl, hjudge, _⟩ := findIssuer_eq_ok_iff.1 h
    exact ⟨der, List.mem_append_right _ (List.mem_cons_self ..), subject, hjudge⟩
  · rintro ⟨der, hder, subject, hjudge⟩
    simp only [findIssuer]
    split
    · next found hfound => exact ⟨_, rfl⟩
    · next hnone =>
      obtain ⟨rejection, hrejection⟩ := Trial.found_tryEach_eq_none_iff.1 hnone der hder
      rw [hjudge] at hrejection
      cases hrejection

/-! ## Trust -/

/-- A certificate that can be read again is trusted, or its issuer is
unknown. -/
theorem findTrust_cases {leaf : X509.SignedCertificate} {rest : Bytes}
    (h : X509.SignedCertificate.read c.der = .ok (leaf, rest)) (a : Anchors) :
    (∃ trust, findTrust c a now = .ok trust) ∨
      ∃ reason, findTrust c a now = .error (.unknownAuthority reason) := by
  simp only [findTrust, h]
  split
  · exact .inl ⟨_, rfl⟩
  · split
    · exact .inl ⟨_, rfl⟩
    · exact .inr ⟨_, rfl⟩

/-- A certificate that can be read again is trusted exactly if it is found under
its subject, or a certificate that will do is found under its issuer. -/
theorem exists_findTrust_ok_iff {leaf : X509.SignedCertificate} {rest : Bytes}
    (h : X509.SignedCertificate.read c.der = .ok (leaf, rest)) (a : Anchors) :
    (∃ trust, findTrust c a now = .ok trust) ↔
      c.der ∈ a.withSubject leaf.statement.subject.octets ∨
        ∃ der ∈ a.withSubject leaf.statement.issuer.octets,
          ∃ subject, judge leaf now der = .ok subject := by
  rw [← Anchors.holds_iff, ← exists_findIssuer_ok_iff]
  simp only [findTrust, h]
  split
  · next hpinned => simp [hpinned]
  · next hpinned =>
    simp only [hpinned]
    split
    · next subject hfound => simp [hfound]
    · next last hfound => simp [hfound]

/-- Within its validity a certificate is trusted exactly if it, or an anchor that
vouches for it, has been accepted. -/
theorem exists_validate_ok_iff (hc : c.IsRead) (hnow : c.Covers now)
    (loads : List Anchors.Load) :
    (∃ trust, validate c (ofLoads loads) now = .ok trust) ↔ TrustedBy (accepted loads) c now := by
  obtain ⟨leaf, _, hleaf⟩ := hc.exists_read
  rw [validate_of_covers hnow, exists_findTrust_ok_iff hleaf]
  simp only [Anchors.mem_withSubject_ofLoads, Anchors.subjectOf?_of_read hleaf, and_true,
    exists_judge_ok_iff, TrustedBy]
  refine or_congr_right (exists_congr fun der => ?_)
  rw [and_assoc]
  refine and_congr_right fun _ => ?_
  constructor
  · rintro ⟨hsubject, anchor, rest, summary, hanchor, hsummary, hvalid, hverify⟩
    rw [Anchors.subjectOf?_of_read hanchor, Option.some.injEq] at hsubject
    exact ⟨leaf, anchor, rest, summary, hleaf, hanchor, hsummary, hsubject, hvalid, hverify⟩
  · rintro ⟨leaf', anchor, rest, summary, hleaf', hanchor, hsummary, hsubject, hvalid, hverify⟩
    rw [hleaf] at hleaf'
    cases hleaf'
    refine ⟨?_, anchor, rest, summary, hanchor, hsummary, hvalid, hverify⟩
    rw [Anchors.subjectOf?_of_read hanchor, hsubject]

/-- Within its validity a certificate that is not trusted has an unknown
issuer. -/
theorem validate_eq_unknownAuthority (hc : c.IsRead) (hnow : c.Covers now)
    {loads : List Anchors.Load} (h : ¬ TrustedBy (accepted loads) c now) :
    ∃ reason, validate c (ofLoads loads) now = .error (.unknownAuthority reason) := by
  obtain ⟨leaf, _, hleaf⟩ := hc.exists_read
  rw [← exists_validate_ok_iff hc hnow] at h
  rw [validate_of_covers hnow] at h ⊢
  exact (findTrust_cases hleaf _).resolve_left h

/-! ## Sets that agree -/

/-- Two sets decide alike when their look-ups find the same anchors, in whatever order. -/
theorem decision_validate_congr {a b : Anchors}
    (hsame : ∀ subject der, der ∈ a.withSubject subject ↔ der ∈ b.withSubject subject)
    (c : Certificate) (now : Instant) :
    decision (validate c a now) = decision (validate c b now) := by
  simp only [validate]
  cases checkValidity c.notBefore c.notAfter now with
  | error fault => rfl
  | ok =>
    show decision (findTrust c a now) = decision (findTrust c b now)
    cases hread : X509.SignedCertificate.read c.der with
    | error fault => simp only [findTrust, hread]
    | ok r =>
      obtain ⟨leaf, rest⟩ := r
      have htrust : (∃ trust, findTrust c a now = .ok trust) ↔
          ∃ trust, findTrust c b now = .ok trust := by
        simp only [exists_findTrust_ok_iff hread, hsame]
      rcases findTrust_cases hread b with ⟨trust, hb⟩ | ⟨reason, hb⟩
      · obtain ⟨trust', ha⟩ := htrust.2 ⟨trust, hb⟩
        rw [ha, hb]
        rfl
      · rcases findTrust_cases hread a with ⟨trust, ha⟩ | ⟨reason', ha⟩
        · obtain ⟨trust', hb'⟩ := htrust.1 ⟨trust, ha⟩
          rw [hb] at hb'
          cases hb'
        · rw [ha, hb]
          rfl

/-! ## The decision -/

/-- **The decision depends on the accepted octet strings only.** Before and after
its validity a certificate is refused for that. Within it, the certificate is
trusted exactly if its octets have been accepted, or those of an anchor that
vouches for it; otherwise its issuer is unknown. Histories of loads that accept
the same octet strings, in whatever order and by whatever way, come to the same
decision. -/
theorem validate_ofLoads {c : Certificate} (hc : c.IsRead) (loads : List Anchors.Load)
    (now : Instant) :
    (now.before c.notBefore = true →
      validate c (ofLoads loads) now =
        .error (.notYetValid now.textInSeconds c.notBefore.textInSeconds)) ∧
    (now.before c.notBefore = false → c.notAfter.before now = true →
      validate c (ofLoads loads) now =
        .error (.expired now.textInSeconds c.notAfter.textInSeconds)) ∧
    (c.Covers now →
      ((∃ trust, validate c (ofLoads loads) now = .ok trust) ↔
        c.der ∈ accepted loads ∨ ∃ der ∈ accepted loads, Vouches c now der) ∧
      ((¬ ∃ trust, validate c (ofLoads loads) now = .ok trust) →
        ∃ reason, validate c (ofLoads loads) now = .error (.unknownAuthority reason))) ∧
    ∀ loads', (∀ der, der ∈ accepted loads ↔ der ∈ accepted loads') →
      decision (validate c (ofLoads loads) now) = decision (validate c (ofLoads loads') now) := by
  refine ⟨fun h => validate_of_before h _, fun h h' => validate_of_after h h' _, fun hnow => ?_,
    fun loads' hsame => ?_⟩
  · have htrusted := exists_validate_ok_iff hc hnow loads
    exact ⟨htrusted, fun h => validate_eq_unknownAuthority hc hnow (mt htrusted.2 h)⟩
  · by_cases hbefore : now.before c.notBefore = true
    · rw [validate_of_before hbefore, validate_of_before hbefore]
    rw [Bool.not_eq_true] at hbefore
    by_cases hafter : c.notAfter.before now = true
    · rw [validate_of_after hbefore hafter, validate_of_after hbefore hafter]
    rw [Bool.not_eq_true] at hafter
    have hnow : c.Covers now := ⟨hbefore, hafter⟩
    by_cases htrusted : TrustedBy (accepted loads) c now
    · obtain ⟨_, h⟩ := (exists_validate_ok_iff hc hnow loads).2 htrusted
      obtain ⟨_, h'⟩ :=
        (exists_validate_ok_iff hc hnow loads').2 ((trustedBy_congr hsame c now).1 htrusted)
      rw [h, h']
      rfl
    · obtain ⟨_, h⟩ := validate_eq_unknownAuthority hc hnow htrusted
      obtain ⟨_, h'⟩ :=
        validate_eq_unknownAuthority hc hnow (mt (trustedBy_congr hsame c now).2 htrusted)
      rw [h, h']
      rfl

/-- A certificate whose octets have been loaded, after octets that are none, is
trusted in the middle of its validity and refused after it. -/
theorem validate_ofLoads_sample :
    Certificate.sample.IsRead ∧
      (∃ trust, validate .sample (ofLoads [.certificate [0x30], .certificate Certificate.sampleDer])
        ⟨1750000000, 0⟩ = .ok trust) ∧
      validate .sample (ofLoads [.certificate [0x30], .certificate Certificate.sampleDer])
        ⟨1893456000, 1⟩ = .error (.expired "2030-01-01T00:00:00Z" "2030-01-01T00:00:00Z") := by
  have hdecision := validate_ofLoads Certificate.isRead_sample
    [.certificate [0x30], .certificate Certificate.sampleDer]
  have hmem : Certificate.sample.der ∈
      accepted [.certificate [0x30], .certificate Certificate.sampleDer] := by decide +kernel
  exact ⟨Certificate.isRead_sample, ((hdecision _).2.2.1 (by decide)).1.2 (.inl hmem),
    (hdecision _).2.1 (by decide) (by decide)⟩

/-! ## Anchors with octets after the certificate -/

/-- **When an added anchor pins its certificate.** Octets that have been added to
a set start with a certificate. Within its validity that certificate is trusted
exactly if no octet follows it, or it has signed itself, or it was trusted
before; otherwise its issuer is unknown. -/
theorem validate_add_iff {loads : List Anchors.Load} {der : Bytes} {a : Anchors}
    (h : (ofLoads loads).add der = .ok a) :
    ∃ c, Certificate.ofDer der = .ok c ∧ ∀ now, c.Covers now →
      ((∃ trust, validate c a now = .ok trust) ↔
        der = c.der ∨ Vouches c now der ∨ TrustedBy (accepted loads) c now) ∧
      ((¬ ∃ trust, validate c a now = .ok trust) →
        ∃ reason, validate c a now = .error (.unknownAuthority reason)) := by
  obtain ⟨subject, hsubject, rfl⟩ := Anchors.add_eq_ok_iff.1 h
  obtain ⟨s, rest, hs, _⟩ := Anchors.subjectOf?_eq_some_iff.1 hsubject
  obtain ⟨c, hc⟩ := Certificate.exists_ofDer_iff.2 ⟨s, rest, hs⟩
  have hread := Certificate.isRead_of_ofDer hc
  -- Adding is one more load, which accepts these octets.
  have hset : (ofLoads loads).insert subject der = ofLoads (loads ++ [.certificate der]) := by
    rw [Anchors.ofLoads_concat]
    exact (Anchors.offer_of_subjectOf?_eq_some hsubject).symm
  have haccepted : accepted (loads ++ [.certificate der]) = accepted loads ++ [der] := by
    rw [Anchors.accepted_append]
    simp [accepted, Anchors.Load.offers, hsubject]
  refine ⟨c, hc, fun now hnow => ?_⟩
  have htrusted := exists_validate_ok_iff hread hnow (loads ++ [.certificate der])
  rw [hset]
  refine ⟨htrusted.trans ?_, fun hno =>
    validate_eq_unknownAuthority hread hnow (mt htrusted.2 hno)⟩
  simp only [haccepted, TrustedBy, List.mem_append, List.mem_singleton, or_and_right, exists_or,
    exists_eq_left]
  constructor
  · rintro ((hc | hc) | hc | hc)
    · exact .inr (.inr (.inl hc))
    · exact .inl hc.symm
    · exact .inr (.inr (.inr hc))
    · exact .inr (.inl hc)
  · rintro (hc | hc | hc | hc)
    · exact .inl (.inr hc.symm)
    · exact .inr (.inr hc)
    · exact .inl (.inl hc)
    · exact .inr (.inl hc)

/-- An anchor without further octets pins its certificate. -/
theorem validate_add_iff_sample :
    ∃ a, (ofLoads []).add Certificate.sampleDer = .ok a ∧
      ∃ trust, validate .sample a ⟨1750000000, 0⟩ = .ok trust := by
  have hadd : (ofLoads []).add Certificate.sampleDer = .ok _ := rfl
  obtain ⟨c, hc, hdecision⟩ := validate_add_iff hadd
  rw [Certificate.ofDer_sampleDer] at hc
  cases hc
  exact ⟨_, hadd, (hdecision _ (by decide)).1.2 (.inl rfl)⟩

/-- With one octet after the certificate an anchor no longer pins it: the octets
are added, the certificate is the same and valid at the instant, but its issuer
is unknown. -/
theorem validate_add_trailing_octet :
    ∃ a, Anchors.empty.add (Certificate.sampleDer ++ [0]) = .ok a ∧
      Certificate.ofDer (Certificate.sampleDer ++ [0]) = .ok .sample ∧
      Certificate.sample.Covers ⟨1750000000, 0⟩ ∧
      validate .sample a ⟨1750000000, 0⟩ = .error (.unknownAuthority none) :=
  ⟨_, rfl, rfl, by decide, rfl⟩

end Chain

end SignedPdf
