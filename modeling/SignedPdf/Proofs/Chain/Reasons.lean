import Mathlib.Data.List.Induction
import SignedPdf.Proofs.Anchors.Growth
import SignedPdf.Proofs.Chain.Readable

/-!
# Why an issuer is unknown

If no anchor stands behind a certificate, the reason tells about one of those that bear
the name of its issuer. All of them have been tried by then, in the order in which they
stand in the set, so it tells about the last one, and that is the one that came in last:
an anchor that comes again keeps its place.

* `getLast?_withSubject_ofLoads`: the last anchor of a look-up is the newest one.
* `judge_eq_error_cases`: why a candidate will not do.
* `validate_unknownAuthority`: the reason, from the history of the set.
-/

namespace SignedPdf

/-! ## The newest anchor with a subject -/

namespace Anchors

/-- Among octets that have been added in this order, `der` is the newest with a subject:
it was not there when it was added, and all with this subject that were added later
were there already. -/
def Newest (ders : List Bytes) (subject der : Bytes) : Prop :=
  ∃ before after, ders = before ++ der :: after ∧ subjectOf? der = some subject ∧
    der ∉ before ∧ ∀ d ∈ after, subjectOf? d = some subject → d ∈ before ∨ d = der

variable {a : Anchors} {ders before after : List Bytes} {subject der d : Bytes}

/-- What is added last to a list is the element in question, or comes after it. -/
theorem concat_eq_append_cons_iff :
    ders ++ [d] = before ++ der :: after ↔
      (after = [] ∧ ders = before ∧ d = der) ∨
        ∃ later, after = later ++ [d] ∧ ders = before ++ der :: later := by
  rcases List.eq_nil_or_concat' after with rfl | ⟨later, d', rfl⟩
  · simp
  · have hassoc : before ++ der :: (later ++ [d']) = (before ++ der :: later) ++ [d'] := by simp
    rw [hassoc, List.append_singleton_inj]
    constructor
    · rintro ⟨rfl, rfl⟩
      exact .inr ⟨later, rfl, rfl⟩
    · rintro (⟨hnil, _⟩ | ⟨later', hlater, rfl⟩)
      · simp at hnil
      · obtain ⟨rfl, rfl⟩ := List.append_singleton_inj.1 hlater
        exact ⟨rfl, rfl⟩

/-- Octets that are new when they are added become the newest of their subject. -/
theorem newest_concat_of_new (hs : subjectOf? d = some subject) (hnew : d ∉ ders) :
    Newest (ders ++ [d]) subject der ↔ der = d := by
  constructor
  · rintro ⟨before, after, hsplit, _, _, hafter⟩
    rcases concat_eq_append_cons_iff.1 hsplit with ⟨_, _, rfl⟩ | ⟨later, rfl, rfl⟩
    · rfl
    · -- What was added last would have been there before.
      have hmem := hafter d (List.mem_append_right _ List.mem_cons_self) hs
      simp only [List.mem_append, List.mem_cons, not_or] at hnew
      exact (hmem.elim hnew.1 hnew.2.1).elim
  · rintro rfl
    exact ⟨ders, [], rfl, hs, hnew, by simp⟩

/-- Octets with another subject, and octets that were there before, change nothing. -/
theorem newest_concat_of_old (hold : subjectOf? d = some subject → d ∈ ders) :
    Newest (ders ++ [d]) subject der ↔ Newest ders subject der := by
  constructor
  · rintro ⟨before, after, hsplit, hs, hnew, hafter⟩
    rcases concat_eq_append_cons_iff.1 hsplit with ⟨_, rfl, rfl⟩ | ⟨later, rfl, rfl⟩
    · exact absurd (hold hs) hnew
    · exact ⟨before, later, rfl, hs, hnew, fun d' hd' => hafter d' (List.mem_append_left _ hd')⟩
  · rintro ⟨before, after, rfl, hs, hnew, hafter⟩
    refine ⟨before, after ++ [d], by simp, hs, hnew, fun d' hd' hs' => ?_⟩
    rcases List.mem_append.1 hd' with hd' | hd'
    · exact hafter d' hd' hs'
    · rw [List.mem_singleton.1 hd'] at hs' ⊢
      rcases List.mem_append.1 (hold hs') with hd | hd
      · exact .inl hd
      · rcases List.mem_cons.1 hd with hd | hd
        · exact .inr hd
        · exact hafter d hd hs'

/-- Offering octets adds them at the end of their bucket, unless they are there. -/
theorem withSubject_offer (a : Anchors) (d subject : Bytes) :
    (a.offer d).withSubject subject =
      if subjectOf? d = some subject ∧ d ∉ a.withSubject subject then a.withSubject subject ++ [d]
      else a.withSubject subject := by
  cases hs : subjectOf? d with
  | none => simp [offer_of_subjectOf?_eq_none hs]
  | some found =>
    rw [offer_of_subjectOf?_eq_some hs, withSubject_insert]
    by_cases hfound : found = subject
    · subst hfound
      simp [← holds_iff]
    · have hfound' : ¬ subject = found := fun h => hfound h.symm
      simp [hfound, hfound']

/-- The last anchor of a look-up is the newest with this subject. -/
theorem getLast?_withSubject_offerAll :
    ((empty.offerAll ders).withSubject subject).getLast? = some der ↔ Newest ders subject der := by
  induction ders using List.reverseRecOn with
  | nil => simp [Newest, offerAll, withSubject, empty]
  | append_singleton ders d ih =>
    have hconcat : empty.offerAll (ders ++ [d]) = (empty.offerAll ders).offer d :=
      offerAll_append ..
    have hmem : subjectOf? d = some subject →
        (d ∈ (empty.offerAll ders).withSubject subject ↔ d ∈ ders) := by
      intro hs
      rw [mem_withSubject_offerAll]
      simp [hs, withSubject, empty]
    rw [hconcat, withSubject_offer]
    by_cases hs : subjectOf? d = some subject
    · by_cases hnew : d ∈ ders
      · rw [if_neg (by simp [hs, hmem hs, hnew]), ih, newest_concat_of_old fun _ => hnew]
      · rw [if_pos ⟨hs, by rwa [hmem hs]⟩, newest_concat_of_new hs hnew, List.getLast?_concat,
          Option.some.injEq, eq_comm]
    · rw [if_neg (by simp [hs]), ih, newest_concat_of_old fun h => absurd h hs]

/-- After a history of loads, it is the newest one that has been accepted. -/
theorem getLast?_withSubject_ofLoads {loads : List Load} :
    ((ofLoads loads).withSubject subject).getLast? = some der ↔
      Newest (accepted loads) subject der := by
  rw [ofLoads_eq_offerAll, ← offerAll_taken, ← accepted_eq, getLast?_withSubject_offerAll]

end Anchors

namespace Chain

open Anchors (Newest accepted ofLoads subjectOf?)

/-! ## What is said of an anchor -/

/-- The anchor is not valid yet. -/
def tooEarly (anchor : Certificate) (now : Instant) : String :=
  "trust anchor \"" ++ anchor.subject ++ "\": " ++
    ("certificate is not yet valid: current time " ++ now.textInSeconds ++ " is before " ++
      anchor.notBefore.textInSeconds)

/-- The anchor is not valid any more. -/
def tooLate (anchor : Certificate) (now : Instant) : String :=
  "trust anchor \"" ++ anchor.subject ++ "\": " ++
    ("certificate has expired: current time " ++ now.textInSeconds ++ " is after " ++
      anchor.notAfter.textInSeconds)

/-- The anchor has not signed the certificate. -/
def notSigned (anchor : Certificate) (fault : Signature.Fault) : String :=
  "signature check against \"" ++ anchor.subject ++ "\" failed: " ++ fault.message

variable {anchor : Certificate} {now : Instant} {fault : Signature.Fault}

theorem tooEarly_ne_tooLate : tooEarly anchor now ≠ tooLate anchor now := by
  intro h
  unfold tooEarly tooLate at h
  have hchars := congrArg String.toList h
  simp at hchars

/-- What is said of the validity of an anchor begins differently from what is said of its
signature. -/
theorem append_ne_notSigned (s : String) : "trust anchor \"" ++ s ≠ notSigned anchor fault := by
  intro h
  unfold notSigned at h
  -- The text of the fault is named, or it would be unfolded into its characters.
  generalize fault.message = cause at h
  have hchars := congrArg String.toList h
  simp at hchars

theorem tooEarly_ne_notSigned : tooEarly anchor now ≠ notSigned anchor fault := by
  unfold tooEarly
  rw [String.append_assoc, String.append_assoc]
  exact append_ne_notSigned _

theorem tooLate_ne_notSigned : tooLate anchor now ≠ notSigned anchor fault := by
  unfold tooLate
  rw [String.append_assoc, String.append_assoc]
  exact append_ne_notSigned _

/-! ## Candidates -/

variable {leaf signed : X509.SignedCertificate} {der rest : Bytes} {ders : List Bytes}

/-- If no candidate will do, the last one settles the reason, and there is none only if
there are no candidates. -/
theorem findIssuer_eq_error {last : Option Rejection} (h : findIssuer leaf now ders = .error last) :
    last.map Except.error = ders.getLast?.map (judge leaf now) := by
  simp only [findIssuer] at h
  split at h
  · cases h
  · next hnone =>
    cases h
    exact Trial.lastFault?_tryEach_of_found_eq_none hnone

/-- A candidate that will not do is not valid yet, not valid any more, or has not signed
the certificate. -/
theorem judge_eq_error_cases {rejection : Rejection}
    (hread : X509.SignedCertificate.read der = .ok (signed, rest))
    (hanchor : Certificate.ofDer der = .ok anchor)
    (h : judge leaf now der = .error rejection) :
    (now.before anchor.notBefore = true ∧ rejection.message = tooEarly anchor now) ∨
      (now.before anchor.notBefore = false ∧ anchor.notAfter.before now = true ∧
        rejection.message = tooLate anchor now) ∨
      (anchor.Covers now ∧ ∃ fault, leaf.verify signed.statement.publicKey = .error fault ∧
        rejection.message = notSigned anchor fault) := by
  have hsummary : Certificate.ofSigned signed = .ok anchor := by
    obtain ⟨signed', rest', hread', hsigned⟩ := Certificate.ofDer_eq_ok_iff.1 hanchor
    rw [hread] at hread'
    cases hread'
    exact hsigned
  simp only [judge, hread, hsummary, checkValidity] at h
  cases hbefore : now.before anchor.notBefore with
  | true =>
    simp only [hbefore, if_true] at h
    cases h
    exact .inl ⟨rfl, rfl⟩
  | false =>
    cases hafter : anchor.notAfter.before now with
    | true =>
      simp only [hbefore, hafter, if_true, if_false, Bool.false_eq_true] at h
      cases h
      exact .inr (.inl ⟨rfl, rfl, rfl⟩)
    | false =>
      simp only [hbefore, hafter, if_false, Bool.false_eq_true] at h
      cases hverify : leaf.verify signed.statement.publicKey with
      | ok =>
        rw [hverify] at h
        cases h
      | error fault =>
        rw [hverify] at h
        cases h
        exact .inr (.inr ⟨⟨hbefore, hafter⟩, fault, rfl, rfl⟩)

/-! ## The reason -/

variable {c : Certificate}

/-- If the issuer is unknown, none of the anchors with its name will do, and the reason
is that of the last one. -/
theorem reason_of_validate {a : Anchors} {reason : Option String}
    (hleaf : X509.SignedCertificate.read c.der = .ok (leaf, rest))
    (h : validate c a now = .error (.unknownAuthority reason)) :
    ∃ last : Option Rejection, reason = last.map Rejection.message ∧
      last.map Except.error =
        (a.withSubject leaf.statement.issuer.octets).getLast?.map (judge leaf now) := by
  have hfind := findTrust_of_validate_eq_error h (by simp) (by simp)
  simp only [findTrust, hleaf] at hfind
  split at hfind
  · cases hfind
  split at hfind
  · cases hfind
  next last hlast =>
  exact ⟨last, (Fault.unknownAuthority.inj (Except.error.inj hfind)).symm,
    findIssuer_eq_error hlast⟩

/-- **The reason is about the newest anchor with the name of the issuer.** If the issuer
of a certificate is unknown after some history of loads, no reason is given exactly if
no anchor has the name of the issuer. Otherwise the reason names the newest of those
that have it, which is the only one of that kind, by its subject. It says that this
anchor is not yet valid, or that it has expired, with the bound in question, exactly if
the instant lies before or after the validity of the anchor, and else that the signature
check against it failed, and why. -/
theorem validate_unknownAuthority {loads : List Anchors.Load} {reason : Option String}
    (hc : c.IsRead) (h : validate c (ofLoads loads) now = .error (.unknownAuthority reason)) :
    ∃ leaf, X509.SignedCertificate.read c.der = .ok (leaf, []) ∧
      (reason = none ↔
        ∀ der ∈ (ofLoads loads).stored, subjectOf? der ≠ some leaf.statement.issuer.octets) ∧
      ∀ text, reason = some text → ∃ der signed rest anchor,
        (∀ d, Newest (accepted loads) leaf.statement.issuer.octets d ↔ d = der) ∧
        X509.SignedCertificate.read der = .ok (signed, rest) ∧
        Certificate.ofDer der = .ok anchor ∧
        (text = tooEarly anchor now ↔ now.before anchor.notBefore = true) ∧
        (text = tooLate anchor now ↔
          now.before anchor.notBefore = false ∧ anchor.notAfter.before now = true) ∧
        ((∃ fault, leaf.verify signed.statement.publicKey = .error fault ∧
            text = notSigned anchor fault) ↔
          anchor.Covers now) := by
  obtain ⟨leaf, _, hleaf⟩ := hc.exists_read
  obtain ⟨last, rfl, hlast⟩ := reason_of_validate hleaf h
  refine ⟨leaf, hleaf, ?_, fun text htext => ?_⟩
  · have hnone : last = none ↔ (ofLoads loads).withSubject leaf.statement.issuer.octets = [] := by
      rw [← List.getLast?_eq_none_iff, ← Option.map_eq_none_iff (f := Except.error), hlast,
        Option.map_eq_none_iff]
    rw [Option.map_eq_none_iff, hnone, List.eq_nil_iff_forall_not_mem]
    simp only [(Anchors.filed_ofLoads loads).mem_withSubject_iff, not_and]
  · obtain ⟨rejection, rfl, rfl⟩ := Option.map_eq_some_iff.1 htext
    obtain ⟨der, hder, hjudge⟩ := Option.map_eq_some_iff.1 hlast.symm
    have hnewest : ∀ d, Newest (accepted loads) leaf.statement.issuer.octets d ↔ d = der := by
      intro d
      rw [← Anchors.getLast?_withSubject_ofLoads, hder, Option.some.injEq, eq_comm]
    obtain ⟨anchor, hanchor⟩ := exists_ofDer_of_mem_withSubject (List.mem_of_getLast? hder)
    obtain ⟨signed, rest, hread, _⟩ := Certificate.ofDer_eq_ok_iff.1 hanchor
    refine ⟨der, signed, rest, anchor, hnewest, hread, hanchor, ?_⟩
    rcases judge_eq_error_cases hread hanchor hjudge with ⟨hbefore, htext⟩ |
      ⟨hbefore, hafter, htext⟩ | ⟨hnow, fault, hfault, htext⟩
    · simp [htext, hbefore, tooEarly_ne_tooLate, tooEarly_ne_notSigned, Certificate.Covers]
    · simp [htext, hbefore, hafter, tooEarly_ne_tooLate.symm, tooLate_ne_notSigned,
        Certificate.Covers]
    · obtain ⟨hbefore, hafter⟩ := hnow
      simp [htext, hbefore, hafter, tooEarly_ne_notSigned.symm, tooLate_ne_notSigned.symm,
        Certificate.Covers, hfault]

/-- Octets of a certificate of `CN=R`, which is the issuer of the sample. It has not
signed it. -/
def issuerDer : Bytes := Certificate.sampleDer.set 73 0x52

/-- Octets of another certificate of `CN=R`, which has been valid to the end of 2024. -/
def expiredIssuerDer : Bytes := (issuerDer.set 47 0x32).set 48 0x35

/-- The certificate in the latter octets. -/
def expiredIssuer : Certificate :=
  { Certificate.sample with
    der := expiredIssuerDer, subject := "CN=R", commonName := some "R",
    notAfter := ⟨1735689600, 0⟩ }

/-- Three loads that leave two anchors: the one that is loaded again keeps its place. -/
def issuerLoads : List Anchors.Load :=
  [.certificate issuerDer, .certificate expiredIssuerDer, .certificate issuerDer]

/-- The reason is that the certificate that came in last has expired, although the other
one, which has not, has been loaded once more after it. -/
theorem validate_unknownAuthority_sample :
    Certificate.sample.IsRead ∧
      validate .sample (ofLoads issuerLoads) ⟨1750000000, 0⟩ =
        .error (.unknownAuthority (some (tooLate expiredIssuer ⟨1750000000, 0⟩))) ∧
      ∃ subject, Newest (accepted issuerLoads) subject expiredIssuerDer ∧
        expiredIssuer.notAfter.before ⟨1750000000, 0⟩ = true := by
  have h : validate .sample (ofLoads issuerLoads) ⟨1750000000, 0⟩ =
      .error (.unknownAuthority (some (tooLate expiredIssuer ⟨1750000000, 0⟩))) := rfl
  obtain ⟨leaf, hleaf, _, hsome⟩ := validate_unknownAuthority Certificate.isRead_sample h
  obtain ⟨der, _, _, anchor, hnewest, _, hanchor, _, hlate, _⟩ := hsome _ rfl
  have hissuer : subjectOf? expiredIssuerDer = some leaf.statement.issuer.octets := by
    cases hleaf
    rfl
  have hlast : Newest (accepted issuerLoads) leaf.statement.issuer.octets expiredIssuerDer := by
    refine ⟨[issuerDer], [issuerDer], by decide +kernel, hissuer, by decide +kernel, ?_⟩
    simp
  obtain rfl := (hnewest _).1 hlast
  obtain rfl : expiredIssuer = anchor := Except.ok.inj hanchor
  exact ⟨Certificate.isRead_sample, h, _, hlast, (hlate.1 rfl).2⟩

end Chain

end SignedPdf
