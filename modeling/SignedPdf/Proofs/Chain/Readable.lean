import SignedPdf.Proofs.Chain.Decision

/-!
# Validation reads whatever it meets

A validation reads octets again that have been read before: those of the
certificate, and those of the anchors with the name of its issuer. A certificate
or an anchor that could not be read would end in a fault of its own, and an anchor
without a summary would be passed over for that. Nothing of this ever happens, as
octets read the same each time and no date of a certificate lies outside the
calendar.

* `validateAnew` is validation with every reading in its place, also of the key of
  an anchor whose summary has been read before; `validateAnew_eq` says that it is
  validation.
* `judge_ne_unreadable`: what can be read is never called unreadable.
* `findIssuer_ne_unreadable`: nor is a candidate among the anchors that have been
  loaded.
* `validate_reads`: validation never ends for want of something that can be read.
-/

namespace SignedPdf

/-- The dates of a certificate lie in the calendar of instants. -/
theorem X509.SignedCertificate.read_validity {bs rest : Bytes} {s : SignedCertificate}
    (h : read bs = .ok (s, rest)) :
    Instant.isRepresentable s.statement.validity.notBefore = true ∧
      Instant.isRepresentable s.statement.validity.notAfter = true := by
  simp only [read, bind_eq_ok_iff] at h
  obtain ⟨_, _, ⟨st, _⟩, hst, _, _, _, _, h⟩ := h
  cases h
  exact Statement.read_validity hst

/-- What can be added to a set of anchors holds a certificate. -/
theorem Anchors.exists_ofDer_of_add {a a' : Anchors} {der : Bytes} (h : a.add der = .ok a') :
    ∃ c, Certificate.ofDer der = .ok c := by
  obtain ⟨subject, hsubject, _⟩ := add_eq_ok_iff.1 h
  obtain ⟨s, rest, hread, _⟩ := subjectOf?_eq_some_iff.1 hsubject
  exact Certificate.exists_ofDer_iff.2 ⟨s, rest, hread⟩

namespace Chain

open Anchors (ofLoads)

variable {c : Certificate} {now : Instant}

/-! ## Reading anew -/

/-- Tries candidates one after the other and carries along why the last one would
not do. Each is read twice: for its summary, and once more for its key. A candidate
that cannot be read the second time ends the search. -/
def searchAnew (leaf : X509.SignedCertificate) (now : Instant) (last : Option Rejection) :
    List Bytes → Except Fault Trust
  | [] => .error (.unknownAuthority (last.map Rejection.message))
  | der :: ders =>
    match Certificate.ofDer der with
    | .error fault => searchAnew leaf now (some (.unreadable fault)) ders
    | .ok summary =>
      match checkValidity summary.notBefore summary.notAfter now with
      | .error fault => searchAnew leaf now (some (.outOfDate summary.subject fault)) ders
      | .ok () =>
        match X509.SignedCertificate.read der with
        | .error fault => .error (.malformed fault.message)
        | .ok (anchor, _) =>
          match leaf.verify anchor.statement.publicKey with
          | .error fault => searchAnew leaf now (some (.unsigned summary.subject fault)) ders
          | .ok () => .ok (.issuedBy summary.subject)

/-- Why a certificate is trusted at an instant, with every reading in its place. -/
def validateAnew (c : Certificate) (anchors : Anchors) (now : Instant) : Except Fault Trust := do
  checkValidity c.notBefore c.notAfter now
  match X509.SignedCertificate.read c.der with
  | .error fault => throw (.malformed fault.message)
  | .ok (leaf, _) =>
    if anchors.holds leaf.statement.subject.octets c.der then return .pinned
    else searchAnew leaf now none (anchors.withSubject leaf.statement.issuer.octets)

/-- A step of the search judges one candidate: what has been read once can be read
again. -/
theorem searchAnew_cons (leaf : X509.SignedCertificate) (now : Instant) (last : Option Rejection)
    (der : Bytes) (ders : List Bytes) :
    searchAnew leaf now last (der :: ders) =
      match judge leaf now der with
      | .ok subject => .ok (.issuedBy subject)
      | .error rejection => searchAnew leaf now (some rejection) ders := by
  cases hread : X509.SignedCertificate.read der with
  | error fault =>
    have hsummary : Certificate.ofDer der = .error fault := by
      rw [Certificate.ofDer, hread]
      rfl
    simp only [searchAnew, judge, hread, hsummary]
  | ok r =>
    obtain ⟨anchor, rest⟩ := r
    have hsummary : Certificate.ofDer der = Certificate.ofSigned anchor := by
      rw [Certificate.ofDer, hread]
      rfl
    cases hsigned : Certificate.ofSigned anchor with
    | error fault => simp only [searchAnew, judge, hread, hsummary, hsigned]
    | ok summary =>
      cases hvalid : checkValidity summary.notBefore summary.notAfter now with
      | error fault => simp only [searchAnew, judge, hread, hsummary, hsigned, hvalid]
      | ok =>
        cases hverify : leaf.verify anchor.statement.publicKey <;>
          simp only [searchAnew, judge, hread, hsummary, hsigned, hvalid, hverify]

/-- The search finds the first candidate that will do, or tells why the last one
will not. -/
theorem searchAnew_eq (leaf : X509.SignedCertificate) (now : Instant) (last : Option Rejection)
    (ders : List Bytes) :
    searchAnew leaf now last ders =
      match (trial leaf now ders).found with
      | some (_, subject) => .ok (.issuedBy subject)
      | none => .error (.unknownAuthority
          (((trial leaf now ders).lastFault?.or last).map Rejection.message)) := by
  induction ders generalizing last with
  | nil => rfl
  | cons der ders ih =>
    rw [searchAnew_cons, trial]
    cases hjudge : judge leaf now der with
    | ok subject => rw [Trial.tryEach_cons_ok hjudge]
    | error rejection =>
      rw [Trial.tryEach_cons_error hjudge]
      simp only [ih]
      rw [trial]
      cases (Trial.tryEach (judge leaf now) ders).found with
      | some found => rfl
      | none =>
        simp only [Trial.lastFault?, List.getLast?_cons]
        cases (Trial.tryEach (judge leaf now) ders).failed.getLast? <;> rfl

/-- Validation comes to the same with every reading in its place. -/
theorem validateAnew_eq (c : Certificate) (anchors : Anchors) (now : Instant) :
    validateAnew c anchors now = validate c anchors now := by
  unfold validateAnew validate findTrust
  cases checkValidity c.notBefore c.notAfter now with
  | error fault => rfl
  | ok =>
    cases X509.SignedCertificate.read c.der with
    | error fault => rfl
    | ok r =>
      simp only [searchAnew_eq, findIssuer, Option.or_none]
      split
      · rfl
      · cases (trial r.1 now (anchors.withSubject r.1.statement.issuer.octets)).found with
        | none => rfl
        | some found => rfl

/-! ## Candidates -/

/-- What can be read is never called unreadable, as it has a summary. -/
theorem judge_ne_unreadable {leaf : X509.SignedCertificate} {der : Bytes}
    (h : ∃ c, Certificate.ofDer der = .ok c) (fault : X509.Fault) :
    judge leaf now der ≠ .error (.unreadable fault) := by
  obtain ⟨summary, hsummary⟩ := h
  obtain ⟨anchor, rest, hread, hsigned⟩ := Certificate.ofDer_eq_ok_iff.1 hsummary
  simp only [judge, hread, hsigned]
  intro hjudge
  split at hjudge
  · cases hjudge
  · split at hjudge <;> cases hjudge

/-- What a look-up finds among the anchors that have been loaded holds a
certificate. -/
theorem exists_ofDer_of_mem_withSubject {loads : List Anchors.Load} {subject der : Bytes}
    (h : der ∈ (ofLoads loads).withSubject subject) : ∃ c, Certificate.ofDer der = .ok c := by
  obtain ⟨_, hsubject⟩ := Anchors.mem_withSubject_ofLoads.1 h
  obtain ⟨s, rest, hread, _⟩ := Anchors.subjectOf?_eq_some_iff.1 hsubject
  exact Certificate.exists_ofDer_iff.2 ⟨s, rest, hread⟩

/-- No candidate among the anchors that have been loaded is passed over because it
could not be read. -/
theorem findIssuer_ne_unreadable (leaf : X509.SignedCertificate) (now : Instant)
    (loads : List Anchors.Load) (subject : Bytes) (fault : X509.Fault) :
    findIssuer leaf now ((ofLoads loads).withSubject subject) ≠
      .error (some (.unreadable fault)) := by
  intro h
  simp only [findIssuer] at h
  split at h
  · cases h
  · obtain ⟨der, hder, hjudge⟩ := Trial.exists_of_lastFault?_tryEach (Except.error.inj h)
    exact judge_ne_unreadable (exists_ofDer_of_mem_withSubject hder) fault hjudge

/-! ## Reasons -/

/-- Only an anchor that cannot be read is called unreadable. -/
theorem Rejection.message_ne_unreadable {r : Rejection} (h : ∀ fault, r ≠ .unreadable fault)
    (text : String) : r.message ≠ "unreadable anchor" ++ text := by
  intro heq
  cases r with
  | unreadable fault => exact h fault rfl
  | outOfDate subject fault =>
    have hmessage : (Rejection.outOfDate subject fault).message =
        "trust anchor \"" ++ subject ++ "\": " ++ fault.message := rfl
    rw [hmessage] at heq
    generalize fault.message = cause at heq
    have hchars := congrArg String.toList heq
    simp at hchars
  | unsigned subject fault =>
    have hmessage : (Rejection.unsigned subject fault).message =
        "signature check against \"" ++ subject ++ "\" failed: " ++ fault.message := rfl
    rw [hmessage] at heq
    generalize fault.message = cause at heq
    have hchars := congrArg String.toList heq
    simp at hchars

/-! ## Validation -/

/-- A certificate is refused for its validity, or because nothing stands behind
it. -/
theorem findTrust_of_validate_eq_error {a : Anchors} {fault : Fault}
    (h : validate c a now = .error fault) (hbefore : ∀ t u, fault ≠ .notYetValid t u)
    (hafter : ∀ t u, fault ≠ .expired t u) : findTrust c a now = .error fault := by
  by_cases hb : now.before c.notBefore = true
  · rw [validate_of_before hb] at h
    cases h
    exact absurd rfl (hbefore _ _)
  rw [Bool.not_eq_true] at hb
  by_cases ha : c.notAfter.before now = true
  · rw [validate_of_after hb ha] at h
    cases h
    exact absurd rfl (hafter _ _)
  rw [Bool.not_eq_true] at ha
  rwa [validate_of_covers ⟨hb, ha⟩] at h

/-- A certificate that has been read is not malformed, whatever the anchors. -/
theorem validate_ne_malformed (hc : c.IsRead) (a : Anchors) (now : Instant) (cause : String) :
    validate c a now ≠ .error (.malformed cause) := by
  intro h
  obtain ⟨leaf, _, hleaf⟩ := hc.exists_read
  have hfind : findTrust c a now = .error (.malformed cause) :=
    findTrust_of_validate_eq_error h (by simp) (by simp)
  have hcases : (∃ trust, findTrust c a now = .ok trust) ∨
      ∃ reason, findTrust c a now = .error (.unknownAuthority reason) := findTrust_cases hleaf a
  rcases hcases with ⟨trust, htrust⟩ | ⟨reason, hreason⟩
  · rw [htrust] at hfind
    cases hfind
  · rw [hreason] at hfind
    cases hfind

/-- No issuer is unknown because an anchor cannot be read. -/
theorem validate_ne_unreadable (hc : c.IsRead) (loads : List Anchors.Load) (now : Instant)
    (text : String) :
    validate c (ofLoads loads) now ≠
      .error (.unknownAuthority (some ("unreadable anchor" ++ text))) := by
  intro h
  obtain ⟨leaf, _, hleaf⟩ := hc.exists_read
  have hfind := findTrust_of_validate_eq_error h (by simp) (by simp)
  simp only [findTrust, hleaf] at hfind
  split at hfind
  · cases hfind
  split at hfind
  · cases hfind
  next last hlast =>
  have hreason := Fault.unknownAuthority.inj (Except.error.inj hfind)
  obtain ⟨r, rfl, hr⟩ := Option.map_eq_some_iff.1 hreason
  refine Rejection.message_ne_unreadable ?_ text hr
  rintro fault rfl
  exact findIssuer_ne_unreadable leaf now loads _ fault hlast

/-- **Validation can read whatever it meets.** Validation with every reading in its
place is no other than validation. Whatever has been loaded and whatever the
instant, a certificate that has been read is not called malformed by it, and no
issuer is unknown because an anchor cannot be read. For octets that can be added to
some set of anchors are those of a certificate, the octets of a certificate read as
this certificate again, and every date that can be read, as UTC time or as
generalized time and whatever its offset, lies in the calendar of instants; hence
so do both dates of a certificate. -/
theorem validate_reads (hc : c.IsRead) (loads : List Anchors.Load) (now : Instant) :
    (∀ a, validateAnew c a now = validate c a now) ∧
      (∀ cause, validate c (ofLoads loads) now ≠ .error (.malformed cause)) ∧
      (∀ text, validate c (ofLoads loads) now ≠
        .error (.unknownAuthority (some ("unreadable anchor" ++ text)))) ∧
      (∀ (a a' : Anchors) (der : Bytes), a.add der = .ok a' →
        ∃ c', Certificate.ofDer der = .ok c') ∧
      Certificate.ofDer c.der = .ok c ∧
      (∀ (bs rest : Bytes) (seconds : Int), X509.time? bs = some (seconds, rest) →
        Instant.isRepresentable seconds = true) ∧
      ∀ (bs rest : Bytes) (s : X509.SignedCertificate),
        X509.SignedCertificate.read bs = .ok (s, rest) →
        Instant.isRepresentable s.statement.validity.notBefore = true ∧
          Instant.isRepresentable s.statement.validity.notAfter = true := by
  refine ⟨fun a => validateAnew_eq c a now, validate_ne_malformed hc _ now,
    validate_ne_unreadable hc loads now, ?_, hc.ofDer_der, ?_, ?_⟩
  · intro a a' der h
    exact Anchors.exists_ofDer_of_add h
  · intro bs rest seconds h
    exact X509.isRepresentable_of_time? h
  · intro bs rest s h
    exact X509.SignedCertificate.read_validity h

/-- An anchor with an octet after its certificate, which therefore does not pin it,
and the first date that generalized time can write. -/
theorem validate_reads_sample :
    Certificate.sample.IsRead ∧
      (∀ cause, validateAnew .sample (ofLoads [.certificate (Certificate.sampleDer ++ [0])])
        ⟨1750000000, 0⟩ ≠ .error (.malformed cause)) ∧
      (∃ c, Certificate.ofDer (Certificate.sampleDer ++ [0]) = .ok c) ∧
      X509.time? ([0x18, 0x0F] ++ Bytes.ofText "00000101000000Z") = some (-62167219200, []) ∧
      Instant.isRepresentable (-62167219200) = true := by
  obtain ⟨hanew, hmalformed, _, hadd, _, htime, _⟩ := validate_reads Certificate.isRead_sample
    [.certificate (Certificate.sampleDer ++ [0])] ⟨1750000000, 0⟩
  have hfirst : X509.time? ([0x18, 0x0F] ++ Bytes.ofText "00000101000000Z") =
      some (-62167219200, []) := by decide +kernel
  refine ⟨Certificate.isRead_sample, ?_, hadd .empty _ _ rfl, hfirst, htime _ _ _ hfirst⟩
  intro cause
  rw [hanew]
  exact hmalformed cause

end Chain

end SignedPdf
