import SignedPdf.Anchors
import SignedPdf.Certificate
import SignedPdf.Event
import SignedPdf.Signature
import SignedPdf.Steps

/-!
# Validating a certificate

A certificate is trusted at an instant within its validity if it is itself an
anchor, or if an anchor with the name of its issuer, within its own validity,
has signed it. Anchors with the right name are tried in the order in which
they were added; if none will do, the reason tells about the last one.

* `checkValidity_eq_ok_iff`: both ends of the validity belong to it.
* `findIssuer_eq_ok_iff`: the issuer is the first anchor that will do.
-/

namespace SignedPdf

namespace Chain

/-! ## Why a certificate is not trusted -/

/-- Why a certificate is not trusted. -/
inductive Fault where
  /-- The instant lies after the validity. -/
  | expired (now notAfter : String)
  /-- The instant lies before the validity. -/
  | notYetValid (now notBefore : String)
  /-- No anchor stands behind the certificate. -/
  | unknownAuthority (reason : Option String)
  /-- The certificate cannot be read again. -/
  | malformed (cause : String)
deriving DecidableEq, Repr

/-- The fault in words. -/
def Fault.message : Fault → String
  | .expired now notAfter =>
    "certificate has expired: current time " ++ now ++ " is after " ++ notAfter
  | .notYetValid now notBefore =>
    "certificate is not yet valid: current time " ++ now ++ " is before " ++ notBefore
  | .unknownAuthority none => "certificate signed by unknown authority"
  | .unknownAuthority (some reason) =>
    "certificate signed by unknown authority (" ++ reason ++ ")"
  | .malformed cause => "malformed certificate: " ++ cause

/-- Why an anchor with the right name will not do. -/
inductive Rejection where
  /-- The anchor cannot be read. -/
  | unreadable (fault : X509.Fault)
  /-- The anchor is not valid at the instant. -/
  | outOfDate (subject : String) (fault : Fault)
  /-- The anchor has not signed the certificate. -/
  | unsigned (subject : String) (fault : Signature.Fault)
deriving DecidableEq, Repr

/-- The rejection in words. -/
def Rejection.message : Rejection → String
  | .unreadable fault => "unreadable anchor: " ++ fault.message
  | .outOfDate subject fault => "trust anchor \"" ++ subject ++ "\": " ++ fault.message
  | .unsigned subject fault =>
    "signature check against \"" ++ subject ++ "\" failed: " ++ fault.message

/-! ## Validity -/

/-- Checks that an instant lies in an interval, ends included. -/
def checkValidity (notBefore notAfter now : Instant) : Except Fault Unit :=
  if now.before notBefore then .error (.notYetValid now.textInSeconds notBefore.textInSeconds)
  else if notAfter.before now then .error (.expired now.textInSeconds notAfter.textInSeconds)
  else .ok ()

theorem checkValidity_eq_ok_iff {notBefore notAfter now : Instant} :
    checkValidity notBefore notAfter now = .ok () ↔
      now.before notBefore = false ∧ notAfter.before now = false := by
  unfold checkValidity
  split
  · next h => simp [h]
  · next h =>
    split
    · next h' => simp [h']
    · next h' => simp [h, h']

/-! ## Issuers -/

/-- The subject of an anchor that has signed a certificate and is valid, or why
the anchor will not do. -/
def judge (c : X509.SignedCertificate) (now : Instant) (der : Bytes) : Except Rejection String :=
  match X509.SignedCertificate.read der with
  | .error fault => .error (.unreadable fault)
  | .ok (anchor, _) =>
    match Certificate.ofSigned anchor with
    | .error fault => .error (.unreadable fault)
    | .ok summary =>
      match checkValidity summary.notBefore summary.notAfter now with
      | .error fault => .error (.outOfDate summary.subject fault)
      | .ok () =>
        match c.verify anchor.statement.publicKey with
        | .error fault => .error (.unsigned summary.subject fault)
        | .ok () => .ok summary.subject

/-- How the anchors with the right name fare, one after the other. -/
def trial (c : X509.SignedCertificate) (now : Instant) (ders : List Bytes) :
    Trial Bytes String Rejection :=
  .tryEach (judge c now) ders

/-- The subject of the first anchor that will do, or why the last one will
not. -/
def findIssuer (c : X509.SignedCertificate) (now : Instant) (ders : List Bytes) :
    Except (Option Rejection) String :=
  let t := trial c now ders
  match t.found with
  | some (_, subject) => .ok subject
  | none => .error t.lastFault?

/-- The issuer is the first anchor that will do. -/
theorem findIssuer_eq_ok_iff {c : X509.SignedCertificate} {now : Instant} {ders : List Bytes}
    {subject : String} :
    findIssuer c now ders = .ok subject ↔
      ∃ before der after, ders = before ++ der :: after ∧ judge c now der = .ok subject ∧
        ∀ d ∈ before, ∃ rejection, judge c now d = .error rejection := by
  have hfind : findIssuer c now ders = .ok subject ↔
      ∃ der, (trial c now ders).found = some (der, subject) := by
    simp only [findIssuer]
    split
    · next der s h => simp [h]
    · next h => simp [h]
  rw [hfind]
  simp only [trial, Trial.found_tryEach_iff]
  exact ⟨fun ⟨der, before, after, h⟩ => ⟨before, der, after, h⟩,
    fun ⟨before, der, after, h⟩ => ⟨der, before, after, h⟩⟩

/-! ## Validation -/

/-- Why a certificate is trusted. -/
inductive Trust where
  /-- It is an anchor itself. -/
  | pinned
  /-- The anchor with that subject has signed it. -/
  | issuedBy (subject : String)
deriving DecidableEq, Repr

/-- What there is to tell about a trusted certificate. -/
def Trust.event : Trust → Event
  | .pinned => .pinned
  | .issuedBy subject => .chainsTo subject

/-- Why a certificate that is valid at the instant is trusted. -/
def findTrust (c : Certificate) (anchors : Anchors) (now : Instant) : Except Fault Trust :=
  match X509.SignedCertificate.read c.der with
  | .error fault => .error (.malformed fault.message)
  | .ok (signed, _) =>
    if anchors.holds signed.statement.subject.octets c.der then .ok .pinned
    else
      match findIssuer signed now (anchors.withSubject signed.statement.issuer.octets) with
      | .ok subject => .ok (.issuedBy subject)
      | .error last => .error (.unknownAuthority (last.map Rejection.message))

/-- Why a certificate is trusted at an instant. -/
def validate (c : Certificate) (anchors : Anchors) (now : Instant) : Except Fault Trust := do
  checkValidity c.notBefore c.notAfter now
  findTrust c anchors now

end Chain

end SignedPdf
