import SignedPdf.Pem
import SignedPdf.Steps
import SignedPdf.X509.NameText
import SignedPdf.X509.SignedCertificate

/-!
# Certificates of signers

A `Certificate` is what a report tells of a certificate, together with the
octets that it was read from. `ofDer` reads it from the start of its input and
keeps no octet of what follows.

* `ofDer_prefix`: the octets that are kept start the input.
-/

namespace SignedPdf

/-- What a certificate says about a signer. -/
structure Certificate where
  /-- The octets of the certificate. -/
  der : Bytes
  /-- The name of the signer. -/
  subject : String
  /-- The name of who issued the certificate. -/
  issuer : String
  commonName : Option String
  /-- The first mail address among the alternative names. -/
  email : Option String
  notBefore : Instant
  notAfter : Instant
deriving DecidableEq, Repr

namespace Certificate

/-- The instant at the start of a second, if the calendar reaches it. -/
def instant (seconds : Int) : Except X509.Fault Instant :=
  if Instant.isRepresentable seconds then .ok ⟨seconds, 0⟩ else .error (.dateOutOfRange seconds)

/-- What a signed certificate says. -/
def ofSigned (c : X509.SignedCertificate) : Except X509.Fault Certificate := do
  let notBefore ← instant c.statement.validity.notBefore
  let notAfter ← instant c.statement.validity.notAfter
  return {
    der := c.octets
    subject := c.statement.subject.text
    issuer := c.statement.issuer.text
    commonName := c.statement.subject.commonName?
    email := X509.mailAddress? c.statement.extensions
    notBefore
    notAfter }

/-- The certificate at the start of the input. -/
def ofDer (bs : Bytes) : Except X509.Fault Certificate := do
  let (c, _) ← X509.SignedCertificate.read bs
  ofSigned c

theorem ofSigned_der {s : X509.SignedCertificate} {c : Certificate} (h : ofSigned s = .ok c) :
    c.der = s.octets := by
  simp only [ofSigned, bind_eq_ok_iff] at h
  obtain ⟨_, _, _, _, h⟩ := h
  cases h
  rfl

theorem ofDer_eq_ok_iff {bs : Bytes} {c : Certificate} :
    ofDer bs = .ok c ↔
      ∃ s rest, X509.SignedCertificate.read bs = .ok (s, rest) ∧ ofSigned s = .ok c := by
  simp only [ofDer, bind_eq_ok_iff]
  exact ⟨fun ⟨r, hr, hs⟩ => ⟨r.1, r.2, hr, hs⟩, fun ⟨s, rest, hr, hs⟩ => ⟨(s, rest), hr, hs⟩⟩

/-- The octets that are kept start the input. -/
theorem ofDer_prefix {bs : Bytes} {c : Certificate} (h : ofDer bs = .ok c) : c.der <+: bs := by
  obtain ⟨s, rest, hr, hs⟩ := ofDer_eq_ok_iff.1 h
  exact ⟨rest, by rw [ofSigned_der hs, X509.SignedCertificate.read_octets hr]⟩

/-- The label of certificates in armour. -/
def label : String := "CERTIFICATE"

/-- The certificate in armour. -/
def armoured (c : Certificate) : String := Pem.Block.armoured ⟨label, c.der⟩

end Certificate

end SignedPdf
