import SignedPdf.X509.Algorithm
import SignedPdf.X509.Extension
import SignedPdf.X509.Time

/-!
# Signed certificates

A certificate is a statement about a public key, an algorithm, and the
signature that the issuer made over the statement with that algorithm.
`SignedCertificate.read` reads the certificate at the start of its input and
keeps the octets of certificate and statement.

* `SignedCertificate.read_octets`: the octets of the certificate, with what
  follows them, are the input.
* `SignedCertificate.read_octets_append`: whatever follows them, these octets
  read as that certificate.
-/

namespace SignedPdf.X509

open SignedPdf.Asn1

/-! ## The parts of a statement -/

/-- Whether the contents of an integer are in minimal form and fit in 32 bits
without a sign. -/
def isWord32 : Bytes → Bool
  | [] => false
  | [b] => b.toNat < 0x80
  | b :: c :: bs =>
    if b = 0 then 0x80 ≤ c.toNat && bs.length < 4
    else b.toNat < 0x80 && bs.length < 3

/-- The tag number of an integer. -/
def integerTag : Nat := 2

/-- Passes over a version at the start, if there is one. -/
def skipVersion : Bytes → Except Fault Bytes
  | [] => return []
  | b :: bs => do
    let (e, rest) ← element (Element.read (b :: bs))
    if e.identifier.number = 0 then
      if e.identifier.tagClass = .contextSpecific then
        match Element.read e.contents with
        | .ok (v, _) =>
          if v.identifier.number = integerTag ∧ !v.identifier.constructed ∧ isWord32 v.contents then
            return rest
          else throw (.malformed .version)
        | .error _ => throw (.malformed .version)
      else throw (.element (.unexpectedClass .contextSpecific e.identifier.tagClass))
    else return b :: bs

/-- Passes over the serial number. -/
def skipSerialNumber (bs : Bytes) : Except Fault Bytes :=
  match skipLoose? bs with
  | some (number, rest) =>
    if number = integerTag then .ok rest else .error (.malformed .serialNumber)
  | none => .error (.malformed .serialNumber)

/-- Passes over a unique identifier with that tag number, if there is one. Of
any other element only the header need be there. -/
def skipUniqueId (number : Nat) (part : Part) : Bytes → Except Fault Bytes
  | [] => return []
  | b :: bs => do
    let h ← orFault part (Header.read (b :: bs)).toOption
    if h.identifier.number = number then
      let (e, rest) ← orFault part (Element.read (b :: bs)).toOption
      if e.identifier.tagClass = .contextSpecific ∧ e.contents ≠ [] then return rest
      else throw (.malformed part)
    else return b :: bs

/-! ## Statements -/

/-- What the issuer of a certificate states. -/
structure Statement where
  issuer : Name
  validity : Validity
  subject : Name
  publicKey : PublicKey
  extensions : List Extension
  /-- The statement as it is encoded, which is what the issuer signs. -/
  octets : Bytes
deriving DecidableEq, Repr

/-- The statement at the start, and what follows it. -/
def Statement.read (bs : Bytes) : Except Fault (Statement × Bytes) := do
  let c ← element (Container.read sequenceTag bs)
  let bs ← skipVersion c.contents
  let bs ← skipSerialNumber bs
  let (_, bs) ← Algorithm.read bs
  let (issuer, bs) ← element (Name.read bs)
  let (validity, bs) ← Validity.read bs
  let (subject, bs) ← element (Name.read bs)
  let (publicKey, bs) ← PublicKey.read bs
  let bs ← skipUniqueId 1 .issuerId bs
  let bs ← skipUniqueId 2 .subjectId bs
  let extensions ← Extension.readAll bs
  return ({ issuer, validity, subject, publicKey, extensions, octets := c.head ++ c.contents },
    c.rest)

/-! ## Certificates -/

/-- A statement with the signature of its issuer. -/
structure SignedCertificate where
  statement : Statement
  algorithm : Algorithm
  signature : Bytes
  /-- The certificate as it is encoded. -/
  octets : Bytes
deriving DecidableEq, Repr

namespace SignedCertificate

/-- The certificate at the start, and what follows it. -/
def read (bs : Bytes) : Except Fault (SignedCertificate × Bytes) := do
  let c ← element (Container.read sequenceTag bs)
  let (statement, after) ← Statement.read c.contents
  let (algorithm, after) ← Algorithm.read after
  let (signature, _) ← orFault .signature (BitString.read? after)
  return ({ statement, algorithm, signature, octets := c.head ++ c.contents }, c.rest)

/-- The octets of the certificate, with what follows them, are the input. -/
theorem read_octets {bs rest : Bytes} {c : SignedCertificate} (h : read bs = .ok (c, rest)) :
    c.octets ++ rest = bs := by
  simp only [read, bind_eq_ok_iff] at h
  obtain ⟨ct, hct, _, _, _, _, _, _, h⟩ := h
  cases h
  exact Container.append_eq (element_eq_ok.1 hct)

/-- Whatever follows a certificate, its octets read as that certificate. -/
theorem read_octets_append {bs rest : Bytes} {c : SignedCertificate} (h : read bs = .ok (c, rest))
    (after : Bytes) : read (c.octets ++ after) = .ok (c, after) := by
  simp only [read, bind_eq_ok_iff] at h
  obtain ⟨ct, hct, ⟨st, bs1⟩, hst, ⟨al, bs2⟩, hal, ⟨sig, bs3⟩, hsig, h⟩ := h
  cases h
  have hct' := Container.read_append (element_eq_ok.1 hct) after
  simp only [read, bind_eq_ok_iff]
  exact ⟨_, element_eq_ok.2 hct', _, hst, _, hal, _, hsig, rfl⟩

end SignedCertificate

end SignedPdf.X509
