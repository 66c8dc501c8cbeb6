import SignedPdf.Asn1.Fault

/-!
# Faults of certificates

Why a certificate could not be read: either one of its elements could not, or
an element was read and is not what stands at this place of a certificate.
-/

namespace SignedPdf.X509

/-- The parts of a certificate that have a fault of their own. -/
inductive Part where
  | version
  | serialNumber
  | algorithm
  | date
  | publicKey
  | issuerId
  | subjectId
  | extensions
  | signature
deriving DecidableEq, Repr

/-- The name of the fault in a part. -/
def Part.faultName : Part → String
  | .version => "InvalidVersion"
  | .serialNumber => "InvalidSerial"
  | .algorithm => "InvalidAlgorithmIdentifier"
  | .date => "InvalidDate"
  | .publicKey => "InvalidSPKI"
  | .issuerId => "InvalidIssuerUID"
  | .subjectId => "InvalidSubjectUID"
  | .extensions => "InvalidExtensions"
  | .signature => "InvalidSignatureValue"

/-- Why a certificate could not be read. -/
inductive Fault where
  /-- An element could not be read. -/
  | element (fault : Asn1.Fault)
  /-- A part is not of its form. -/
  | malformed (part : Part)
  /-- A date of validity lies outside the calendar. -/
  | dateOutOfRange (seconds : Int)
deriving DecidableEq, Repr

/-- The fault in words. -/
def Fault.message : Fault → String
  | .element fault => fault.message
  | .malformed part => "Parsing Error: " ++ part.faultName
  | .dateOutOfRange seconds => "validity time out of range: " ++ toString seconds

/-- Reads an element whose faults count as faults of the certificate. -/
def element {α : Type} : Except Asn1.Fault α → Except Fault α
  | .ok a => .ok a
  | .error fault => .error (.element fault)

/-- What has been read, or the fault of that part. -/
def orFault {α : Type} (part : Part) : Option α → Except Fault α
  | some a => .ok a
  | none => .error (.malformed part)

theorem element_eq_ok {α : Type} {r : Except Asn1.Fault α} {a : α} :
    element r = .ok a ↔ r = .ok a := by
  cases r <;> simp [element]

theorem orFault_eq_ok {α : Type} {part : Part} {o : Option α} {a : α} :
    orFault part o = .ok a ↔ o = some a := by
  cases o <;> simp [orFault]

end SignedPdf.X509
