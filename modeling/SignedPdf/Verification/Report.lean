import SignedPdf.Chain
import SignedPdf.Dictionary
import SignedPdf.Extraction
import SignedPdf.Json
import SignedPdf.PdfDate

/-!
# Reports

A report has one entry for each signature that was looked at. An entry tells
who signed, when and in what role, as far as this is known, and ends with a
verdict: valid, or invalid for a reason.

A signature is called valid when its certificate is trusted. The signature
itself is not checked against the document.

* `Entry.isValid_iff`: an entry is valid exactly if it gives no reason.
-/

namespace SignedPdf

namespace Verification

/-! ## Verdicts -/

/-- Why a signature is invalid. -/
inductive Reason where
  /-- The dictionary holds no signature. -/
  | noContents
  /-- What the dictionary holds is no hexadecimal string, or an empty one. -/
  | undecodable
  /-- The signature holds no certificate. -/
  | extraction (failure : Extraction.Failure)
  /-- The certificate is not trusted. -/
  | chain (fault : Chain.Fault)
deriving DecidableEq, Repr

/-- The reason in words. -/
def Reason.message : Reason → String
  | .noContents => "no /Contents found in signature dictionary"
  | .undecodable => "could not decode signature contents"
  | .extraction failure => "certificate extraction failed: " ++ failure.message
  | .chain fault => "certificate chain validation failed: " ++ fault.message

/-- What a verification finds about a signature. -/
inductive Verdict where
  | valid
  | invalid (reason : Reason)
deriving DecidableEq, Repr

namespace Verdict

/-- Whether the signature is valid. -/
def isValid : Verdict → Bool
  | .valid => true
  | .invalid _ => false

/-- Why the signature is invalid, if it is. -/
def reason? : Verdict → Option Reason
  | .valid => none
  | .invalid reason => some reason

theorem isValid_iff {v : Verdict} : v.isValid = true ↔ v.reason? = none := by
  cases v <;> simp [isValid, reason?]

end Verdict

/-! ## Entries -/

/-- What a report tells about a signature. -/
structure Entry where
  /-- The name in the dictionary, or else the common name in the certificate. -/
  signerName : String
  /-- The mail address in the certificate. -/
  signerEmail : String
  /-- The reason for signing that the dictionary gives. -/
  signerRole : String
  certificateIssuer : String
  certificateSubject : String
  /-- The time that the dictionary gives. -/
  signingTime : Option ZonedTime
  verdict : Verdict
  /-- The certificate in armour, if it was asked for. -/
  certificateText : Option String
deriving DecidableEq, Repr

namespace Entry

/-- Whether the signature is valid. -/
def isValid (e : Entry) : Bool := e.verdict.isValid

/-- Why the signature is invalid, in words. -/
def failureReason? (e : Entry) : Option String := e.verdict.reason?.map Reason.message

/-- An entry is valid exactly if it gives no reason. -/
theorem isValid_iff {e : Entry} : e.isValid = true ↔ e.failureReason? = none := by
  simp [isValid, failureReason?, Verdict.isValid_iff]

/-- The name of a signer. -/
def nameOf (d : SignatureDictionary) (c : Option Certificate) : String :=
  match d.name with
  | some name => if name = "" then (c.bind Certificate.commonName).getD "" else name
  | none => (c.bind Certificate.commonName).getD ""

/-- The entry for a dictionary, the certificate that was found, if any, and the
verdict. -/
def ofParts (d : SignatureDictionary) (c : Option Certificate) (withText : Bool)
    (verdict : Verdict) : Entry where
  signerName := nameOf d c
  signerEmail := (c.bind Certificate.email).getD ""
  signerRole := d.reason.getD ""
  certificateIssuer := (c.map Certificate.issuer).getD ""
  certificateSubject := (c.map Certificate.subject).getD ""
  signingTime := d.date.bind PdfDate.read?
  verdict
  certificateText := if withText then c.map Certificate.armoured else none

/-- The entry as JSON. -/
def json (e : Entry) : Json :=
  .object <|
    [("signer_name", .string e.signerName),
      ("signer_email", .string e.signerEmail),
      ("signer_role", .string e.signerRole),
      ("certificate_issuer", .string e.certificateIssuer),
      ("certificate_subject", .string e.certificateSubject),
      ("signing_time", Json.ofOption (e.signingTime.map ZonedTime.textOrZulu)),
      ("is_valid", .bool e.isValid)] ++
    match e.failureReason? with
    | some reason => [("failure_reason", .string reason)]
    | none => []

/-- A summary of the entry as JSON, to be stored beside it. -/
def details (e : Entry) : Json :=
  .object
    [("is_valid", .bool e.isValid),
      ("failure_reason", .string (e.failureReason?.getD "")),
      ("certificate_issuer", .string e.certificateIssuer),
      ("certificate_subject", .string e.certificateSubject)]

end Entry

/-! ## Reports -/

/-- What a verification tells about a document. -/
structure Report where
  /-- One entry for each signature that was looked at, in order. -/
  entries : List Entry
deriving DecidableEq, Repr

namespace Report

/-- Whether every signature is valid; so it is if there is none. -/
def allValid (r : Report) : Bool := r.entries.all Entry.isValid

/-- The number of signatures. -/
def signedCount (r : Report) : Nat := r.entries.length

/-- Whether there is a signature. -/
def isSigned (r : Report) : Bool := 0 < r.signedCount

/-- The entries of invalid signatures. -/
def invalid (r : Report) : List Entry := r.entries.filter fun e => !e.isValid

/-- The members of the report, without the time of verification. -/
def members (r : Report) : List (String × Json) :=
  [("signatures", .array (r.entries.map Entry.json)),
    ("all_valid", .bool r.allValid),
    ("signed_count", .number r.signedCount)]

/-- The report as JSON, with the text of the time of verification. -/
def json (r : Report) (verifiedAt : String) : Json :=
  .object (r.members ++ [("verified_at", .string verifiedAt)])

end Report

end Verification

end SignedPdf
