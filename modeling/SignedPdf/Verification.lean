import SignedPdf.Dictionary.Scan
import SignedPdf.Verification.Report

/-!
# Verifying the signatures of a document

A verifier finds the signature dictionaries of a document, takes from each the
certificate of the signer, and checks that it is trusted. Nothing that is
wrong with one signature affects another one.

* `run_eq_error_iff`: only the document itself can keep a verification from
  giving a report, and the first of three checks that fails tells why.
* `run_ok_entries`: the entries of a report belong one by one to the
  dictionaries that are looked at.
-/

namespace SignedPdf

namespace Verification

/-! ## Options -/

/-- How a verification is done; a limit of zero is none. -/
structure Options where
  /-- The largest document, in octets. -/
  maxInputSize : Nat := 0
  /-- How many dictionaries are looked at. -/
  maxSignatures : Nat := 0
  /-- Whether entries hold certificates in armour. -/
  includeCertificate : Bool := false
deriving DecidableEq, Repr

/-! ## Documents that are refused -/

/-- Why a document is refused. -/
inductive InputFault where
  | empty
  | notAPdf
  | tooLarge (size limit : Nat)
deriving DecidableEq, Repr

/-- The fault in words. -/
def InputFault.message : InputFault → String
  | .empty => "PDF content is empty"
  | .notAPdf => "content does not appear to be a valid PDF"
  | .tooLarge size limit =>
    "PDF content is " ++ toString size ++ " bytes, exceeding the limit of " ++ toString limit ++
      " bytes"

/-- What a document starts with. -/
def documentMark : Bytes := Bytes.ofText "%PDF"

/-- Checks a document before it is looked into. -/
def checkInput (options : Options) (document : Bytes) : Except InputFault Unit :=
  let size := document.length
  if size = 0 then .error .empty
  else if 0 < options.maxInputSize ∧ options.maxInputSize < size then
    .error (.tooLarge size options.maxInputSize)
  else if Bytes.startsWith documentMark document then .ok ()
  else .error .notAPdf

/-! ## Verifiers -/

/-- All that decides how a document is verified. -/
structure Verifier where
  anchors : Anchors
  options : Options := {}
  scanner : Scanner := .textual
  strategies : List Extraction.Strategy := Extraction.Strategy.standard

/-- What was found out about a signature. -/
structure Examination where
  /-- The certificate of the signer, if it was found. -/
  certificate : Option Certificate
  verdict : Verdict
  events : List Event
deriving DecidableEq, Repr

/-- The octets of a signature; there is at least one. -/
def contentsOf (d : SignatureDictionary) : Except Reason Bytes :=
  if d.contents = "" then .error .noContents
  else
    match Hex.decode d.contents with
    | .ok (b :: bs) => .ok (b :: bs)
    | _ => .error .undecodable

namespace Verifier

/-- Finds the certificate in the octets of a signature and validates it. -/
def examineContents (v : Verifier) (now : Instant) (blob : Bytes) : Examination :=
  let trail := Extraction.attempt v.strategies blob
  match Extraction.Trail.result trail with
  | .error failure => ⟨none, .invalid (.extraction failure), Extraction.Trail.events trail⟩
  | .ok c =>
    match Chain.validate c v.anchors now with
    | .ok trust => ⟨some c, .valid, Extraction.Trail.events trail ++ [trust.event]⟩
    | .error fault => ⟨some c, .invalid (.chain fault), Extraction.Trail.events trail⟩

/-- Examines the signature of a dictionary. -/
def examine (v : Verifier) (now : Instant) (d : SignatureDictionary) : Examination :=
  match contentsOf d with
  | .error reason => ⟨none, .invalid reason, []⟩
  | .ok blob => v.examineContents now blob

/-- The entry for an examined dictionary. -/
def entryOf (v : Verifier) (d : SignatureDictionary) (x : Examination) : Entry :=
  .ofParts d x.certificate v.options.includeCertificate x.verdict

/-- The entry for a dictionary. -/
def entry (v : Verifier) (now : Instant) (d : SignatureDictionary) : Entry :=
  v.entryOf d (v.examine now d)

/-- The dictionaries that are looked at. -/
def selected (v : Verifier) (found : List SignatureDictionary) : List SignatureDictionary :=
  if v.options.maxSignatures = 0 then found else found.take v.options.maxSignatures

/-- The event that dictionaries are not looked at, if so it is. -/
def selectionEvents (v : Verifier) (found : List SignatureDictionary) : List Event :=
  let limit := v.options.maxSignatures
  if limit ≠ 0 ∧ limit < found.length then [.dictionariesSkipped found.length limit] else []

/-- The events of an examined signature with its number, counted from zero. -/
def examinationEvents (x : Examination × Nat) : List Event :=
  x.1.events ++
    match x.1.verdict with
    | .valid => []
    | .invalid reason => [.signatureInvalid (x.2 + 1) reason.message]

/-- A report, and what there is to tell about how it came about. -/
structure Outcome where
  report : Report
  events : List Event
deriving DecidableEq, Repr

/-- Verifies the signatures of a document at an instant. -/
def run (v : Verifier) (document : Bytes) (now : Instant) : Except InputFault Outcome := do
  checkInput v.options document
  let found := v.scanner.scan document
  let examined := (v.selected found).map fun d => (d, v.examine now d)
  let report : Report := ⟨examined.map fun p => v.entryOf p.1 p.2⟩
  return ⟨report,
    v.scanner.events document ++ v.selectionEvents found ++
      (examined.map Prod.snd).zipIdx.flatMap examinationEvents ++
      [.verified report.signedCount v.scanner.name report.allValid]⟩

/-! ## What a run gives -/

/-- A document is refused exactly if a check fails. -/
theorem run_eq_error_iff {v : Verifier} {document : Bytes} {now : Instant} {fault : InputFault} :
    v.run document now = .error fault ↔ checkInput v.options document = .error fault := by
  simp only [run, bind, Except.bind]
  split
  · next h => simp [h]
  · next h =>
    simp only [h, reduceCtorEq, iff_false]
    intro hr
    cases hr

/-- A document that passes the checks gets a report, and no other one does. -/
theorem exists_run_eq_ok_iff {v : Verifier} {document : Bytes} {now : Instant} :
    (∃ o, v.run document now = .ok o) ↔ checkInput v.options document = .ok () := by
  simp only [run, bind_eq_ok_iff]
  constructor
  · rintro ⟨_, _, hcheck, _⟩
    exact hcheck
  · intro hcheck
    exact ⟨_, (), hcheck, rfl⟩

/-- The entries of a report belong one by one to the dictionaries that are
looked at. -/
theorem run_ok_entries {v : Verifier} {document : Bytes} {now : Instant} {o : Outcome}
    (h : v.run document now = .ok o) :
    o.report.entries = (v.selected (v.scanner.scan document)).map (v.entry now) := by
  simp only [run, bind_eq_ok_iff] at h
  obtain ⟨_, _, h⟩ := h
  cases h
  simp [entry, Function.comp_def]

end Verifier

end Verification

end SignedPdf
