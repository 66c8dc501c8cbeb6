import SignedPdf.Proofs.Verification.Stages

/-!
# Reports as records

A report can be drawn up as one record for each dictionary, that is filled in
while the dictionary is examined. A record holds a flag and a reason beside each
other, and to begin with it is invalid for the reason that nothing is known yet.
Every way through the stages ends with a verdict, which sets both.

* `Record.ofDictionary` fills in a record; nothing but its arguments has a part
  in this.
* `record_entry`: the entry of a dictionary tells what the record does.
* `Record.paired_ofDictionary` and `Record.wording_ofDictionary`: in the end the
  flag goes with the reason, and the reason is a final one.
* `run_records`: what a verification comes to, for every document.
-/

namespace SignedPdf

namespace Verification

open Extraction (Strategy)

/-! ## Records -/

/-- What a report tells about a signature, with flag and reason beside each
other. -/
structure Record where
  signerName : String
  signerEmail : String := ""
  signerRole : String
  certificateIssuer : String := ""
  certificateSubject : String := ""
  signingTime : Option ZonedTime
  isValid : Bool
  failureReason : Option String
  certificateText : Option String := none
deriving DecidableEq, Repr

namespace Record

/-- The reason in a record before there is a verdict. -/
def notVerified : String := "signature not verified"

/-- The record of a dictionary before its signature is looked at. -/
def start (d : SignatureDictionary) : Record where
  signerName := d.name.getD ""
  signerRole := d.reason.getD ""
  signingTime := d.date.bind PdfDate.read?
  isValid := false
  failureReason := some notVerified

/-- Fills in what the certificate of the signer tells. -/
def addCertificate (r : Record) (c : Certificate) (withText : Bool) : Record :=
  { r with
    signerName := if r.signerName = "" then c.commonName.getD "" else r.signerName
    signerEmail := c.email.getD ""
    certificateIssuer := c.issuer
    certificateSubject := c.subject
    certificateText := if withText then some c.armoured else r.certificateText }

/-- The signature is invalid. -/
def invalidate (r : Record) (reason : String) : Record :=
  { r with isValid := false, failureReason := some reason }

/-- The signature is valid. -/
def validate (r : Record) : Record := { r with isValid := true, failureReason := none }

/-- The record of a dictionary, filled in stage by stage. -/
def ofDictionary (strategies : List Strategy) (anchors : Anchors) (withText : Bool) (now : Instant)
    (d : SignatureDictionary) : Record :=
  let r := start d
  if d.contents = "" then r.invalidate "no /Contents found in signature dictionary"
  else
    match Hex.decode d.contents with
    | .ok (b :: bs) =>
      match Extraction.extract strategies (b :: bs) with
      | .error failure => r.invalidate ("certificate extraction failed: " ++ failure.message)
      | .ok c =>
        let r := r.addCertificate c withText
        match Chain.validate c anchors now with
        | .ok _ => r.validate
        | .error fault =>
          r.invalidate ("certificate chain validation failed: " ++ fault.message)
    | _ => r.invalidate "could not decode signature contents"

/-! ## Flag and reason -/

/-- The wordings of a reason that is final. -/
inductive Wording : String → Prop
  | noContents : Wording "no /Contents found in signature dictionary"
  | undecodable : Wording "could not decode signature contents"
  | noCertificate (text : String) : Wording ("certificate extraction failed: " ++ text)
  | untrusted (text : String) : Wording ("certificate chain validation failed: " ++ text)

/-- The reason that a record starts with is not final. -/
theorem Wording.ne_notVerified {reason : String} (h : Wording reason) : reason ≠ notVerified := by
  intro heq
  have hchars := congrArg String.toList heq
  cases h with
  | noContents => simp [notVerified] at hchars
  | undecodable => simp [notVerified] at hchars
  | noCertificate text => simp [notVerified] at hchars
  | untrusted text => simp [notVerified] at hchars

/-- The record has got a verdict. -/
inductive Settled : Record → Prop
  | valid (r : Record) : Settled r.validate
  | invalid (r : Record) {reason : String} (h : Wording reason) : Settled (r.invalidate reason)

/-- Flag and reason go together in the end: there is a reason exactly if the
signature is invalid. -/
theorem Settled.isValid_iff {r : Record} (h : r.Settled) :
    r.isValid = true ↔ r.failureReason = none := by
  cases h with
  | valid r => simp [validate]
  | invalid r h => simp [invalidate]

/-- The reason is a final one. -/
theorem Settled.wording {r : Record} (h : r.Settled) {reason : String}
    (hreason : r.failureReason = some reason) : Wording reason := by
  cases h with
  | valid r => cases hreason
  | invalid r h =>
    cases hreason
    exact h

/-- Every way through the stages ends with a verdict. -/
theorem settled_ofDictionary (strategies : List Strategy) (anchors : Anchors) (withText : Bool)
    (now : Instant) (d : SignatureDictionary) :
    (ofDictionary strategies anchors withText now d).Settled := by
  unfold ofDictionary
  by_cases hd : d.contents = ""
  · rw [if_pos hd]
    exact .invalid _ .noContents
  rw [if_neg hd]
  split
  · next b bs _ =>
    split
    · exact .invalid _ (.noCertificate _)
    · next c _ =>
      dsimp only
      split
      · exact .valid _
      · exact .invalid _ (.untrusted _)
  · exact .invalid _ .undecodable

end Record

/-! ## Entries -/

/-- What an entry tells. -/
def Entry.record (e : Entry) : Record where
  signerName := e.signerName
  signerEmail := e.signerEmail
  signerRole := e.signerRole
  certificateIssuer := e.certificateIssuer
  certificateSubject := e.certificateSubject
  signingTime := e.signingTime
  isValid := e.isValid
  failureReason := e.failureReason?
  certificateText := e.certificateText

variable {v : Verifier} {now : Instant} {d : SignatureDictionary}

/-- An entry without a certificate tells what the dictionary does. -/
theorem record_ofParts_none (d : SignatureDictionary) (withText : Bool) (reason : Reason) :
    (Entry.ofParts d none withText (.invalid reason)).record =
      (Record.start d).invalidate reason.message := by
  have hname : Entry.nameOf d none = d.name.getD "" := by
    rw [nameOf_eq]
    by_cases hd : d.name.getD "" = ""
    · simp [hd]
    · simp [hd]
  cases withText <;> simp [Entry.record, Entry.ofParts, hname, Record.invalidate, Record.start,
    Entry.isValid, Entry.failureReason?, Verdict.isValid, Verdict.reason?]

/-- A certificate fills in the same fields of an entry as of a record. -/
theorem record_ofParts_some (d : SignatureDictionary) (c : Certificate) (withText : Bool)
    (verdict : Verdict) :
    (Entry.ofParts d (some c) withText verdict).record =
      { (Record.start d).addCertificate c withText with
        isValid := verdict.isValid
        failureReason := verdict.reason?.map Reason.message } := by
  by_cases hd : d.name.getD "" = ""
  · simp [Entry.record, Entry.ofParts, nameOf_eq, hd, Record.addCertificate, Record.start,
      Entry.isValid, Entry.failureReason?]
  · simp [Entry.record, Entry.ofParts, nameOf_eq, hd, Record.addCertificate, Record.start,
      Entry.isValid, Entry.failureReason?]

/-- The entry of a dictionary tells what its record does. -/
theorem record_entry (v : Verifier) (now : Instant) (d : SignatureDictionary) :
    (v.entry now d).record =
      Record.ofDictionary v.strategies v.anchors v.options.includeCertificate now d := by
  unfold Verifier.entry Verifier.entryOf Verifier.examine contentsOf Record.ofDictionary
  by_cases hd : d.contents = ""
  · simp only [hd, if_true]
    exact record_ofParts_none d _ .noContents
  simp only [hd, if_false]
  cases hdecode : Hex.decode d.contents with
  | error fault => exact record_ofParts_none d _ .undecodable
  | ok blob =>
    cases blob with
    | nil => exact record_ofParts_none d _ .undecodable
    | cons b bs =>
      simp only [Verifier.examineContents, Extraction.extract]
      cases Extraction.Trail.result (Extraction.attempt v.strategies (b :: bs)) with
      | error failure => exact record_ofParts_none d _ (.extraction failure)
      | ok c =>
        simp only
        cases Chain.validate c v.anchors now with
        | ok trust => exact record_ofParts_some d c _ .valid
        | error fault => exact record_ofParts_some d c _ (.invalid (.chain fault))

/-! ## Documents that are refused -/

variable {options : Options} {document : Bytes}

/-- The document is larger than the options allow. -/
def TooLarge (options : Options) (document : Bytes) : Prop :=
  0 < options.maxInputSize ∧ options.maxInputSize < document.length

theorem checkInput_of_tooLarge (hne : document ≠ []) (h : TooLarge options document) :
    checkInput options document = .error (.tooLarge document.length options.maxInputSize) := by
  have hlength : ¬ document.length = 0 := mt List.length_eq_zero_iff.1 hne
  rw [TooLarge] at h
  simp only [checkInput, hlength, h, if_false, if_true, and_self]

theorem checkInput_of_unmarked (hne : document ≠ []) (h : ¬ TooLarge options document)
    (hmark : ¬ documentMark <+: document) : checkInput options document = .error .notAPdf := by
  have hlength : ¬ document.length = 0 := mt List.length_eq_zero_iff.1 hne
  rw [TooLarge] at h
  simp only [checkInput, hlength, h, if_false, Bytes.startsWith_iff, hmark]

theorem checkInput_of_marked (hne : document ≠ []) (h : ¬ TooLarge options document)
    (hmark : documentMark <+: document) : checkInput options document = .ok () := by
  have hlength : ¬ document.length = 0 := mt List.length_eq_zero_iff.1 hne
  rw [TooLarge] at h
  simp only [checkInput, hlength, h, if_false, Bytes.startsWith_iff, hmark, if_true]

/-! ## The whole verification -/

theorem selected_eq (v : Verifier) (found : List SignatureDictionary) :
    v.selected found =
      if 0 < v.options.maxSignatures then found.take v.options.maxSignatures else found := by
  unfold Verifier.selected
  by_cases hlimit : v.options.maxSignatures = 0
  · simp [hlimit]
  · simp [hlimit, Nat.pos_of_ne_zero hlimit]

/-- The entries of a report tell what the records of the dictionaries that are
looked at do. -/
theorem map_record_run {o : Verifier.Outcome} (h : v.run document now = .ok o) :
    o.report.entries.map Entry.record =
      (v.selected (v.scanner.scan document)).map
        (Record.ofDictionary v.strategies v.anchors v.options.includeCertificate now) := by
  rw [Verifier.run_ok_entries h, List.map_map]
  refine List.map_congr_left fun d _ => ?_
  exact record_entry v now d

theorem settled_record_of_mem_run {o : Verifier.Outcome} (h : v.run document now = .ok o)
    {e : Entry} (he : e ∈ o.report.entries) : e.record.Settled := by
  rw [Verifier.run_ok_entries h] at he
  obtain ⟨d, _, rfl⟩ := List.mem_map.1 he
  rw [record_entry]
  exact Record.settled_ofDictionary ..

/-- **What a verification comes to.** An empty document is refused, else one that
is too large, else one without the mark of a PDF document; every other document
gets a report. Its entries are the records of the dictionaries that the scanner
finds, in order and up to the limit, each filled in from its dictionary, the
strategies, the anchors, the instant and the option for certificates alone. The
report counts its entries and is valid if all of them are, and an entry is valid
exactly if it has no reason; a reason that it has is a final one. -/
theorem run_records (v : Verifier) (document : Bytes) (now : Instant) :
    (document = [] → v.run document now = .error .empty) ∧
    (document ≠ [] → TooLarge v.options document →
      v.run document now = .error (.tooLarge document.length v.options.maxInputSize)) ∧
    (document ≠ [] → ¬ TooLarge v.options document → ¬ Bytes.ofText "%PDF" <+: document →
      v.run document now = .error .notAPdf) ∧
    (document ≠ [] → ¬ TooLarge v.options document → Bytes.ofText "%PDF" <+: document →
      ∃ o, v.run document now = .ok o ∧
        o.report.entries.map Entry.record =
          (if 0 < v.options.maxSignatures then
            (v.scanner.scan document).take v.options.maxSignatures
          else v.scanner.scan document).map
            (Record.ofDictionary v.strategies v.anchors v.options.includeCertificate now) ∧
        o.report.signedCount = o.report.entries.length ∧
        (o.report.allValid = true ↔ ∀ e ∈ o.report.entries, e.isValid = true) ∧
        ∀ e ∈ o.report.entries, (e.isValid = true ↔ e.failureReason? = none) ∧
          ∀ reason, e.failureReason? = some reason →
            Record.Wording reason ∧ reason ≠ "signature not verified") := by
  refine ⟨?_, ?_, ?_, ?_⟩
  · rintro rfl
    exact Verifier.run_eq_error_iff.2 rfl
  · intro hne hlarge
    exact Verifier.run_eq_error_iff.2 (checkInput_of_tooLarge hne hlarge)
  · intro hne hlarge hmark
    exact Verifier.run_eq_error_iff.2 (checkInput_of_unmarked hne hlarge hmark)
  · intro hne hlarge hmark
    obtain ⟨o, ho⟩ : ∃ o, v.run document now = .ok o :=
      Verifier.exists_run_eq_ok_iff.2 (checkInput_of_marked hne hlarge hmark)
    refine ⟨o, ho, ?_, rfl, List.all_eq_true, fun e he => ?_⟩
    · rw [map_record_run ho, selected_eq]
    · have hsettled : e.record.Settled := settled_record_of_mem_run ho he
      refine ⟨hsettled.isValid_iff, fun reason hreason => ?_⟩
      have hwording : Record.Wording reason := hsettled.wording hreason
      exact ⟨hwording, hwording.ne_notVerified⟩

/-- A verifier with limits that finds two dictionaries in every document, of which
the first holds no signature. -/
def limitedSample : Verifier where
  anchors := .empty
  options := { maxInputSize := 8, maxSignatures := 1 }
  scanner := .fixed [{ name := some "A" }, { contents := "00" }]

/-- A document of each kind; of the two dictionaries one is looked at. -/
theorem run_records_sample :
    limitedSample.run [] ⟨0, 0⟩ = .error .empty ∧
      limitedSample.run (Bytes.ofText "%PDF-1.70") ⟨0, 0⟩ = .error (.tooLarge 9 8) ∧
      limitedSample.run (Bytes.ofText "PDF-1.7") ⟨0, 0⟩ = .error .notAPdf ∧
      ∃ o, limitedSample.run (Bytes.ofText "%PDF-1.7") ⟨0, 0⟩ = .ok o ∧
        o.report.entries.map Entry.record =
          [(Record.start { name := some "A" }).invalidate
            "no /Contents found in signature dictionary"] := by
  obtain ⟨_, _, _, hreport⟩ := run_records limitedSample (Bytes.ofText "%PDF-1.7") ⟨0, 0⟩
  obtain ⟨o, ho, hrecords, _⟩ :=
    hreport (by decide) (fun h => absurd h.2 (by decide)) (by decide)
  refine ⟨(run_records limitedSample [] ⟨0, 0⟩).1 rfl, ?_, ?_, o, ho, hrecords⟩
  · exact (run_records limitedSample _ ⟨0, 0⟩).2.1 (by decide) ⟨by decide, by decide⟩
  · exact (run_records limitedSample _ ⟨0, 0⟩).2.2.1 (by decide)
      (fun h => absurd h.2 (by decide)) (by decide)

end Verification

end SignedPdf
