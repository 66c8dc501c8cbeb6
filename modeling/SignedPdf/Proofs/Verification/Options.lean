import SignedPdf.Proofs.Verification.Records

/-!
# What options change

Each option has its own place in a verification: one limit may keep a document
from being looked into, the other one ends the list of dictionaries, and the
option for certificates fills in one field of an entry. Beyond that none of them
changes anything.

* `Verifier.run_withMaxInputSize`: a limit on the size refuses a document or is as good as
  none.
* `Verifier.map_report_run`: what can be told from a report is settled by the checks and by
  the dictionaries that are looked at.
* `Verifier.run_withCertificates`: reports with and without certificates.
* `run_options_separate`: the three options, one by one.
-/

namespace SignedPdf

namespace Verification

namespace Verifier

/-! ## Verifiers with another option -/

/-- The verifier with that limit on the size of a document. -/
def withMaxInputSize (v : Verifier) (limit : Nat) : Verifier :=
  { v with options := { v.options with maxInputSize := limit } }

/-- The verifier with that limit on the number of dictionaries. -/
def withMaxSignatures (v : Verifier) (limit : Nat) : Verifier :=
  { v with options := { v.options with maxSignatures := limit } }

/-- The verifier that puts certificates into entries, or does not. -/
def withCertificates (v : Verifier) (enable : Bool) : Verifier :=
  { v with options := { v.options with includeCertificate := enable } }

variable {v : Verifier} {document : Bytes} {now : Instant}

/-! ## The size of a document -/

/-- A document that is not too large fares as if its size were not limited. -/
theorem checkInput_withMaxInputSize {limit : Nat}
    (h : ¬ TooLarge (v.withMaxInputSize limit).options document) :
    checkInput (v.withMaxInputSize limit).options document =
      checkInput (v.withMaxInputSize 0).options document := by
  have h0 : ¬ TooLarge (v.withMaxInputSize 0).options document := fun h0 => by
    simp [TooLarge, withMaxInputSize] at h0
  rw [TooLarge] at h h0
  simp only [checkInput, h, h0, if_false]

/-- A limit on the size refuses a document that is larger, and is as good as none
otherwise. -/
theorem run_withMaxInputSize (v : Verifier) (limit : Nat) (document : Bytes) (now : Instant) :
    (v.withMaxInputSize limit).run document now =
      if 0 < limit ∧ limit < document.length then .error (.tooLarge document.length limit)
      else (v.withMaxInputSize 0).run document now := by
  by_cases h : 0 < limit ∧ limit < document.length
  · rw [if_pos h]
    have hne : document ≠ [] := by
      rintro rfl
      simp at h
    exact run_eq_error_iff.2 (checkInput_of_tooLarge hne h)
  · rw [if_neg h]
    have hcheck : checkInput (v.withMaxInputSize limit).options document =
        checkInput (v.withMaxInputSize 0).options document := checkInput_withMaxInputSize h
    simp only [run, hcheck]
    rfl

/-! ## Reports -/

/-- What can be told from a report is settled by the checks and by the
dictionaries that are looked at. -/
theorem map_report_run {α : Type} (g : Report → α) (v : Verifier) (document : Bytes)
    (now : Instant) :
    (fun o => g o.report) <$> v.run document now =
      (fun _ => g ⟨(v.selected (v.scanner.scan document)).map (v.entry now)⟩) <$>
        checkInput v.options document := by
  cases hcheck : checkInput v.options document with
  | error fault =>
    rw [run_eq_error_iff.2 hcheck]
    rfl
  | ok =>
    obtain ⟨o, ho⟩ : ∃ o, v.run document now = .ok o := exists_run_eq_ok_iff.2 hcheck
    rw [ho, ← run_ok_entries ho]
    rfl

/-- A limit on the number of dictionaries keeps the first ones. -/
theorem selected_withMaxSignatures {n : Nat} (hn : 0 < n) (found : List SignatureDictionary) :
    (v.withMaxSignatures n).selected found = ((v.withMaxSignatures 0).selected found).take n := by
  rw [selected_eq, selected_eq]
  simp [withMaxSignatures, hn]

/-- A limit on the number of dictionaries keeps the first entries. -/
theorem run_withMaxSignatures {n : Nat} (hn : 0 < n) (v : Verifier) (document : Bytes)
    (now : Instant) :
    Outcome.report <$> (v.withMaxSignatures n).run document now =
      (fun o => ⟨o.report.entries.take n⟩) <$> (v.withMaxSignatures 0).run document now := by
  have hlimited := map_report_run id (v.withMaxSignatures n) document now
  have hunlimited :=
    map_report_run (fun r => Report.mk (r.entries.take n)) (v.withMaxSignatures 0) document now
  rw [selected_withMaxSignatures hn, List.map_take] at hlimited
  exact hlimited.trans hunlimited.symm

end Verifier

/-! ## Certificates in a report -/

/-- The entry without the certificate in armour. -/
def Entry.withoutText (e : Entry) : Entry := { e with certificateText := none }

/-- The report without certificates. -/
def Report.withoutTexts (r : Report) : Report := ⟨r.entries.map Entry.withoutText⟩

/-- As JSON a report is the same without certificates. -/
theorem Report.json_withoutTexts (r : Report) (verifiedAt : String) :
    r.withoutTexts.json verifiedAt = r.json verifiedAt := by
  have hentries : r.withoutTexts.entries.map Entry.json = r.entries.map Entry.json := by
    rw [withoutTexts, List.map_map]
    rfl
  have hvalid : r.withoutTexts.allValid = r.allValid := by
    rw [allValid, withoutTexts, List.all_map]
    rfl
  have hcount : r.withoutTexts.signedCount = r.signedCount := List.length_map ..
  simp only [json, members, hentries, hvalid, hcount]

/-- So is the summary of each entry. -/
theorem Report.details_withoutTexts (r : Report) :
    r.withoutTexts.entries.map Entry.details = r.entries.map Entry.details := by
  rw [withoutTexts, List.map_map]
  rfl

/-- A report that is to hold no certificates is otherwise the one that holds
them. -/
theorem Verifier.run_withCertificates (v : Verifier) (document : Bytes) (now : Instant) :
    Outcome.report <$> (v.withCertificates false).run document now =
      (fun o => o.report.withoutTexts) <$> (v.withCertificates true).run document now := by
  have hwithout := map_report_run id (v.withCertificates false) document now
  have hwith := map_report_run Report.withoutTexts (v.withCertificates true) document now
  rw [Report.withoutTexts, List.map_map] at hwith
  exact hwithout.trans hwith.symm

/-! ## All options -/

/-- **Options keep to themselves.** A limit on the size of documents refuses a
document that is larger, and the verification of any other one, with all that is
told about it, is the same as without this limit. A limit `n` on the number of
dictionaries leaves the first `n` entries of the report without this limit, all of
them if there are fewer, and the report counts and judges these entries. Entries
without certificates are those with certificates, cleared of these, so that the
report reads the same as JSON, and so does the summary of each entry. -/
theorem run_options_separate (v : Verifier) (document : Bytes) (now : Instant) :
    (∀ limit, (v.withMaxInputSize limit).run document now =
      if 0 < limit ∧ limit < document.length then .error (.tooLarge document.length limit)
      else (v.withMaxInputSize 0).run document now) ∧
    (∀ n, 0 < n →
      (fun o => (o.report.entries, o.report.allValid, o.report.signedCount)) <$>
          (v.withMaxSignatures n).run document now =
        (fun o => (o.report.entries.take n, (o.report.entries.take n).all Entry.isValid,
            min n o.report.entries.length)) <$> (v.withMaxSignatures 0).run document now) ∧
    (fun o => o.report.entries) <$> (v.withCertificates false).run document now =
      (fun o => o.report.entries.map fun e => { e with certificateText := none }) <$>
        (v.withCertificates true).run document now ∧
    (∀ verifiedAt,
      (fun o => o.report.json verifiedAt) <$> (v.withCertificates false).run document now =
        (fun o => o.report.json verifiedAt) <$> (v.withCertificates true).run document now) ∧
    (fun o => o.report.entries.map Entry.details) <$>
        (v.withCertificates false).run document now =
      (fun o => o.report.entries.map Entry.details) <$>
        (v.withCertificates true).run document now := by
  have hcertificates := v.run_withCertificates document now
  refine ⟨fun limit => v.run_withMaxInputSize limit document now, ?_, ?_, ?_, ?_⟩
  · intro n hn
    have h := congrArg (fun x => (fun r => (r.entries, r.allValid, r.signedCount)) <$> x)
      (Verifier.run_withMaxSignatures hn v document now)
    simpa only [Functor.map_map, Report.allValid, Report.signedCount, List.length_take] using h
  · have h := congrArg (fun x => Report.entries <$> x) hcertificates
    rw [Functor.map_map, Functor.map_map] at h
    exact h
  · intro verifiedAt
    have h := congrArg (fun x => (fun r => Report.json r verifiedAt) <$> x) hcertificates
    simpa only [Functor.map_map, Report.json_withoutTexts] using h
  · have h := congrArg (fun x => (fun r => r.entries.map Entry.details) <$> x) hcertificates
    simpa only [Functor.map_map, Report.details_withoutTexts] using h

/-- A verifier that finds two dictionaries in every document. -/
def optionsSample : Verifier where
  anchors := .empty
  scanner := .fixed [{ name := some "A" }, { name := some "B", contents := "00" }]

/-- Of two entries a limit of one leaves the first. -/
theorem run_options_separate_sample :
    ∃ o o', (optionsSample.withMaxSignatures 1).run documentMark ⟨0, 0⟩ = .ok o ∧
      (optionsSample.withMaxSignatures 0).run documentMark ⟨0, 0⟩ = .ok o' ∧
      o'.report.signedCount = 2 ∧ o.report.signedCount = 1 ∧
      o.report.entries = o'.report.entries.take 1 := by
  obtain ⟨_, hlimit, _⟩ := run_options_separate optionsSample documentMark ⟨0, 0⟩
  have hlimited : (optionsSample.withMaxSignatures 1).run documentMark ⟨0, 0⟩ = .ok _ := rfl
  have hunlimited : (optionsSample.withMaxSignatures 0).run documentMark ⟨0, 0⟩ = .ok _ := rfl
  have h := hlimit 1 (by decide)
  rw [hlimited, hunlimited] at h
  have hfields := Except.ok.inj h
  exact ⟨_, _, hlimited, hunlimited, rfl, congrArg (fun p => p.2.2) hfields,
    congrArg Prod.fst hfields⟩

end Verification

end SignedPdf
