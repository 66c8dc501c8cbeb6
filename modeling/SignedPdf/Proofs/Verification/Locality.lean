import SignedPdf.Proofs.Markers
import SignedPdf.Verification

/-!
# What a report owes to a document

Once a document has passed the checks, a verification sees nothing of it but the
dictionaries that the scanner finds. If dictionaries are found by their markers,
these are settled by the windows: neither the offsets of the windows nor what
stands outside of them has a part in the report.

* `exists_run_of_scan_eq`: documents with the same dictionaries get the same
  report.
* `scan_windows`: which windows there are, and that they settle the report.
-/

namespace SignedPdf

namespace Verification

open SignatureDictionary (StartsMarker markerAt? markers windows)

variable {v : Verifier} {document other : Bytes}

/-- Documents in which a verifier finds the same dictionaries get the same
report. -/
theorem exists_run_of_scan_eq (hscan : v.scanner.scan other = v.scanner.scan document)
    (hdocument : checkInput v.options document = .ok ())
    (hother : checkInput v.options other = .ok ()) (now : Instant) :
    ∃ o o', v.run document now = .ok o ∧ v.run other now = .ok o' ∧ o'.report = o.report := by
  obtain ⟨o, ho⟩ : ∃ o, v.run document now = .ok o := Verifier.exists_run_eq_ok_iff.2 hdocument
  obtain ⟨o', ho'⟩ : ∃ o', v.run other now = .ok o' := Verifier.exists_run_eq_ok_iff.2 hother
  have hentries : o'.report.entries = o.report.entries := by
    rw [Verifier.run_ok_entries ho', Verifier.run_ok_entries ho, hscan]
  refine ⟨o, o', ho, ho', ?_⟩
  show Report.mk o'.report.entries = Report.mk o.report.entries
  rw [hentries]

theorem scan_textual (document : Bytes) :
    Scanner.textual.scan document = (windows document).map SignatureDictionary.ofWindow :=
  SignatureDictionary.dictionaries_eq document

/-- **A scan finds every marker, and a report owes nothing else to a document.**
Markers are found one after the other, each as the leftmost one that starts where
the one before has ended or later. This misses none: the offsets that are found,
in increasing order, are exactly those at which `/Type`, any number of blanks and
`/Sig` follow each other. There is one dictionary for each of them, with the
entries of the window that starts there and ends after 4096 octets or with the
document, be it within the marker. Documents that pass the checks and have the
same windows get the same entries and the same verdict. -/
theorem scan_windows (document : Bytes) :
    (∀ p size, Search.first? markerAt? document = some (p, size) →
      markers document = p :: (markers (document.drop (p + size))).map (p + size + ·)) ∧
    (Search.first? markerAt? document = none → markers document = []) ∧
    (markers document).Pairwise (· < ·) ∧
    (∀ p, p ∈ markers document ↔ StartsMarker (document.drop p)) ∧
    windows document =
      (markers document).map (fun p => document.extract p (min (p + 4096) document.length)) ∧
    Scanner.textual.scan document = (windows document).map SignatureDictionary.ofWindow ∧
    ∀ (v : Verifier) (other : Bytes) (now : Instant), v.scanner = .textual →
      windows other = windows document →
      checkInput v.options document = .ok () → checkInput v.options other = .ok () →
      ∃ o o', v.run document now = .ok o ∧ v.run other now = .ok o' ∧
        o'.report.entries = o.report.entries ∧ o'.report.allValid = o.report.allValid ∧
        o'.report.signedCount = o.report.signedCount := by
  refine ⟨fun p size => SignatureDictionary.markers_of_first?_eq_some,
    SignatureDictionary.markers_of_first?_eq_none, SignatureDictionary.pairwise_markers document,
    fun p => SignatureDictionary.mem_markers_iff, SignatureDictionary.windows_eq document,
    scan_textual document, ?_⟩
  intro v other now hscanner hwindows hdocument hother
  have hscan : v.scanner.scan other = v.scanner.scan document := by
    rw [hscanner, scan_textual, scan_textual, hwindows]
  obtain ⟨o, o', ho, ho', hreport⟩ := exists_run_of_scan_eq hscan hdocument hother now
  refine ⟨o, o', ho, ho', ?_⟩
  rw [hreport]
  exact ⟨rfl, rfl, rfl⟩

/-- Two documents with one marker each, at different offsets. -/
theorem scan_windows_sample :
    windows (Bytes.ofText "%PDF /Type /Sig") = windows (Bytes.ofText "%PDF-1.7 /Type /Sig") ∧
      ∃ o o', ({ anchors := .empty } : Verifier).run (Bytes.ofText "%PDF-1.7 /Type /Sig") ⟨0, 0⟩ =
          .ok o ∧
        ({ anchors := .empty } : Verifier).run (Bytes.ofText "%PDF /Type /Sig") ⟨0, 0⟩ = .ok o' ∧
        o'.report.entries = o.report.entries := by
  have hwindows : windows (Bytes.ofText "%PDF /Type /Sig") =
      windows (Bytes.ofText "%PDF-1.7 /Type /Sig") := by decide
  obtain ⟨_, _, _, _, _, _, hlocal⟩ := scan_windows (Bytes.ofText "%PDF-1.7 /Type /Sig")
  obtain ⟨o, o', ho, ho', hentries, _⟩ :=
    hlocal { anchors := .empty } _ ⟨0, 0⟩ rfl hwindows rfl rfl
  exact ⟨hwindows, o, o', ho, ho', hentries⟩

end Verification

end SignedPdf
