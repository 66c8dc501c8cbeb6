import SignedPdf.Proofs.Markers.Joined
import SignedPdf.Proofs.Verification.Records

/-!
# Documents that are updated

An update appends octets to a document. It may bring in dictionaries, even one
whose marker the document has broken off, but it leaves the entries alone that
were settled before: those of the windows that lie in the document.

* `dictionaryAt_append`: a window within the document is read in the same way.
* `run_append`: the entries after an update.
-/

namespace SignedPdf

namespace SignatureDictionary

/-- A window within a document does not see what is appended. -/
theorem dictionaryAt_append {a : Bytes} {p : Nat} (h : p + windowSize ≤ a.length) (b : Bytes) :
    dictionaryAt (a ++ b) p = dictionaryAt a p := by
  have hwindow : windowOf ((a ++ b).drop p) = windowOf (a.drop p) := by
    rw [windowOf, windowOf, List.drop_append_of_le_length (by omega),
      List.take_append_of_le_length (by rw [List.length_drop]; omega)]
  rw [dictionaryAt, dictionaryAt, hwindow]

end SignatureDictionary

namespace Verification

open SignatureDictionary

variable {v : Verifier} {a document : Bytes} {now : Instant}

/-- The more dictionaries are found, the more are looked at. -/
theorem length_selected_le (v : Verifier) {found found' : List SignatureDictionary}
    (h : found.length ≤ found'.length) :
    (v.selected found).length ≤ (v.selected found').length := by
  rw [selected_eq, selected_eq]
  split
  · rw [List.length_take, List.length_take]
    omega
  · exact h

/-- The entry with a number is that of the marker with this number, unless the
limit comes first. -/
theorem getElem?_entries {o : Verifier.Outcome} (hscanner : v.scanner = .textual)
    (h : v.run document now = .ok o) {i p : Nat} (hp : (markers document)[i]? = some p)
    (hlimit : v.options.maxSignatures = 0 ∨ i < v.options.maxSignatures) :
    o.report.entries[i]? = some (v.entry now (dictionaryAt document p)) := by
  have hfound : (v.scanner.scan document)[i]? = some (dictionaryAt document p) := by
    rw [hscanner]
    show (dictionaries document)[i]? = _
    rw [dictionaries_eq_map_markers, List.getElem?_map, hp, Option.map_some]
  have hselected : (v.selected (v.scanner.scan document))[i]? =
      (v.scanner.scan document)[i]? := by
    rw [selected_eq]
    split
    · exact List.getElem?_take_of_lt (by omega)
    · rfl
  rw [Verifier.run_ok_entries h, List.getElem?_map, hselected, hfound, Option.map_some]

/-- A document with the mark of a PDF document is refused for its size only. -/
theorem exists_run_of_marked (hlimit : v.options.maxInputSize = 0)
    (hmark : documentMark <+: document) (now : Instant) : ∃ o, v.run document now = .ok o := by
  have hne : document ≠ [] := by
    rintro rfl
    exact absurd hmark (by decide)
  have hsize : ¬ TooLarge v.options document := by
    rw [TooLarge, hlimit]
    omega
  exact Verifier.exists_run_eq_ok_iff.2 (checkInput_of_marked hne hsize hmark)

/-- **An update leaves finished entries alone.** A document with the mark of a PDF
document gets a report before and after octets are appended, if its size is not
limited, and the second one has at least as many entries. A marker of the old
document keeps its number, and if its window lies in the old document and the
limit does not come first, the entry with this number is the same in both
reports. -/
theorem run_append (hscanner : v.scanner = .textual) (hlimit : v.options.maxInputSize = 0)
    (hmark : Bytes.ofText "%PDF" <+: a) (b : Bytes) (now : Instant) :
    ∃ o o', v.run a now = .ok o ∧ v.run (a ++ b) now = .ok o' ∧
      o.report.signedCount ≤ o'.report.signedCount ∧
      ∀ i p, (markers a)[i]? = some p →
        (markers (a ++ b))[i]? = some p ∧
        (p + 4096 ≤ a.length →
          v.options.maxSignatures = 0 ∨ i < v.options.maxSignatures →
          ∃ e, o.report.entries[i]? = some e ∧ o'.report.entries[i]? = some e) := by
  obtain ⟨o, ho⟩ := exists_run_of_marked hlimit hmark now
  obtain ⟨o', ho'⟩ := exists_run_of_marked hlimit (hmark.trans (List.prefix_append a b)) now
  refine ⟨o, o', ho, ho', ?_, fun i p hp => ?_⟩
  · have hfound : (v.scanner.scan a).length ≤ (v.scanner.scan (a ++ b)).length := by
      rw [hscanner]
      show (dictionaries a).length ≤ (dictionaries (a ++ b)).length
      rw [length_dictionaries, length_dictionaries]
      exact (markers_append a b).length_le
    rw [Report.signedCount, Report.signedCount, Verifier.run_ok_entries ho,
      Verifier.run_ok_entries ho', List.length_map, List.length_map]
    exact length_selected_le v hfound
  · have hp' : (markers (a ++ b))[i]? = some p := by
      obtain ⟨late, hlate⟩ := markers_append a b
      obtain ⟨hi, _⟩ := List.getElem?_eq_some_iff.1 hp
      rw [← hlate, List.getElem?_append_left hi, hp]
    refine ⟨hp', fun hwindow hselected => ⟨_, getElem?_entries hscanner ho hp hselected, ?_⟩⟩
    rw [getElem?_entries hscanner ho' hp' hselected, dictionaryAt_append hwindow]

/-- A document with a marker, its whole window, and the beginning of a marker. -/
def updateSample : Bytes :=
  Bytes.ofText "%PDF-1.7 /Type /Sig" ++ (List.replicate 4096 0x20 ++ Bytes.ofText "/Type /S")

/-- The octets that complete the second marker do not change the first entry. -/
theorem run_append_sample :
    ∃ o o' e, ({ anchors := .empty } : Verifier).run updateSample ⟨0, 0⟩ = .ok o ∧
      ({ anchors := .empty } : Verifier).run (updateSample ++ Bytes.ofText "ig /Name (B)") ⟨0, 0⟩ =
        .ok o' ∧
      o.report.entries[0]? = some e ∧ o'.report.entries[0]? = some e := by
  have hmark : Bytes.ofText "%PDF" <+: updateSample := ⟨_, rfl⟩
  obtain ⟨o, o', ho, ho', _, hentries⟩ :=
    run_append (v := { anchors := .empty }) rfl rfl hmark (Bytes.ofText "ig /Name (B)") ⟨0, 0⟩
  have hfirst : (markers updateSample)[0]? = some 9 := by
    obtain ⟨late, hlate⟩ := markers_append (Bytes.ofText "%PDF-1.7 /Type /Sig")
      (List.replicate 4096 0x20 ++ Bytes.ofText "/Type /S")
    have hold : markers (Bytes.ofText "%PDF-1.7 /Type /Sig") = [9] := by decide
    rw [updateSample, ← hlate, hold]
    rfl
  have hlength : 9 + 4096 ≤ updateSample.length := by
    rw [updateSample, List.length_append, List.length_append, List.length_replicate]
    decide
  obtain ⟨e, he, he'⟩ := (hentries 0 9 hfirst).2 hlength (.inl rfl)
  exact ⟨o, o', e, ho, ho', he, he'⟩

end Verification

end SignedPdf
