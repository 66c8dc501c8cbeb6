import Mathlib.Data.List.ReduceOption
import SignedPdf.Proofs.Certificate
import SignedPdf.Verification

/-!
# Signers

The certificate of a signature is settled by the strategies and by what the
dictionary holds. Neither the anchors nor the instant have a part in it; these
only decide whether it is trusted.

* `signer?` is that certificate, and `Verifier.signers` those of a document.
* `verdict_examine` and `certificate_examine`: what an examination gives, seen from
  the search for the signer (`sought`).
* `isValid_entry_iff`, `failureReason?_entry` and `certificateText_entry`: what an
  entry tells.
* `isRead_of_signer?`: the certificate has been read, if the strategies give no
  others.
-/

namespace SignedPdf

/-! ## Strategies that read -/

namespace Extraction

/-- The strategy gives only certificates that have been read from some octets.
So does every strategy that is not allowed to make them up. -/
def Strategy.Reads (s : Strategy) : Prop :=
  ∀ blob f, s.find blob = .ok f → f.certificate.IsRead

namespace Strategy

theorem reads_armoured : armoured.Reads := by
  intro blob f h
  simp only [armoured] at h
  split at h
  · next offset c hfind =>
    cases h
    obtain ⟨_, bs, _, _, hc, _⟩ := Armoured.find_eq_ok_iff.1 hfind
    unfold Armoured.certificateAt at hc
    split at hc
    · cases hc
    · split at hc
      · cases hc
      · next hder =>
        cases hc
        exact Certificate.isRead_of_ofDer hder
  · cases h

theorem isRead_of_certificateAt? {short : Bool} {bs : Bytes} {p : Walk.Place} {c : Certificate}
    (h : Walk.certificateAt? short bs = some (p, c)) : c.IsRead := by
  unfold Walk.certificateAt? at h
  split at h
  · split at h
    · next hbare =>
      cases h
      exact Certificate.isRead_of_ofDer hbare
    · split at h
      · cases h
      · split at h
        · next hwrapped =>
          cases h
          exact Certificate.isRead_of_ofDer hwrapped
        · cases h
  · cases h

theorem reads_walk : walk.Reads := by
  intro blob f h
  simp only [walk] at h
  split at h
  · next hfind =>
    cases h
    exact isRead_of_certificateAt? (Walk.find?_eq_some_iff.1 hfind).2.1
  · next hfind =>
    cases h
    exact isRead_of_certificateAt? (Walk.find?_eq_some_iff.1 hfind).2.1
  · cases h

theorem reads_fixed (der : Bytes) : (fixed der).Reads := by
  intro blob f h
  simp only [fixed] at h
  split at h
  · next hder =>
    cases h
    exact Certificate.isRead_of_ofDer hder
  · cases h

/-- The strategies that are tried unless others are asked for read. -/
theorem reads_of_mem_standard {s : Strategy} (h : s ∈ standard) : s.Reads := by
  simp only [standard, List.mem_cons, List.not_mem_nil, or_false] at h
  rcases h with rfl | rfl
  · exact reads_armoured
  · exact reads_walk

end Strategy

/-- A certificate that has been extracted has been found by a strategy. -/
theorem exists_find_of_extract {strategies : List Strategy} {blob : Bytes} {c : Certificate}
    (h : extract strategies blob = .ok c) :
    ∃ s ∈ strategies, ∃ f, s.find blob = .ok f ∧ f.certificate = c := by
  unfold extract Trail.result at h
  split at h
  · next s f hfound =>
    cases h
    obtain ⟨before, after, rfl, hfind, _⟩ := Trial.found_tryEach_iff.1 hfound
    exact ⟨s, List.mem_append_right _ List.mem_cons_self, f, hfind, rfl⟩
  · cases h

end Extraction

namespace Verification

open Extraction (Strategy)

/-! ## The signer of a dictionary -/

/-- The certificate that the strategies find in what a dictionary holds. -/
def signer? (strategies : List Strategy) (d : SignatureDictionary) : Option Certificate :=
  match contentsOf d with
  | .error _ => none
  | .ok blob => (Extraction.extract strategies blob).toOption

theorem isRead_of_signer? {strategies : List Strategy} (hs : ∀ s ∈ strategies, s.Reads)
    {d : SignatureDictionary} {c : Certificate} (h : signer? strategies d = some c) :
    c.IsRead := by
  unfold signer? at h
  split at h
  · cases h
  · next blob _ =>
    cases hextract : Extraction.extract strategies blob with
    | error failure =>
      rw [hextract] at h
      cases h
    | ok c' =>
      rw [hextract] at h
      cases h
      obtain ⟨s, hmem, f, hfind, rfl⟩ := Extraction.exists_find_of_extract hextract
      exact hs s hmem blob f hfind

variable {v : Verifier} {now : Instant} {d : SignatureDictionary}

/-! ## Stages of an examination -/

/-- The certificate of the signer, or the reason why there is none. -/
def sought (strategies : List Strategy) (d : SignatureDictionary) : Except Reason Certificate :=
  match contentsOf d with
  | .error reason => .error reason
  | .ok blob =>
    match Extraction.extract strategies blob with
    | .error failure => .error (.extraction failure)
    | .ok c => .ok c

theorem toOption_sought (strategies : List Strategy) (d : SignatureDictionary) :
    (sought strategies d).toOption = signer? strategies d := by
  unfold sought signer?
  cases contentsOf d with
  | error reason => rfl
  | ok blob =>
    simp only
    cases Extraction.extract strategies blob <;> rfl

/-- The verdict: an invalid signature has no signer, or one who is not trusted. -/
theorem verdict_examine (v : Verifier) (now : Instant) (d : SignatureDictionary) :
    (v.examine now d).verdict =
      match sought v.strategies d with
      | .error reason => .invalid reason
      | .ok c =>
        match Chain.validate c v.anchors now with
        | .ok _ => .valid
        | .error fault => .invalid (.chain fault) := by
  unfold Verifier.examine sought
  cases contentsOf d with
  | error reason => rfl
  | ok blob =>
    simp only [Verifier.examineContents, Extraction.extract]
    cases Extraction.Trail.result (Extraction.attempt v.strategies blob) with
    | error failure => rfl
    | ok c =>
      simp only
      cases Chain.validate c v.anchors now <;> rfl

theorem certificate_examine (v : Verifier) (now : Instant) (d : SignatureDictionary) :
    (v.examine now d).certificate = signer? v.strategies d := by
  unfold Verifier.examine signer?
  cases contentsOf d with
  | error reason => rfl
  | ok blob =>
    simp only [Verifier.examineContents, Extraction.extract]
    cases Extraction.Trail.result (Extraction.attempt v.strategies blob) with
    | error failure => rfl
    | ok c =>
      simp only
      cases Chain.validate c v.anchors now <;> rfl

/-! ## What an entry tells -/

/-- An entry is valid exactly if there is a signer whose certificate is
trusted. -/
theorem isValid_entry_iff :
    (v.entry now d).isValid = true ↔
      ∃ c, signer? v.strategies d = some c ∧ ∃ trust, Chain.validate c v.anchors now = .ok trust := by
  show (v.examine now d).verdict.isValid = true ↔ _
  rw [verdict_examine, ← toOption_sought]
  cases sought v.strategies d with
  | error reason => simp [Verdict.isValid, Except.toOption]
  | ok c => cases hvalidate : Chain.validate c v.anchors now <;>
      simp [hvalidate, Verdict.isValid, Except.toOption]

/-- An entry gives a reason if there is no signer, or if the signer is not
trusted. -/
theorem failureReason?_entry (v : Verifier) (now : Instant) (d : SignatureDictionary) :
    (v.entry now d).failureReason? =
      match sought v.strategies d with
      | .error reason => some reason.message
      | .ok c =>
        match Chain.validate c v.anchors now with
        | .ok _ => none
        | .error fault => some (Reason.chain fault).message := by
  show ((v.examine now d).verdict.reason?).map Reason.message = _
  rw [verdict_examine]
  cases sought v.strategies d with
  | error reason => rfl
  | ok c =>
    simp only
    cases Chain.validate c v.anchors now <;> rfl

/-- An entry holds the certificate of the signer in armour, if this was asked
for. -/
theorem certificateText_entry :
    (v.entry now d).certificateText =
      if v.options.includeCertificate then (signer? v.strategies d).map Certificate.armoured
      else none := by
  rw [← certificate_examine v now d]
  rfl

/-! ## The signers of a document -/

/-- The certificates that are found in a document, one for each dictionary that
is looked at. -/
def Verifier.signers (v : Verifier) (document : Bytes) : List (Option Certificate) :=
  (v.selected (v.scanner.scan document)).map (signer? v.strategies)

/-- The signers of a document that have a certificate. -/
def Verifier.signing (v : Verifier) (document : Bytes) : List Certificate :=
  (v.signers document).reduceOption

theorem isRead_of_mem_signing (hs : ∀ s ∈ v.strategies, s.Reads) {document : Bytes}
    {c : Certificate} (h : c ∈ v.signing document) : c.IsRead := by
  rw [Verifier.signing, List.reduceOption_mem_iff, Verifier.signers, List.mem_map] at h
  obtain ⟨d, _, hd⟩ := h
  exact isRead_of_signer? hs hd

end Verification

end SignedPdf
