import Mathlib.Data.List.Forall2
import SignedPdf.Proofs.Chain.Decision
import SignedPdf.Proofs.Verification.Signers

/-!
# What anchors and instant decide

Anchors and instant come in at the last stage of an examination, where the
certificate of the signer is validated. Everything else in a report is the same
with other anchors and at another instant, and so is a reason that an earlier
stage gives. At the same instant, more anchors never make a valid entry invalid.

* `Chain.exists_validate_ok_of_withSubject_subset`: trust is kept when anchors are
  added.
* `failureReason?_entry_of_isEarly`: reasons of the stages before.
* `run_anchors_instants`: two verifications of a document.
-/

namespace SignedPdf

namespace Chain

open Anchors (Filed)

/-! ## More anchors -/

variable {c : Certificate} {now : Instant} {a b : Anchors}

/-- A trusted certificate can be read again. -/
theorem exists_read_of_validate_eq_ok {trust : Trust} (h : validate c a now = .ok trust) :
    ∃ leaf rest, X509.SignedCertificate.read c.der = .ok (leaf, rest) := by
  rw [validate_of_covers (covers_of_validate_eq_ok h), findTrust] at h
  split at h
  · cases h
  · next leaf rest hread => exact ⟨leaf, rest, hread⟩

/-- A certificate that is trusted stays so when every look-up finds what it found before.
None of the anchors that come in can get in the way of the anchor that it owes this to:
those that will not do are passed over. -/
theorem exists_validate_ok_of_withSubject_subset
    (hmore : ∀ subject, ∀ der ∈ a.withSubject subject, der ∈ b.withSubject subject)
    {trust : Trust} (h : validate c a now = .ok trust) :
    ∃ trust', validate c b now = .ok trust' := by
  have hnow : c.Covers now := covers_of_validate_eq_ok h
  obtain ⟨leaf, rest, hread⟩ := exists_read_of_validate_eq_ok h
  have htrusted : ∃ trust, findTrust c a now = .ok trust := ⟨trust, validate_of_covers hnow a ▸ h⟩
  rw [validate_of_covers hnow, exists_findTrust_ok_iff hread]
  rcases (exists_findTrust_ok_iff hread a).1 htrusted with hpinned | ⟨der, hder, hjudge⟩
  · exact .inl (hmore _ _ hpinned)
  · exact .inr ⟨der, hmore _ _ hder, hjudge⟩

/-- So do look-ups when anchors are added. -/
theorem mem_withSubject_of_stored_subset (ha : a.Filed) (hb : b.Filed)
    (hmore : ∀ der ∈ a.stored, der ∈ b.stored) (subject : Bytes) :
    ∀ der ∈ a.withSubject subject, der ∈ b.withSubject subject := by
  intro der hder
  rw [ha.mem_withSubject_iff] at hder
  exact hb.mem_withSubject_iff.2 ⟨hmore der hder.1, hder.2⟩

end Chain

namespace Verification

/-! ## Reasons -/

/-- The wordings of a reason that is given before a chain is looked at. -/
def IsEarly (reason : String) : Prop :=
  reason = "no /Contents found in signature dictionary" ∨
    reason = "could not decode signature contents" ∨
    ∃ text, reason = "certificate extraction failed: " ++ text

/-- The reason for which a chain is refused is none of these. -/
theorem not_isEarly_chain (fault : Chain.Fault) : ¬ IsEarly (Reason.chain fault).message := by
  have hchain : (Reason.chain fault).message =
      "certificate chain validation failed: " ++ fault.message := rfl
  rw [hchain]
  generalize fault.message = cause
  rintro (h | h | ⟨text, h⟩)
  · have hchars := congrArg String.toList h
    simp at hchars
  · have hchars := congrArg String.toList h
    simp at hchars
  · have hchars := congrArg String.toList h
    simp at hchars

/-! ## Verifiers with other anchors -/

/-- Two verifiers differ in their anchors at most. -/
structure Verifier.Alike (v w : Verifier) : Prop where
  options : w.options = v.options
  scanner : w.scanner = v.scanner
  strategies : w.strategies = v.strategies

variable {v w : Verifier} {d : SignatureDictionary}

theorem Verifier.Alike.symm (h : v.Alike w) : w.Alike v :=
  ⟨h.options.symm, h.scanner.symm, h.strategies.symm⟩

/-- They look at the same dictionaries. -/
theorem Verifier.Alike.selected_scan (h : v.Alike w) (document : Bytes) :
    w.selected (w.scanner.scan document) = v.selected (v.scanner.scan document) := by
  rw [selected, selected, h.options, h.scanner]

/-! ## Reasons of the stages before -/

/-- An early reason is why there is no signer. -/
theorem exists_sought_error_of_isEarly {t : Instant} {reason : String} (hearly : IsEarly reason)
    (h : (v.entry t d).failureReason? = some reason) :
    ∃ r, sought v.strategies d = .error r ∧ r.message = reason := by
  rw [failureReason?_entry] at h
  cases hsought : sought v.strategies d with
  | error r =>
    rw [hsought] at h
    exact ⟨r, rfl, Option.some.inj h⟩
  | ok c =>
    simp only [hsought] at h
    cases hvalidate : Chain.validate c v.anchors t with
    | ok trust =>
      rw [hvalidate] at h
      cases h
    | error fault =>
      rw [hvalidate] at h
      cases h
      exact absurd hearly (not_isEarly_chain fault)

/-- An early reason is given whatever the anchors and the instant. -/
theorem failureReason?_entry_of_isEarly (halike : v.Alike w) {t : Instant} {reason : String}
    (hearly : IsEarly reason) (h : (v.entry t d).failureReason? = some reason) (u : Instant) :
    (w.entry u d).failureReason? = some reason := by
  obtain ⟨r, hsought, rfl⟩ := exists_sought_error_of_isEarly hearly h
  rw [failureReason?_entry, halike.strategies, hsought]

/-! ## Entries -/

/-- Two entries agree in every field but the verdict. -/
def Entry.AgreesWith (e e' : Entry) : Prop := e' = { e with verdict := e'.verdict }

/-- Anchors and instant settle nothing but the verdict of an entry. -/
theorem entry_agreesWith (halike : v.Alike w) (d : SignatureDictionary) (t u : Instant) :
    (v.entry t d).AgreesWith (w.entry u d) := by
  have hcertificate : (w.examine u d).certificate = (v.examine t d).certificate := by
    rw [certificate_examine, certificate_examine, halike.strategies]
  simp only [Entry.AgreesWith, Verifier.entry, Verifier.entryOf, hcertificate, halike.options]
  rfl

/-- A valid entry stays valid when every look-up finds what it found before. -/
theorem isValid_entry_of_withSubject_subset (halike : v.Alike w)
    (hmore : ∀ subject, ∀ der ∈ v.anchors.withSubject subject, der ∈ w.anchors.withSubject subject)
    {now : Instant} (h : (v.entry now d).isValid = true) : (w.entry now d).isValid = true := by
  obtain ⟨c, hc, trust, htrust⟩ := isValid_entry_iff.1 h
  rw [← halike.strategies] at hc
  exact isValid_entry_iff.2 ⟨c, hc, Chain.exists_validate_ok_of_withSubject_subset hmore htrust⟩

/-- A valid entry stays valid when anchors are added. -/
theorem isValid_entry_of_stored_subset (halike : v.Alike w) (hv : v.anchors.Filed)
    (hw : w.anchors.Filed) (hmore : ∀ der ∈ v.anchors.stored, der ∈ w.anchors.stored)
    {now : Instant} (h : (v.entry now d).isValid = true) : (w.entry now d).isValid = true :=
  isValid_entry_of_withSubject_subset halike (Chain.mem_withSubject_of_stored_subset hv hw hmore) h

/-! ## Reports -/

/-- If each entry of a report is valid when its counterpart is, so is the report. -/
theorem allValid_of_forall₂ {r r' : Report}
    (h : List.Forall₂ (fun e e' => e.isValid = true → e'.isValid = true) r.entries r'.entries)
    (hvalid : r.allValid = true) : r'.allValid = true := by
  rw [Report.allValid] at hvalid ⊢
  generalize r.entries = es at h hvalid
  generalize r'.entries = es' at h
  induction h with
  | nil => rfl
  | cons himp _ ih =>
    rw [List.all_cons, Bool.and_eq_true] at hvalid ⊢
    exact ⟨himp hvalid.1, ih hvalid.2⟩

variable {document : Bytes} {o o' : Verifier.Outcome} {t u now : Instant}

/-- What holds of the entries of each dictionary holds of two reports. -/
theorem forall₂_entries {R : Entry → Entry → Prop} (halike : v.Alike w)
    (h : v.run document t = .ok o) (h' : w.run document u = .ok o')
    (hentry : ∀ d, R (v.entry t d) (w.entry u d)) :
    List.Forall₂ R o.report.entries o'.report.entries := by
  rw [Verifier.run_ok_entries h, Verifier.run_ok_entries h', halike.selected_scan,
    List.forall₂_map_left_iff, List.forall₂_map_right_iff]
  exact List.forall₂_same.2 fun d _ => hentry d

/-- Two verifiers whose look-ups find the same anchors agree whether every signature is
valid, in whatever order these anchors stand. -/
theorem allValid_congr (halike : v.Alike w)
    (hsame : ∀ subject der,
      der ∈ v.anchors.withSubject subject ↔ der ∈ w.anchors.withSubject subject)
    (h : v.run document now = .ok o) (h' : w.run document now = .ok o') :
    o.report.allValid = o'.report.allValid := by
  rw [Bool.eq_iff_iff]
  constructor
  · refine allValid_of_forall₂ (forall₂_entries halike h h' fun d => ?_)
    exact isValid_entry_of_withSubject_subset halike fun subject der => (hsame subject der).1
  · refine allValid_of_forall₂ (forall₂_entries halike.symm h' h fun d => ?_)
    exact isValid_entry_of_withSubject_subset halike.symm fun subject der => (hsame subject der).2

open Anchors (ofLoads) in
/-- **Anchors and instant decide on nothing but verdicts.** With other anchors and
at another instant a document is refused for the same fault, or it gets as many
entries, which agree one by one in every field but the verdict; and a reason that
is given before a chain is looked at is the same. If moreover the instants are
the same and the second set holds what the first one does, every entry that is
valid with the first set is so with the second, and so is the report. -/
theorem run_anchors_instants (v : Verifier) (document : Bytes) (loads loads' : List Anchors.Load)
    (t u : Instant) :
    (∃ fault, { v with anchors := ofLoads loads }.run document t = .error fault ∧
      { v with anchors := ofLoads loads' }.run document u = .error fault) ∨
    ∃ o o', { v with anchors := ofLoads loads }.run document t = .ok o ∧
      { v with anchors := ofLoads loads' }.run document u = .ok o' ∧
      List.Forall₂ (fun e e' => e.AgreesWith e' ∧ ∀ reason, IsEarly reason →
          (e.failureReason? = some reason ↔ e'.failureReason? = some reason))
        o.report.entries o'.report.entries ∧
      (t = u → (∀ der ∈ (ofLoads loads).stored, der ∈ (ofLoads loads').stored) →
        List.Forall₂ (fun e e' => e.isValid = true → e'.isValid = true)
          o.report.entries o'.report.entries ∧
        (o.report.allValid = true → o'.report.allValid = true)) := by
  generalize hfirst : { v with anchors := ofLoads loads } = w
  generalize hsecond : { v with anchors := ofLoads loads' } = w'
  have halike : w.Alike w' := by
    subst hfirst hsecond
    exact ⟨rfl, rfl, rfl⟩
  have hw : w.anchors = ofLoads loads := by rw [← hfirst]
  have hw' : w'.anchors = ofLoads loads' := by rw [← hsecond]
  cases hcheck : checkInput w.options document with
  | error fault =>
    have hcheck' : checkInput w'.options document = .error fault := by rw [halike.options, hcheck]
    exact .inl ⟨fault, Verifier.run_eq_error_iff.2 hcheck, Verifier.run_eq_error_iff.2 hcheck'⟩
  | ok =>
    have hcheck' : checkInput w'.options document = .ok () := by rw [halike.options, hcheck]
    obtain ⟨o, ho⟩ : ∃ o, w.run document t = .ok o := Verifier.exists_run_eq_ok_iff.2 hcheck
    obtain ⟨o', ho'⟩ : ∃ o', w'.run document u = .ok o' := Verifier.exists_run_eq_ok_iff.2 hcheck'
    refine .inr ⟨o, o', ho, ho', ?_, ?_⟩
    · refine forall₂_entries halike ho ho' fun d => ⟨entry_agreesWith halike d t u, ?_⟩
      intro reason hearly
      exact ⟨fun h => failureReason?_entry_of_isEarly halike hearly h u,
        fun h => failureReason?_entry_of_isEarly halike.symm hearly h t⟩
    · rintro rfl hmore
      rw [← hw, ← hw'] at hmore
      have hvalid : List.Forall₂ (fun e e' => Entry.isValid e = true → Entry.isValid e' = true)
          o.report.entries o'.report.entries := by
        refine forall₂_entries halike ho ho' fun d => ?_
        exact isValid_entry_of_stored_subset halike (hw ▸ Anchors.filed_ofLoads loads)
          (hw' ▸ Anchors.filed_ofLoads loads') hmore
      exact ⟨hvalid, allValid_of_forall₂ hvalid⟩

/-- A verifier that takes the certificate `Certificate.sample` from the only
signature of any document. -/
def verdictSample : Verifier where
  anchors := .empty
  scanner := .fixed [{ contents := "00" }]
  strategies := [.fixed Certificate.sampleDer]

/-- Loads of octets that are no certificate, of this certificate with an octet after
it, which does not pin it, and of the certificate itself. -/
def verdictLoads : List Anchors.Load :=
  [.certificate [0x30], .certificate (Certificate.sampleDer ++ [0]),
    .certificate Certificate.sampleDer]

open Anchors (ofLoads) in
/-- The signature is valid with the certificate as the only anchor, and stays so
with further anchors that come before it. -/
theorem run_anchors_instants_sample :
    ∃ o o', { verdictSample with anchors := ofLoads [.certificate Certificate.sampleDer] }.run
        documentMark ⟨1750000000, 0⟩ = .ok o ∧
      { verdictSample with anchors := ofLoads verdictLoads }.run documentMark ⟨1750000000, 0⟩ =
        .ok o' ∧
      o.report.allValid = true ∧ o'.report.allValid = true := by
  have hmore : ∀ der ∈ (ofLoads [.certificate Certificate.sampleDer]).stored,
      der ∈ (ofLoads verdictLoads).stored := by
    decide +kernel
  have hrun : { verdictSample with anchors := ofLoads [.certificate Certificate.sampleDer] }.run
      documentMark ⟨1750000000, 0⟩ = .ok _ := rfl
  rcases run_anchors_instants verdictSample documentMark [.certificate Certificate.sampleDer]
    verdictLoads ⟨1750000000, 0⟩ ⟨1750000000, 0⟩ with ⟨fault, hfault, _⟩ | ⟨o, o', ho, ho', _, hmono⟩
  · rw [hrun] at hfault
    cases hfault
  · have hvalid : o.report.allValid = true := by
      rw [hrun] at ho
      cases ho
      rfl
    exact ⟨o, o', ho, ho', hvalid, (hmono rfl hmore).2 hvalid⟩

end Verification

end SignedPdf
