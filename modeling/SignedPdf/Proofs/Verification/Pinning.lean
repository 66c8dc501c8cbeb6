import Mathlib.Data.List.Forall2
import SignedPdf.Proofs.Armour
import SignedPdf.Proofs.Chain.Decision
import SignedPdf.Proofs.Verification.Signers

/-!
# Pinning signers

The certificates in armour that a report holds can be kept and loaded as anchors
later on. They are then the anchors that trust exactly the signers of this
document, for as long as their certificates are valid.

* `Certificate.accepted_bundle`: a bundle of certificates in armour loads the
  octets of these certificates.
* `exists_validate_bundle_iff`: each of them is then trusted as long as it is
  valid.
* `run_pinned`: loading the texts of a report and verifying again.
-/

namespace SignedPdf

/-! ## Bundles of certificates in armour -/

namespace Certificate

open Anchors (accepted bundleOffers ofLoads)

/-- Certificates in armour, one after the other. -/
def bundle (cs : List Certificate) : Bytes := Bytes.ofText (String.join (cs.map armoured))

theorem blocks_bundle (cs : List Certificate) :
    Pem.blocks (bundle cs) = (cs.map fun c => ⟨label, c.der⟩, none) := by
  have hlabel : ∀ b ∈ cs.map fun c => (⟨label, c.der⟩ : Pem.Block), Pem.IsLabel b.label := by
    intro b hb
    obtain ⟨c, _, rfl⟩ := List.mem_map.1 hb
    exact isLabel_label
  rw [← Pem.blocks_join_armoured hlabel, List.map_map]
  rfl

/-- A bundle offers the octets of its certificates. -/
theorem bundleOffers_bundle (cs : List Certificate) : bundleOffers (bundle cs) = cs.map der := by
  rw [bundleOffers, blocks_bundle, Anchors.offersOf]
  induction cs with
  | nil => rfl
  | cons c cs ih =>
    have hlabel : label = Anchors.bundleLabel := rfl
    simpa [hlabel] using ih

/-- All of a bundle can be read. -/
theorem ofBundle_bundle (cs : List Certificate) :
    Anchors.ofBundle (bundle cs) = .ok (ofLoads [.bundle (bundle cs)]) := by
  show _ = Except.ok (Anchors.empty.addBundle (bundle cs)).1
  simp only [Anchors.ofBundle, Anchors.addBundle, blocks_bundle]

/-- A bundle loads the octets of its certificates. -/
theorem accepted_bundle {cs : List Certificate} (h : ∀ c ∈ cs, c.IsRead) :
    accepted [.bundle (bundle cs)] = cs.map der := by
  have hoffers : [Anchors.Load.bundle (bundle cs)].flatMap Anchors.Load.offers = cs.map der := by
    rw [List.flatMap_singleton, Anchors.Load.offers, bundleOffers_bundle]
  rw [accepted, hoffers, List.filter_eq_self]
  intro der hder
  obtain ⟨c, hc, rfl⟩ := List.mem_map.1 hder
  obtain ⟨s, _, hread⟩ := (h c hc).exists_read
  rw [Anchors.subjectOf?_of_read hread]
  rfl

/-- A certificate of a bundle is trusted by its anchors as long as it is valid. -/
theorem exists_validate_bundle_iff {cs : List Certificate} (h : ∀ c ∈ cs, c.IsRead)
    {c : Certificate} (hc : c ∈ cs) (now : Instant) :
    (∃ trust, Chain.validate c (ofLoads [.bundle (bundle cs)]) now = .ok trust) ↔
      c.Covers now := by
  constructor
  · rintro ⟨trust, htrust⟩
    exact Chain.covers_of_validate_eq_ok htrust
  · intro hnow
    rw [Chain.exists_validate_ok_iff (h c hc) hnow, accepted_bundle h]
    exact .inl (List.mem_map_of_mem hc)

end Certificate

namespace Verification

variable {v : Verifier} {document : Bytes} {now : Instant} {o : Verifier.Outcome}

/-! ## Reports that hold certificates -/

/-- The texts of a report are those of the signers, if they were asked for. -/
theorem certificateTexts_run (hinclude : v.options.includeCertificate = true)
    (h : v.run document now = .ok o) :
    o.report.entries.map Entry.certificateText =
      (v.signers document).map (Option.map Certificate.armoured) := by
  rw [Verifier.run_ok_entries h, Verifier.signers, List.map_map, List.map_map]
  refine List.map_congr_left fun d _ => ?_
  show (v.entry now d).certificateText = _
  rw [certificateText_entry, if_pos hinclude]
  rfl

/-- The texts of a report, one after the other, are the bundle of the
signers. -/
theorem join_certificateTexts_run (hinclude : v.options.includeCertificate = true)
    (h : v.run document now = .ok o) :
    Bytes.ofText (String.join (o.report.entries.filterMap Entry.certificateText)) =
      Certificate.bundle (v.signing document) := by
  have htexts : o.report.entries.filterMap Entry.certificateText =
      (o.report.entries.map Entry.certificateText).reduceOption := by
    rw [List.reduceOption, List.filterMap_map]
    rfl
  rw [htexts, certificateTexts_run hinclude h, List.reduceOption_map]
  rfl

/-- A document that has been verified can be verified with other anchors. -/
theorem run_anchors (h : v.run document now = .ok o) (a : Anchors) :
    ∃ o', { v with anchors := a }.run document now = .ok o' := by
  have hcheck : checkInput v.options document = .ok () := Verifier.exists_run_eq_ok_iff.1 ⟨o, h⟩
  exact Verifier.exists_run_eq_ok_iff.2 hcheck

/-- **The texts of a report pin its signers.** A report that holds certificates
holds those of the signers in armour. One after the other these texts load as
anchors, as many as there are different certificates. Verifying the document
again with these anchors at the same instant makes an entry valid exactly if it
has a signer and the certificate of this signer is valid at the instant. -/
theorem run_pinned (hs : ∀ s ∈ v.strategies, s.Reads)
    (hinclude : v.options.includeCertificate = true) (h : v.run document now = .ok o) :
    o.report.entries.map Entry.certificateText =
        (v.signers document).map (Option.map Certificate.armoured) ∧
      ∃ a o', Anchors.ofBundle (Bytes.ofText (String.join
          (o.report.entries.filterMap Entry.certificateText))) = .ok a ∧
        a.count = ((v.signers document).reduceOption.map Certificate.der).dedup.length ∧
        { v with anchors := a }.run document now = .ok o' ∧
        List.Forall₂ (fun e c => e.isValid = true ↔ ∃ c', c = some c' ∧ c'.Covers now)
          o'.report.entries (v.signers document) := by
  have hread : ∀ c ∈ v.signing document, c.IsRead := fun c => isRead_of_mem_signing hs
  obtain ⟨o', ho'⟩ :=
    run_anchors h (Anchors.ofLoads [.bundle (Certificate.bundle (v.signing document))])
  refine ⟨certificateTexts_run hinclude h, _, o', ?_, ?_, ho', ?_⟩
  · rw [join_certificateTexts_run hinclude h]
    exact Certificate.ofBundle_bundle _
  · rw [Anchors.count_ofLoads, Certificate.accepted_bundle hread]
    rfl
  · rw [Verifier.run_ok_entries ho', Verifier.signers, List.forall₂_map_left_iff,
      List.forall₂_map_right_iff]
    refine List.forall₂_same.2 fun d hd => ?_
    rw [isValid_entry_iff]
    refine exists_congr fun c => and_congr_right fun hc => ?_
    have hmem : c ∈ v.signing document := by
      rw [Verifier.signing, List.reduceOption_mem_iff, Verifier.signers]
      exact List.mem_map.2 ⟨d, hd, hc⟩
    exact Certificate.exists_validate_bundle_iff hread hmem now

/-- A verifier that takes the certificate `Certificate.sample` from the only
signature of any document, and has no anchors. -/
def pinningSample : Verifier where
  anchors := .empty
  options := { includeCertificate := true }
  scanner := .fixed [{ contents := "00" }]
  strategies := [.fixed Certificate.sampleDer]

/-- The only signature is invalid at first, and valid once the certificate that
the report holds has been loaded. -/
theorem run_pinned_sample :
    ∃ o, pinningSample.run documentMark ⟨1750000000, 0⟩ = .ok o ∧ o.report.allValid = false ∧
      ∃ a o', Anchors.ofBundle (Bytes.ofText (String.join
          (o.report.entries.filterMap Entry.certificateText))) = .ok a ∧
        a.count = 1 ∧
        { pinningSample with anchors := a }.run documentMark ⟨1750000000, 0⟩ = .ok o' ∧
        o'.report.allValid = true := by
  have hrun : pinningSample.run documentMark ⟨1750000000, 0⟩ = .ok _ := rfl
  have hs : ∀ s ∈ pinningSample.strategies, s.Reads := by
    intro s hs
    rw [List.mem_singleton.1 hs]
    exact Extraction.Strategy.reads_fixed _
  have hsigners : pinningSample.signers documentMark = [some .sample] := rfl
  obtain ⟨_, a, o', hload, hcount, hrun', hvalid⟩ := run_pinned hs rfl hrun
  refine ⟨_, hrun, rfl, a, o', hload, ?_, hrun', ?_⟩
  · rw [hcount, hsigners]
    rfl
  · rw [hsigners] at hvalid
    obtain ⟨e, es, he, htail, hentries⟩ := List.forall₂_cons_right_iff.1 hvalid
    rw [List.forall₂_nil_right_iff.1 htail] at hentries
    have hcovers : Certificate.sample.Covers ⟨1750000000, 0⟩ := by decide
    simp [Report.allValid, hentries, he.2 ⟨_, rfl, hcovers⟩]

end Verification

end SignedPdf
