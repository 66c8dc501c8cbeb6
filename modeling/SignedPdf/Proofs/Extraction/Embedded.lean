import SignedPdf.Extraction
import SignedPdf.Proofs.Certificate

/-!
# Certificates among other octets

The octets of a signature hold more than the certificate: what stands before it
may look like anything, and what follows it is often padding. This file shows that
walking over sequences finds a certificate all the same.

* `Certificate.IsRead.leastSize_le_length`: the octets that are too few to be tried
  are too few for a certificate.
* `Walk.exists_find?_embedded` and `Walk.find?_embedded`: the search stops at a
  certificate at the latest, and there if nothing before it is taken for one.
* `extract_embedded`: what this says about extraction.
-/

namespace SignedPdf

/-! ## The size of a certificate -/

/-- A container has at least the octets of a header before what follows it. -/
theorem Asn1.Container.rest_length_add_two_le {number : Nat} {bs : Bytes} {c : Container}
    (h : Container.read number bs = .ok c) : c.contents.length + c.rest.length + 2 ≤ bs.length := by
  have hparts := congrArg List.length (Container.append_eq h)
  obtain ⟨hd, hread, _, _, rfl⟩ := Container.read_eq_ok.1 h
  obtain ⟨hsize, hle⟩ := Header.read_size hread
  simp only [List.length_append, List.length_take] at hparts ⊢
  omega

theorem X509.Algorithm.read_nil_ne_ok (r : Algorithm × Bytes) : Algorithm.read [] ≠ .ok r := by
  intro h
  simp only [read, bind_eq_ok_iff] at h
  obtain ⟨_, helement, _⟩ := h
  cases helement

/-- A certificate holds a statement and an algorithm, each with a header. -/
theorem X509.SignedCertificate.leastSize_le_length {bs rest : Bytes} {s : SignedCertificate}
    (h : read bs = .ok (s, rest)) : Extraction.Walk.leastSize ≤ bs.length := by
  simp only [read, bind_eq_ok_iff] at h
  obtain ⟨c, hc, ⟨_, after⟩, hstatement, ⟨_, _⟩, halgorithm, _⟩ := h
  have houter := Asn1.Container.rest_length_add_two_le (element_eq_ok.1 hc)
  simp only [Statement.read, bind_eq_ok_iff] at hstatement
  obtain ⟨c', hc', _, _, _, _, _, _, _, _, _, _, _, _, _, _, _, _, _, _, _, _, hafter⟩ := hstatement
  cases hafter
  have hinner := Asn1.Container.rest_length_add_two_le (element_eq_ok.1 hc')
  have hne : c'.rest ≠ [] := by
    intro hnil
    rw [hnil] at halgorithm
    exact Algorithm.read_nil_ne_ok _ halgorithm
  have hpos := List.length_pos_iff.2 hne
  have hleast : Extraction.Walk.leastSize = 5 := rfl
  omega

/-- The octets that are too few to be tried are too few for a certificate. -/
theorem Certificate.IsRead.leastSize_le_length {c : Certificate} (h : c.IsRead) :
    Extraction.Walk.leastSize ≤ c.der.length := by
  obtain ⟨s, _, hread⟩ := h.exists_read
  exact X509.SignedCertificate.leastSize_le_length hread

namespace Extraction

open SignedPdf.Asn1

variable {c found : Certificate} {blob : Bytes}

/-! ## Where the walk stops -/

namespace Walk

/-- Octets yield a certificate if one starts them, or starts the contents of the
element that starts them. -/
def Yields (bs : Bytes) (c : Certificate) : Prop :=
  Certificate.ofDer bs = .ok c ∨
    ∃ contents, unwrap? false bs = some contents ∧ Certificate.ofDer contents = .ok c

theorem isCandidate_iff {bs : Bytes} :
    isCandidate bs = true ↔ bs.head? = some sequenceOctet ∧ leastSize ≤ bs.length := by
  cases bs with
  | nil => simp [isCandidate]
  | cons b bs => simp [isCandidate, hasAtLeast_iff]

theorem certificateAt?_of_not_isCandidate {short : Bool} {bs : Bytes}
    (h : ¬ isCandidate bs = true) : certificateAt? short bs = none := by
  simp [certificateAt?, h]

/-- A candidate is taken for a certificate if it starts with one. -/
theorem certificateAt?_of_ofDer {short : Bool} {bs : Bytes} (h : isCandidate bs = true)
    (hc : Certificate.ofDer bs = .ok c) : certificateAt? short bs = some (.bare, c) := by
  simp [certificateAt?, h, hc]

/-- A candidate that is taken for a certificate yields it. -/
theorem yields_of_certificateAt? {bs : Bytes} {p : Place}
    (h : certificateAt? false bs = some (p, c)) : Yields bs c := by
  unfold certificateAt? at h
  split at h
  · split at h
    · next c' hc =>
      cases h
      exact .inl hc
    · split at h
      · cases h
      · next contents hcontents =>
        split at h
        · next c' hc =>
          cases h
          exact .inr ⟨contents, hcontents, hc⟩
        · cases h
  · cases h

/-- What is taken for a certificate at an offset does not depend on how the octets
were counted. -/
theorem certificateAt?_drop (blob : Bytes) (o : Nat) :
    certificateAt? (!hasAtLeast Minimal.lengthLimit blob) (blob.drop o) =
      certificateAt? false (blob.drop o) := by
  simp only [certificateAt?, unwrap?_drop]

/-- The octets of a certificate are a candidate, whatever follows them. -/
theorem isCandidate_der_append (hc : c.IsRead) (hstart : c.der.head? = some sequenceOctet)
    (post : Bytes) : isCandidate (c.der ++ post) = true := by
  have hsize := hc.leastSize_le_length
  rw [isCandidate_iff, List.head?_append, hstart, List.length_append]
  exact ⟨rfl, by omega⟩

/-- A certificate is taken for one where it starts. -/
theorem certificateAt?_embedded (hc : c.IsRead) (hstart : c.der.head? = some sequenceOctet)
    (short : Bool) (post : Bytes) : certificateAt? short (c.der ++ post) = some (.bare, c) :=
  certificateAt?_of_ofDer (isCandidate_der_append hc hstart post) (hc.ofDer_append post)

/-- The search stops at a certificate at the latest: if it found nothing, it would
have passed over this one. -/
theorem exists_find?_embedded (hc : c.IsRead) (hstart : c.der.head? = some sequenceOctet)
    (pre post : Bytes) :
    ∃ o p found, find? (pre ++ c.der ++ post) = some (o, p, found) ∧ o ≤ pre.length := by
  have hhere := certificateAt?_embedded hc hstart
    (!hasAtLeast Minimal.lengthLimit (pre ++ c.der ++ post)) post
  have hdrop : (pre ++ c.der ++ post).drop pre.length = c.der ++ post := by
    rw [List.append_assoc, List.drop_left]
  cases hfind : find? (pre ++ c.der ++ post) with
  | none =>
    have hmissed := Search.first?_eq_none_iff.1 hfind pre.length (by simp)
    rw [hdrop, hhere] at hmissed
    cases hmissed
  | some r =>
    obtain ⟨o, p, found⟩ := r
    refine ⟨o, p, found, rfl, ?_⟩
    by_contra hlate
    have hmissed := (find?_eq_some_iff.1 hfind).2.2 pre.length (by omega)
    rw [hdrop, hhere] at hmissed
    cases hmissed

/-- The search stops at a certificate if nothing before it is taken for one. -/
theorem find?_embedded (hc : c.IsRead) (hstart : c.der.head? = some sequenceOctet)
    {pre post : Bytes}
    (hbefore : ∀ o, pre[o]? = some sequenceOctet →
      ∀ found, ¬ Yields ((pre ++ c.der ++ post).drop o) found) :
    find? (pre ++ c.der ++ post) = some (pre.length, .bare, c) := by
  obtain ⟨o, p, found, hfind, hle⟩ := exists_find?_embedded hc hstart pre post
  have hat := (find?_eq_some_iff.1 hfind).2.1
  rcases Nat.lt_or_eq_of_le hle with hlt | rfl
  · -- an earlier offset would have an octet that starts a sequence, and yield something
    rw [certificateAt?_drop] at hat
    have hcandidate : isCandidate ((pre ++ c.der ++ post).drop o) = true := by
      by_contra hnot
      rw [certificateAt?_of_not_isCandidate hnot] at hat
      cases hat
    have hoctet := (isCandidate_iff.1 hcandidate).1
    rw [List.head?_drop, List.append_assoc, List.getElem?_append_left hlt] at hoctet
    exact absurd (yields_of_certificateAt? hat) (hbefore o hoctet found)
  · rw [List.append_assoc, List.drop_left, certificateAt?_embedded hc hstart] at hat
    cases hat
    exact hfind

end Walk

/-! ## Extraction -/

/-- Walking makes extraction succeed whenever it finds something, whatever other
strategies there are. -/
theorem exists_extract_of_walk {strategies : List Strategy} (hwalk : Strategy.walk ∈ strategies)
    {o : Nat} {p : Walk.Place} (hfind : Walk.find? blob = some (o, p, found)) :
    ∃ c, extract strategies blob = .ok c := by
  cases hextract : extract strategies blob with
  | ok c => exact ⟨c, rfl⟩
  | error failure =>
    obtain ⟨cause, hcause⟩ := exists_extract_error_iff.1 ⟨failure, hextract⟩ _ hwalk
    cases p <;> simp [Strategy.walk, hfind] at hcause

/-- Without armour, what walking finds counts. -/
theorem extract_standard_of_walk {cause : String}
    (harmour : Strategy.armoured.find blob = .error cause) {o : Nat} {p : Walk.Place}
    (hfind : Walk.find? blob = some (o, p, found)) :
    extract Strategy.standard blob = .ok found := by
  have hwalk : ∃ events, Strategy.walk.find blob = .ok ⟨found, events⟩ := by
    cases p with
    | bare => exact ⟨[.certificateFound o], by simp only [Strategy.walk, hfind]⟩
    | wrapped => exact ⟨[.wrappedFound o], by simp only [Strategy.walk, hfind]⟩
  obtain ⟨events, hwalk⟩ := hwalk
  have htrail : (attempt Strategy.standard blob).found =
      some (Strategy.walk, ⟨found, events⟩) := by
    rw [attempt, Trial.found_tryEach_iff]
    refine ⟨[Strategy.armoured], [], rfl, hwalk, ?_⟩
    intro s hs
    rw [List.mem_singleton.1 hs]
    exact ⟨cause, harmour⟩
  simp only [extract, Trail.result, htrail]

/-- **A certificate among other octets is never missed.** Whatever stands before
the octets of a certificate that starts a sequence and whatever follows them,
extraction finds a certificate, and so does every list of strategies that walks. It
is this very certificate if there is none in armour and no earlier octet that starts
a sequence yields one, bare or in one layer. -/
theorem extract_embedded (hc : c.IsRead) (hstart : c.der.head? = some Walk.sequenceOctet)
    (pre post : Bytes) :
    (∃ found, extract Strategy.standard (pre ++ c.der ++ post) = .ok found) ∧
      ((∃ cause, Strategy.armoured.find (pre ++ c.der ++ post) = .error cause) →
        (∀ o, pre[o]? = some Walk.sequenceOctet →
          ∀ found, ¬ Walk.Yields ((pre ++ c.der ++ post).drop o) found) →
        extract Strategy.standard (pre ++ c.der ++ post) = .ok c) ∧
      ∀ strategies failure, Strategy.walk ∈ strategies →
        extract strategies (pre ++ c.der ++ post) ≠ .error failure := by
  obtain ⟨o, p, found, hfind, _⟩ := Walk.exists_find?_embedded hc hstart pre post
  refine ⟨exists_extract_of_walk (by simp [Strategy.standard]) hfind, ?_, ?_⟩
  · rintro ⟨cause, harmour⟩ hbefore
    exact extract_standard_of_walk harmour (Walk.find?_embedded hc hstart hbefore)
  · intro strategies failure hwalk hfailure
    obtain ⟨c', hc'⟩ := exists_extract_of_walk hwalk hfind
    rw [hfailure] at hc'
    cases hc'

/-- A certificate after a header that announces more octets than there are, and
before padding. -/
theorem extract_embedded_sample :
    extract Strategy.standard ([0x30, 0x84] ++ Certificate.sampleDer ++ List.replicate 64 0) =
      .ok .sample := by
  refine (extract_embedded Certificate.isRead_sample rfl [0x30, 0x84] (List.replicate 64 0)).2.1
    ⟨_, rfl⟩ ?_
  intro o ho found
  have hzero : o = 0 := by
    rcases o with _ | _ | o
    · rfl
    · cases ho
    · cases ho
  rw [hzero, List.drop_zero]
  rintro (hread | ⟨contents, hcontents, _⟩)
  · have hbare : ∃ fault, Certificate.ofDer
        ([0x30, 0x84] ++ Certificate.sample.der ++ List.replicate 64 0) = .error fault := ⟨_, rfl⟩
    obtain ⟨fault, hbare⟩ := hbare
    rw [hbare] at hread
    cases hread
  · have hwrapped : Walk.unwrap? false
        ([0x30, 0x84] ++ Certificate.sample.der ++ List.replicate 64 0) = none := rfl
    rw [hwrapped] at hcontents
    cases hcontents

end Extraction

end SignedPdf
