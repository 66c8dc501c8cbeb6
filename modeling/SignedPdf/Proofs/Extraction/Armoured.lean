import SignedPdf.Extraction
import SignedPdf.Proofs.Armour
import SignedPdf.Proofs.Certificate

/-!
# Certificates in armour among other octets

A certificate in armour may stand anywhere in the octets of a signature: behind
binary octets, on a line that has begun with something else, after blocks that are
broken. This file shows that it is found all the same.

* `Armoured.find_eq_ok_iff_least`: the certificate found is that of the least offset
  at which a header starts a block that holds one.
* `extract_armoured`: what was written in armour is found, and it is what was
  written if no header stands before it.
-/

namespace SignedPdf.Extraction

variable {c : Certificate} {blob : Bytes} {o : Nat}

namespace Armoured

/-! ## Where a header stands -/

theorem headerAt?_eq_some_iff {bs bs' : Bytes} :
    headerAt? bs = some bs' ↔ header <+: bs ∧ bs' = bs := by
  unfold headerAt?
  split
  · next h => simp [Bytes.startsWith_iff.1 h, eq_comm]
  · next h => simp [mt Bytes.startsWith_iff.2 h]

/-- The candidates are the octets from each header on. -/
theorem mem_candidates_iff {bs : Bytes} :
    (o, bs) ∈ candidates blob ↔ header <+: blob.drop o ∧ bs = blob.drop o := by
  rw [candidates, Search.mem_all_iff, headerAt?_eq_some_iff]
  refine and_iff_right_of_imp ?_
  rintro ⟨hheader, _⟩
  by_contra hend
  rw [List.drop_eq_nil_of_le (by omega), List.prefix_nil] at hheader
  exact absurd hheader (by decide)

/-! ## The least offset -/

/-- The certificate found is that of the least offset at which a header starts a
block that holds one. -/
theorem find_eq_ok_iff_least :
    find blob = .ok (o, c) ↔
      header <+: blob.drop o ∧ certificateAt (blob.drop o) = .ok c ∧
        ∀ j < o, header <+: blob.drop j → ∃ fault, certificateAt (blob.drop j) = .error fault := by
  have horder : (candidates blob).Pairwise fun p q => p.1 < q.1 := Search.pairwise_all _ _
  rw [find_eq_ok_iff]
  constructor
  · rintro ⟨before, bs, after, hcandidates, hc, hbefore⟩
    have hmem : (o, bs) ∈ candidates blob := by simp [hcandidates]
    obtain ⟨hheader, rfl⟩ := mem_candidates_iff.1 hmem
    refine ⟨hheader, hc, ?_⟩
    intro j hj hheader'
    have hmem' : (j, blob.drop j) ∈ candidates blob := mem_candidates_iff.2 ⟨hheader', rfl⟩
    rw [hcandidates] at hmem' horder
    -- the offsets increase, so a smaller one can only stand before
    rcases List.mem_append.1 hmem' with hmem' | hmem'
    · exact hbefore _ hmem'
    · rcases List.mem_cons.1 hmem' with heq | hmem'
      · cases heq
        omega
      · have hlt := List.rel_of_pairwise_cons (List.pairwise_append.1 horder).2.1 hmem'
        simp only at hlt
        omega
  · rintro ⟨hheader, hc, hleast⟩
    obtain ⟨before, after, hcandidates⟩ :=
      List.append_of_mem (mem_candidates_iff.2 ⟨hheader, rfl⟩)
    refine ⟨before, blob.drop o, after, hcandidates, hc, ?_⟩
    rintro ⟨j, bs⟩ hmem
    have hlt : j < o := by
      rw [hcandidates] at horder
      exact (List.pairwise_append.1 horder).2.2 _ hmem _ List.mem_cons_self
    obtain ⟨hheader', rfl⟩ := mem_candidates_iff.1 (hcandidates ▸ List.mem_append_left _ hmem)
    exact hleast j hlt hheader'

/-- A certificate is found no later than at a header that starts a block with
one. -/
theorem exists_find_of_certificateAt (hheader : header <+: blob.drop o)
    (hc : certificateAt (blob.drop o) = .ok c) :
    ∃ o' found, find blob = .ok (o', found) ∧ o' ≤ o := by
  cases hfind : find blob with
  | error fault =>
    -- otherwise every candidate would have failed
    have hnone : (trial blob).found = none := by
      cases hfound : (trial blob).found with
      | none => rfl
      | some r => simp [find, hfound] at hfind
    obtain ⟨fault', hfault⟩ := Trial.found_tryEach_eq_none_iff.1 hnone (o, blob.drop o)
      (mem_candidates_iff.2 ⟨hheader, rfl⟩)
    simp only [hc] at hfault
    cases hfault
  | ok r =>
    obtain ⟨o', found⟩ := r
    refine ⟨o', found, rfl, ?_⟩
    by_contra hlate
    obtain ⟨fault, hfault⟩ := (find_eq_ok_iff_least.1 hfind).2.2 o (by omega) hheader
    rw [hc] at hfault
    cases hfault

/-! ## A certificate that was written -/

/-- Armour starts with a header. -/
theorem header_prefix_armoured (c : Certificate) : header <+: Bytes.ofText c.armoured := by
  have hfirst : header = Bytes.ofChars (Pem.firstLine Certificate.label) := by decide
  have hparts := Pem.ofText_armoured ⟨Certificate.label, c.der⟩ []
  rw [List.append_nil] at hparts
  rw [hfirst, Certificate.armoured, hparts]
  exact List.prefix_append _ _

/-- The block that a certificate is written as holds this certificate. -/
theorem certificateAt_armoured (hc : c.IsRead) (post : Bytes) :
    certificateAt (Bytes.ofText c.armoured ++ post) = .ok c := by
  simp only [certificateAt, Certificate.read_ofText_armoured, hc.ofDer_der]

end Armoured

/-! ## Extraction -/

/-- What is found in armour counts, whatever else there is. -/
theorem extract_standard_of_armoured {f : Finding} (h : Strategy.armoured.find blob = .ok f) :
    extract Strategy.standard blob = .ok f.certificate := by
  have hfound : (attempt Strategy.standard blob).found = some (Strategy.armoured, f) := by
    rw [attempt, Trial.found_tryEach_iff]
    exact ⟨[], [Strategy.walk], rfl, h, by simp⟩
  simp only [extract, Trail.result, hfound]

/-- **What was written in armour is found.** Whatever stands before a certificate in
armour and whatever follows it, the octets yield a certificate in armour, and
extraction yields the same one. It is the certificate that was written if no header
starts before it. -/
theorem extract_armoured (hc : c.IsRead) (pre post : Bytes) :
    ∃ f, Strategy.armoured.find (pre ++ Bytes.ofText c.armoured ++ post) = .ok f ∧
      extract Strategy.standard (pre ++ Bytes.ofText c.armoured ++ post) = .ok f.certificate ∧
      ((∀ o < pre.length,
          ¬ Armoured.header <+: (pre ++ Bytes.ofText c.armoured ++ post).drop o) →
        f.certificate = c) := by
  have hdrop : (pre ++ Bytes.ofText c.armoured ++ post).drop pre.length =
      Bytes.ofText c.armoured ++ post := by
    rw [List.append_assoc, List.drop_left]
  have hheader : Armoured.header <+: (pre ++ Bytes.ofText c.armoured ++ post).drop pre.length := by
    rw [hdrop]
    exact (Armoured.header_prefix_armoured c).trans (List.prefix_append _ _)
  have hhere : Armoured.certificateAt ((pre ++ Bytes.ofText c.armoured ++ post).drop pre.length) =
      .ok c := by
    rw [hdrop]
    exact Armoured.certificateAt_armoured hc post
  obtain ⟨o, found, hfind, hle⟩ := Armoured.exists_find_of_certificateAt hheader hhere
  have harmoured : Strategy.armoured.find (pre ++ Bytes.ofText c.armoured ++ post) =
      .ok ⟨found, [.blockFound o]⟩ := by
    simp only [Strategy.armoured, hfind]
  refine ⟨_, harmoured, extract_standard_of_armoured harmoured, ?_⟩
  intro hfirst
  obtain ⟨hheader', hfound, _⟩ := Armoured.find_eq_ok_iff_least.1 hfind
  -- no header stands before, so this is the one that was written
  have ho : o = pre.length := by
    by_contra hne
    exact hfirst o (by omega) hheader'
  rw [ho, hhere] at hfound
  cases hfound
  rfl

/-- A certificate in armour is found after an octet that is not text, on a line that
has begun before, and with something on the line after its last one. -/
theorem extract_armoured_sample :
    extract Strategy.standard
        ([0xFF, 0x3A] ++ Bytes.ofText Certificate.sample.armoured ++ [0x3D, 0x3D]) =
      .ok .sample := by
  obtain ⟨f, _, hextract, hfirst⟩ :=
    extract_armoured Certificate.isRead_sample [0xFF, 0x3A] [0x3D, 0x3D]
  have hdash : Armoured.header.head? = some 0x2D := by decide
  have hnone : ∀ o < [(0xFF : UInt8), 0x3A].length, ¬ Armoured.header <+:
      ([0xFF, 0x3A] ++ Bytes.ofText Certificate.sample.armoured ++ [0x3D, 0x3D]).drop o := by
    rintro o ho ⟨rest, heq⟩
    have hhead := congrArg List.head? heq
    rw [List.head?_append, hdash, List.head?_drop, List.append_assoc,
      List.getElem?_append_left ho] at hhead
    rcases o with _ | _ | o
    · cases hhead
    · cases hhead
    · cases hhead
  rw [hextract, hfirst hnone]

end SignedPdf.Extraction
