import SignedPdf.Proofs.Validity

/-!
# Certificates that have been read

A `Certificate` keeps the octets that it was read from, and whoever needs more
than its summary reads these octets again. This file shows that reading again
always gives the same certificate:

* `Certificate.IsRead.exists_signed`: the octets of a certificate, whatever
  follows them, read as one signed certificate, whose summary it is.
* `Certificate.IsRead.eq_of_der_eq`: two certificates with the same octets are
  the same.
* `Certificate.ofDer_self_delimiting`: the octets of a certificate tell where it
  ends, and none of them can be left out.
-/

namespace SignedPdf

/-- A certificate has at least the octets of a header. -/
theorem X509.SignedCertificate.octets_ne_nil {bs rest : Bytes} {s : X509.SignedCertificate}
    (h : read bs = .ok (s, rest)) : s.octets ≠ [] := by
  simp only [read, bind_eq_ok_iff] at h
  obtain ⟨c, hc, _, _, _, _, _, _, h⟩ := h
  cases h
  obtain ⟨hd, hhead, _, _, rfl⟩ := Asn1.Container.read_eq_ok.1 (element_eq_ok.1 hc)
  obtain ⟨hsize, hle⟩ := Asn1.Header.read_size hhead
  intro hnil
  have hlength := congrArg List.length hnil
  simp only [List.length_append, List.length_take, List.length_nil] at hlength
  omega

namespace Certificate

/-- The certificate has been read from some octets. -/
def IsRead (c : Certificate) : Prop := ∃ bs, ofDer bs = .ok c

theorem isRead_of_ofDer {bs : Bytes} {c : Certificate} (h : ofDer bs = .ok c) : c.IsRead := ⟨bs, h⟩

namespace IsRead

variable {c c' : Certificate}

/-- The octets of a certificate, whatever follows them, read as one signed
certificate, whose summary it is. -/
theorem exists_signed (h : c.IsRead) :
    ∃ s, ofSigned s = .ok c ∧
      ∀ after, X509.SignedCertificate.read (c.der ++ after) = .ok (s, after) := by
  obtain ⟨bs, hbs⟩ := h
  obtain ⟨s, rest, hr, hs⟩ := ofDer_eq_ok_iff.1 hbs
  refine ⟨s, hs, fun after => ?_⟩
  rw [ofSigned_der hs]
  exact X509.SignedCertificate.read_octets_append hr after

theorem exists_read (h : c.IsRead) :
    ∃ s, ofSigned s = .ok c ∧ X509.SignedCertificate.read c.der = .ok (s, []) := by
  obtain ⟨s, hs, hread⟩ := h.exists_signed
  have := hread []
  rw [List.append_nil] at this
  exact ⟨s, hs, this⟩

/-- The octets of a certificate, whatever follows them, hold this
certificate. -/
theorem ofDer_append (h : c.IsRead) (after : Bytes) : ofDer (c.der ++ after) = .ok c := by
  obtain ⟨s, hs, hread⟩ := h.exists_signed
  exact ofDer_eq_ok_iff.2 ⟨s, after, hread after, hs⟩

theorem ofDer_der (h : c.IsRead) : ofDer c.der = .ok c := by
  have := h.ofDer_append []
  rwa [List.append_nil] at this

/-- Two certificates with the same octets are the same. -/
theorem eq_of_der_eq (h : c.IsRead) (h' : c'.IsRead) (hder : c.der = c'.der) : c = c' := by
  have hc := h.ofDer_der
  rw [hder, h'.ofDer_der] at hc
  cases hc
  rfl

theorem der_ne_nil (h : c.IsRead) : c.der ≠ [] := by
  obtain ⟨s, hs, hread⟩ := h.exists_read
  rw [ofSigned_der hs]
  exact X509.SignedCertificate.octets_ne_nil hread

/-- Nothing shorter than the octets of a certificate holds one, if they start
with it: such a certificate would be found in them as well, and it ends
sooner. -/
theorem exists_ofDer_error_of_prefix (h : c.IsRead) {start : Bytes} (hstart : start <+: c.der)
    (hne : start ≠ c.der) : ∃ fault, ofDer start = .error fault := by
  cases hread : ofDer start with
  | error fault => exact ⟨fault, rfl⟩
  | ok c' =>
    have hprefix : c'.der <+: start := ofDer_prefix hread
    obtain ⟨after, hafter⟩ := hprefix.trans hstart
    have hagain := (isRead_of_ofDer hread).ofDer_append after
    rw [hafter, h.ofDer_der] at hagain
    cases hagain
    exact absurd (hstart.eq_of_length_le hprefix.length_le) hne

end IsRead

/-! ## The time of validity -/

/-- The instant lies within the validity, of which both ends are part. -/
def Covers (c : Certificate) (now : Instant) : Prop :=
  now.before c.notBefore = false ∧ c.notAfter.before now = false

instance (c : Certificate) (now : Instant) : Decidable (c.Covers now) :=
  inferInstanceAs (Decidable (_ ∧ _))

/-! ## A certificate to look at -/

/-- The octets of a certificate for the years 2024 to 2029 that `CN=R` issued to
`CN=A`. -/
def sampleDer : Bytes :=
  [0x30, 0x60, 0x30, 0x53, 0x02, 0x01, 0x01, 0x30, 0x05, 0x06, 0x03, 0x2B, 0x65, 0x70, 0x30, 0x0C,
    0x31, 0x0A, 0x30, 0x08, 0x06, 0x03, 0x55, 0x04, 0x03, 0x0C, 0x01, 0x52, 0x30, 0x1E, 0x17, 0x0D,
    0x32, 0x34, 0x30, 0x31, 0x30, 0x31, 0x30, 0x30, 0x30, 0x30, 0x30, 0x30, 0x5A, 0x17, 0x0D, 0x33,
    0x30, 0x30, 0x31, 0x30, 0x31, 0x30, 0x30, 0x30, 0x30, 0x30, 0x30, 0x5A, 0x30, 0x0C, 0x31, 0x0A,
    0x30, 0x08, 0x06, 0x03, 0x55, 0x04, 0x03, 0x0C, 0x01, 0x41, 0x30, 0x0B, 0x30, 0x05, 0x06, 0x03,
    0x2B, 0x65, 0x70, 0x03, 0x02, 0x00, 0x01, 0x30, 0x05, 0x06, 0x03, 0x2B, 0x65, 0x70, 0x03, 0x02,
    0x00, 0x02]

/-- The certificate in these octets. -/
def sample : Certificate where
  der := sampleDer
  subject := "CN=A"
  issuer := "CN=R"
  commonName := some "A"
  email := none
  notBefore := ⟨1704067200, 0⟩
  notAfter := ⟨1893456000, 0⟩

theorem ofDer_sampleDer : ofDer sampleDer = .ok sample := rfl

theorem isRead_sample : sample.IsRead := isRead_of_ofDer ofDer_sampleDer

/-! ## Where a certificate ends -/

/-- **A certificate delimits itself.** What is read from the start of some octets
keeps a part of them that is not empty. These octets read as the same certificate
whatever follows them, and no beginning of them does as soon as one octet is
missing. So the octets settle the certificate in every field. -/
theorem ofDer_self_delimiting {bs : Bytes} {c : Certificate} (h : ofDer bs = .ok c) :
    c.der ≠ [] ∧ c.der <+: bs ∧
      (∀ after, ofDer (c.der ++ after) = .ok c) ∧
      (∀ start, start <+: c.der → start ≠ c.der → ∃ fault, ofDer start = .error fault) ∧
      ∀ bs' c', ofDer bs' = .ok c' → c'.der = c.der → c' = c := by
  have hread := isRead_of_ofDer h
  refine ⟨hread.der_ne_nil, ofDer_prefix h, fun after => hread.ofDer_append after,
    fun start hstart hne => hread.exists_ofDer_error_of_prefix hstart hne, fun bs' c' h' hder => ?_⟩
  exact (isRead_of_ofDer h').eq_of_der_eq hread hder

/-- A certificate is found again with other octets after it, and is not found
when its last octet is missing. -/
theorem ofDer_self_delimiting_sample :
    ofDer (sampleDer ++ [0x00]) = .ok sample ∧ ofDer (sampleDer ++ [0x30, 0x03]) = .ok sample ∧
      ∃ fault, ofDer sampleDer.dropLast = .error fault := by
  have h : ofDer (sampleDer ++ [0x00]) = .ok sample := rfl
  obtain ⟨_, _, hafter, hshorter, _⟩ := ofDer_self_delimiting h
  exact ⟨h, hafter _, hshorter _ (List.dropLast_prefix _) (by decide)⟩

end Certificate

end SignedPdf
