import Mathlib.Data.List.Nodup
import SignedPdf.Anchors

/-!
# How anchors are filed

A set of anchors keeps each certificate once, under the encoded name of its
subject, and counts them. The uniqueness is looked after in one bucket only; it
holds in the whole set because the octets of a certificate settle its bucket.

* `Anchors.Filed` is the invariant, and `Filed.insert` its step.
* `Filed.mem_withSubject_iff`: a look-up finds what is stored and has that
  subject.
-/

namespace SignedPdf

namespace Anchors

/-! ## What is added, and under which name -/

/-- The encoded name of the subject, if the octets start with a certificate. -/
def subjectOf? (der : Bytes) : Option Bytes :=
  match X509.SignedCertificate.read der with
  | .ok (s, _) => some s.statement.subject.octets
  | .error _ => none

theorem subjectOf?_of_read {der rest : Bytes} {s : X509.SignedCertificate}
    (h : X509.SignedCertificate.read der = .ok (s, rest)) :
    subjectOf? der = some s.statement.subject.octets := by
  simp only [subjectOf?, h]

theorem subjectOf?_eq_some_iff {der subject : Bytes} :
    subjectOf? der = some subject ↔
      ∃ s rest, X509.SignedCertificate.read der = .ok (s, rest) ∧
        s.statement.subject.octets = subject := by
  unfold subjectOf?
  cases X509.SignedCertificate.read der with
  | ok r =>
    obtain ⟨s, rest⟩ := r
    simp
  | error fault => simp

/-- Adding succeeds for octets that start with a certificate, in any set, and
files them under the name of the subject. -/
theorem add_eq_ok_iff {a a' : Anchors} {der : Bytes} :
    a.add der = .ok a' ↔ ∃ subject, subjectOf? der = some subject ∧ a' = a.insert subject der := by
  unfold add subjectOf?
  cases X509.SignedCertificate.read der with
  | ok r => simp [eq_comm]
  | error fault => simp

/-! ## The invariant -/

/-- All octet strings of a set. -/
def stored (a : Anchors) : List Bytes := a.buckets.flatMap Bucket.certificates

/-- What holds of a set that has been built by adding certificates. -/
structure Filed (a : Anchors) : Prop where
  /-- No subject has two buckets. -/
  subjects : (a.buckets.map Bucket.subject).Nodup
  /-- Every certificate is filed under its own subject. -/
  filed : ∀ b ∈ a.buckets, ∀ der ∈ b.certificates, subjectOf? der = some b.subject
  nonempty : ∀ b ∈ a.buckets, b.certificates ≠ []
  /-- Nothing is stored twice, in whatever buckets. -/
  distinct : a.stored.Nodup
  counted : a.count = a.stored.length

theorem filed_empty : empty.Filed where
  subjects := List.nodup_nil
  filed := by simp [empty]
  nonempty := by simp [empty]
  distinct := List.nodup_nil
  counted := rfl

theorem mem_stored_iff {a : Anchors} {der : Bytes} :
    der ∈ a.stored ↔ ∃ b ∈ a.buckets, der ∈ b.certificates := List.mem_flatMap

/-- A look-up finds the bucket of the subject, as there is no other one. -/
theorem Filed.withSubject_eq {a : Anchors} (h : a.Filed) {b : Bucket} (hb : b ∈ a.buckets) :
    a.withSubject b.subject = b.certificates := by
  have hfind : a.buckets.find? (fun b' => b'.subject == b.subject) = some b := by
    obtain ⟨before, after, hsplit⟩ := List.append_of_mem hb
    have hnodup := h.subjects
    rw [hsplit, List.map_append, List.map_cons, List.nodup_append] at hnodup
    refine List.find?_eq_some_iff_append.2 ⟨by simp, before, after, hsplit, fun b' hb' => ?_⟩
    have := hnodup.2.2 b'.subject (List.mem_map_of_mem hb') b.subject (List.mem_cons_self ..)
    simpa using this
  simp only [withSubject, hfind]

/-- A look-up finds exactly what is stored and has that subject. -/
theorem Filed.mem_withSubject_iff {a : Anchors} (h : a.Filed) {subject der : Bytes} :
    der ∈ a.withSubject subject ↔ der ∈ a.stored ∧ subjectOf? der = some subject := by
  constructor
  · intro hder
    unfold withSubject at hder
    split at hder
    · next b hb =>
      have hmem := List.mem_of_find?_eq_some hb
      have hsubject : b.subject = subject := by simpa using List.find?_some hb
      exact ⟨mem_stored_iff.2 ⟨b, hmem, hder⟩, hsubject ▸ h.filed b hmem der hder⟩
    · cases hder
  · rintro ⟨hder, hsubject⟩
    obtain ⟨b, hb, hder⟩ := mem_stored_iff.1 hder
    have := h.filed b hb der hder
    rw [hsubject, Option.some.injEq] at this
    rw [this, h.withSubject_eq hb]
    exact hder

/-! ## One step -/

/-- Filing adds one certificate to those that are stored. -/
theorem stored_fileUnder (subject der : Bytes) (bs : List Bucket) :
    List.Perm ((fileUnder subject der bs).flatMap Bucket.certificates)
      (der :: bs.flatMap Bucket.certificates) := by
  induction bs with
  | nil => simp [fileUnder]
  | cons b bs ih =>
    unfold fileUnder
    split
    · next hb =>
      rw [List.flatMap_cons, List.flatMap_cons, List.append_assoc, List.singleton_append]
      exact List.perm_middle
    · next hb =>
      rw [List.flatMap_cons, List.flatMap_cons]
      exact (ih.append_left _).trans List.perm_middle

/-- Filing makes a new bucket only for a subject that has none. -/
theorem subjects_fileUnder (subject der : Bytes) (bs : List Bucket) :
    (fileUnder subject der bs).map Bucket.subject =
      if subject ∈ bs.map Bucket.subject then bs.map Bucket.subject
      else bs.map Bucket.subject ++ [subject] := by
  induction bs with
  | nil => rfl
  | cons b bs ih =>
    unfold fileUnder
    by_cases hb : b.subject = subject
    · simp [hb]
    · have hb' : ¬ subject = b.subject := fun h => hb h.symm
      simp only [beq_iff_eq, hb, if_false, List.map_cons, ih, List.mem_cons, hb', false_or]
      split <;> rfl

/-- A bucket after filing is an old one, or that of the subject with the
certificate as its last. -/
theorem mem_fileUnder {subject der : Bytes} {bs : List Bucket} {b : Bucket}
    (h : b ∈ fileUnder subject der bs) :
    b ∈ bs ∨ ∃ ders, b = ⟨subject, ders ++ [der]⟩ ∧ (ders = [] ∨ ⟨subject, ders⟩ ∈ bs) := by
  induction bs with
  | nil =>
    simp only [fileUnder, List.mem_singleton] at h
    exact .inr ⟨[], h, .inl rfl⟩
  | cons b' bs ih =>
    unfold fileUnder at h
    split at h
    · next hb' =>
      rcases List.mem_cons.1 h with rfl | h
      · refine .inr ⟨b'.certificates, rfl, .inr ?_⟩
        have : b' = ⟨subject, b'.certificates⟩ := by rw [← beq_iff_eq.1 hb']
        rw [← this]
        exact List.mem_cons_self ..
      · exact .inl (List.mem_cons_of_mem _ h)
    · next hb' =>
      rcases List.mem_cons.1 h with rfl | h
      · exact .inl (List.mem_cons_self ..)
      · rcases ih h with h | ⟨ders, hb, hders⟩
        · exact .inl (List.mem_cons_of_mem _ h)
        · exact .inr ⟨ders, hb, hders.imp_right (List.mem_cons_of_mem _)⟩

theorem nodup_subjects_fileUnder {bs : List Bucket} (h : (bs.map Bucket.subject).Nodup)
    (subject der : Bytes) : ((fileUnder subject der bs).map Bucket.subject).Nodup := by
  rw [subjects_fileUnder]
  split
  · exact h
  · next hnew =>
    refine List.nodup_append.2 ⟨h, List.nodup_singleton _, ?_⟩
    rintro s hs s' hs' rfl
    rw [List.mem_singleton] at hs'
    exact hnew (hs' ▸ hs)

/-- A certificate that is filed under its own subject joins others of that
subject. -/
theorem subjectOf?_of_mem_fileUnder {bs : List Bucket}
    (h : ∀ b ∈ bs, ∀ d ∈ b.certificates, subjectOf? d = some b.subject) {subject der : Bytes}
    (hsubject : subjectOf? der = some subject) {b : Bucket} (hb : b ∈ fileUnder subject der bs)
    {d : Bytes} (hd : d ∈ b.certificates) : subjectOf? d = some b.subject := by
  rcases mem_fileUnder hb with hb | ⟨ders, rfl, hders⟩
  · exact h b hb d hd
  · rcases List.mem_append.1 hd with hd | hd
    · rcases hders with rfl | hders
      · cases hd
      · exact h _ hders d hd
    · rw [List.mem_singleton.1 hd]
      exact hsubject

/-- Inserting a certificate under its subject keeps the invariant. -/
theorem Filed.insert {a : Anchors} (h : a.Filed) {subject der : Bytes}
    (hsubject : subjectOf? der = some subject) : (a.insert subject der).Filed := by
  unfold Anchors.insert
  split
  · exact h
  · next hnew =>
    have hperm := stored_fileUnder subject der a.buckets
    -- The bucket alone has been searched, but the certificate is in no other one.
    have hder : der ∉ a.stored := by
      intro hder
      exact hnew (holds_iff.2 (h.mem_withSubject_iff.2 ⟨hder, hsubject⟩))
    constructor
    case subjects => exact nodup_subjects_fileUnder h.subjects subject der
    case filed =>
      intro b hb d hd
      exact subjectOf?_of_mem_fileUnder h.filed hsubject hb hd
    case nonempty =>
      intro b hb
      rcases mem_fileUnder hb with hb | ⟨ders, rfl, _⟩
      · exact h.nonempty b hb
      · simp
    case distinct => exact hperm.nodup_iff.2 (List.nodup_cons.2 ⟨hder, h.distinct⟩)
    case counted =>
      have hlength := hperm.length_eq
      rw [List.length_cons] at hlength
      simp only [stored, hlength, h.counted]

/-- Inserting a certificate under its subject stores it, beside what was
stored. -/
theorem Filed.mem_stored_insert {a : Anchors} (h : a.Filed) {subject der d : Bytes} :
    d ∈ (a.insert subject der).stored ↔ d ∈ a.stored ∨ d = der := by
  unfold Anchors.insert
  split
  · next hold =>
    have hder := (h.mem_withSubject_iff.1 (holds_iff.1 hold)).1
    exact ⟨.inl, fun hd => hd.elim id fun hd => hd ▸ hder⟩
  · next hnew =>
    have := (stored_fileUnder subject der a.buckets).mem_iff (a := d)
    rw [List.mem_cons] at this
    exact this.trans or_comm

end Anchors

end SignedPdf
