import SignedPdf.Files
import SignedPdf.Pem
import SignedPdf.X509.SignedCertificate

/-!
# Trust anchors

A set of anchors holds the octets of certificates, filed by the encoded name
of their subject. The certificates of one subject keep the order in which they
were added, and none is kept twice.

* `mem_withSubject_insert`: inserting adds one certificate under one subject
  and changes nothing else.
-/

namespace SignedPdf

/-! ## Faults -/

/-- Why anchors could not be added or loaded. -/
inductive AnchorFault where
  /-- A file or directory could not be read. -/
  | file (fault : FileFault)
  /-- A bundle could not be read to its end. -/
  | bundle (cause : String)
  /-- Octets are no certificate. -/
  | certificate (cause : String)
  /-- The system has no anchors. -/
  | notFound
deriving DecidableEq, Repr

/-- The fault in words. -/
def AnchorFault.message : AnchorFault → String
  | .file fault => "IO error: " ++ fault.message
  | .bundle cause => "invalid PEM data: " ++ cause
  | .certificate cause => "invalid DER certificate: " ++ cause
  | .notFound => "no system trust store found"

/-! ## Sets of anchors -/

/-- The certificates of one subject, in the order in which they were added. -/
structure Bucket where
  subject : Bytes
  certificates : List Bytes
deriving DecidableEq, Repr

/-- A set of trusted certificates. -/
structure Anchors where
  /-- One bucket for each subject. -/
  buckets : List Bucket := []
  /-- How many certificates there are. -/
  count : Nat := 0
deriving DecidableEq, Repr

namespace Anchors

/-- No anchors. -/
def empty : Anchors := ⟨[], 0⟩

/-- Whether there are no anchors. -/
def isEmpty (a : Anchors) : Bool := a.count == 0

/-- The certificates with a subject, in the order in which they were added. -/
def withSubject (a : Anchors) (subject : Bytes) : List Bytes :=
  match a.buckets.find? fun b => b.subject == subject with
  | some b => b.certificates
  | none => []

/-- Whether a certificate is filed under a subject. -/
def holds (a : Anchors) (subject der : Bytes) : Bool := (a.withSubject subject).contains der

theorem holds_iff {a : Anchors} {subject der : Bytes} :
    a.holds subject der = true ↔ der ∈ a.withSubject subject := List.contains_iff_mem

/-- Files a certificate as the last of its subject. -/
def fileUnder (subject der : Bytes) : List Bucket → List Bucket
  | [] => [⟨subject, [der]⟩]
  | b :: bs =>
    if b.subject == subject then ⟨subject, b.certificates ++ [der]⟩ :: bs
    else b :: fileUnder subject der bs

/-- Adds a certificate under a subject, unless it is there already. -/
def insert (a : Anchors) (subject der : Bytes) : Anchors :=
  if a.holds subject der then a
  else ⟨fileUnder subject der a.buckets, a.count + 1⟩

/-- Adds a certificate, which is the one at the start of the octets; all of the
octets are kept. -/
def add (a : Anchors) (der : Bytes) : Except AnchorFault Anchors :=
  match X509.SignedCertificate.read der with
  | .ok (c, _) => .ok (a.insert c.statement.subject.octets der)
  | .error fault => .error (.certificate fault.message)

/-! ## Bundles -/

/-- The label of the blocks of a bundle that hold certificates. -/
def bundleLabel : String := "CERTIFICATE"

/-- Adds the certificate of a block, if it holds one, and counts it. -/
def addBlock (s : Anchors × Nat) (b : Pem.Block) : Anchors × Nat :=
  if b.label = bundleLabel then
    match s.1.add b.contents with
    | .ok a => (a, s.2 + 1)
    | .error _ => s
  else s

/-- Adds the certificates of a bundle up to the first block that cannot be
read; tells how many blocks held one, or the fault. -/
def addBundle (a : Anchors) (bundle : Bytes) : Anchors × Except AnchorFault Nat :=
  let (blocks, fault) := Pem.blocks bundle
  let (a, added) := blocks.foldl addBlock (a, 0)
  match fault with
  | none => (a, .ok added)
  | some fault => (a, .error (.bundle fault.message))

/-- The anchors of a bundle, if all of it can be read. -/
def ofBundle (bundle : Bytes) : Except AnchorFault Anchors :=
  match empty.addBundle bundle with
  | (a, .ok _) => .ok a
  | (_, .error fault) => .error fault

/-! ## What inserting does -/

theorem withSubject_fileUnder (subject der : Bytes) (bs : List Bucket) (n m : Nat) (s : Bytes) :
    (⟨fileUnder subject der bs, n⟩ : Anchors).withSubject s =
      if s = subject then (⟨bs, m⟩ : Anchors).withSubject s ++ [der]
      else (⟨bs, m⟩ : Anchors).withSubject s := by
  induction bs with
  | nil =>
    by_cases h : subject = s
    · simp [withSubject, fileUnder, h]
    · have : ¬ s = subject := fun h' => h h'.symm
      simp [withSubject, fileUnder, h, this]
  | cons b bs ih =>
    simp only [withSubject] at ih ⊢
    by_cases hb : b.subject = subject
    · by_cases hs : subject = s
      · simp [fileUnder, hb, hs]
      · have : ¬ s = subject := fun h' => hs h'.symm
        simp [fileUnder, hb, hs, this]
    · by_cases hs : b.subject = s
      · have : ¬ s = subject := fun h' => hb (hs.trans h')
        simp [fileUnder, hs, this]
      · simpa [fileUnder, hb, hs] using ih

/-- Inserting puts the certificate last among those of its subject, if it is
new, and touches no other subject. -/
theorem withSubject_insert (a : Anchors) (subject der s : Bytes) :
    (a.insert subject der).withSubject s =
      if s = subject ∧ a.holds subject der = false then a.withSubject s ++ [der]
      else a.withSubject s := by
  unfold insert
  cases h : a.holds subject der with
  | true => simp
  | false =>
    simp only [Bool.false_eq_true, if_false, and_true]
    exact withSubject_fileUnder subject der a.buckets _ a.count s

/-- Inserting adds one certificate under one subject and changes nothing
else. -/
theorem mem_withSubject_insert {a : Anchors} {subject der s d : Bytes} :
    d ∈ (a.insert subject der).withSubject s ↔ d ∈ a.withSubject s ∨ (s = subject ∧ d = der) := by
  rw [withSubject_insert]
  by_cases hs : s = subject
  · subst hs
    cases hm : a.holds s der with
    | true =>
      have := holds_iff.1 hm
      simp only [Bool.true_eq_false, and_false, if_false, true_and]
      constructor
      · exact .inl
      · rintro (h | rfl)
        · exact h
        · exact this
    | false => simp
  · simp [hs]

end Anchors

end SignedPdf
