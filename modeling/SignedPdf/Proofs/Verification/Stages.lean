import SignedPdf.Verification

/-!
# The stages of an examination

A dictionary is examined in stages: it must have contents, these must be octets
in hexadecimal digits, some strategy must find a certificate in them, and the
certificate must be trusted. The first stage that fails gives the reason, and
what the earlier stages have found stays in the entry.

* `Tries` and `Settles` say this as rules, with the wording of every reason.
* `settles_examine` and `Settles.eq_examine`: some rule applies, and all that do
  give what the examination gives.
* `entry_settled`: the entry, field by field.
-/

namespace SignedPdf

namespace Verification

open Extraction (Strategy)

/-! ## Trying strategies -/

/-- Strategies are tried on octets in order: `Tries blob ss causes c` tells the
causes of those that failed, and the certificate of the first that did not. -/
inductive Tries (blob : Bytes) : List Strategy → List String → Option Certificate → Prop
  | exhausted : Tries blob [] [] none
  | found {s : Strategy} {ss : List Strategy} {f : Extraction.Finding} (h : s.find blob = .ok f) :
    Tries blob (s :: ss) [] (some f.certificate)
  | failed {s : Strategy} {ss : List Strategy} {cause : String} {causes : List String}
    {c : Option Certificate} (h : s.find blob = .error cause) (hs : Tries blob ss causes c) :
    Tries blob (s :: ss) (cause :: causes) c

/-- The rules describe how the strategies are tried. -/
theorem tries_attempt (blob : Bytes) (ss : List Strategy) :
    Tries blob ss ((Extraction.attempt ss blob).failed.map Prod.snd)
      ((Extraction.attempt ss blob).found.map fun p => p.2.certificate) := by
  unfold Extraction.attempt
  induction ss with
  | nil => exact .exhausted
  | cons s ss ih =>
    cases hf : s.find blob with
    | ok f =>
      rw [Trial.tryEach_cons_ok (f := fun s => Strategy.find s blob) hf]
      exact .found hf
    | error cause =>
      rw [Trial.tryEach_cons_error (f := fun s => Strategy.find s blob) hf]
      exact .failed hf ih

/-- The rules describe nothing else. -/
theorem Tries.eq_attempt {blob : Bytes} {ss : List Strategy} {causes : List String}
    {c : Option Certificate} (h : Tries blob ss causes c) :
    (Extraction.attempt ss blob).failed.map Prod.snd = causes ∧
      ((Extraction.attempt ss blob).found.map fun p => p.2.certificate) = c := by
  unfold Extraction.attempt
  induction h with
  | exhausted => exact ⟨rfl, rfl⟩
  | found hf =>
    rw [Trial.tryEach_cons_ok (f := fun s => Strategy.find s blob) hf]
    exact ⟨rfl, rfl⟩
  | failed hf _ ih =>
    obtain ⟨rfl, rfl⟩ := ih
    rw [Trial.tryEach_cons_error (f := fun s => Strategy.find s blob) hf]
    exact ⟨rfl, rfl⟩

/-- The causes of all strategies in words. -/
def causesText (causes : List String) : String :=
  if causes = [] then "no extraction strategies configured" else "; ".intercalate causes

theorem causes_attempt (blob : Bytes) (ss : List Strategy) :
    Extraction.Trail.causes (Extraction.attempt ss blob) =
      causesText ((Extraction.attempt ss blob).failed.map Prod.snd) := by
  unfold Extraction.Trail.causes causesText
  cases (Extraction.attempt ss blob).failed <;> rfl

/-- Strategies of which none finds a certificate fail with their causes. -/
theorem Tries.result_eq_error {blob : Bytes} {ss : List Strategy} {causes : List String}
    (h : Tries blob ss causes none) :
    Extraction.Trail.result (Extraction.attempt ss blob) = .error ⟨causesText causes⟩ := by
  obtain ⟨hcauses, hfound⟩ := h.eq_attempt
  rw [Option.map_eq_none_iff] at hfound
  rw [Extraction.Trail.result_error_iff, causes_attempt, hcauses]
  exact ⟨hfound, rfl⟩

/-- The first certificate that is found decides. -/
theorem Tries.result_eq_ok {blob : Bytes} {ss : List Strategy} {causes : List String}
    {c : Certificate} (h : Tries blob ss causes (some c)) :
    Extraction.Trail.result (Extraction.attempt ss blob) = .ok c := by
  obtain ⟨_, hfound⟩ := h.eq_attempt
  obtain ⟨p, hp, rfl⟩ := Option.map_eq_some_iff.1 hfound
  rw [Extraction.Trail.result, hp]

/-! ## The contents of a dictionary -/

/-- The dictionary holds these octets, of which there is at least one. -/
def Holds (d : SignatureDictionary) (blob : Bytes) : Prop :=
  d.contents ≠ "" ∧ Hex.decode d.contents = .ok blob ∧ blob ≠ []

theorem contentsOf_eq_ok_iff {d : SignatureDictionary} {blob : Bytes} :
    contentsOf d = .ok blob ↔ Holds d blob := by
  unfold contentsOf Holds
  by_cases hd : d.contents = ""
  · simp [hd]
  · simp only [hd, if_false, ne_eq, not_false_eq_true, true_and]
    cases hdecode : Hex.decode d.contents with
    | error fault => simp
    | ok bs =>
      cases bs with
      | nil =>
        simp only [reduceCtorEq, false_iff]
        rintro ⟨h, hne⟩
        cases h
        exact hne rfl
      | cons b bs =>
        simp only [Except.ok.injEq]
        exact ⟨fun h => ⟨h, h ▸ List.cons_ne_nil b bs⟩, And.left⟩

theorem contentsOf_of_empty {d : SignatureDictionary} (h : d.contents = "") :
    contentsOf d = .error .noContents := by
  rw [contentsOf, if_pos h]

/-- What holds no octets, but is not empty, cannot be decoded. -/
theorem contentsOf_of_undecodable {d : SignatureDictionary} (h : d.contents ≠ "")
    (hno : ∀ blob, Hex.decode d.contents = .ok blob → blob = []) :
    contentsOf d = .error .undecodable := by
  rw [contentsOf, if_neg h]
  split
  · next b bs hdecode => cases hno _ hdecode
  · rfl

/-- One of three things is the case. -/
theorem contents_cases (d : SignatureDictionary) :
    d.contents = "" ∨ (∃ blob, Holds d blob) ∨
      d.contents ≠ "" ∧ ∀ blob, Hex.decode d.contents = .ok blob → blob = [] := by
  by_cases hd : d.contents = ""
  · exact .inl hd
  by_cases hblob : ∃ blob, Holds d blob
  · exact .inr (.inl hblob)
  · refine .inr (.inr ⟨hd, fun blob hdecode => ?_⟩)
    by_cases hne : blob = []
    · exact hne
    · exact absurd ⟨blob, hd, hdecode, hne⟩ hblob

/-! ## Stages -/

/-- How the examination of a dictionary ends: with a certificate or without one,
and with a reason in words or, for a valid signature, without one. There is one
rule for each stage that may fail, and one for success. -/
inductive Settles (v : Verifier) (now : Instant) (d : SignatureDictionary) :
    Option Certificate → Option String → Prop
  | noContents (h : d.contents = "") :
    Settles v now d none (some "no /Contents found in signature dictionary")
  | undecodable (h : d.contents ≠ "") (hno : ∀ blob, Hex.decode d.contents = .ok blob → blob = []) :
    Settles v now d none (some "could not decode signature contents")
  | noCertificate {blob : Bytes} {causes : List String} (h : Holds d blob)
    (hno : Tries blob v.strategies causes none) :
    Settles v now d none (some ("certificate extraction failed: " ++
      ("no parseable certificate found in CMS blob: " ++ causesText causes)))
  | untrusted {blob : Bytes} {causes : List String} {c : Certificate} {fault : Chain.Fault}
    (h : Holds d blob) (hc : Tries blob v.strategies causes (some c))
    (hno : Chain.validate c v.anchors now = .error fault) :
    Settles v now d (some c) (some ("certificate chain validation failed: " ++ fault.message))
  | trusted {blob : Bytes} {causes : List String} {c : Certificate} {trust : Chain.Trust}
    (h : Holds d blob) (hc : Tries blob v.strategies causes (some c))
    (ht : Chain.validate c v.anchors now = .ok trust) :
    Settles v now d (some c) none

variable {v : Verifier} {now : Instant} {d : SignatureDictionary}

/-- The rule for octets that have been read. -/
theorem settles_examineContents {blob : Bytes} (h : Holds d blob) :
    Settles v now d (v.examineContents now blob).certificate
      ((v.examineContents now blob).verdict.reason?.map Reason.message) := by
  have htries := tries_attempt blob v.strategies
  cases hfound : (Extraction.attempt v.strategies blob).found with
  | none =>
    rw [hfound, Option.map_none] at htries
    simp only [Verifier.examineContents, htries.result_eq_error]
    exact .noCertificate h htries
  | some p =>
    rw [hfound, Option.map_some] at htries
    simp only [Verifier.examineContents, htries.result_eq_ok]
    cases hvalidate : Chain.validate p.2.certificate v.anchors now with
    | error fault => exact .untrusted h htries hvalidate
    | ok trust => exact .trusted h htries hvalidate

/-- Some rule applies, and it gives what the examination gives. -/
theorem settles_examine (v : Verifier) (now : Instant) (d : SignatureDictionary) :
    Settles v now d (v.examine now d).certificate
      ((v.examine now d).verdict.reason?.map Reason.message) := by
  unfold Verifier.examine
  rcases contents_cases d with hd | ⟨blob, hblob⟩ | ⟨hd, hno⟩
  · rw [contentsOf_of_empty hd]
    exact .noContents hd
  · rw [contentsOf_eq_ok_iff.2 hblob]
    exact settles_examineContents hblob
  · rw [contentsOf_of_undecodable hd hno]
    exact .undecodable hd hno

/-- Every rule that applies gives what the examination gives. -/
theorem Settles.eq_examine {c : Option Certificate} {reason : Option String}
    (h : Settles v now d c reason) :
    c = (v.examine now d).certificate ∧
      reason = (v.examine now d).verdict.reason?.map Reason.message := by
  cases h with
  | noContents h =>
    rw [Verifier.examine, contentsOf_of_empty h]
    exact ⟨rfl, rfl⟩
  | undecodable h hno =>
    rw [Verifier.examine, contentsOf_of_undecodable h hno]
    exact ⟨rfl, rfl⟩
  | noCertificate h hno =>
    simp only [Verifier.examine, contentsOf_eq_ok_iff.2 h, Verifier.examineContents,
      hno.result_eq_error]
    exact ⟨trivial, rfl⟩
  | untrusted h hc hno =>
    simp only [Verifier.examine, contentsOf_eq_ok_iff.2 h, Verifier.examineContents,
      hc.result_eq_ok, hno]
    exact ⟨trivial, rfl⟩
  | trusted h hc ht =>
    simp only [Verifier.examine, contentsOf_eq_ok_iff.2 h, Verifier.examineContents,
      hc.result_eq_ok, ht]
    exact ⟨trivial, rfl⟩

/-! ## Entries -/

theorem nameOf_eq (d : SignatureDictionary) (c : Option Certificate) :
    Entry.nameOf d c =
      if d.name.getD "" ≠ "" then d.name.getD "" else (c.bind Certificate.commonName).getD "" := by
  unfold Entry.nameOf
  cases d.name with
  | none => simp
  | some name => by_cases hname : name = "" <;> simp [hname]

/-- **The entry of a dictionary.** Exactly one rule settles the examination, and
its reason is the reason of the entry, which is valid if there is none. Role,
time and name are those of the dictionary whatever the rule, and the certificate
that the rule gives, if any, fills the other fields and a missing name. -/
theorem entry_settled (v : Verifier) (now : Instant) (d : SignatureDictionary) :
    ∃ c reason, Settles v now d c reason ∧
      (∀ c' reason', Settles v now d c' reason' → c' = c ∧ reason' = reason) ∧
      (v.entry now d).isValid = reason.isNone ∧
      (v.entry now d).failureReason? = reason ∧
      (v.entry now d).signerRole = d.reason.getD "" ∧
      (v.entry now d).signingTime = d.date.bind PdfDate.read? ∧
      (v.entry now d).signerName =
        (if d.name.getD "" ≠ "" then d.name.getD "" else (c.bind Certificate.commonName).getD "") ∧
      (v.entry now d).certificateIssuer = (c.map Certificate.issuer).getD "" ∧
      (v.entry now d).certificateSubject = (c.map Certificate.subject).getD "" ∧
      (v.entry now d).signerEmail = (c.bind Certificate.email).getD "" ∧
      (v.entry now d).certificateText =
        if v.options.includeCertificate then c.map Certificate.armoured else none := by
  refine ⟨_, _, settles_examine v now d, fun c' reason' h => h.eq_examine, ?_, rfl, rfl, rfl,
    nameOf_eq d _, rfl, rfl, rfl, rfl⟩
  have hvalid : (v.entry now d).isValid = (v.entry now d).failureReason?.isNone := by
    rw [Bool.eq_iff_iff, Entry.isValid_iff, Option.isNone_iff_eq_none]
  exact hvalid

end Verification

end SignedPdf
