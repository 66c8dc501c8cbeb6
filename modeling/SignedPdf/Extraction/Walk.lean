import SignedPdf.Asn1.Minimal
import SignedPdf.Certificate
import SignedPdf.Search

/-!
# Walking over sequences

Every octet that may start a sequence is tried as the start of a certificate,
first as it is and then with one layer around it. The last four octets cannot
start a certificate and are not tried.

* `find?_eq_some_iff`: the certificate found is that of the least offset at
  which there is one.
-/

namespace SignedPdf.Extraction.Walk

open SignedPdf.Asn1

/-- Where a certificate lies, seen from the offset at which it was found. -/
inductive Place where
  /-- At the offset itself. -/
  | bare
  /-- At the start of the element at the offset. -/
  | wrapped
deriving DecidableEq, Repr

/-- The octet that starts a sequence. -/
def sequenceOctet : UInt8 := 0x30

/-- How many octets are needed for a candidate. -/
def leastSize : Nat := 5

/-- Whether a certificate may start here. -/
def isCandidate : Bytes → Bool
  | b :: bs => b == sequenceOctet && hasAtLeast leastSize (b :: bs)
  | [] => false

/-- The contents of the element in minimal form at the start. Only so many
octets are looked at as minimal form can count; `short` tells that there are
fewer, so that they need not be counted again. -/
def unwrap? (short : Bool) (bs : Bytes) : Option Bytes :=
  if short || !hasAtLeast Minimal.lengthLimit bs then Minimal.contents? bs else none

/-- The certificate at the start, bare or in one layer. -/
def certificateAt? (short : Bool) (bs : Bytes) : Option (Place × Certificate) :=
  if isCandidate bs then
    match Certificate.ofDer bs with
    | .ok c => some (.bare, c)
    | .error _ =>
      match unwrap? short bs with
      | none => none
      | some contents =>
        match Certificate.ofDer contents with
        | .ok c => some (.wrapped, c)
        | .error _ => none
  else none

/-- The certificate at the least offset that has one. -/
def find? (blob : Bytes) : Option (Nat × Place × Certificate) :=
  Search.first? (certificateAt? (!hasAtLeast Minimal.lengthLimit blob)) blob

/-- The certificate found is that of the least offset at which there is one. -/
theorem find?_eq_some_iff {blob : Bytes} {o : Nat} {p : Place} {c : Certificate} :
    find? blob = some (o, p, c) ↔
      o ≤ blob.length ∧
        certificateAt? (!hasAtLeast Minimal.lengthLimit blob) (blob.drop o) = some (p, c) ∧
        ∀ j < o, certificateAt? (!hasAtLeast Minimal.lengthLimit blob) (blob.drop j) = none :=
  Search.first?_eq_some_iff

/-- Counting once is enough: what is left of few octets is few octets. -/
theorem unwrap?_drop (blob : Bytes) (o : Nat) :
    unwrap? (!hasAtLeast Minimal.lengthLimit blob) (blob.drop o) = unwrap? false (blob.drop o) := by
  unfold unwrap?
  by_cases h : hasAtLeast Minimal.lengthLimit blob = true
  · simp [h]
  · have ho : hasAtLeast Minimal.lengthLimit (blob.drop o) = false := by
      rw [Bool.eq_false_iff]
      intro hd
      apply h
      rw [hasAtLeast_iff] at hd ⊢
      rw [List.length_drop] at hd
      omega
    simp [h, ho]

end SignedPdf.Extraction.Walk
