import SignedPdf.Certificate
import SignedPdf.Search
import SignedPdf.Steps

/-!
# Certificates in armour

Wherever the first line of a certificate in armour stands in some octets, a
block is read from there; the first block that holds a certificate counts.
Whatever stands before the block, even on the same line, does not matter.

* `find_eq_ok_iff`: the certificate found is that of the first candidate that
  can be read.
-/

namespace SignedPdf.Extraction.Armoured

/-- Why no certificate was found. -/
inductive Fault where
  /-- There is no first line. -/
  | noBlock
  /-- The last block could not be read. -/
  | unreadable (fault : Pem.Fault)
  /-- The last block holds no certificate. -/
  | notACertificate (fault : X509.Fault)
deriving DecidableEq, Repr

/-- The fault in words. -/
def Fault.message : Fault → String
  | .noBlock => "no PEM CERTIFICATE block"
  | .unreadable fault => "invalid PEM data: Parsing Error: " ++ fault.name
  | .notACertificate fault => "invalid PEM certificate: " ++ fault.message

/-- The first line of a certificate in armour. -/
def header : Bytes := Bytes.ofText "-----BEGIN CERTIFICATE-----"

/-- What starts with a header, if the octets do. -/
def headerAt? (bs : Bytes) : Option Bytes := if Bytes.startsWith header bs then some bs else none

/-- Every offset of a header, with the octets from there on. -/
def candidates (blob : Bytes) : List (Nat × Bytes) := Search.all headerAt? blob

/-- The certificate in the block at the start. -/
def certificateAt (bs : Bytes) : Except Fault Certificate :=
  match Pem.read bs with
  | .error fault => .error (.unreadable fault)
  | .ok (block, _) =>
    match Certificate.ofDer block.contents with
    | .error fault => .error (.notACertificate fault)
    | .ok c => .ok c

/-- How the candidates fare, one after the other. -/
def trial (blob : Bytes) : Trial (Nat × Bytes) Certificate Fault :=
  .tryEach (fun d => certificateAt d.2) (candidates blob)

/-- The certificate in armour at the least offset, and this offset, or the
fault of the last candidate. -/
def find (blob : Bytes) : Except Fault (Nat × Certificate) :=
  let t := trial blob
  match t.found with
  | some ((offset, _), c) => .ok (offset, c)
  | none => .error (t.lastFault?.getD .noBlock)

/-- The certificate found is that of the first candidate that can be read. -/
theorem find_eq_ok_iff {blob : Bytes} {o : Nat} {c : Certificate} :
    find blob = .ok (o, c) ↔
      ∃ before bs after, candidates blob = before ++ (o, bs) :: after ∧
        certificateAt bs = .ok c ∧ ∀ d ∈ before, ∃ fault, certificateAt d.2 = .error fault := by
  have hfind : find blob = .ok (o, c) ↔ ∃ bs, (trial blob).found = some ((o, bs), c) := by
    simp only [find]
    split
    · next o' bs c' h =>
      rw [h]
      constructor
      · intro heq
        cases heq
        exact ⟨bs, rfl⟩
      · rintro ⟨bs', heq⟩
        cases heq
        rfl
    · next h => simp [h]
  rw [hfind]
  simp only [trial, Trial.found_tryEach_iff]
  exact ⟨fun ⟨bs, before, after, h⟩ => ⟨before, bs, after, h⟩,
    fun ⟨before, bs, after, h⟩ => ⟨bs, before, after, h⟩⟩

end SignedPdf.Extraction.Armoured
