import SignedPdf.Asn1.Element

/-!
# Elements in minimal form

In minimal form an element has an identifier of one octet and a length in as
few octets as it needs. `encode?` writes an element in this form and `contents?`
takes no other; both know only some identifiers of the universal class. No number
of octets reaches 2^28: the reader looks at that of the contents, the writer at
that of the whole element.

* `encode?_eq_some_iff`: what is written, and when.
* `contents?_form`: the contents of an element in minimal form read back, whatever
  follows it.
-/

namespace SignedPdf.Asn1.Minimal

/-! ## Identifiers -/

/-- The universal identifiers that are known: the types of single values, and
sequences and sets, which are constructed. -/
def knownUniversal : List Nat :=
  [0x01, 0x02, 0x03, 0x04, 0x05, 0x06, 0x09, 0x0A, 0x0C, 0x12, 0x13, 0x14, 0x15, 0x16, 0x17,
    0x18, 0x1A, 0x1E, 0x30, 0x31]

/-- Whether an octet is a known identifier: in the other classes every tag
number below 31 is. -/
def isKnown (octet : Nat) : Bool :=
  if octet < 0x40 then octet ∈ knownUniversal else octet % 32 != 31

/-- The octet of an identifier with a tag number below 31. -/
def identifierOctet (i : Identifier) : Nat :=
  i.tagClass.number * 64 + (if i.constructed then 32 else 0) + i.number

/-! ## Lengths -/

/-- Numbers of octets are below this one. -/
def lengthLimit : Nat := 268435456

/-- The length in as few octets as it needs. -/
def lengthOctets (n : Nat) : Bytes :=
  if n < 0x80 then [UInt8.ofNat n]
  else if n < 0x100 then [0x81, UInt8.ofNat n]
  else if n < 0x10000 then [0x82, UInt8.ofNat (n / 0x100), UInt8.ofNat n]
  else if n < 0x1000000 then
    [0x83, UInt8.ofNat (n / 0x10000), UInt8.ofNat (n / 0x100), UInt8.ofNat n]
  else
    [0x84, UInt8.ofNat (n / 0x1000000), UInt8.ofNat (n / 0x10000), UInt8.ofNat (n / 0x100),
      UInt8.ofNat n]

/-- A length at the start that is written in as few octets as it needs, and
what follows it. -/
def length? : Bytes → Option (Nat × Bytes)
  | [] => none
  | b :: bs =>
    let count := b.toNat - 0x80
    if b.toNat < 0x80 then some (b.toNat, bs)
    else if 1 ≤ count ∧ count ≤ 4 ∧ hasAtLeast count bs then
      let n := Bytes.toNat (bs.take count)
      if n < lengthLimit ∧ lengthOctets n = b :: bs.take count then some (n, bs.drop count)
      else none
    else none

/-! ## Elements -/

/-- The number of octets of a whole element: one for its identifier, those of its
length, and its contents. -/
def elementLength (contentsLength : Nat) : Nat :=
  1 + (lengthOctets contentsLength).length + contentsLength

/-- The octets of an element in minimal form. -/
def form (e : Element) : Bytes :=
  UInt8.ofNat (identifierOctet e.identifier) :: lengthOctets e.contents.length ++ e.contents

/-- The element in minimal form, if its identifier is known and the whole of it is
not too long. -/
def encode? (e : Element) : Option Bytes :=
  if e.identifier.number < 31 ∧ isKnown (identifierOctet e.identifier) ∧
      elementLength e.contents.length < lengthLimit then
    some (form e)
  else none

/-- The contents of the element in minimal form at the start. -/
def contents? : Bytes → Option Bytes
  | [] => none
  | b :: bs =>
    if isKnown b.toNat then
      match length? bs with
      | none => none
      | some (n, body) => if hasAtLeast n body then some (body.take n) else none
    else none

/-! ## What is written -/

variable {e : Element}

theorem length_form (e : Element) : (form e).length = elementLength e.contents.length := by
  simp only [form, elementLength, List.cons_append, List.length_cons, List.length_append]
  omega

/-- The contents of an element that is not too long are not too long. -/
theorem lt_lengthLimit {n : Nat} (h : elementLength n < lengthLimit) : n < lengthLimit := by
  unfold elementLength at h
  omega

/-- What is written is the form, and only of some elements. -/
theorem encode?_eq_some_iff {octets : Bytes} :
    encode? e = some octets ↔
      (e.identifier.number < 31 ∧ isKnown (identifierOctet e.identifier) = true ∧
        elementLength e.contents.length < lengthLimit) ∧ octets = form e := by
  unfold encode?
  split
  · next h => simp [h, eq_comm]
  · next h => simp [h]

/-! ## What is written reads back -/

/-- An identifier with a tag number below 31 fits into its octet. -/
theorem toNat_identifierOctet {i : Identifier} (h : i.number < 31) :
    (UInt8.ofNat (identifierOctet i)).toNat = identifierOctet i := by
  have hlt : identifierOctet i < 256 := by
    unfold identifierOctet TagClass.number
    split <;> split <;> omega
  simp only [UInt8.toNat_ofNat']
  omega

theorem length?_lengthOctets {n : Nat} (h : n < lengthLimit) (rest : Bytes) :
    length? (lengthOctets n ++ rest) = some (n, rest) := by
  have hl := h
  unfold lengthLimit at hl
  by_cases h1 : n < 0x80
  · have hn : n % 256 = n := Nat.mod_eq_of_lt (by omega)
    simp [lengthOctets, length?, h1, hn]
  by_cases h2 : n < 0x100
  · have hv : Bytes.toNat [UInt8.ofNat n] = n := by
      simp [Bytes.toNat]
      omega
    simp [lengthOctets, length?, h1, h2, hasAtLeast, hv, h]
  by_cases h3 : n < 0x10000
  · have hv : Bytes.toNat [UInt8.ofNat (n / 0x100), UInt8.ofNat n] = n := by
      simp [Bytes.toNat]
      omega
    simp [lengthOctets, length?, h1, h2, h3, hasAtLeast, hv, h]
  by_cases h4 : n < 0x1000000
  · have hv : Bytes.toNat [UInt8.ofNat (n / 0x10000), UInt8.ofNat (n / 0x100), UInt8.ofNat n] =
        n := by
      simp [Bytes.toNat]
      omega
    simp [lengthOctets, length?, h1, h2, h3, h4, hasAtLeast, hv, h]
  · have hv : Bytes.toNat [UInt8.ofNat (n / 0x1000000), UInt8.ofNat (n / 0x10000),
        UInt8.ofNat (n / 0x100), UInt8.ofNat n] = n := by
      simp [Bytes.toNat]
      omega
    simp [lengthOctets, length?, h1, h2, h3, h4, hasAtLeast, hv, h]

/-- The contents of an element in minimal form read back, whatever follows it. -/
theorem contents?_form (hnumber : e.identifier.number < 31)
    (hknown : isKnown (identifierOctet e.identifier) = true)
    (hlength : e.contents.length < lengthLimit) (rest : Bytes) :
    contents? (form e ++ rest) = some e.contents := by
  have hbody : hasAtLeast e.contents.length (e.contents ++ rest) = true := by
    rw [hasAtLeast_iff, List.length_append]
    omega
  simp only [form, List.cons_append, List.append_assoc, contents?, toNat_identifierOctet hnumber,
    hknown, if_true, length?_lengthOctets hlength, hbody, List.take_left']

end SignedPdf.Asn1.Minimal
