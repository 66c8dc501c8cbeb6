import SignedPdf.Asn1.Element

/-!
# Bit strings

A bit string is written as an octet that counts the unused bits of the last
octet, and the octets of the string. `read?` takes a primitive element whose
unused bits are zero; only the octets are kept.
-/

namespace SignedPdf.Asn1.BitString

/-- The tag number. -/
def tag : Nat := 3

/-- The number of low bits of an octet that are zero. -/
def trailingZeros (b : UInt8) : Nat :=
  ((List.range 8).takeWhile fun i => !b.toNat.testBit i).length

/-- Whether the contents have a count of unused bits, and these are zero. -/
def isPadded : Bytes → Bool
  | [] => false
  | [unused] => unused == 0
  | unused :: b :: bs => unused.toNat ≤ trailingZeros ((b :: bs).getLast (by simp))

/-- The octets of the string at the start, and what follows it. -/
def read? (bs : Bytes) : Option (Bytes × Bytes) :=
  match Element.read bs with
  | .error _ => none
  | .ok (e, rest) =>
    if e.identifier.number = tag ∧ !e.identifier.constructed ∧ isPadded e.contents then
      some (e.contents.drop 1, rest)
    else none

end SignedPdf.Asn1.BitString
