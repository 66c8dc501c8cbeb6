import SignedPdf.Asn1.Minimal

/-!
# Keys and signatures as elements

Keys and signatures hold sequences of positive integers. They are read
strictly: identifiers are single octets, lengths are in minimal form and below
2^16, integers are in minimal form, and nothing is left over.
-/

namespace SignedPdf.Asn1.Strict

/-- Lengths are below this number. -/
def lengthLimit : Nat := 65536

/-- The contents of the element at the start, which must have that identifier,
and what follows it. -/
def read? (identifier : UInt8) : Bytes → Option (Bytes × Bytes)
  | [] => none
  | b :: bs =>
    if b = identifier then
      match Minimal.length? bs with
      | some (n, body) =>
        if n < lengthLimit ∧ hasAtLeast n body then some (body.take n, body.drop n) else none
      | none => none
    else none

/-- The number that is written in the contents of an integer, if it is
positive and in minimal form. -/
def positive? : Bytes → Option Nat
  | [] => none
  | [b] => if 0 < b.toNat ∧ b.toNat < 0x80 then some b.toNat else none
  | b :: c :: bs =>
    if b = 0 then if 0x80 ≤ c.toNat then some (Bytes.toNat (c :: bs)) else none
    else if b.toNat < 0x80 then some (Bytes.toNat (b :: c :: bs))
    else none

/-- The two positive integers of a sequence that makes up all of the octets. -/
def integerPair? (bs : Bytes) : Option (Nat × Nat) := do
  let (contents, rest) ← read? 0x30 bs
  let (first, contents) ← read? 0x02 contents
  let (second, contents) ← read? 0x02 contents
  guard (rest = [] ∧ contents = [])
  let first ← positive? first
  let second ← positive? second
  return (first, second)

end SignedPdf.Asn1.Strict
