import SignedPdf.Asn1.Strict
import SignedPdf.Digest
import SignedPdf.Modular

/-!
# RSA signatures

A signature is a number whose power by the exponent of the key is the digest of
the message in a fixed frame: `00 01`, octets `FF`, `00`, and the digest with
the name of its algorithm.
-/

namespace SignedPdf.Signature.Rsa

/-! ## Keys -/

/-- A public key. -/
structure Key where
  modulus : Nat
  exponent : Nat
deriving DecidableEq, Repr

namespace Key

/-- The key that the octets hold. -/
def read? (bs : Bytes) : Option Key :=
  (Asn1.Strict.integerPair? bs).map fun (modulus, exponent) => ⟨modulus, exponent⟩

/-- The number of bits of the modulus. -/
def bits (k : Key) : Nat := if k.modulus = 0 then 0 else Nat.log2 k.modulus + 1

/-- The number of octets of the modulus, and of a signature. -/
def size (k : Key) : Nat := (k.bits + 7) / 8

/-- The largest modulus has so many bits. -/
def mostBits : Nat := 8192

/-- Whether a key is used at all: the modulus is odd and of the right size,
counted in whole octets, and the exponent is odd, at least three and below
2^33. -/
def isUsable (leastBits : Nat) (k : Key) : Bool :=
  leastBits ≤ 8 * k.size && k.bits ≤ mostBits && k.modulus % 2 == 1 && 3 ≤ k.exponent &&
    k.exponent < 8589934592 && k.exponent % 2 == 1

end Key

/-! ## Frames -/

/-- The element that holds the digest, up to the digest itself. -/
def digestHeader : Digest → Bytes
  | .sha1 => [0x30, 0x21, 0x30, 0x09, 0x06, 0x05, 0x2B, 0x0E, 0x03, 0x02, 0x1A, 0x05, 0x00, 0x04,
      0x14]
  | .sha256 => [0x30, 0x31, 0x30, 0x0D, 0x06, 0x09, 0x60, 0x86, 0x48, 0x01, 0x65, 0x03, 0x04,
      0x02, 0x01, 0x05, 0x00, 0x04, 0x20]
  | .sha384 => [0x30, 0x41, 0x30, 0x0D, 0x06, 0x09, 0x60, 0x86, 0x48, 0x01, 0x65, 0x03, 0x04,
      0x02, 0x02, 0x05, 0x00, 0x04, 0x30]
  | .sha512 => [0x30, 0x51, 0x30, 0x0D, 0x06, 0x09, 0x60, 0x86, 0x48, 0x01, 0x65, 0x03, 0x04,
      0x02, 0x03, 0x05, 0x00, 0x04, 0x40]

/-- The digest of a message in its frame of `size` octets. -/
def framed (digest : Digest) (size : Nat) (message : Bytes) : Bytes :=
  let info := digestHeader digest ++ digest.of message
  0x00 :: 0x01 :: (List.replicate (size - 3 - info.length) 0xFF ++ 0x00 :: info)

/-! ## Checking -/

/-- Whether the signature is that of the message. -/
def verify (digest : Digest) (leastBits : Nat) (key message signature : Bytes) : Bool :=
  match Key.read? key with
  | none => false
  | some k =>
    let s := Bytes.toNat signature
    k.isUsable leastBits && signature.length == k.size && s < k.modulus &&
      Bytes.ofNat k.size (Modular.pow k.modulus s k.exponent) == framed digest k.size message

end SignedPdf.Signature.Rsa
