import SignedPdf.Signature.Ecdsa
import SignedPdf.Signature.Ed25519
import SignedPdf.Signature.Rsa
import SignedPdf.X509.SignedCertificate

/-!
# Checking the signature of a certificate

The algorithm that a certificate names says how its signature is checked with
the key of the issuer. For a curve algorithm the curve is the parameter of the
key. The name of the key's own algorithm does not matter.
-/

namespace SignedPdf

namespace Signature

/-- Why a signature does not count. -/
inductive Fault where
  /-- The algorithm is not known. -/
  | unsupported
  /-- The key or the signature is malformed, or the signature is wrong. -/
  | wrong
deriving DecidableEq, Repr

/-- The fault in words. -/
def Fault.message : Fault → String
  | .unsupported => "signature unsupported algorithm"
  | .wrong => "signature verification error"

/-- A way of signing. -/
inductive Scheme where
  /-- RSA with a modulus of at least so many bits. -/
  | rsa (digest : Digest) (leastBits : Nat)
  | ecdsa (digest : Digest)
  | ed25519
deriving DecidableEq, Repr

/-- The scheme that an object identifier names. -/
def Scheme.ofName? (name : Asn1.Oid) : Option Scheme :=
  match name.octets with
  | [0x2A, 0x86, 0x48, 0x86, 0xF7, 0x0D, 0x01, 0x01, 0x05] => some (.rsa .sha1 1024)
  | [0x2B, 0x0E, 0x03, 0x02, 0x1D] => some (.rsa .sha1 1024)
  | [0x2A, 0x86, 0x48, 0x86, 0xF7, 0x0D, 0x01, 0x01, 0x0B] => some (.rsa .sha256 2048)
  | [0x2A, 0x86, 0x48, 0x86, 0xF7, 0x0D, 0x01, 0x01, 0x0C] => some (.rsa .sha384 2048)
  | [0x2A, 0x86, 0x48, 0x86, 0xF7, 0x0D, 0x01, 0x01, 0x0D] => some (.rsa .sha512 2048)
  | [0x2A, 0x86, 0x48, 0xCE, 0x3D, 0x04, 0x03, 0x02] => some (.ecdsa .sha256)
  | [0x2A, 0x86, 0x48, 0xCE, 0x3D, 0x04, 0x03, 0x03] => some (.ecdsa .sha384)
  | [0x2B, 0x65, 0x70] => some .ed25519
  | _ => none

/-- The curve that the parameter of a key names. -/
def curve? (key : X509.PublicKey) : Option Ecdsa.Curve :=
  match key.algorithm.parameter.map Asn1.Element.contents with
  | some [0x2A, 0x86, 0x48, 0xCE, 0x3D, 0x03, 0x01, 0x07] => some Ecdsa.p256
  | some [0x2B, 0x81, 0x04, 0x00, 0x22] => some Ecdsa.p384
  | _ => none

/-- Nothing, or the fault of a wrong signature. -/
def verdict (right : Bool) : Except Fault Unit := if right then .ok () else .error .wrong

/-- Checks a signature over a message. -/
def verify (algorithm : Asn1.Oid) (key : X509.PublicKey) (message signature : Bytes) :
    Except Fault Unit :=
  match Scheme.ofName? algorithm with
  | none => .error .unsupported
  | some (.rsa digest leastBits) => verdict (Rsa.verify digest leastBits key.key message signature)
  | some (.ecdsa digest) =>
    match curve? key with
    | none => .error .unsupported
    | some c => verdict (Ecdsa.verify c digest key.key message signature)
  | some .ed25519 => verdict (Ed25519.verify key.key message signature)

end Signature

/-- Checks the signature of a certificate with the key of its issuer. -/
def X509.SignedCertificate.verify (c : X509.SignedCertificate) (key : X509.PublicKey) :
    Except Signature.Fault Unit :=
  Signature.verify c.algorithm.name key c.statement.octets c.signature

end SignedPdf
