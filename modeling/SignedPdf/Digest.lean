import SignedPdf.Digest.Sha1
import SignedPdf.Digest.Sha2

/-!
# Digests

The four digests that signatures are made over.
-/

namespace SignedPdf

/-- A way of taking a digest. -/
inductive Digest where
  | sha1
  | sha256
  | sha384
  | sha512
deriving DecidableEq, Repr

namespace Digest

/-- The digest of a message. -/
def of : Digest → Bytes → Bytes
  | .sha1 => Sha1.digest
  | .sha256 => Sha2.digest256
  | .sha384 => Sha2.digest384
  | .sha512 => Sha2.digest512

end Digest

end SignedPdf
