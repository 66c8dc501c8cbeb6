import SignedPdf.Asn1.BitString
import SignedPdf.Asn1.Oid
import SignedPdf.X509.Fault

/-!
# Algorithms and public keys

An algorithm is named by an object identifier and may have one parameter of
any kind; a public key is a bit string together with its algorithm.
-/

namespace SignedPdf.X509

open SignedPdf.Asn1

/-! ## Algorithms -/

/-- The name of an algorithm and its parameter. -/
structure Algorithm where
  name : Oid
  parameter : Option Element
deriving DecidableEq, Repr

namespace Algorithm

/-- The parameter that makes up the rest of an algorithm. -/
def readParameter : Bytes → Except Fault (Option Element)
  | [] => return none
  | b :: bs => do
    let (e, _) ← element (Element.read (b :: bs))
    return some e

/-- The algorithm at the start, and what follows it. -/
def read (bs : Bytes) : Except Fault (Algorithm × Bytes) := do
  let (e, rest) ← element (Element.read bs)
  if e.identifier.number = sequenceTag then
    match Oid.read e.contents with
    | .error (.incomplete missing) => throw (.element (.incomplete missing))
    | .error .malformed => throw (.malformed .algorithm)
    | .ok (name, after) =>
      let parameter ← readParameter after
      return (⟨name, parameter⟩, rest)
  else throw (.element (.unexpectedTag sequenceTag e.identifier.number))

end Algorithm

/-! ## Public keys -/

/-- A key with its algorithm. -/
structure PublicKey where
  algorithm : Algorithm
  /-- The octets of the key. -/
  key : Bytes
deriving DecidableEq, Repr

/-- The key at the start, and what follows it. -/
def PublicKey.read (bs : Bytes) : Except Fault (PublicKey × Bytes) := do
  let c ← element (Container.read sequenceTag bs)
  let (algorithm, after) ← Algorithm.read c.contents
  let (key, _) ← orFault .publicKey (BitString.read? after)
  return (⟨algorithm, key⟩, c.rest)

end SignedPdf.X509
