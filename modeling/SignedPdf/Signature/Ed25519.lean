import SignedPdf.Digest.Sha2
import SignedPdf.Modular

/-!
# Ed25519 signatures

Signatures on the curve `-x² + y² = 1 + d x² y²` over the field of 2^255 - 19
elements. Points are kept in extended coordinates: `(x, y, z, t)` stands for
the point `(x / z, y / z)`, where `x y = z t`; one formula adds all points.
Numbers are written with the lowest octet first.
-/

namespace SignedPdf.Signature.Ed25519

/-! ## The field -/

/-- The number of elements of the field. -/
def prime : Nat := 0x7FFFFFFFFFFFFFFFFFFFFFFFFFFFFFFFFFFFFFFFFFFFFFFFFFFFFFFFFFFFFFED

/-- The coefficient of the curve. -/
def coefficient : Nat := 0x52036CEE2B6FFE738CC740797779E89800700A4D4141D8AB75EB4DCA135978A3

/-- The order of the base point. -/
def order : Nat := 0x1000000000000000000000000000000014DEF9DEA2F79CD65812631A5CF5D3ED

/-- A square root of -1. -/
def rootOfMinusOne : Nat := 0x2B8324804FC1DF0B2B4D00993DFBD7A72F431806AD2FE478C4EE1B274A0EA0B0

/-- The highest bit of 32 octets. -/
def topBit : Nat := 0x8000000000000000000000000000000000000000000000000000000000000000

/-- The number that is written with the lowest octet first. -/
def littleEndian (bs : Bytes) : Nat := Bytes.toNat bs.reverse

/-! ## Points -/

/-- A point in extended coordinates. -/
structure Point where
  x : Nat
  y : Nat
  z : Nat
  t : Nat
deriving DecidableEq, Repr

/-- The point with those coordinates. -/
def Point.ofCoordinates (x y : Nat) : Point := ⟨x, y, 1, x * y % prime⟩

/-- The neutral element. -/
def neutral : Point := .ofCoordinates 0 1

/-- The base point. -/
def base : Point :=
  .ofCoordinates 0x216936D3CD6E53FEC0A4E231FDD6DC5C692CC7609525A7B2C9562D608F25D51A
    0x6666666666666666666666666666666666666666666666666666666666666658

/-- The sum of two points. -/
def add (p q : Point) : Point :=
  let a := Modular.sub prime p.y p.x * Modular.sub prime q.y q.x % prime
  let b := (p.y + p.x) * (q.y + q.x) % prime
  let c := 2 * coefficient * p.t % prime * q.t % prime
  let d := 2 * p.z * q.z % prime
  let e := Modular.sub prime b a
  let f := Modular.sub prime d c
  let g := d + c
  let h := b + a
  ⟨e * f % prime, g * h % prime, f * g % prime, e * h % prime⟩

/-- The inverse of a point. -/
def negate (p : Point) : Point :=
  ⟨Modular.sub prime 0 p.x, p.y, p.z, Modular.sub prime 0 p.t⟩

/-- A multiple of a point. -/
def multiply (k : Nat) (p : Point) : Point :=
  if k = 0 then neutral
  else
    let rest := multiply (k / 2) (add p p)
    if k % 2 = 1 then add p rest else rest
termination_by k
decreasing_by omega

/-- The 32 octets of a point: the second coordinate, and in the highest bit
whether the first one is odd. -/
def Point.octets (p : Point) : Bytes :=
  let i := Modular.inverse prime p.z
  let x := p.x * i % prime
  let y := p.y * i % prime
  (Bytes.ofNat 32 (x % 2 * topBit + y)).reverse

/-- A first coordinate for the second coordinate `y`, if there is one. -/
def firstCoordinate? (y : Nat) : Option Nat :=
  let u := Modular.sub prime (y * y) 1
  let v := (coefficient * (y * y % prime) + 1) % prime
  let vvv := v * v % prime * v % prime
  let x := u * vvv % prime *
    Modular.pow prime (u * (vvv * vvv % prime * v % prime)) ((prime - 5) / 8) % prime
  if v * x % prime * x % prime = u then some x
  else if v * x % prime * x % prime = Modular.sub prime 0 u then some (x * rootOfMinusOne % prime)
  else none

/-- The point that 32 octets stand for. The second coordinate is taken modulo
the prime. -/
def point? (bs : Bytes) : Option Point :=
  if bs.length = 32 then
    let n := littleEndian bs
    let y := n % topBit % prime
    (firstCoordinate? y).map fun x =>
      let x := if x % 2 = n / topBit then x else Modular.sub prime 0 x
      .ofCoordinates x y
  else none

/-! ## Checking -/

/-- Whether the signature is that of the message. -/
def verify (key message signature : Bytes) : Bool :=
  let r := signature.take 32
  let s := littleEndian (signature.drop 32)
  match point? key with
  | none => false
  | some a =>
    if signature.length = 64 ∧ s < order then
      let h := littleEndian (Digest.Sha2.digest512 (r ++ key ++ message)) % order
      (add (multiply s base) (multiply h (negate a))).octets == r
    else false

end SignedPdf.Signature.Ed25519
