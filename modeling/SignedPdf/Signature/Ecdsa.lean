import SignedPdf.Asn1.Strict
import SignedPdf.Digest
import SignedPdf.Modular

/-!
# ECDSA signatures

Two curves over prime fields are known, P-256 and P-384. Points are kept in
Jacobian coordinates: `(x, y, z)` stands for the point `(x / z², y / z³)`, and
`z = 0` for the point at infinity.
-/

namespace SignedPdf.Signature.Ecdsa

/-! ## Curves -/

/-- A curve `y² = x³ - 3x + b` with a point that generates its group. -/
structure Curve where
  /-- The number of octets of a coordinate. -/
  size : Nat
  /-- The prime of the field. -/
  prime : Nat
  b : Nat
  /-- The number of points. -/
  order : Nat
  /-- The first coordinate of the generator. -/
  baseX : Nat
  /-- The second coordinate of the generator. -/
  baseY : Nat
deriving DecidableEq, Repr

/-- The curve P-256. -/
def p256 : Curve where
  size := 32
  prime := 0xFFFFFFFF00000001000000000000000000000000FFFFFFFFFFFFFFFFFFFFFFFF
  b := 0x5AC635D8AA3A93E7B3EBBD55769886BC651D06B0CC53B0F63BCE3C3E27D2604B
  order := 0xFFFFFFFF00000000FFFFFFFFFFFFFFFFBCE6FAADA7179E84F3B9CAC2FC632551
  baseX := 0x6B17D1F2E12C4247F8BCE6E563A440F277037D812DEB33A0F4A13945D898C296
  baseY := 0x4FE342E2FE1A7F9B8EE7EB4A7C0F9E162BCE33576B315ECECBB6406837BF51F5

/-- The curve P-384. -/
def p384 : Curve where
  size := 48
  prime :=
    0xFFFFFFFFFFFFFFFFFFFFFFFFFFFFFFFFFFFFFFFFFFFFFFFFFFFFFFFFFFFFFFFEFFFFFFFF0000000000000000FFFFFFFF
  b :=
    0xB3312FA7E23EE7E4988E056BE3F82D19181D9C6EFE8141120314088F5013875AC656398D8A2ED19D2A85C8EDD3EC2AEF
  order :=
    0xFFFFFFFFFFFFFFFFFFFFFFFFFFFFFFFFFFFFFFFFFFFFFFFFC7634D81F4372DDF581A0DB248B0A77AECEC196ACCC52973
  baseX :=
    0xAA87CA22BE8B05378EB1C71EF320AD746E1D3B628BA79B9859F741E082542A385502F25DBF55296C3A545E3872760AB7
  baseY :=
    0x3617DE4A96262C6F5D9E98BF9292DC29F8F41DBD289A147CE9DA3113B5F0B8C00A60B1CE1D7E819D7A431D7C90EA0E5F

/-! ## Points -/

/-- A point in Jacobian coordinates. -/
structure Point where
  x : Nat
  y : Nat
  z : Nat
deriving DecidableEq, Repr

namespace Curve

/-- The neutral element. -/
def infinity : Point := ⟨1, 1, 0⟩

/-- The generator. -/
def base (c : Curve) : Point := ⟨c.baseX, c.baseY, 1⟩

/-- Whether coordinates below the prime belong to a point of the curve. -/
def contains (c : Curve) (x y : Nat) : Bool :=
  y * y % c.prime == Modular.sub c.prime (x * x * x + c.b) (3 * x)

/-- Twice a point. -/
def double (c : Curve) (p : Point) : Point :=
  let m := c.prime
  let yy := p.y * p.y % m
  let zz := p.z * p.z % m
  let s := 4 * p.x * yy % m
  let t := 3 * (Modular.sub m p.x zz * (p.x + zz)) % m
  let x := Modular.sub m (t * t) (2 * s)
  ⟨x, Modular.sub m (t * Modular.sub m s x) (8 * yy * yy), 2 * p.y * p.z % m⟩

/-- The sum of two points. -/
def add (c : Curve) (p q : Point) : Point :=
  if p.z = 0 then q
  else if q.z = 0 then p
  else
    let m := c.prime
    let pzz := p.z * p.z % m
    let qzz := q.z * q.z % m
    let u := p.x * qzz % m
    let v := p.y * qzz % m * q.z % m
    let h := Modular.sub m (q.x * pzz) u
    let r := Modular.sub m (q.y * pzz % m * p.z) v
    if h = 0 then if r = 0 then c.double p else infinity
    else
      let hh := h * h % m
      let hhh := h * hh % m
      let w := u * hh % m
      let x := Modular.sub m (r * r) (hhh + 2 * w)
      ⟨x, Modular.sub m (r * Modular.sub m w x) (v * hhh), h * p.z % m * q.z % m⟩

/-- A multiple of a point. -/
def multiply (c : Curve) (k : Nat) (p : Point) : Point :=
  if k = 0 then infinity
  else
    let rest := c.multiply (k / 2) (c.double p)
    if k % 2 = 1 then c.add p rest else rest
termination_by k
decreasing_by omega

/-- The first coordinate of a point that is not at infinity. -/
def firstCoordinate (c : Curve) (p : Point) : Nat :=
  let i := Modular.inverse c.prime p.z
  p.x * (i * i % c.prime) % c.prime

end Curve

/-! ## Keys -/

/-- The point whose two coordinates are written after the octet `04`. -/
def key? (c : Curve) : Bytes → Option Point
  | 0x04 :: bs =>
    let x := Bytes.toNat (bs.take c.size)
    let y := Bytes.toNat (bs.drop c.size)
    if bs.length = 2 * c.size ∧ x < c.prime ∧ y < c.prime ∧ c.contains x y then some ⟨x, y, 1⟩
    else none
  | _ => none

/-! ## Checking -/

/-- Whether the signature is that of the message. Of the digest no more octets
are used than a coordinate has. -/
def verify (c : Curve) (digest : Digest) (key message signature : Bytes) : Bool :=
  match key? c key, Asn1.Strict.integerPair? signature with
  | some q, some (r, s) =>
    if r < c.order ∧ s < c.order then
      let e := Bytes.toNat ((digest.of message).take c.size)
      let w := Modular.inverse c.order s
      let p := c.add (c.multiply (e * w % c.order) c.base) (c.multiply (r * w % c.order) q)
      p.z != 0 && c.firstCoordinate p % c.order == r
    else false
  | _, _ => false

end SignedPdf.Signature.Ecdsa
