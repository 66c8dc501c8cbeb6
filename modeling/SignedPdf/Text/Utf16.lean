import SignedPdf.Bytes

/-!
# UTF-16 with the high octet first

`decodeLossy` reads pairs of octets as code units and joins surrogate pairs; a
surrogate without its partner reads as U+FFFD, and an odd last octet is left
out. `encode` writes the units of a text.
-/

namespace SignedPdf.Utf16

/-! ## Code units -/

/-- The code units, leaving out an odd last octet. -/
def unitsOf : Bytes → List Nat
  | hi :: lo :: rest => (hi.toNat * 256 + lo.toNat) :: unitsOf rest
  | _ => []

/-- The first half of a surrogate pair. -/
def isHigh (u : Nat) : Bool := 0xD800 ≤ u && u < 0xDC00

/-- The second half of a surrogate pair. -/
def isLow (u : Nat) : Bool := 0xDC00 ≤ u && u < 0xE000

/-- The character of a surrogate pair. -/
def joined (high low : Nat) : Char :=
  Char.ofNat (0x10000 + (high - 0xD800) * 0x400 + (low - 0xDC00))

/-- The characters of code units; `high` is a first half that waits for its
second half. -/
def charsFrom : (high : Option Nat) → List Nat → List Char
  | none, [] => []
  | some _, [] => ['\uFFFD']
  | none, u :: us =>
    if isHigh u then charsFrom (some u) us
    else if isLow u then '\uFFFD' :: charsFrom none us
    else Char.ofNat u :: charsFrom none us
  | some h, u :: us =>
    if isLow u then joined h u :: charsFrom none us
    else if isHigh u then '\uFFFD' :: charsFrom (some u) us
    else '\uFFFD' :: Char.ofNat u :: charsFrom none us

/-- The characters, with U+FFFD for each surrogate without a partner. -/
def decodeLossy (bs : Bytes) : List Char := charsFrom none (unitsOf bs)

/-! ## Writing -/

/-- The two octets of a code unit. -/
def octets (u : Nat) : Bytes := [UInt8.ofNat (u / 256), UInt8.ofNat (u % 256)]

/-- One code unit, or a surrogate pair above U+FFFF. -/
def encodeChar (c : Char) : Bytes :=
  let n := c.toNat
  if n < 0x10000 then octets n
  else octets (0xD800 + (n - 0x10000) / 0x400) ++ octets (0xDC00 + (n - 0x10000) % 0x400)

/-- The octets of a text. -/
def encode (cs : List Char) : Bytes := cs.flatMap encodeChar

end SignedPdf.Utf16
