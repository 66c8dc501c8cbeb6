import SignedPdf.Bytes

/-!
# UTF-8

One machine reads octets as characters. It keeps the octets still owed by the
character it is in, and the range the next of them may lie in; the ranges rule
out overlong forms, surrogates and code points above U+10FFFF.

* `units` lists what the octets hold: `some c` for a character and `none` for
  each maximal malformed part.
* `decode?` reads text that holds no malformed part.
* `decodeLossy` writes U+FFFD for each malformed part.
-/

namespace SignedPdf.Utf8

/-! ## The machine -/

/-- A character whose leading octet has been read. -/
structure Pending where
  /-- The bits read so far. -/
  code : Nat
  /-- How many octets are still owed; never zero. -/
  owed : Nat
  /-- The least octet that may follow. -/
  low : Nat
  /-- The greatest octet that may follow. -/
  high : Nat
deriving DecidableEq, Repr

/-- What a leading octet starts. -/
inductive Lead where
  /-- A character of one octet. -/
  | done (c : Char)
  /-- A character that owes more octets. -/
  | more (p : Pending)
  /-- Nothing: the octet leads no character. -/
  | bad
deriving DecidableEq, Repr

/-- Reads the octet that a character would start with. -/
def lead (b : UInt8) : Lead :=
  let n := b.toNat
  if n < 0x80 then .done (Char.ofNat n)
  else if n < 0xC2 then .bad
  else if n < 0xE0 then .more ⟨n - 0xC0, 1, 0x80, 0xBF⟩
  else if n = 0xE0 then .more ⟨0, 2, 0xA0, 0xBF⟩
  else if n = 0xED then .more ⟨0x0D, 2, 0x80, 0x9F⟩
  else if n < 0xF0 then .more ⟨n - 0xE0, 2, 0x80, 0xBF⟩
  else if n = 0xF0 then .more ⟨0, 3, 0x90, 0xBF⟩
  else if n < 0xF4 then .more ⟨n - 0xF0, 3, 0x80, 0xBF⟩
  else if n = 0xF4 then .more ⟨4, 3, 0x80, 0x8F⟩
  else .bad

/-- Reads on from `pending`; `out` holds what has been read, last first. An
octet that cannot go on with a character ends it as malformed and is read
again as a leading octet. -/
def readFrom : (pending : Option Pending) → (out : List (Option Char)) → Bytes →
    List (Option Char)
  | none, out, [] => out.reverse
  | some _, out, [] => (none :: out).reverse
  | none, out, b :: bs =>
    match lead b with
    | .done c => readFrom none (some c :: out) bs
    | .more p => readFrom (some p) out bs
    | .bad => readFrom none (none :: out) bs
  | some p, out, b :: bs =>
    if p.low ≤ b.toNat && b.toNat ≤ p.high then
      let code := p.code * 64 + (b.toNat - 0x80)
      if p.owed = 1 then readFrom none (some (Char.ofNat code) :: out) bs
      else readFrom (some ⟨code, p.owed - 1, 0x80, 0xBF⟩) out bs
    else
      match lead b with
      | .done c => readFrom none (some c :: none :: out) bs
      | .more q => readFrom (some q) (none :: out) bs
      | .bad => readFrom none (none :: none :: out) bs

/-- The characters and the malformed parts, in order. -/
def units (bs : Bytes) : List (Option Char) := readFrom none [] bs

/-! ## Readings -/

/-- The characters, if no part is malformed. -/
def decode? (bs : Bytes) : Option (List Char) :=
  let us := units bs
  if us.all Option.isSome then some (us.filterMap id) else none

/-- The characters, with U+FFFD for each malformed part. -/
def decodeLossy (bs : Bytes) : List Char := (units bs).map fun u => u.getD '\uFFFD'

/-- The text, if no part is malformed. -/
def text? (bs : Bytes) : Option String := (decode? bs).map String.ofList

end SignedPdf.Utf8
