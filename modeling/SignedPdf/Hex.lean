import SignedPdf.Text.Blank
import SignedPdf.Text.Quoted

/-!
# Hexadecimal strings

`decode` reads the hexadecimal digits of a text, ignoring ASCII blanks, and
pads an odd count of digits with a zero on the left. It works on the octets of
the text: a fault tells the first octet that is no digit and its place among
the padded octets.

* `decode_ok_length`: a decoded value has half as many octets as there are
  digits, rounded up.
-/

namespace SignedPdf.Hex

/-- An octet that is no hexadecimal digit. -/
structure Fault where
  /-- The octet. -/
  octet : UInt8
  /-- Its place among the padded digits. -/
  position : Nat
deriving DecidableEq, Repr

namespace Fault

/-- The octet is shown as the character with that code point. -/
def message (e : Fault) : String :=
  "Invalid character " ++ Text.quotedOctet e.octet ++ " at position " ++ toString e.position

end Fault

/-! ## Digits -/

/-- The value of a digit of either letter case. -/
def digit? (b : UInt8) : Option Nat :=
  let n := b.toNat
  if 0x30 ≤ n ∧ n ≤ 0x39 then some (n - 0x30)
  else if 0x41 ≤ n ∧ n ≤ 0x46 then some (n - 0x37)
  else if 0x61 ≤ n ∧ n ≤ 0x66 then some (n - 0x57)
  else none

/-- Whether an octet is a digit of either letter case. -/
def isDigit (b : UInt8) : Bool := (digit? b).isSome

/-- The octets of a text without its ASCII blanks. -/
def significant (text : String) : Bytes :=
  Bytes.ofChars (text.toList.filter fun c => !Text.isAsciiBlankChar c)

/-- An even count of digits: a zero goes in front of an odd one. -/
def padded (ds : Bytes) : Bytes := if ds.length % 2 = 0 then ds else 0x30 :: ds

/-! ## Decoding -/

/-- Reads pairs of digits from place `position` on; `out` holds the octets
read, last first. A last digit without a partner is left out. -/
def pairsFrom (position : Nat) (out : Bytes) : Bytes → Except Fault Bytes
  | hi :: lo :: rest =>
    match digit? hi, digit? lo with
    | some h, some l => pairsFrom (position + 2) (UInt8.ofNat (h * 16 + l) :: out) rest
    | none, _ => .error ⟨hi, position⟩
    | some _, none => .error ⟨lo, position + 1⟩
  | _ => .ok out.reverse

/-- The octets that the digits of a text stand for. -/
def decode (text : String) : Except Fault Bytes := pairsFrom 0 [] (padded (significant text))

theorem padded_length (ds : Bytes) : (padded ds).length = 2 * ((ds.length + 1) / 2) := by
  unfold padded
  split
  · omega
  · rw [List.length_cons]
    omega

theorem pairsFrom_length {position : Nat} {out ds bs : Bytes}
    (h : pairsFrom position out ds = .ok bs) : bs.length = out.length + ds.length / 2 := by
  fun_induction pairsFrom position out ds with
  | case1 position out hi lo rest x hx y hy ih =>
    have := ih h
    simp only [List.length_cons] at this ⊢
    omega
  | case2 => cases h
  | case3 => cases h
  | case4 ds position out hds =>
    cases h
    match ds, hds with
    | [], _ => simp
    | [_], _ => simp
    | hi :: lo :: rest, hds => exact (hds hi lo rest rfl).elim

/-- A decoded value has half as many octets as there are digits, rounded up. -/
theorem decode_ok_length {text : String} {bs : Bytes} (h : decode text = .ok bs) :
    bs.length = ((significant text).length + 1) / 2 := by
  have := pairsFrom_length h
  rw [padded_length, List.length_nil] at this
  omega

end SignedPdf.Hex
