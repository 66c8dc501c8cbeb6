/-!
# Octet strings

Documents, certificates and keys are lists of octets, so that every reader of
this library recurses on its input and hands back the octets it left over.

* `ofText` gives the octets of a text, `hex` their lower-case digits and
  `toNat` their big-endian value.
* `dropStart?` removes a fixed beginning; it is the inverse of appending to it
  (`dropStart?_append`, `eq_append_of_dropStart?`), and `startsWith` tells whether
  there is one (`startsWith_iff`).
-/

namespace SignedPdf

/-- A finite sequence of octets. -/
abbrev Bytes := List UInt8

namespace Bytes

/-! ## Octets of a text -/

/-- The octets of a character: one below 128, else a leading octet that tells
the count and continuations that carry six bits each. -/
def ofChar (c : Char) : Bytes :=
  let n := c.toNat
  if n < 0x80 then [UInt8.ofNat n]
  else if n < 0x800 then [UInt8.ofNat (0xC0 + n / 64), UInt8.ofNat (0x80 + n % 64)]
  else if n < 0x10000 then
    [UInt8.ofNat (0xE0 + n / 4096), UInt8.ofNat (0x80 + n / 64 % 64),
      UInt8.ofNat (0x80 + n % 64)]
  else
    [UInt8.ofNat (0xF0 + n / 262144), UInt8.ofNat (0x80 + n / 4096 % 64),
      UInt8.ofNat (0x80 + n / 64 % 64), UInt8.ofNat (0x80 + n % 64)]

/-- The octets of a sequence of characters. -/
def ofChars (cs : List Char) : Bytes := cs.flatMap ofChar

/-- The octets of a text. -/
def ofText (s : String) : Bytes := ofChars s.toList

theorem ofChars_append (a b : List Char) : ofChars (a ++ b) = ofChars a ++ ofChars b := by
  simp [ofChars]

theorem ofChars_cons (c : Char) (cs : List Char) :
    ofChars (c :: cs) = ofChar c ++ ofChars cs := by
  simp [ofChars]

/-! ## Numbers and digits -/

/-- The big-endian value. -/
def toNat (bs : Bytes) : Nat := bs.foldl (fun n b => n * 256 + b.toNat) 0

/-- The last `count` big-endian digits of a number. -/
def ofNat : (count : Nat) → Nat → Bytes
  | 0, _ => []
  | count + 1, n => ofNat count (n / 256) ++ [UInt8.ofNat n]

theorem length_ofNat (count n : Nat) : (ofNat count n).length = count := by
  induction count generalizing n with
  | zero => rfl
  | succ count ih => simp [ofNat, ih]

/-- The lower-case digit of a number below sixteen. -/
def hexDigit (n : Nat) : Char :=
  if n < 10 then Char.ofNat (0x30 + n) else Char.ofNat (0x57 + n)

/-- Two lower-case hexadecimal digits for each octet. -/
def hex (bs : Bytes) : String :=
  String.ofList (bs.flatMap fun b => [hexDigit (b.toNat / 16), hexDigit (b.toNat % 16)])

/-- The text of octets below 128. -/
def asciiText (bs : Bytes) : String := String.ofList (bs.map fun b => Char.ofNat b.toNat)

/-! ## Fixed beginnings -/

/-- What follows `start`, if the octets begin with it. -/
def dropStart? : (start : Bytes) → Bytes → Option Bytes
  | [], bs => some bs
  | _ :: _, [] => none
  | s :: start, b :: bs => if s = b then dropStart? start bs else none

theorem dropStart?_append (start rest : Bytes) : dropStart? start (start ++ rest) = some rest := by
  induction start with
  | nil => rfl
  | cons s start ih => simp [dropStart?, ih]

theorem eq_append_of_dropStart? {start bs rest : Bytes} (h : dropStart? start bs = some rest) :
    bs = start ++ rest := by
  induction start generalizing bs with
  | nil => simpa [dropStart?] using h
  | cons s start ih =>
    cases bs with
    | nil => simp [dropStart?] at h
    | cons b bs =>
      by_cases hb : s = b
      · subst hb
        rw [dropStart?, if_pos rfl] at h
        rw [ih h, List.cons_append]
      · simp [dropStart?, hb] at h

theorem dropStart?_eq_some_iff {start bs rest : Bytes} :
    dropStart? start bs = some rest ↔ bs = start ++ rest :=
  ⟨eq_append_of_dropStart?, fun h => h ▸ dropStart?_append start rest⟩

/-- Whether the octets begin with `start`. -/
def startsWith (start bs : Bytes) : Bool := (dropStart? start bs).isSome

theorem startsWith_iff {start bs : Bytes} : startsWith start bs = true ↔ start <+: bs := by
  rw [startsWith, Option.isSome_iff_exists]
  simp only [dropStart?_eq_some_iff]
  exact ⟨fun ⟨rest, h⟩ => ⟨rest, h.symm⟩, fun ⟨rest, h⟩ => ⟨rest, h.symm⟩⟩

end Bytes

end SignedPdf
