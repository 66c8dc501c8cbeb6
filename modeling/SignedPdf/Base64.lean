import SignedPdf.Bytes

/-!
# Base 64

Three octets are written as four digits of six bits; a last group of one or two
octets is filled up with pads. `decode?` reads groups of four characters and
takes only what could have been written: pads stand at the end of a group, and
the bits that a group leaves over are zero.

* `decode?_encode`: what is written reads back.
-/

namespace SignedPdf.Base64

/-! ## Digits -/

/-- The digit for a number below 64. -/
def digit (n : Nat) : Char :=
  if n < 26 then Char.ofNat (0x41 + n)
  else if n < 52 then Char.ofNat (0x61 + (n - 26))
  else if n < 62 then Char.ofNat (0x30 + (n - 52))
  else if n = 62 then '+'
  else '/'

/-- The number of a digit. -/
def value? (c : Char) : Option Nat :=
  let n := c.toNat
  if 0x41 ≤ n ∧ n ≤ 0x5A then some (n - 0x41)
  else if 0x61 ≤ n ∧ n ≤ 0x7A then some (n - 0x61 + 26)
  else if 0x30 ≤ n ∧ n ≤ 0x39 then some (n - 0x30 + 52)
  else if c = '+' then some 62
  else if c = '/' then some 63
  else none

/-- Fills up a group. -/
def pad : Char := '='

theorem value?_digit_of_lt : ∀ n < 64, value? (digit n) = some n := by decide

theorem digit_ne_pad_of_lt : ∀ n < 64, digit n ≠ pad := by decide

/-! ## Writing -/

/-- The four characters of a group of one octet. -/
def group1 (a : UInt8) : List Char :=
  [digit (a.toNat / 4), digit (a.toNat % 4 * 16), pad, pad]

/-- The four characters of a group of two octets. -/
def group2 (a b : UInt8) : List Char :=
  [digit (a.toNat / 4), digit (a.toNat % 4 * 16 + b.toNat / 16), digit (b.toNat % 16 * 4), pad]

/-- The four characters of a group of three octets. -/
def group3 (a b c : UInt8) : List Char :=
  [digit (a.toNat / 4), digit (a.toNat % 4 * 16 + b.toNat / 16),
    digit (b.toNat % 16 * 4 + c.toNat / 64), digit (c.toNat % 64)]

/-- Writes the remaining octets; `out` holds the digits written, last first. -/
def encodeFrom (out : List Char) : Bytes → List Char
  | a :: b :: c :: rest => encodeFrom ((group3 a b c).reverse ++ out) rest
  | [a, b] => out.reverse ++ group2 a b
  | [a] => out.reverse ++ group1 a
  | [] => out.reverse

/-- The digits of octets. -/
def encode (bs : Bytes) : List Char := encodeFrom [] bs

theorem encodeFrom_eq (out : List Char) (bs : Bytes) :
    encodeFrom out bs = out.reverse ++ encode bs := by
  suffices h : ∀ out out' : List Char,
      encodeFrom (out' ++ out) bs = out.reverse ++ encodeFrom out' bs by
    simpa [encode] using h out []
  fun_induction encodeFrom [] bs with
  | case1 _ a b c rest ih =>
    intro out out'
    rw [encodeFrom, encodeFrom, ← List.append_assoc, ih]
  | case2 => simp [encodeFrom]
  | case3 => simp [encodeFrom]
  | case4 => simp [encodeFrom]

theorem encode_cons_cons_cons (a b c : UInt8) (rest : Bytes) :
    encode (a :: b :: c :: rest) = group3 a b c ++ encode rest := by
  rw [encode, encodeFrom, encodeFrom_eq]
  simp

/-! ## Reading -/

/-- The octets of a group of four characters. -/
def group? (a b c d : Char) : Option Bytes := do
  let a ← value? a
  let b ← value? b
  if c = pad ∧ d = pad then
    if b % 16 = 0 then some [UInt8.ofNat (a * 4 + b / 16)] else none
  else
    let c ← value? c
    if d = pad then
      if c % 4 = 0 then
        some [UInt8.ofNat (a * 4 + b / 16), UInt8.ofNat (b % 16 * 16 + c / 4)]
      else none
    else
      let d ← value? d
      some [UInt8.ofNat (a * 4 + b / 16), UInt8.ofNat (b % 16 * 16 + c / 4),
        UInt8.ofNat (c % 4 * 64 + d)]

/-- Reads the remaining groups; `out` holds the octets read, last first. -/
def decodeFrom (out : Bytes) : List Char → Option Bytes
  | [] => some out.reverse
  | a :: b :: c :: d :: rest =>
    match group? a b c d with
    | some octets => decodeFrom (octets.reverse ++ out) rest
    | none => none
  | _ => none

/-- The octets that the digits stand for. -/
def decode? (cs : List Char) : Option Bytes := decodeFrom [] cs

/-! ## What is written reads back -/

theorem value?_digit {n : Nat} (h : n < 64) : value? (digit n) = some n :=
  value?_digit_of_lt n h

theorem digit_ne_pad {n : Nat} (h : n < 64) : digit n ≠ pad := digit_ne_pad_of_lt n h

theorem octet_eq {a : UInt8} {n : Nat} (h : n = a.toNat) : UInt8.ofNat n = a := by
  rw [h, UInt8.ofNat_toNat]

theorem decodeFrom_group1 (out : Bytes) (a : UInt8) :
    decodeFrom out (group1 a) = some (out.reverse ++ [a]) := by
  have ha := a.toNat_lt
  have h1 : value? (digit (a.toNat / 4)) = some (a.toNat / 4) := value?_digit (by omega)
  have h2 : value? (digit (a.toNat % 4 * 16)) = some (a.toNat % 4 * 16) :=
    value?_digit (by omega)
  have ho : UInt8.ofNat (a.toNat / 4 * 4 + a.toNat % 4 * 16 / 16) = a := octet_eq (by omega)
  have hz : a.toNat % 4 * 16 % 16 = 0 := by omega
  simp only [decodeFrom, group1, group?, h1, h2, hz, ho, bind, Option.bind]
  simp

theorem decodeFrom_group2 (out : Bytes) (a b : UInt8) :
    decodeFrom out (group2 a b) = some (out.reverse ++ [a, b]) := by
  have ha := a.toNat_lt
  have hb := b.toNat_lt
  have h1 : value? (digit (a.toNat / 4)) = some (a.toNat / 4) := value?_digit (by omega)
  have h2 := value?_digit (n := a.toNat % 4 * 16 + b.toNat / 16) (by omega)
  have h3 := value?_digit (n := b.toNat % 16 * 4) (by omega)
  have hn := digit_ne_pad (n := b.toNat % 16 * 4) (by omega)
  have ho1 : UInt8.ofNat (a.toNat / 4 * 4 + (a.toNat % 4 * 16 + b.toNat / 16) / 16) = a :=
    octet_eq (by omega)
  have ho2 : UInt8.ofNat ((a.toNat % 4 * 16 + b.toNat / 16) % 16 * 16 +
      b.toNat % 16 * 4 / 4) = b := octet_eq (by omega)
  have hz : b.toNat % 16 * 4 % 4 = 0 := by omega
  simp only [decodeFrom, group2, group?, h1, h2, h3, hn, hz, ho1, ho2, bind, Option.bind]
  simp

theorem decodeFrom_group3 (out : Bytes) (a b c : UInt8) (rest : List Char) :
    decodeFrom out (group3 a b c ++ rest) = decodeFrom (c :: b :: a :: out) rest := by
  have ha := a.toNat_lt
  have hb := b.toNat_lt
  have hc := c.toNat_lt
  have h1 : value? (digit (a.toNat / 4)) = some (a.toNat / 4) := value?_digit (by omega)
  have h2 := value?_digit (n := a.toNat % 4 * 16 + b.toNat / 16) (by omega)
  have h3 := value?_digit (n := b.toNat % 16 * 4 + c.toNat / 64) (by omega)
  have h4 := value?_digit (n := c.toNat % 64) (by omega)
  have hn3 := digit_ne_pad (n := b.toNat % 16 * 4 + c.toNat / 64) (by omega)
  have hn4 := digit_ne_pad (n := c.toNat % 64) (by omega)
  have ho1 : UInt8.ofNat (a.toNat / 4 * 4 + (a.toNat % 4 * 16 + b.toNat / 16) / 16) = a :=
    octet_eq (by omega)
  have ho2 : UInt8.ofNat ((a.toNat % 4 * 16 + b.toNat / 16) % 16 * 16 +
      (b.toNat % 16 * 4 + c.toNat / 64) / 4) = b := octet_eq (by omega)
  have ho3 : UInt8.ofNat ((b.toNat % 16 * 4 + c.toNat / 64) % 4 * 64 + c.toNat % 64) = c :=
    octet_eq (by omega)
  simp only [group3, List.cons_append, List.nil_append, decodeFrom, group?, h1, h2, h3, h4,
    hn3, hn4, ho1, ho2, ho3, bind, Option.bind]
  simp

theorem decodeFrom_encode (bs out : Bytes) :
    decodeFrom out (encode bs) = some (out.reverse ++ bs) := by
  match bs with
  | [] => simp [encode, encodeFrom, decodeFrom]
  | [a] => exact decodeFrom_group1 out a
  | [a, b] => exact decodeFrom_group2 out a b
  | a :: b :: c :: rest =>
    rw [encode_cons_cons_cons, decodeFrom_group3, decodeFrom_encode rest]
    simp

/-- What is written reads back. -/
theorem decode?_encode (bs : Bytes) : decode? (encode bs) = some bs := decodeFrom_encode bs []

end SignedPdf.Base64
