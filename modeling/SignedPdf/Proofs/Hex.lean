import Mathlib.Data.List.Forall2
import SignedPdf.Dictionary

/-!
# Hexadecimal digits read back

Octets can be spelled in hexadecimal digits in many ways: each digit in either
letter case, and ASCII blanks anywhere. All of them read as the same octets.

* `Spells` says which ways there are.
* `decode_of_spells`: the digits without blanks, as a dictionary keeps them, decode
  to the octets.
-/

namespace SignedPdf.Hex

/-! ## Spelling -/

/-- The octet is the digit of a number below sixteen, in either letter case. -/
def IsDigitOf (b : UInt8) (n : Nat) : Prop :=
  (Bytes.ofText "0123456789abcdef")[n]? = some b ∨ (Bytes.ofText "0123456789ABCDEF")[n]? = some b

/-- The upper and the lower half of each octet, as numbers below sixteen. -/
def halves (bs : Bytes) : List Nat := bs.flatMap fun b => [b.toNat / 16, b.toNat % 16]

/-- The octets spell numbers below sixteen: one digit for each, and any number of
ASCII blanks around them. -/
inductive Spells : Bytes → List Nat → Prop
  | nil : Spells [] []
  | blank {b : UInt8} {ds : Bytes} {ns : List Nat} (hb : Text.isAsciiBlank b = true)
    (h : Spells ds ns) : Spells (b :: ds) ns
  | digit {b : UInt8} {n : Nat} {ds : Bytes} {ns : List Nat} (hb : IsDigitOf b n)
    (h : Spells ds ns) : Spells (b :: ds) (n :: ns)

/-! ## Digits -/

theorem digit?_of_isDigitOf {b : UInt8} {n : Nat} (h : IsDigitOf b n) : digit? b = some n := by
  have hall : ∀ n < 16, (Bytes.ofText "0123456789abcdef")[n]?.bind digit? = some n ∧
      (Bytes.ofText "0123456789ABCDEF")[n]?.bind digit? = some n := by decide
  have hn : n < 16 := by
    rcases h with h | h
    · exact (List.getElem?_eq_some_iff.1 h).1
    · exact (List.getElem?_eq_some_iff.1 h).1
  obtain ⟨hlower, hupper⟩ := hall n hn
  rcases h with h | h
  · rwa [h, Option.bind_some] at hlower
  · rwa [h, Option.bind_some] at hupper

theorem isDigit_of_digit? {b : UInt8} {n : Nat} (h : digit? b = some n) : isDigit b = true := by
  rw [isDigit, h, Option.isSome_some]

/-- The digits of either letter case. -/
def digitOctets : Bytes := Bytes.ofText "0123456789abcdefABCDEF"

/-- The octets that have a value are the digits of either letter case. -/
theorem isDigit_iff {b : UInt8} : isDigit b = true ↔ b ∈ digitOctets := by
  have hall : ∀ n < 256, isDigit (UInt8.ofNat n) = true ↔ UInt8.ofNat n ∈ digitOctets := by
    decide +kernel
  have hb := hall b.toNat b.toNat_lt
  rwa [UInt8.ofNat_toNat] at hb

/-- Digits are characters of one octet. -/
theorem toNat_lt_of_isDigit {b : UInt8} (h : isDigit b = true) : b.toNat < 0x80 := by
  simp only [isDigit, digit?] at h
  split at h
  · omega
  · split at h
    · omega
    · split at h
      · omega
      · cases h

/-- A digit is no blank. -/
theorem isAsciiBlank_of_isDigit {b : UInt8} (h : isDigit b = true) :
    Text.isAsciiBlank b = false := by
  rw [← Bool.not_eq_true]
  intro hblank
  simp only [Text.isAsciiBlank, Bool.or_eq_true, beq_iff_eq] at hblank
  rcases hblank with (((rfl | rfl) | rfl) | rfl) | rfl <;> exact absurd h (by decide)

/-! ## Digits without blanks -/

/-- The octets that are no ASCII blanks. -/
def withoutBlanks (ds : Bytes) : Bytes := ds.filter fun b => !Text.isAsciiBlank b

/-- Spelled octets without the blanks are digits, one for each number. -/
theorem Spells.forall₂_withoutBlanks {ds : Bytes} {ns : List Nat} (h : Spells ds ns) :
    List.Forall₂ (fun b n => digit? b = some n) (withoutBlanks ds) ns := by
  induction h with
  | nil => exact .nil
  | blank hb _ ih =>
    rw [withoutBlanks, List.filter_cons_of_neg (by simp [hb])]
    exact ih
  | digit hb _ ih =>
    have hdigit := digit?_of_isDigitOf hb
    have hblank := isAsciiBlank_of_isDigit (isDigit_of_digit? hdigit)
    rw [withoutBlanks, List.filter_cons_of_pos (by simp [hblank])]
    exact .cons hdigit ih

/-- Nothing but digits and blanks is spelled. -/
theorem Spells.isDigit_or {ds : Bytes} {ns : List Nat} (h : Spells ds ns) {b : UInt8}
    (hb : b ∈ ds) : isDigit b = true ∨ Text.isAsciiBlank b = true := by
  induction h with
  | nil => cases hb
  | blank hblank _ ih =>
    rcases List.mem_cons.1 hb with rfl | hb
    · exact .inr hblank
    · exact ih hb
  | digit hdigit _ ih =>
    rcases List.mem_cons.1 hb with rfl | hb
    · exact .inl (isDigit_of_digit? (digit?_of_isDigitOf hdigit))
    · exact ih hb

theorem Spells.ne_nil {ds : Bytes} {ns : List Nat} (h : Spells ds ns) (hns : ns ≠ []) :
    ds ≠ [] := by
  rintro rfl
  cases h
  exact hns rfl

/-! ## The text of digits -/

theorem isAsciiBlankChar_ofNat {b : UInt8} (h : b.toNat < 0x80) :
    Text.isAsciiBlankChar (Char.ofNat b.toNat) = Text.isAsciiBlank b := by
  have hall : ∀ n < 0x80,
      Text.isAsciiBlankChar (Char.ofNat n) = Text.isAsciiBlank (UInt8.ofNat n) := by decide
  rw [hall _ h, UInt8.ofNat_toNat]

theorem ofChar_ofNat {b : UInt8} (h : b.toNat < 0x80) :
    Bytes.ofChar (Char.ofNat b.toNat) = [b] := by
  have hall : ∀ n < 0x80, Bytes.ofChar (Char.ofNat n) = [UInt8.ofNat n] := by decide
  rw [hall _ h, UInt8.ofNat_toNat]

/-- The text of octets below 128 holds these octets, and blanks do not count. -/
theorem significant_asciiText {ds : Bytes} (h : ∀ b ∈ ds, b.toNat < 0x80) :
    significant (Bytes.asciiText ds) = withoutBlanks ds := by
  rw [significant, Bytes.asciiText, String.toList_ofList]
  induction ds with
  | nil => rfl
  | cons b ds ih =>
    have hb : b.toNat < 0x80 := h b List.mem_cons_self
    have hds := ih fun b hb => h b (List.mem_cons_of_mem _ hb)
    rw [withoutBlanks, List.map_cons, List.filter_cons, List.filter_cons,
      isAsciiBlankChar_ofNat hb]
    cases Text.isAsciiBlank b with
    | true => exact hds
    | false =>
      show Bytes.ofChars (Char.ofNat b.toNat :: _) = b :: withoutBlanks ds
      rw [Bytes.ofChars_cons, ofChar_ofNat hb, hds]
      rfl

/-- So decoding looks at what is left when the blanks have been left out. -/
theorem significant_withoutBlanks {ds : Bytes} (h : ∀ b ∈ withoutBlanks ds, b.toNat < 0x80) :
    significant (Bytes.asciiText (withoutBlanks ds)) = withoutBlanks ds := by
  rw [significant_asciiText h]
  simp [withoutBlanks, List.filter_filter]

/-! ## Reading back -/

theorem length_halves (bs : Bytes) : (halves bs).length = 2 * bs.length := by
  induction bs with
  | nil => rfl
  | cons b bs ih =>
    show (halves bs).length + 2 = 2 * (bs.length + 1)
    omega

/-- Pairs of digits read as the octets of which they spell the halves. -/
theorem pairsFrom_of_forall₂ {ds bs out : Bytes} {position : Nat}
    (h : List.Forall₂ (fun b n => digit? b = some n) ds (halves bs)) :
    pairsFrom position out ds = .ok (out.reverse ++ bs) := by
  induction bs generalizing ds position out with
  | nil =>
    cases h
    simp [pairsFrom]
  | cons b bs ih =>
    have hhalves : halves (b :: bs) = b.toNat / 16 :: b.toNat % 16 :: halves bs := rfl
    rw [hhalves] at h
    obtain _ | ⟨hhigh, _ | ⟨hlow, h⟩⟩ := h
    have hoctet : b.toNat / 16 * 16 + b.toNat % 16 = b.toNat := by omega
    simp only [pairsFrom, hhigh, hlow, hoctet, UInt8.ofNat_toNat]
    rw [ih h, List.reverse_cons, List.append_assoc, List.singleton_append]

/-- **Spelled octets decode.** The text of the digits, in whatever letter case and
with whatever blanks they have been spelled, decodes to the octets. -/
theorem decode_of_spells {ds bs : Bytes} (h : Spells ds (halves bs)) :
    decode (Bytes.asciiText (withoutBlanks ds)) = .ok bs := by
  have hdigits := h.forall₂_withoutBlanks
  have hascii : ∀ b ∈ withoutBlanks ds, b.toNat < 0x80 := by
    intro b hb
    rw [withoutBlanks, List.mem_filter] at hb
    rcases h.isDigit_or hb.1 with hdigit | hblank
    · exact toNat_lt_of_isDigit hdigit
    · simp [hblank] at hb
  have heven : (withoutBlanks ds).length % 2 = 0 := by
    rw [hdigits.length_eq, length_halves]
    omega
  rw [decode, significant_withoutBlanks hascii, padded, if_pos heven,
    pairsFrom_of_forall₂ hdigits]
  rfl

end SignedPdf.Hex
