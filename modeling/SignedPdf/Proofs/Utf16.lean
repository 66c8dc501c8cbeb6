import Mathlib.Tactic.SplitIfs
import SignedPdf.Proofs.Utf8
import SignedPdf.Text.Utf16

/-!
# Code units read back

Characters are written as one code unit or as a surrogate pair, and what is written
reads back. Whatever is read takes at least as many octets as its characters take
when they are written, even if it is malformed or cut off: a surrogate without its
partner is one unit, and so is the U+FFFD that it reads as. So no octets short of
what is written for a text read as this text.

* `decodeLossy_encode`: what is written reads back.
* `length_encode_decodeLossy_le`: characters that are read are not longer than what
  they are read from.
-/

namespace SignedPdf.Utf16

/-! ## Code units -/

theorem unitsOf_octets {u : Nat} (h : u < 0x10000) (bs : Bytes) :
    unitsOf (octets u ++ bs) = u :: unitsOf bs := by
  have hhigh : (UInt8.ofNat (u / 256)).toNat = u / 256 := Utf8.toNat_ofNat (by omega)
  have hlow : (UInt8.ofNat (u % 256)).toNat = u % 256 := Utf8.toNat_ofNat (by omega)
  have hunit : u / 256 * 256 + u % 256 = u := by omega
  simp only [octets, List.cons_append, List.nil_append, unitsOf, hhigh, hlow, hunit]

theorem unitsOf_lt (bs : Bytes) : ∀ u ∈ unitsOf bs, u < 0x10000 := by
  fun_induction unitsOf bs with
  | case1 hi lo rest ih =>
    intro u hu
    rcases List.mem_cons.1 hu with rfl | hu
    · have hhi := hi.toNat_lt
      have hlo := lo.toNat_lt
      omega
    · exact ih u hu
  | case2 => simp

/-- A code unit takes two octets. -/
theorem length_unitsOf (bs : Bytes) : (unitsOf bs).length = bs.length / 2 := by
  fun_induction unitsOf bs with
  | case1 hi lo rest ih =>
    simp only [List.length_cons, ih]
    omega
  | case2 bs hbs =>
    match bs, hbs with
    | [], _ => rfl
    | [_], _ => simp
    | hi :: lo :: rest, hbs => exact (hbs hi lo rest rfl).elim

/-! ## Reading back -/

/-- A unit that is no surrogate reads as the character with this number. -/
theorem charsFrom_unit {u : Nat} (h : u < 0xD800 ∨ 0xDFFF < u) (us : List Nat) :
    charsFrom none (u :: us) = Char.ofNat u :: charsFrom none us := by
  have hhigh : isHigh u = false := by
    simp only [isHigh, Bool.and_eq_false_iff, decide_eq_false_iff_not]
    omega
  have hlow : isLow u = false := by
    simp only [isLow, Bool.and_eq_false_iff, decide_eq_false_iff_not]
    omega
  simp only [charsFrom, hhigh, hlow, Bool.false_eq_true, if_false]

/-- A surrogate pair reads as the character that it carries twenty bits of. -/
theorem charsFrom_pair {n : Nat} (h : n < 0x100000) (us : List Nat) :
    charsFrom none ((0xD800 + n / 0x400) :: (0xDC00 + n % 0x400) :: us) =
      Char.ofNat (0x10000 + n) :: charsFrom none us := by
  have hhigh : isHigh (0xD800 + n / 0x400) = true := by
    simp only [isHigh, Bool.and_eq_true, decide_eq_true_iff]
    omega
  have hlow : isLow (0xDC00 + n % 0x400) = true := by
    simp only [isLow, Bool.and_eq_true, decide_eq_true_iff]
    omega
  have hnumber : 0x10000 + (0xD800 + n / 0x400 - 0xD800) * 0x400 + (0xDC00 + n % 0x400 - 0xDC00) =
      0x10000 + n := by omega
  simp only [charsFrom, hhigh, hlow, if_true, joined, hnumber]

/-- The octets of a character are read as this character. -/
theorem charsFrom_encodeChar (c : Char) (bs : Bytes) :
    charsFrom none (unitsOf (encodeChar c ++ bs)) = c :: charsFrom none (unitsOf bs) := by
  have hvalid : c.toNat < 0xD800 ∨ (0xDFFF < c.toNat ∧ c.toNat < 0x110000) := c.valid
  unfold encodeChar
  by_cases hsmall : c.toNat < 0x10000
  · simp only [hsmall, if_true]
    rw [unitsOf_octets hsmall, charsFrom_unit (by omega), Char.ofNat_toNat]
  · have hnumber : 0x10000 + (c.toNat - 0x10000) = c.toNat := by omega
    simp only [hsmall, if_false]
    rw [List.append_assoc, unitsOf_octets (by omega), unitsOf_octets (by omega),
      charsFrom_pair (by omega), hnumber, Char.ofNat_toNat]

theorem encode_cons (c : Char) (cs : List Char) : encode (c :: cs) = encodeChar c ++ encode cs := by
  simp [encode]

theorem encode_append (cs ds : List Char) : encode (cs ++ ds) = encode cs ++ encode ds := by
  simp [encode]

/-- What is written reads back. -/
theorem decodeLossy_encode (cs : List Char) : decodeLossy (encode cs) = cs := by
  rw [decodeLossy]
  induction cs with
  | nil => rfl
  | cons c cs ih => rw [encode_cons, charsFrom_encodeChar, ih]

/-! ## Lengths -/

theorem length_encodeChar_le (c : Char) : (encodeChar c).length ≤ 4 := by
  unfold encodeChar
  simp only
  split_ifs <;> simp [octets]

/-- A number of one unit is written as one unit. -/
theorem length_encodeChar_ofNat {u : Nat} (h : u < 0x10000) :
    (encodeChar (Char.ofNat u)).length = 2 := by
  have hsmall : (Char.ofNat u).toNat < 0x10000 := by
    by_cases hvalid : u.isValidChar
    · rw [Char.ofNat, dif_pos hvalid]
      exact h
    · rw [Char.ofNat, dif_neg hvalid]
      decide
  simp [encodeChar, hsmall, octets]

theorem length_encode_cons (c : Char) (cs : List Char) :
    (encode (c :: cs)).length = (encodeChar c).length + (encode cs).length := by
  rw [encode_cons, List.length_append]

/-- Written characters take two octets at most for each unit that they are read from,
and for a first half that waits. -/
theorem length_encode_charsFrom_le {high : Option Nat} {us : List Nat}
    (h : ∀ u ∈ us, u < 0x10000) :
    (encode (charsFrom high us)).length ≤ 2 * (us.length + high.toList.length) := by
  have hmark : (encodeChar '\uFFFD').length = 2 := rfl
  fun_induction charsFrom high us with
  | case1 => simp [encode]
  | case2 => simp [encode, hmark]
  | case3 u us _ ih =>
    have hrest := ih (List.forall_mem_cons.1 h).2
    simp only [Option.toList_none, Option.toList_some, List.length_cons, List.length_nil] at hrest ⊢
    omega
  | case4 u us _ _ ih =>
    have hrest := ih (List.forall_mem_cons.1 h).2
    simp only [length_encode_cons, hmark, List.length_cons] at hrest ⊢
    omega
  | case5 u us _ _ ih =>
    have hrest := ih (List.forall_mem_cons.1 h).2
    have hunit := length_encodeChar_ofNat (List.forall_mem_cons.1 h).1
    simp only [length_encode_cons, hunit, List.length_cons] at hrest ⊢
    omega
  | case6 high u us _ ih =>
    have hrest := ih (List.forall_mem_cons.1 h).2
    have hpair := length_encodeChar_le (joined high u)
    simp only [length_encode_cons, Option.toList_none, Option.toList_some, List.length_cons,
      List.length_nil] at hrest ⊢
    omega
  | case7 high u us _ _ ih =>
    have hrest := ih (List.forall_mem_cons.1 h).2
    simp only [length_encode_cons, hmark, Option.toList_some, List.length_cons] at hrest ⊢
    omega
  | case8 high u us _ _ ih =>
    have hrest := ih (List.forall_mem_cons.1 h).2
    have hunit := length_encodeChar_ofNat (List.forall_mem_cons.1 h).1
    simp only [length_encode_cons, hmark, hunit, Option.toList_none, Option.toList_some,
      List.length_cons, List.length_nil] at hrest ⊢
    omega

/-- Characters that are read are not longer than what they are read from. -/
theorem length_encode_decodeLossy_le (bs : Bytes) :
    (encode (decodeLossy bs)).length ≤ bs.length := by
  have hunits : (encode (decodeLossy bs)).length ≤ 2 * ((unitsOf bs).length + 0) :=
    length_encode_charsFrom_le (unitsOf_lt bs)
  rw [length_unitsOf] at hunits
  omega

/-- Nor is any part of them. -/
theorem length_encode_le_of_infix {cs : List Char} {bs : Bytes} (h : cs <:+: decodeLossy bs) :
    (encode cs).length ≤ bs.length := by
  obtain ⟨before, after, hparts⟩ := h
  have hall := length_encode_decodeLossy_le bs
  rw [← hparts, encode_append, encode_append, List.length_append, List.length_append] at hall
  omega

end SignedPdf.Utf16
