import Mathlib.Data.Nat.Digits.Lemmas
import SignedPdf.Proofs.Hex
import SignedPdf.Proofs.Utf8

/-!
# Hexadecimal numbers

A text without its blanks is taken for the digits of a number, and decoding writes
this number in octets, with a zero in front of an odd count of digits. Blanks are
left out as characters, while digits are paired and counted as octets. This makes no
difference for texts that decode, and tells where the first fault is in others.

* `pairsFrom_eq_ok_iff` and `pairsFrom_eq_error_iff`: what becomes of an even count
  of octets.
* `decode_eq_ok_iff`: a text decodes to octets exactly if it is their text up to
  letter case, blanks, and one zero in front; so their text does (`decode_hex`).
* `decode_eq_error_iff`: the fault is the first octet that is no digit.
* `decode_law`: all of this, with the number and the count of octets.
-/

namespace SignedPdf.Hex

/-! ## Pairs of digits -/

theorem digit?_lt {b : UInt8} {n : Nat} (h : digit? b = some n) : n < 16 := by
  simp only [digit?] at h
  split_ifs at h <;> cases h <;> omega

theorem halves_cons (b : UInt8) (bs : Bytes) :
    halves (b :: bs) = b.toNat / 16 :: b.toNat % 16 :: halves bs := rfl

/-- The halves of the octet that two digits give are the values of these digits. -/
theorem halves_ofNat_cons {high low : Nat} (hhigh : high < 16) (hlow : low < 16) (bs : Bytes) :
    halves (UInt8.ofNat (high * 16 + low) :: bs) = high :: low :: halves bs := by
  have hoctet : (UInt8.ofNat (high * 16 + low)).toNat = high * 16 + low :=
    Utf8.toNat_ofNat (by omega)
  have hdiv : (high * 16 + low) / 16 = high := by omega
  have hmod : (high * 16 + low) % 16 = low := by omega
  rw [halves_cons, hoctet, hdiv, hmod]

/-- Octets that have values are digits. -/
theorem isDigit_of_forall₂ {ds : Bytes} {ns : List Nat}
    (h : List.Forall₂ (fun b n => digit? b = some n) ds ns) {b : UInt8} (hb : b ∈ ds) :
    isDigit b = true := by
  induction h with
  | nil => cases hb
  | cons hvalue _ ih =>
    rcases List.mem_cons.1 hb with rfl | hb
    · exact isDigit_of_digit? hvalue
    · exact ih hb

/-- An even count that makes no pair is none. -/
theorem eq_nil_of_even {ds : Bytes} (heven : ds.length % 2 = 0)
    (hds : ∀ hi lo rest, ds = hi :: lo :: rest → False) : ds = [] := by
  cases ds with
  | nil => rfl
  | cons hi ds =>
    cases ds with
    | nil => cases heven
    | cons lo rest => exact (hds hi lo rest rfl).elim

theorem Fault.mk_eq_iff {octet : UInt8} {position : Nat} {fault : Fault} :
    Fault.mk octet position = fault ↔ fault.position = position ∧ octet = fault.octet := by
  cases fault
  simp [and_comm, eq_comm]

section Pairs

variable {position : Nat} {out ds bs : Bytes}

/-- An even count of octets is read exactly if all are digits, and gives the octets
of which these are the halves. -/
theorem pairsFrom_eq_ok_iff (heven : ds.length % 2 = 0) :
    pairsFrom position out ds = .ok bs ↔
      ∃ octets, bs = out.reverse ++ octets ∧
        List.Forall₂ (fun b n => digit? b = some n) ds (halves octets) := by
  constructor
  · intro h
    fun_induction pairsFrom position out ds with
    | case1 position out hi lo rest high low hlow hhigh ih =>
      simp only [List.length_cons] at heven
      obtain ⟨octets, rfl, hrest⟩ := ih (by omega) h
      refine ⟨UInt8.ofNat (high * 16 + low) :: octets, by simp, ?_⟩
      rw [halves_ofNat_cons (digit?_lt hhigh) (digit?_lt hlow)]
      exact .cons hhigh (.cons hlow hrest)
    | case2 => cases h
    | case3 => cases h
    | case4 ds position out hds =>
      cases h
      obtain rfl := eq_nil_of_even heven hds
      exact ⟨[], by simp, .nil⟩
  · rintro ⟨octets, rfl, h⟩
    exact pairsFrom_of_forall₂ h

/-- Otherwise the fault is the first octet that is no digit. -/
theorem pairsFrom_eq_error_iff {fault : Fault} (heven : ds.length % 2 = 0) :
    pairsFrom position out ds = .error fault ↔
      ∃ i, ds.findIdx? (fun b => !isDigit b) = some i ∧ fault.position = position + i ∧
        ds[i]? = some fault.octet := by
  fun_induction pairsFrom position out ds with
  | case1 position out hi lo rest high low hlow hhigh ih =>
    simp only [List.length_cons] at heven
    have hhi : isDigit hi = true := isDigit_of_digit? hhigh
    have hlo : isDigit lo = true := isDigit_of_digit? hlow
    rw [ih (by omega)]
    simp only [List.findIdx?_cons, hhi, hlo, Bool.not_true, Bool.false_eq_true, if_false,
      Option.map_map, Option.map_eq_some_iff]
    constructor
    · rintro ⟨i, hfirst, hposition, hoctet⟩
      exact ⟨i + 2, ⟨i, hfirst, rfl⟩, by omega, hoctet⟩
    · rintro ⟨_, ⟨i, hfirst, rfl⟩, hposition, hoctet⟩
      have hshift : fault.position = position + (i + 2) := hposition
      exact ⟨i, hfirst, by omega, hoctet⟩
  | case2 position out hi lo rest hhigh =>
    have hhi : isDigit hi = false := by rw [isDigit, hhigh, Option.isSome_none]
    rw [Except.error.injEq, Fault.mk_eq_iff]
    simp [List.findIdx?_cons, hhi]
  | case3 position out hi lo rest high hlow hhigh =>
    have hhi : isDigit hi = true := isDigit_of_digit? hhigh
    have hlo : isDigit lo = false := by rw [isDigit, hlow, Option.isSome_none]
    rw [Except.error.injEq, Fault.mk_eq_iff]
    simp [List.findIdx?_cons, hhi, hlo]
  | case4 ds position out hds =>
    obtain rfl := eq_nil_of_even heven hds
    simp

end Pairs

/-! ## Digits as characters -/

/-- The digits of either letter case. -/
def digitChars : List Char := "0123456789abcdefABCDEF".toList

/-- The value of a digit of either letter case. -/
def digitValue (c : Char) : Nat := "0123456789abcdef".toList.idxOf c.toLower

/-- The number that digits stand for, the first of them counting most. -/
def numberOf (cs : List Char) : Nat := Nat.ofDigits 16 (cs.map digitValue).reverse

/-- The characters of a text other than ASCII blanks. -/
def bare (text : String) : List Char := text.toList.filter fun c => !Text.isAsciiBlankChar c

/-- A digit is written in one octet, which has its value, and the lower-case digit of
this value is the digit in lower case. -/
theorem digitChar_spec {c : Char} (h : c ∈ digitChars) :
    Bytes.ofChar c = [UInt8.ofNat c.toNat] ∧
      digit? (UInt8.ofNat c.toNat) = some (digitValue c) ∧
      Bytes.hexDigit (digitValue c) = c.toLower := by
  have hall : (digitChars.all fun c => Bytes.ofChar c = [UInt8.ofNat c.toNat] ∧
      digit? (UInt8.ofNat c.toNat) = some (digitValue c) ∧
      Bytes.hexDigit (digitValue c) = c.toLower) = true := by decide
  exact of_decide_eq_true (List.all_eq_true.1 hall c h)

/-- Letters beyond ASCII have no other case here. -/
theorem toLower_of_le {c : Char} (h : 0x80 ≤ c.toNat) : c.toLower = c := by
  unfold Char.toLower
  rw [dif_neg]
  rintro ⟨_, hle⟩
  have hupper : c.toNat ≤ 'Z'.toNat := UInt32.le_iff_toNat_le.1 hle
  have hZ : 'Z'.toNat = 90 := rfl
  omega

/-- A character that is a lower-case digit in lower case is a digit. -/
theorem digitChar_of_toLower {c : Char} {n : Nat} (hn : n < 16)
    (h : Bytes.hexDigit n = c.toLower) : c ∈ digitChars ∧ n = digitValue c := by
  have hdigit : ∀ n < 16, "0123456789abcdef".toList.idxOf (Bytes.hexDigit n) = n ∧
      Bytes.hexDigit n ∈ "0123456789abcdef".toList ∧ Bytes.hexDigit n ∈ digitChars := by decide
  have hlower : ∀ m < 0x80, (Char.ofNat m).toLower ∈ "0123456789abcdef".toList →
      Char.ofNat m ∈ digitChars := by decide
  obtain ⟨hvalue, hmem, hmem'⟩ := hdigit n hn
  constructor
  · by_cases hsmall : c.toNat < 0x80
    · have hc := hlower c.toNat hsmall
      rw [Char.ofNat_toNat, ← h] at hc
      exact hc hmem
    · rw [toLower_of_le (by omega)] at h
      rwa [← h]
  · rw [digitValue, ← h, hvalue]

/-- A character all of whose octets are digits is a digit itself. -/
theorem mem_digitChars_of_isDigit {c : Char} (h : ∀ b ∈ Bytes.ofChar c, isDigit b = true) :
    c ∈ digitChars := by
  have hall : ∀ n < 0x80, isDigit (UInt8.ofNat n) = true → Char.ofNat n ∈ digitChars := by decide
  have hne : Bytes.ofChar c ≠ [] := by
    unfold Bytes.ofChar
    simp only
    split_ifs <;> simp
  obtain ⟨b, hb⟩ := List.exists_mem_of_ne_nil _ hne
  have hsmall : b.toNat < 0x80 := toNat_lt_of_isDigit (h b hb)
  rcases Utf8.mem_ofChar hb with ⟨heq, _⟩ | ⟨hlarge, _⟩
  · have hdigit := hall b.toNat hsmall (by rw [UInt8.ofNat_toNat]; exact h b hb)
    rwa [heq, Char.ofNat_toNat] at hdigit
  · omega

section Characters

variable {cs : List Char}

/-- Digits are written as octets with their values, one for each. -/
theorem forall₂_ofChars (h : ∀ c ∈ cs, c ∈ digitChars) :
    List.Forall₂ (fun b n => digit? b = some n) (Bytes.ofChars cs) (cs.map digitValue) := by
  induction cs with
  | nil => exact .nil
  | cons c cs ih =>
    obtain ⟨hoctets, hvalue, _⟩ := digitChar_spec (h c List.mem_cons_self)
    rw [Bytes.ofChars_cons, hoctets, List.map_cons]
    exact .cons hvalue (ih fun c hc => h c (List.mem_cons_of_mem _ hc))

/-- The octets of characters are all digits exactly if the characters are. -/
theorem forall_isDigit_iff :
    (∀ b ∈ Bytes.ofChars cs, isDigit b = true) ↔ ∀ c ∈ cs, c ∈ digitChars := by
  constructor
  · intro h c hc
    apply mem_digitChars_of_isDigit
    intro b hb
    exact h b (List.mem_flatMap.2 ⟨c, hc, hb⟩)
  · intro h b hb
    exact isDigit_of_forall₂ (forall₂_ofChars h) hb

/-- The values of digits, with a zero in front of an odd count. -/
def paddedValues (cs : List Char) : List Nat :=
  (if cs.length % 2 = 0 then [] else [0]) ++ cs.map digitValue

theorem forall₂_padded (h : ∀ c ∈ cs, c ∈ digitChars) :
    List.Forall₂ (fun b n => digit? b = some n) (padded (Bytes.ofChars cs)) (paddedValues cs) := by
  have hlength : (Bytes.ofChars cs).length = cs.length := by
    rw [(forall₂_ofChars h).length_eq, List.length_map]
  rw [padded, paddedValues, hlength]
  by_cases heven : cs.length % 2 = 0
  · rw [if_pos heven, if_pos heven]
    exact forall₂_ofChars h
  · rw [if_neg heven, if_neg heven]
    exact .cons rfl (forall₂_ofChars h)

end Characters

/-! ## Texts that decode -/

section Decoding

variable {text : String} {bs : Bytes}

theorem padded_even (ds : Bytes) : (padded ds).length % 2 = 0 := by
  rw [padded_length]
  omega

/-- A text decodes exactly if it holds digits and blanks only, to the octets whose
halves are the values of the digits. -/
theorem decode_eq_ok_iff_halves :
    decode text = .ok bs ↔
      (∀ c ∈ bare text, c ∈ digitChars) ∧ halves bs = paddedValues (bare text) := by
  have hread : decode text = .ok bs ↔
      List.Forall₂ (fun b n => digit? b = some n) (padded (Bytes.ofChars (bare text)))
        (halves bs) := by
    rw [decode, pairsFrom_eq_ok_iff (padded_even _)]
    simp only [List.reverse_nil, List.nil_append, exists_eq_left']
    rfl
  rw [hread]
  constructor
  · intro h
    have hdigits : ∀ c ∈ bare text, c ∈ digitChars := by
      refine forall_isDigit_iff.1 fun b hb => isDigit_of_forall₂ h ?_
      unfold padded
      split
      · exact hb
      · exact List.mem_cons_of_mem _ hb
    refine ⟨hdigits, ?_⟩
    refine List.right_unique_forall₂' (fun b n n' hn hn' => ?_) h (forall₂_padded hdigits)
    exact Option.some.inj (hn.symm.trans hn')
  · rintro ⟨hdigits, hhalves⟩
    rw [hhalves]
    exact forall₂_padded hdigits

theorem toList_hex (bs : Bytes) : (Bytes.hex bs).toList = (halves bs).map Bytes.hexDigit := by
  rw [Bytes.hex, String.toList_ofList, halves, List.map_flatMap]
  rfl

theorem halves_lt (bs : Bytes) : ∀ n ∈ halves bs, n < 16 := by
  intro n hn
  obtain ⟨b, _, hb⟩ := List.mem_flatMap.1 hn
  have hlt := b.toNat_lt
  simp only [List.mem_cons, List.not_mem_nil, or_false] at hb
  rcases hb with rfl | rfl <;> omega

/-- Numbers below sixteen whose digits are some characters in lower case are the
values of these characters, and these are digits. -/
theorem eq_values_of_hexDigit {ns : List Nat} {cs : List Char} (hns : ∀ n ∈ ns, n < 16)
    (h : ns.map Bytes.hexDigit = cs.map Char.toLower) :
    (∀ c ∈ cs, c ∈ digitChars) ∧ ns = cs.map digitValue := by
  induction ns generalizing cs with
  | nil =>
    obtain rfl : cs = [] := by simpa using h.symm
    simp
  | cons n ns ih =>
    cases cs with
    | nil => cases h
    | cons c cs =>
      simp only [List.map_cons, List.cons.injEq] at h
      obtain ⟨hc, hvalue⟩ := digitChar_of_toLower (hns n List.mem_cons_self) h.1
      obtain ⟨hcs, hvalues⟩ := ih (fun n hn => hns n (List.mem_cons_of_mem _ hn)) h.2
      refine ⟨fun c' hc' => ?_, by rw [List.map_cons, ← hvalue, ← hvalues]⟩
      rcases List.mem_cons.1 hc' with rfl | hc'
      · exact hc
      · exact hcs c' hc'

/-- The digits of values are the characters in lower case. -/
theorem map_hexDigit_values {cs : List Char} (h : ∀ c ∈ cs, c ∈ digitChars) :
    (cs.map digitValue).map Bytes.hexDigit = cs.map Char.toLower := by
  rw [List.map_map]
  refine List.map_congr_left fun c hc => ?_
  exact (digitChar_spec (h c hc)).2.2

/-- A text decodes to octets exactly if their digits are those of the text in lower
case, but for a zero in front. -/
theorem decode_eq_ok_iff :
    decode text = .ok bs ↔
      (Bytes.hex bs).toList = (bare text).map Char.toLower ∨
        (Bytes.hex bs).toList = '0' :: (bare text).map Char.toLower := by
  rw [decode_eq_ok_iff_halves, toList_hex]
  constructor
  · rintro ⟨hdigits, hhalves⟩
    rw [hhalves, paddedValues, List.map_append, map_hexDigit_values hdigits]
    by_cases heven : (bare text).length % 2 = 0
    · exact .inl (by rw [if_pos heven]; rfl)
    · exact .inr (by rw [if_neg heven]; rfl)
  · have hlength := length_halves bs
    rintro (h | h)
    · obtain ⟨hdigits, hvalues⟩ := eq_values_of_hexDigit (halves_lt bs) h
      rw [hvalues, List.length_map] at hlength
      refine ⟨hdigits, ?_⟩
      rw [paddedValues, if_pos (by omega), List.nil_append, hvalues]
    · have hzero : '0' :: (bare text).map Char.toLower = ('0' :: bare text).map Char.toLower := rfl
      rw [hzero] at h
      obtain ⟨hdigits, hvalues⟩ := eq_values_of_hexDigit (halves_lt bs) h
      rw [hvalues, List.length_map, List.length_cons] at hlength
      refine ⟨fun c hc => hdigits c (List.mem_cons_of_mem _ hc), ?_⟩
      rw [paddedValues, if_neg (by omega), hvalues]
      rfl

/-- The digits of octets decode to them. -/
theorem decode_hex (bs : Bytes) : decode (Bytes.hex bs) = .ok bs := by
  have hall : ∀ n < 16, Text.isAsciiBlankChar (Bytes.hexDigit n) = false ∧
      (Bytes.hexDigit n).toLower = Bytes.hexDigit n := by decide
  have hdigit : ∀ c ∈ (Bytes.hex bs).toList,
      Text.isAsciiBlankChar c = false ∧ c.toLower = c := by
    intro c hc
    rw [toList_hex] at hc
    obtain ⟨n, hn, rfl⟩ := List.mem_map.1 hc
    exact hall n (halves_lt bs n hn)
  have hbare : bare (Bytes.hex bs) = (Bytes.hex bs).toList :=
    List.filter_eq_self.2 fun c hc => by simp [(hdigit c hc).1]
  refine decode_eq_ok_iff.2 (.inl ?_)
  rw [hbare, List.map_congr_left fun c hc => (hdigit c hc).2, List.map_id']

end Decoding

/-! ## Numbers -/

/-- An octet counts as much as its two halves. -/
theorem foldl_halves (bs : Bytes) (start : Nat) :
    bs.foldl (fun n b => n * 256 + b.toNat) start =
      (halves bs).foldl (fun n half => n * 16 + half) start := by
  induction bs generalizing start with
  | nil => rfl
  | cons b bs ih =>
    have hstep : (start * 16 + b.toNat / 16) * 16 + b.toNat % 16 = start * 256 + b.toNat := by
      omega
    rw [halves_cons, List.foldl_cons, List.foldl_cons, List.foldl_cons, hstep, ih]

theorem toNat_eq_ofDigits (bs : Bytes) :
    Bytes.toNat bs = Nat.ofDigits 16 (halves bs).reverse := by
  have hstep : (fun n half : Nat => n * 16 + half) = fun n half => Nat.cast half + 16 * n := by
    funext n half
    simp only [Nat.cast_id]
    omega
  rw [Bytes.toNat, foldl_halves, Nat.ofDigits_eq_foldr, List.foldr_reverse, hstep]

/-- A zero in front does not change the number. -/
theorem ofDigits_paddedValues (cs : List Char) :
    Nat.ofDigits 16 (paddedValues cs).reverse = numberOf cs := by
  rw [paddedValues, List.reverse_append, Nat.ofDigits_append, numberOf]
  split <;> simp

/-! ## Texts that do not decode -/

variable {text : String} {fault : Fault}

/-- The fault is the first octet that is no digit, and its place is counted from the
zero in front, if there is one. -/
theorem decode_eq_error_iff :
    decode text = .error fault ↔
      (padded (Bytes.ofChars (bare text)))[fault.position]? = some fault.octet ∧
        fault.octet ∉ digitOctets ∧
        ∀ j < fault.position, ∀ b, (padded (Bytes.ofChars (bare text)))[j]? = some b →
          b ∈ digitOctets := by
  show pairsFrom 0 [] (padded (Bytes.ofChars (bare text))) = .error fault ↔ _
  rw [pairsFrom_eq_error_iff (padded_even _)]
  simp only [List.findIdx?_eq_some_iff_getElem, Nat.zero_add, ← isDigit_iff]
  constructor
  · rintro ⟨i, ⟨hi, hno, hbefore⟩, rfl, hoctet⟩
    rw [List.getElem?_eq_getElem hi, Option.some.injEq] at hoctet
    refine ⟨by rw [List.getElem?_eq_getElem hi, hoctet], by simpa [hoctet] using hno, ?_⟩
    intro j hj b hb
    obtain ⟨hlt, rfl⟩ := List.getElem?_eq_some_iff.1 hb
    simpa using hbefore j hj
  · rintro ⟨hoctet, hno, hbefore⟩
    obtain ⟨hi, heq⟩ := List.getElem?_eq_some_iff.1 hoctet
    refine ⟨fault.position, ⟨hi, by simpa [heq] using hno, fun j hj => ?_⟩, rfl, hoctet⟩
    have hj' := hbefore j hj _ (List.getElem?_eq_getElem (by omega))
    simpa using hj'

/-- A text decodes exactly if it holds digits and blanks only. -/
theorem exists_decode_eq_ok_iff :
    (∃ bs, decode text = .ok bs) ↔ ∀ c ∈ bare text, c ∈ digitChars := by
  constructor
  · rintro ⟨bs, h⟩
    exact (decode_eq_ok_iff_halves.1 h).1
  · intro hdigits
    cases h : decode text with
    | ok bs => exact ⟨bs, rfl⟩
    | error fault =>
      obtain ⟨hoctet, hno, _⟩ := decode_eq_error_iff.1 h
      have hdigit : isDigit fault.octet = true :=
        isDigit_of_forall₂ (forall₂_padded hdigits) (List.mem_of_getElem? hoctet)
      exact absurd (isDigit_iff.1 hdigit) hno

/-! ## Odd counts -/

/-- Why a reader that takes digits as they are refuses them. -/
inductive Refusal where
  /-- The last digit has no partner. -/
  | oddCount
  /-- An octet is no digit. -/
  | noDigit (fault : Fault)
deriving DecidableEq, Repr

/-- Reads digits as they are. An odd count of them is refused before any octet is
looked at. -/
def readDigits (ds : Bytes) : Except Refusal Bytes :=
  if ds.length % 2 = 0 then (pairsFrom 0 [] ds).mapError .noDigit else .error .oddCount

/-- With a zero in front of an odd count, counts are never odd. -/
theorem readDigits_padded (text : String) :
    readDigits (padded (Bytes.ofChars (bare text))) = (decode text).mapError .noDigit := by
  rw [readDigits, if_pos (padded_even _)]
  rfl

/-! ## The law -/

/-- **Decoding.** A text decodes exactly if its characters other than ASCII blanks
are all digits, in either letter case. It then gives half as many octets as there
are digits, rounded up, which hold the number that the digits stand for; in lower
case, their digits are those of the text, but for at most one zero in front. Every
text that has the digits of some octets in this sense decodes to these octets. A text
that does not decode has a fault, which is the first octet that is no digit, at its
place among the octets of the text without blanks and with a zero in front of an odd
count. The reason is never that this count is odd. -/
theorem decode_law (text : String) :
    ((∃ bs, decode text = .ok bs) ↔ ∀ c ∈ bare text, c ∈ digitChars) ∧
    (∀ bs, decode text = .ok bs →
      bs.length = ((bare text).length + 1) / 2 ∧ Bytes.toNat bs = numberOf (bare text)) ∧
    (∀ bs, decode text = .ok bs ↔
      (Bytes.hex bs).toList = (bare text).map Char.toLower ∨
        (Bytes.hex bs).toList = '0' :: (bare text).map Char.toLower) ∧
    (∀ fault, decode text = .error fault ↔
      (padded (Bytes.ofChars (bare text)))[fault.position]? = some fault.octet ∧
        fault.octet ∉ digitOctets ∧
        ∀ j < fault.position, ∀ b, (padded (Bytes.ofChars (bare text)))[j]? = some b →
          b ∈ digitOctets) ∧
    readDigits (padded (Bytes.ofChars (bare text))) = (decode text).mapError .noDigit := by
  refine ⟨exists_decode_eq_ok_iff, fun bs h => ?_, fun bs => decode_eq_ok_iff,
    fun fault => decode_eq_error_iff, readDigits_padded text⟩
  obtain ⟨hdigits, hhalves⟩ := decode_eq_ok_iff_halves.1 h
  constructor
  · have hlength : (Bytes.ofChars (bare text)).length = (bare text).length := by
      rw [(forall₂_ofChars hdigits).length_eq, List.length_map]
    rw [← hlength]
    exact decode_ok_length h
  · rw [toNat_eq_ofDigits, hhalves, ofDigits_paddedValues]

/-- Three digits with blanks between them, and a letter of two octets after an odd
count of octets in all. -/
theorem decode_law_sample :
    decode " aB\tc" = .ok [0x0A, 0xBC] ∧ numberOf (bare " aB\tc") = 0xABC ∧
      decode "1 é" = .error ⟨0xC3, 2⟩ ∧ (0xC3 : UInt8) ∉ digitOctets := by
  obtain ⟨_, hnumber, hdigits, _⟩ := decode_law " aB\tc"
  have hdecode : decode " aB\tc" = .ok [0x0A, 0xBC] := (hdigits _).2 (.inr (by decide))
  have hfault : decode "1 é" = .error ⟨0xC3, 2⟩ := by decide
  refine ⟨hdecode, ?_, hfault, ?_⟩
  · rw [← (hnumber _ hdecode).2]
    rfl
  · exact (((decode_law "1 é").2.2.2.1 _).1 hfault).2.1

end SignedPdf.Hex
