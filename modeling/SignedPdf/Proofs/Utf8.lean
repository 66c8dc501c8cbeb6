import Mathlib.Tactic.SplitIfs
import SignedPdf.Pem

/-!
# Reading characters back

Characters are written as octets by `Bytes.ofChars`, and the machine of
`Utf8.units` reads these characters and no malformed part.

* `units_ofChars`, `decode?_ofChars`, `decodeLossy_ofChars`: what is written reads
  back.
* `notMem_ofChars`: an octet below 128 is written for one character only, such as
  the line feed.
* `mark_notMem_ofChars`: the mark of UTF-16 is not written.
-/

namespace SignedPdf.Utf8

/-! ## One octet -/

variable {out : List (Option Char)}

theorem toNat_ofNat {n : Nat} (h : n < 256) : (UInt8.ofNat n).toNat = n :=
  UInt8.toNat_ofNat_of_lt' h

theorem readFrom_done {b : UInt8} {c : Char} (h : lead b = .done c) (bs : Bytes) :
    readFrom none out (b :: bs) = readFrom none (some c :: out) bs := by
  rw [readFrom, h]

theorem readFrom_more {b : UInt8} {p : Pending} (h : lead b = .more p) (bs : Bytes) :
    readFrom none out (b :: bs) = readFrom (some p) out bs := by
  rw [readFrom, h]

/-- The last octet of a character brings its last six bits. -/
theorem readFrom_last {code low high n : Nat} (h : low ≤ 0x80 + n) (h' : 0x80 + n ≤ high)
    (hn : n < 64) (bs : Bytes) :
    readFrom (some ⟨code, 1, low, high⟩) out (UInt8.ofNat (0x80 + n) :: bs) =
      readFrom none (some (Char.ofNat (code * 64 + n)) :: out) bs := by
  have hb : (UInt8.ofNat (0x80 + n)).toNat = 0x80 + n := toNat_ofNat (by omega)
  rw [readFrom]
  simp only [hb, h, h', decide_true, Bool.and_self, if_true, Nat.add_sub_cancel_left]

/-- Another octet brings six bits, and the next one may be any continuation. -/
theorem readFrom_next {code owed low high n : Nat} (h : low ≤ 0x80 + n) (h' : 0x80 + n ≤ high)
    (hn : n < 64) (bs : Bytes) :
    readFrom (some ⟨code, owed + 2, low, high⟩) out (UInt8.ofNat (0x80 + n) :: bs) =
      readFrom (some ⟨code * 64 + n, owed + 1, 0x80, 0xBF⟩) out bs := by
  have hb : (UInt8.ofNat (0x80 + n)).toNat = 0x80 + n := toNat_ofNat (by omega)
  have howed : ¬ owed + 2 = 1 := by omega
  rw [readFrom]
  simp only [hb, h, h', howed, decide_true, Bool.and_self, if_true, if_false,
    Nat.add_sub_cancel_left]
  rfl

/-! ## Leading octets -/

theorem lead_one {n : Nat} (h : n < 0x80) : lead (UInt8.ofNat n) = .done (Char.ofNat n) := by
  have hb : (UInt8.ofNat n).toNat = n := toNat_ofNat (by omega)
  simp only [lead, hb, h, if_true]

theorem lead_two {n : Nat} (h : 0x80 ≤ n) (h' : n < 0x800) :
    lead (UInt8.ofNat (0xC0 + n / 64)) = .more ⟨n / 64, 1, 0x80, 0xBF⟩ := by
  have hb : (UInt8.ofNat (0xC0 + n / 64)).toNat = 0xC0 + n / 64 := toNat_ofNat (by omega)
  have hdone : ¬ 0xC0 + n / 64 < 0x80 := by omega
  have hbad : ¬ 0xC0 + n / 64 < 0xC2 := by omega
  have hmore : 0xC0 + n / 64 < 0xE0 := by omega
  simp only [lead, hb, hdone, hbad, hmore, if_true, if_false, Nat.add_sub_cancel_left]

/-- The octet after the leading one of three lies in the range that this one
asks for: the number is neither too small nor a surrogate. -/
theorem lead_three {n : Nat} (h : 0x800 ≤ n) (h' : n < 0x10000) (hs : n < 0xD800 ∨ 0xDFFF < n) :
    ∃ low high, lead (UInt8.ofNat (0xE0 + n / 4096)) = .more ⟨n / 4096, 2, low, high⟩ ∧
      low ≤ 0x80 + n / 64 % 64 ∧ 0x80 + n / 64 % 64 ≤ high := by
  have hb : (UInt8.ofNat (0xE0 + n / 4096)).toNat = 0xE0 + n / 4096 := toNat_ofNat (by omega)
  by_cases h0 : n / 4096 = 0
  · rw [h0]
    exact ⟨0xA0, 0xBF, by decide, by omega, by omega⟩
  · by_cases hD : n / 4096 = 0xD
    · rw [hD]
      exact ⟨0x80, 0x9F, by decide, by omega, by omega⟩
    · have hdone : ¬ 0xE0 + n / 4096 < 0x80 := by omega
      have hbad : ¬ 0xE0 + n / 4096 < 0xC2 := by omega
      have htwo : ¬ 0xE0 + n / 4096 < 0xE0 := by omega
      have h0' : ¬ 0xE0 + n / 4096 = 0xE0 := by omega
      have hD' : ¬ 0xE0 + n / 4096 = 0xED := by omega
      have hmore : 0xE0 + n / 4096 < 0xF0 := by omega
      refine ⟨0x80, 0xBF, ?_, by omega, by omega⟩
      simp only [lead, hb, hdone, hbad, htwo, h0', hD', hmore, if_true, if_false,
        Nat.add_sub_cancel_left]

/-- The octet after the leading one of four lies in the range that this one asks
for: the number is neither too small nor too large. -/
theorem lead_four {n : Nat} (h : 0x10000 ≤ n) (h' : n < 0x110000) :
    ∃ low high, lead (UInt8.ofNat (0xF0 + n / 262144)) = .more ⟨n / 262144, 3, low, high⟩ ∧
      low ≤ 0x80 + n / 4096 % 64 ∧ 0x80 + n / 4096 % 64 ≤ high := by
  have hcases : n / 262144 = 0 ∨ n / 262144 = 1 ∨ n / 262144 = 2 ∨ n / 262144 = 3 ∨
      n / 262144 = 4 := by omega
  rcases hcases with h0 | h1 | h2 | h3 | h4
  · rw [h0]
    exact ⟨0x90, 0xBF, by decide, by omega, by omega⟩
  · rw [h1]
    exact ⟨0x80, 0xBF, by decide, by omega, by omega⟩
  · rw [h2]
    exact ⟨0x80, 0xBF, by decide, by omega, by omega⟩
  · rw [h3]
    exact ⟨0x80, 0xBF, by decide, by omega, by omega⟩
  · rw [h4]
    exact ⟨0x80, 0x8F, by decide, by omega, by omega⟩

/-! ## Characters -/

/-- The octets of a character are read as this character. -/
theorem readFrom_ofChar (c : Char) (bs : Bytes) :
    readFrom none out (Bytes.ofChar c ++ bs) = readFrom none (some c :: out) bs := by
  have hvalid : c.toNat < 0xD800 ∨ (0xDFFF < c.toNat ∧ c.toNat < 0x110000) := c.valid
  unfold Bytes.ofChar
  by_cases h1 : c.toNat < 0x80
  · simp only [h1, if_true, List.cons_append, List.nil_append]
    rw [readFrom_done (lead_one h1), Char.ofNat_toNat]
  by_cases h2 : c.toNat < 0x800
  · have hcode : c.toNat / 64 * 64 + c.toNat % 64 = c.toNat := by omega
    simp only [h1, h2, if_true, if_false, List.cons_append, List.nil_append]
    rw [readFrom_more (lead_two (by omega) h2), readFrom_last (by omega) (by omega) (by omega),
      hcode, Char.ofNat_toNat]
  by_cases h3 : c.toNat < 0x10000
  · have hcode : (c.toNat / 4096 * 64 + c.toNat / 64 % 64) * 64 + c.toNat % 64 = c.toNat := by
      omega
    obtain ⟨low, high, hlead, hlow, hhigh⟩ := lead_three (by omega) h3 (by omega)
    simp only [h1, h2, h3, if_true, if_false, List.cons_append, List.nil_append]
    rw [readFrom_more hlead, readFrom_next hlow hhigh (by omega),
      readFrom_last (by omega) (by omega) (by omega), hcode, Char.ofNat_toNat]
  · have hcode : ((c.toNat / 262144 * 64 + c.toNat / 4096 % 64) * 64 + c.toNat / 64 % 64) * 64 +
        c.toNat % 64 = c.toNat := by omega
    obtain ⟨low, high, hlead, hlow, hhigh⟩ := lead_four (n := c.toNat) (by omega) (by omega)
    simp only [h1, h2, h3, if_false, List.cons_append, List.nil_append]
    rw [readFrom_more hlead, readFrom_next hlow hhigh (by omega),
      readFrom_next (by omega) (by omega) (by omega),
      readFrom_last (by omega) (by omega) (by omega), hcode, Char.ofNat_toNat]

theorem readFrom_ofChars (cs : List Char) (bs : Bytes) :
    readFrom none out (Bytes.ofChars cs ++ bs) =
      readFrom none ((cs.map some).reverse ++ out) bs := by
  induction cs generalizing out with
  | nil => rfl
  | cons c cs ih =>
    rw [Bytes.ofChars_cons, List.append_assoc, readFrom_ofChar, ih]
    simp

/-- What is written for characters holds these characters and nothing else. -/
theorem units_ofChars (cs : List Char) : units (Bytes.ofChars cs) = cs.map some := by
  have h : readFrom none [] (Bytes.ofChars cs ++ []) = _ := readFrom_ofChars cs []
  rw [List.append_nil] at h
  rw [units, h]
  simp [readFrom]

/-- What is written reads back. -/
theorem decode?_ofChars (cs : List Char) : decode? (Bytes.ofChars cs) = some cs := by
  unfold decode?
  simp [units_ofChars]

theorem decodeLossy_ofChars (cs : List Char) : decodeLossy (Bytes.ofChars cs) = cs := by
  rw [decodeLossy, units_ofChars, List.map_map]
  exact List.map_id _

/-! ## Octets that do not occur -/

/-- A character below 128 is its own octet, and the octets of any other one lie
between 128 and 253. -/
theorem mem_ofChar {b : UInt8} {c : Char} (h : b ∈ Bytes.ofChar c) :
    b.toNat = c.toNat ∧ c.toNat < 0x80 ∨ 0x80 ≤ b.toNat ∧ b.toNat < 0xFE := by
  have hvalid : c.toNat < 0xD800 ∨ (0xDFFF < c.toNat ∧ c.toNat < 0x110000) := c.valid
  have hoctet : ∀ n, 0x80 ≤ n → n < 0xFE → b = UInt8.ofNat n →
      0x80 ≤ b.toNat ∧ b.toNat < 0xFE := by
    intro n hlow hhigh heq
    rw [heq, toNat_ofNat (by omega)]
    exact ⟨hlow, hhigh⟩
  unfold Bytes.ofChar at h
  simp only at h
  split_ifs at h with h1 h2 h3
  · left
    rw [List.mem_singleton.1 h, toNat_ofNat (by omega)]
    exact ⟨rfl, h1⟩
  all_goals
    simp only [List.mem_cons, List.not_mem_nil, or_false] at h
    right
  · rcases h with h | h <;> exact hoctet _ (by omega) (by omega) h
  · rcases h with h | h | h <;> exact hoctet _ (by omega) (by omega) h
  · rcases h with h | h | h | h <;> exact hoctet _ (by omega) (by omega) h

/-- An octet below 128 is written for one character only. -/
theorem notMem_ofChars {b : UInt8} (hb : b.toNat < 0x80) {cs : List Char}
    (h : Char.ofNat b.toNat ∉ cs) : b ∉ Bytes.ofChars cs := by
  intro hmem
  obtain ⟨c, hc, hoctet⟩ := List.mem_flatMap.1 hmem
  rcases mem_ofChar hoctet with ⟨heq, _⟩ | ⟨hlow, _⟩
  · rw [heq, Char.ofNat_toNat] at h
    exact h hc
  · omega

/-- No character is written with an octet of `FE`. -/
theorem mark_notMem_ofChars (cs : List Char) : 0xFE ∉ Bytes.ofChars cs := by
  intro hmem
  obtain ⟨c, _, hoctet⟩ := List.mem_flatMap.1 hmem
  have hmark : (0xFE : UInt8).toNat = 0xFE := rfl
  rcases mem_ofChar hoctet with ⟨heq, hlow⟩ | ⟨_, hhigh⟩
  · omega
  · omega

/-- Characters without a line feed are written on one line. -/
theorem lineFeed_notMem_ofChars {cs : List Char} (h : '\n' ∉ cs) :
    Pem.lineFeed ∉ Bytes.ofChars cs :=
  notMem_ofChars (by decide) h

end SignedPdf.Utf8
