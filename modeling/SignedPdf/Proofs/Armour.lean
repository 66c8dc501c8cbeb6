import Mathlib.Data.List.TakeWhile
import SignedPdf.Certificate
import SignedPdf.Proofs.Utf8

/-!
# Reading armour back

A block in armour reads as this block, whatever follows it: the digits of its
lines, put together, are the digits of its contents.

* `read_armoured`: the block is read, and what follows it is left.
* `blocks_join_armoured`: blocks in armour, one after the other, read as these
  blocks without a fault.
* `Certificate.read_ofText_armoured`: a certificate in armour reads as the block of
  its octets.
-/

namespace SignedPdf

/-! ## Characters on lines -/

/-- A character that stands for itself on a line inside a block: it starts no
mark, does not end the line, and is not trimmed. -/
def Pem.IsPlain (c : Char) : Prop := c ≠ '-' ∧ c ≠ '\n' ∧ Text.isBlank c = false

instance (c : Char) : Decidable (Pem.IsPlain c) := inferInstanceAs (Decidable (_ ∧ _ ∧ _))

namespace Base64

open Pem (IsPlain)

theorem isPlain_digit_of_lt : ∀ n < 64, IsPlain (digit n) := by decide

theorem isPlain_digit {n : Nat} (h : n < 64) : IsPlain (digit n) := isPlain_digit_of_lt n h

theorem isPlain_pad : IsPlain pad := by decide

theorem isPlain_of_mem_group1 {a : UInt8} {c : Char} (h : c ∈ group1 a) : IsPlain c := by
  have ha := a.toNat_lt
  simp only [group1, List.mem_cons, List.not_mem_nil, or_false] at h
  rcases h with rfl | rfl | rfl | rfl
  · exact isPlain_digit (by omega)
  · exact isPlain_digit (by omega)
  · exact isPlain_pad
  · exact isPlain_pad

theorem isPlain_of_mem_group2 {a b : UInt8} {c : Char} (h : c ∈ group2 a b) : IsPlain c := by
  have ha := a.toNat_lt
  have hb := b.toNat_lt
  simp only [group2, List.mem_cons, List.not_mem_nil, or_false] at h
  rcases h with rfl | rfl | rfl | rfl
  · exact isPlain_digit (by omega)
  · exact isPlain_digit (by omega)
  · exact isPlain_digit (by omega)
  · exact isPlain_pad

theorem isPlain_of_mem_group3 {a b d : UInt8} {c : Char} (h : c ∈ group3 a b d) : IsPlain c := by
  have ha := a.toNat_lt
  have hb := b.toNat_lt
  have hd := d.toNat_lt
  simp only [group3, List.mem_cons, List.not_mem_nil, or_false] at h
  rcases h with rfl | rfl | rfl | rfl
  · exact isPlain_digit (by omega)
  · exact isPlain_digit (by omega)
  · exact isPlain_digit (by omega)
  · exact isPlain_digit (by omega)

/-- All that is written for octets is plain. -/
theorem isPlain_of_mem_encode {bs : Bytes} {c : Char} (h : c ∈ encode bs) : IsPlain c := by
  match bs with
  | [] => cases h
  | [a] => exact isPlain_of_mem_group1 h
  | [a, b] => exact isPlain_of_mem_group2 h
  | a :: b :: d :: rest =>
    rw [encode_cons_cons_cons, List.mem_append] at h
    rcases h with h | h
    · exact isPlain_of_mem_group3 h
    · exact isPlain_of_mem_encode h

end Base64

namespace Pem

/-! ## Lines -/

theorem afterMark?_append (start cs : List Char) : afterMark? start (start ++ cs) = some cs := by
  induction start with
  | nil => rfl
  | cons s start ih => simp [afterMark?, ih]

theorem hasDashes_append (cs : List Char) : hasDashes (cs ++ dashes) = true := by
  induction cs with
  | nil => decide
  | cons c cs ih => simp [hasDashes, ih]

/-- A label is read up to the dashes that close it. -/
theorem label?_append {label : String} (h : '-' ∉ label.toList) :
    label? (label.toList ++ dashes) = some label := by
  have hdash : ∀ c ∈ label.toList, (c != '-') = true := by
    intro c hc
    rw [bne_iff_ne]
    rintro rfl
    exact h hc
  have hdashes : dashes.takeWhile (· != '-') = [] := by decide
  rw [label?, if_pos (hasDashes_append _), List.takeWhile_append_of_pos hdash, hdashes,
    List.append_nil, String.ofList_toList]

/-- Plain characters are left as they are when blanks are trimmed. -/
theorem trimEnd_of_isPlain {cs : List Char} (h : ∀ c ∈ cs, IsPlain c) : Text.trimEnd cs = cs := by
  have hdrop : cs.reverse.dropWhile Text.isBlank = cs.reverse := by
    rw [List.dropWhile_eq_self_iff]
    intro hpos
    have hplain := h _ (List.mem_reverse.1 (List.getElem_mem hpos))
    rw [hplain.2.2]
    exact Bool.false_ne_true
  rw [Text.trimEnd, Text.trimEndWhile, hdrop, List.reverse_reverse]

/-- Plain characters do not begin with the mark that ends a block. -/
theorem afterMark?_endMark_of_isPlain {cs : List Char} (h : ∀ c ∈ cs, IsPlain c) :
    afterMark? endMark cs = none := by
  cases cs with
  | nil => rfl
  | cons c cs =>
    have hc : '-' ≠ c := fun heq => (h c List.mem_cons_self).1 heq.symm
    show afterMark? ('-' :: endMark.tail) (c :: cs) = none
    rw [afterMark?, if_neg hc]

theorem takeLine_none (cs : List Char) : takeLine none (Bytes.ofChars cs) = takeOutside cs := by
  rw [takeLine, Utf8.decode?_ofChars]

theorem takeLine_some (o : Opened) (cs : List Char) :
    takeLine (some o) (Bytes.ofChars cs) = takeInside o cs := by
  rw [takeLine, Utf8.decode?_ofChars]

/-- Reading goes on after a line of text that ends no block. -/
theorem readFrom_ofChars_more {o o' : Option Opened} {cs : List Char} (h : '\n' ∉ cs)
    (hline : takeLine o (Bytes.ofChars cs) = .more o') (bs : Bytes) :
    readFrom o [] (Bytes.ofChars cs ++ lineFeed :: bs) = readFrom o' [] bs := by
  rw [readFrom_line (Utf8.lineFeed_notMem_ofChars h), List.reverse_nil, List.nil_append, hline]

/-- What follows a line of text that ends a block is left. -/
theorem readFrom_ofChars_done {o : Option Opened} {b : Block} {cs : List Char} (h : '\n' ∉ cs)
    (hline : takeLine o (Bytes.ofChars cs) = .done b) (bs : Bytes) :
    readFrom o [] (Bytes.ofChars cs ++ lineFeed :: bs) = .ok (b, bs) := by
  rw [readFrom_line (Utf8.lineFeed_notMem_ofChars h), List.reverse_nil, List.nil_append, hline]

/-! ## Blocks -/

/-- The line that starts a block with a label. -/
def firstLine (label : String) : List Char := beginMark ++ (label.toList ++ dashes)

/-- The line that ends a block with a label. -/
def lastLine (label : String) : List Char := endMark ++ (label.toList ++ dashes)

/-- A label that can be read back: it holds no dash and ends no line. -/
def IsLabel (label : String) : Prop := '-' ∉ label.toList ∧ '\n' ∉ label.toList

/-- The characters of a block in armour: two lines with its label, and between
them the lines of its digits. -/
theorem toList_armoured (b : Block) :
    b.armoured.toList =
      firstLine b.label ++ '\n' :: (wrapped (Base64.encode b.contents) ++
        (lastLine b.label ++ ['\n'])) := by
  have hclose : "-----\n".toList = dashes ++ ['\n'] := by decide
  have hbegin : "-----BEGIN ".toList = beginMark := rfl
  have hend : "-----END ".toList = endMark := rfl
  -- Not by the equation of `armoured`: finding it would unfold `wrapped`.
  delta Block.armoured
  simp only [String.toList_append, String.toList_ofList, hclose, hbegin, hend, firstLine, lastLine,
    List.append_assoc, List.cons_append, List.nil_append]

theorem ofText_armoured (b : Block) (rest : Bytes) :
    Bytes.ofText b.armoured ++ rest =
      Bytes.ofChars (firstLine b.label) ++ lineFeed ::
        (Bytes.ofChars (wrapped (Base64.encode b.contents)) ++
          (Bytes.ofChars (lastLine b.label) ++ lineFeed :: rest)) := by
  have hfeed : Bytes.ofChar '\n' = [lineFeed] := by decide
  have hnil : Bytes.ofChars [] = [] := rfl
  simp only [Bytes.ofText, toList_armoured, Bytes.ofChars_append, Bytes.ofChars_cons, hfeed, hnil,
    List.append_assoc, List.cons_append, List.nil_append]

/-- The lines of digits are taken one by one; together they hold the digits. -/
theorem readFrom_wrapped {cs : List Char} (h : ∀ c ∈ cs, IsPlain c) (o : Opened) (rest : Bytes) :
    ∃ o' : Opened, o'.label = o.label ∧
      o'.digits.reverse.flatten = o.digits.reverse.flatten ++ cs ∧
      readFrom (some o) [] (Bytes.ofChars (wrapped cs) ++ rest) = readFrom (some o') [] rest := by
  fun_induction wrapped cs generalizing o with
  | case1 => exact ⟨o, rfl, by simp, rfl⟩
  | case2 cs hne ih =>
    have htake : ∀ c ∈ cs.take lineWidth, IsPlain c := fun c hc => h c (List.mem_of_mem_take hc)
    have hdrop : ∀ c ∈ cs.drop lineWidth, IsPlain c := fun c hc => h c (List.mem_of_mem_drop hc)
    obtain ⟨o', hlabel, hdigits, hread⟩ :=
      ih hdrop { o with digits := cs.take lineWidth :: o.digits }
    refine ⟨o', hlabel, ?_, ?_⟩
    · rw [hdigits]
      simp
    · have hfeed : '\n' ∉ cs.take lineWidth := fun hmem => (htake _ hmem).2.1 rfl
      have hline : takeLine (some o) (Bytes.ofChars (cs.take lineWidth)) =
          .more (some { o with digits := cs.take lineWidth :: o.digits }) := by
        rw [takeLine_some, takeInside, afterMark?_endMark_of_isPlain htake,
          trimEnd_of_isPlain htake]
      have hsplit : Bytes.ofChars (cs.take lineWidth ++ '\n' :: wrapped (cs.drop lineWidth)) ++ rest =
          Bytes.ofChars (cs.take lineWidth) ++
            lineFeed :: (Bytes.ofChars (wrapped (cs.drop lineWidth)) ++ rest) := by
        rw [Bytes.ofChars_append, Bytes.ofChars_cons, List.append_assoc]
        rfl
      rw [hsplit, readFrom_ofChars_more hfeed hline]
      exact hread

/-- A block in armour is read, and what follows it is left. -/
theorem read_armoured {b : Block} (h : IsLabel b.label) (rest : Bytes) :
    read (Bytes.ofText b.armoured ++ rest) = .ok (b, rest) := by
  have hfirst : '\n' ∉ firstLine b.label := by
    simp only [firstLine, List.mem_append, not_or]
    exact ⟨by decide, h.2, by decide⟩
  have hlast : '\n' ∉ lastLine b.label := by
    simp only [lastLine, List.mem_append, not_or]
    exact ⟨by decide, h.2, by decide⟩
  have hopen : takeLine none (Bytes.ofChars (firstLine b.label)) =
      .more (some { label := b.label }) := by
    rw [takeLine_none, takeOutside, firstLine, afterMark?_append]
    simp only [label?_append h.1]
  have hplain : ∀ c ∈ Base64.encode b.contents, IsPlain c := fun _ => Base64.isPlain_of_mem_encode
  obtain ⟨o, hlabel, hdigits, hread⟩ :=
    readFrom_wrapped hplain { label := b.label }
      (Bytes.ofChars (lastLine b.label) ++ lineFeed :: rest)
  have hclose : takeLine (some o) (Bytes.ofChars (lastLine b.label)) = .done b := by
    have hdecode : Base64.decode? o.digits.reverse.flatten = some b.contents := by
      rw [hdigits]
      exact Base64.decode?_encode b.contents
    rw [takeLine_some, takeInside, lastLine, afterMark?_append]
    simp only [Opened.close, hdecode, hlabel]
  rw [ofText_armoured, read, readFrom_ofChars_more hfirst hopen, hread,
    readFrom_ofChars_done hlast hclose]

theorem blocks_of_read {bs rest : Bytes} {b : Block} (h : read bs = .ok (b, rest)) :
    blocks bs = (b :: (blocks rest).1, (blocks rest).2) := by
  rw [blocks]
  split
  · next h' =>
    rw [h] at h'
    cases h'
    rfl
  · next h' =>
    rw [h] at h'
    cases h'
  · next h' =>
    rw [h] at h'
    cases h'

theorem blocks_nil : blocks [] = ([], none) := by
  have h : read [] = .error .missingHeader := rfl
  rw [blocks]
  split
  · next h' =>
    rw [h] at h'
    cases h'
  · rfl
  · next hne h' =>
    rw [h] at h'
    cases h'
    exact absurd rfl hne

/-- Blocks in armour, one after the other, read as these blocks without a
fault. -/
theorem blocks_join_armoured {bs : List Block} (h : ∀ b ∈ bs, IsLabel b.label) :
    blocks (Bytes.ofText (String.join (bs.map Block.armoured))) = (bs, none) := by
  induction bs with
  | nil => exact blocks_nil
  | cons b bs ih =>
    have hjoin : Bytes.ofText (String.join ((b :: bs).map Block.armoured)) =
        Bytes.ofText b.armoured ++ Bytes.ofText (String.join (bs.map Block.armoured)) := by
      simp [Bytes.ofText, Bytes.ofChars_append]
    rw [hjoin, blocks_of_read (read_armoured (h b List.mem_cons_self) _),
      ih fun b hb => h b (List.mem_cons_of_mem _ hb)]

end Pem

/-! ## Certificates -/

namespace Certificate

/-- The label of certificates can be read back. -/
theorem isLabel_label : Pem.IsLabel label := ⟨by decide, by decide⟩

/-- A certificate in armour reads as the block of its octets, whatever follows it. -/
theorem read_ofText_armoured (c : Certificate) (rest : Bytes) :
    Pem.read (Bytes.ofText c.armoured ++ rest) = .ok (⟨label, c.der⟩, rest) :=
  Pem.read_armoured isLabel_label rest

end Certificate

end SignedPdf
