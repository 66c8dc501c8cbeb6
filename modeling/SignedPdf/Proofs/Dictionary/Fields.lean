import SignedPdf.Proofs.Markers
import SignedPdf.Proofs.Trimming
import SignedPdf.Proofs.Utf8

/-!
# Entries that are found again

An entry is a key, blanks, and a value between brackets. A look-up passes over
everything in which its key does not start, and takes the value of the first entry
that it meets.

* `Key.seeks_read?`: a look-up accepts nothing but a solidus to begin with, as the
  search for a marker does.
* `Key.field?_append`: a look-up takes the value of its entry, whatever follows.
* `textValue_ofText`: a text value that has been written reads back.
-/

namespace SignedPdf

namespace SignatureDictionary

/-! ## Text values -/

/-- What is written for characters has no mark of UTF-16. -/
theorem textChars_ofChars (cs : List Char) : textChars (Bytes.ofChars cs) = cs := by
  have hmark := Utf8.mark_notMem_ofChars cs
  have hdecode := Utf8.decodeLossy_ofChars cs
  unfold textChars
  split
  · next heq =>
    rw [heq] at hmark
    exact absurd List.mem_cons_self hmark
  · exact hdecode

/-- Characters that are trimmed are the text value, if there are any. -/
theorem textValue_of_textChars {s : String} {bs : Bytes} (hchars : textChars bs = s.toList)
    (hne : s.toList ≠ []) (h : Text.IsTrimmed s.toList) : textValue bs = some s := by
  unfold textValue
  rw [hchars, Text.trim_of_isTrimmed h]
  split
  · next hnil => exact absurd hnil hne
  · rw [String.ofList_toList]

/-- A trimmed text that is not empty reads back. -/
theorem textValue_ofText {s : String} (hne : s.toList ≠ []) (h : Text.IsTrimmed s.toList) :
    textValue (Bytes.ofText s) = some s :=
  textValue_of_textChars (textChars_ofChars s.toList) hne h

/-! ## Keys -/

/-- The entries that are looked up. -/
inductive Key where
  | contents
  | name
  | reason
  | date
deriving DecidableEq, Repr

namespace Key

/-- The key as it stands in a dictionary. -/
def octets : Key → Bytes
  | .contents => contentsKey
  | .name => nameKey
  | .reason => reasonKey
  | .date => dateKey

/-- The form that the value must have. -/
def value? : Key → Bytes → Option Bytes
  | .contents => hexString?
  | .name | .reason | .date => literal?

/-- The bracket before the value. -/
def opening : Key → UInt8
  | .contents => 0x3C
  | .name | .reason | .date => 0x28

/-- The bracket after the value. -/
def closing : Key → UInt8
  | .contents => 0x3E
  | .name | .reason | .date => 0x29

/-- What may stand between the brackets. -/
def Allows : Key → Bytes → Prop
  | .contents, value => value ≠ [] ∧ ∀ b ∈ value, isHexOctet b = true
  | .name, value | .reason, value | .date, value => 0x29 ∉ value

/-- The key without its solidus. -/
theorem exists_octets_eq (k : Key) : ∃ name, k.octets = solidus :: name ∧ solidus ∉ name := by
  cases k
  · exact ⟨Bytes.ofText "Contents", by decide, by decide⟩
  · exact ⟨Bytes.ofText "Name", by decide, by decide⟩
  · exact ⟨Bytes.ofText "Reason", by decide, by decide⟩
  · exact ⟨Bytes.ofText "M", by decide, by decide⟩

theorem opening_notMem_blankOctets (k : Key) : k.opening ∉ blankOctets := by
  cases k <;> decide

theorem opening_ne_solidus (k : Key) : solidus ≠ k.opening := by cases k <;> decide

theorem closing_ne_solidus (k : Key) : solidus ≠ k.closing := by cases k <;> decide

end Key

/-! ## Values between brackets -/

theorem literal?_append {value : Bytes} (h : 0x29 ∉ value) (rest : Bytes) :
    literal? (0x28 :: (value ++ 0x29 :: rest)) = some value := by
  have hall : ∀ b ∈ value, (b != 0x29) = true := by
    intro b hb
    rw [bne_iff_ne]
    rintro rfl
    exact h hb
  have hend : ((0x29 : UInt8) != 0x29) = false := by decide
  simp only [literal?, Search.takeWhile_run hall hend, Search.dropWhile_run hall hend]

theorem hexString?_append {value : Bytes} (hne : value ≠ [])
    (h : ∀ b ∈ value, isHexOctet b = true) (rest : Bytes) :
    hexString? (0x3C :: (value ++ 0x3E :: rest)) = some value := by
  have hend : isHexOctet 0x3E = false := by decide
  have htake := Search.takeWhile_run h hend rest
  have hdrop := Search.dropWhile_run h hend rest
  cases value with
  | nil => exact absurd rfl hne
  | cons b value => simp only [hexString?, htake, hdrop]

namespace Key

/-- A value between its brackets is read, whatever follows. -/
theorem value?_append (k : Key) {value : Bytes} (h : k.Allows value) (rest : Bytes) :
    k.value? (k.opening :: (value ++ k.closing :: rest)) = some value := by
  cases k with
  | contents => exact hexString?_append h.1 h.2 rest
  | name => exact literal?_append h rest
  | reason => exact literal?_append h rest
  | date => exact literal?_append h rest

/-! ## Looking up -/

/-- What a look-up does at each offset. -/
def read? (k : Key) : Bytes → Option Bytes := entryAt? k.octets k.value?

theorem seeks_read? (k : Key) : Seeks k.read? := by
  intro b bs hb
  obtain ⟨name, hname, _⟩ := k.exists_octets_eq
  have hne : ¬ solidus = b := Ne.symm hb
  simp only [read?, entryAt?, hname, Bytes.dropStart?, hne, if_false, Option.bind_none]

/-- A look-up does not take another key for its own. -/
theorem read?_other {k k' : Key} (h : k ≠ k') (rest : Bytes) :
    k.read? (k'.octets ++ rest) = none := by
  cases k <;> cases k' <;> first | exact absurd rfl h | rfl

theorem read?_typeKey (k : Key) (rest : Bytes) : k.read? (typeKey ++ rest) = none := by
  cases k <;> rfl

theorem read?_signatureType (k : Key) (rest : Bytes) :
    k.read? (signatureType ++ rest) = none := by
  cases k <;> rfl

theorem markerAt?_octets (k : Key) (rest : Bytes) : markerAt? (k.octets ++ rest) = none := by
  cases k <;> rfl

/-- An entry is read, whatever follows. -/
theorem read?_append (k : Key) {blanks value : Bytes} (hblanks : ∀ b ∈ blanks, b ∈ blankOctets)
    (hvalue : k.Allows value) (rest : Bytes) :
    k.read? (k.octets ++ (blanks ++ k.opening :: (value ++ k.closing :: rest))) = some value := by
  rw [read?, entryAt?, Bytes.dropStart?_append, Option.bind_some,
    dropWhile_blanks hblanks k.opening_notMem_blankOctets, k.value?_append hvalue]

/-- A look-up takes the value of the entry that follows a part which it passes
over. -/
theorem field?_append (k : Key) {part blanks value rest : Bytes}
    (hblanks : ∀ b ∈ blanks, b ∈ blankOctets) (hvalue : k.Allows value)
    (hpart : Search.Misses k.read? part
      (k.octets ++ (blanks ++ k.opening :: (value ++ k.closing :: rest)))) :
    field? k.octets k.value?
      (part ++ (k.octets ++ (blanks ++ k.opening :: (value ++ k.closing :: rest)))) =
        some value := by
  have hfirst := hpart.first?_append (k.read?_append hblanks hvalue rest)
  rw [read?] at hfirst
  rw [field?, hfirst, Option.map_some]

end Key

end SignatureDictionary

end SignedPdf
