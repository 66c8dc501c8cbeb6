import SignedPdf.Hex
import SignedPdf.Search
import SignedPdf.Text.Utf8
import SignedPdf.Text.Utf16

/-!
# Signature dictionaries

A signature dictionary is read from a *window*: a stretch of the document that
starts at the dictionary's marker. Four entries are looked up in it, each on
its own, and each is taken from the least offset at which the key, separators
and a complete value of the right form stand in the window.

* `field?_eq_some_iff` says which value a look-up takes.
* `textValue_trimmed`: a text value that is present is not empty and has no
  blank at either end.
-/

namespace SignedPdf

/-- The entries of a signature dictionary, before any decoding. -/
structure SignatureDictionary where
  /-- The digits of `/Contents` without ASCII blanks; empty if there is none. -/
  contents : String := ""
  /-- The value of `/Name`. -/
  name : Option String := none
  /-- The value of `/Reason`. -/
  reason : Option String := none
  /-- The value of `/M`, as it stands. -/
  date : Option String := none
deriving DecidableEq, Repr

namespace SignatureDictionary

/-! ## Values -/

/-- What stands between round brackets: everything up to the first closing
bracket. -/
def literal? : Bytes → Option Bytes
  | 0x28 :: rest =>
    match rest.dropWhile (· != 0x29) with
    | [] => none
    | _ :: _ => some (rest.takeWhile (· != 0x29))
  | _ => none

/-- Whether an octet may stand in a hexadecimal string. -/
def isHexOctet (b : UInt8) : Bool := Hex.isDigit b || Text.isSeparator b

/-- What stands between angle brackets: digits and separators, at least one. -/
def hexString? : Bytes → Option Bytes
  | 0x3C :: rest =>
    match rest.takeWhile isHexOctet, rest.dropWhile isHexOctet with
    | b :: bs, 0x3E :: _ => some (b :: bs)
    | _, _ => none
  | _ => none

/-! ## Looking up an entry -/

/-- Reads a key, separators and a value at the start. -/
def entryAt? (key : Bytes) (value : Bytes → Option Bytes) (bs : Bytes) : Option Bytes :=
  (Bytes.dropStart? key bs).bind fun rest => value (rest.dropWhile Text.isSeparator)

/-- The value of the leftmost complete entry with that key. -/
def field? (key : Bytes) (value : Bytes → Option Bytes) (window : Bytes) : Option Bytes :=
  (Search.first? (entryAt? key value) window).map Prod.snd

/-- A look-up takes the value at the least offset that has one. -/
theorem field?_eq_some_iff {key : Bytes} {value : Bytes → Option Bytes} {window v : Bytes} :
    field? key value window = some v ↔
      ∃ o ≤ window.length, entryAt? key value (window.drop o) = some v ∧
        ∀ j < o, entryAt? key value (window.drop j) = none := by
  rw [field?, Option.map_eq_some_iff]
  constructor
  · rintro ⟨⟨o, v'⟩, h, rfl⟩
    exact ⟨o, Search.first?_eq_some_iff.1 h⟩
  · rintro ⟨o, h⟩
    exact ⟨(o, v), Search.first?_eq_some_iff.2 h, rfl⟩

/-! ## Text values -/

/-- The characters of a text value: UTF-16 after the mark `FE FF`, else UTF-8;
what is malformed reads as U+FFFD. -/
def textChars : Bytes → List Char
  | 0xFE :: 0xFF :: rest => Utf16.decodeLossy rest
  | bs => Utf8.decodeLossy bs

/-- A text value without the blanks around it; a blank one counts as absent. -/
def textValue (bs : Bytes) : Option String :=
  match Text.trim (textChars bs) with
  | [] => none
  | cs => some (String.ofList cs)

theorem textValue_eq_some {bs : Bytes} {s : String} (h : textValue bs = some s) :
    s.toList = Text.trim (textChars bs) ∧ s.toList ≠ [] := by
  unfold textValue at h
  split at h
  · cases h
  · next cs hcs =>
    cases h
    rw [String.toList_ofList]
    exact ⟨rfl, hcs⟩

/-- A text value that is present is not empty and has no blank at either end. -/
theorem textValue_trimmed {bs : Bytes} {s : String} (h : textValue bs = some s) :
    s.toList ≠ [] ∧ (∀ c, s.toList.head? = some c → Text.isBlank c = false) ∧
      ∀ c, s.toList.getLast? = some c → Text.isBlank c = false := by
  obtain ⟨heq, hne⟩ := textValue_eq_some h
  refine ⟨hne, fun c hc => ?_, fun c hc => ?_⟩
  · rw [heq] at hc
    exact Text.trim_head hc
  · rw [heq] at hc
    exact Text.trim_getLast hc

/-! ## Reading a window -/

/-- The key of the signature itself. -/
def contentsKey : Bytes := Bytes.ofText "/Contents"

/-- The key of the signer's name. -/
def nameKey : Bytes := Bytes.ofText "/Name"

/-- The key of the reason for signing. -/
def reasonKey : Bytes := Bytes.ofText "/Reason"

/-- The key of the time of signing. -/
def dateKey : Bytes := Bytes.ofText "/M"

/-- What stands between the angle brackets of `/Contents`. -/
def rawContents? (window : Bytes) : Option Bytes := field? contentsKey hexString? window

/-- The entries that a window holds. -/
def ofWindow (window : Bytes) : SignatureDictionary where
  contents :=
    match rawContents? window with
    | none => ""
    | some digits => Bytes.asciiText (digits.filter fun b => !Text.isAsciiBlank b)
  name := (field? nameKey literal? window).bind textValue
  reason := (field? reasonKey literal? window).bind textValue
  date := (field? dateKey literal? window).map fun bs => String.ofList (Utf8.decodeLossy bs)

end SignatureDictionary

end SignedPdf
