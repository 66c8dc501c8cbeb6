import SignedPdf.Bytes

/-!
# White space

Three sets of blanks occur, and they differ:

* `isBlank`: the characters with the property White_Space, trimmed from text
  values, dates and lines;
* `isAsciiBlank`: tab, line feed, form feed, carriage return and space, ignored
  between hexadecimal digits;
* `isSeparator`: those and the vertical tab, allowed between the tokens of a
  dictionary.

`trim` removes blanks at both ends; what it leaves neither starts nor ends with
one (`trim_head`, `trim_getLast`).
-/

namespace SignedPdf.Text

/-! ## Classes -/

/-- The property White_Space. -/
def isBlank (c : Char) : Bool :=
  let n := c.toNat
  (0x09 ≤ n && n ≤ 0x0D) || n == 0x20 || n == 0x85 || n == 0xA0 || n == 0x1680 ||
    (0x2000 ≤ n && n ≤ 0x200A) || n == 0x2028 || n == 0x2029 || n == 0x202F || n == 0x205F ||
    n == 0x3000

/-- Tab, line feed, form feed, carriage return or space. -/
def isAsciiBlank (b : UInt8) : Bool :=
  b == 0x09 || b == 0x0A || b == 0x0C || b == 0x0D || b == 0x20

/-- Tab, line feed, form feed, carriage return or space, as a character. -/
def isAsciiBlankChar (c : Char) : Bool :=
  c == '\t' || c == '\n' || c == '\x0c' || c == '\r' || c == ' '

/-- A blank that may stand between the tokens of a dictionary: an ASCII blank
or a vertical tab. -/
def isSeparator (b : UInt8) : Bool := isAsciiBlank b || b == 0x0B

/-! ## Trimming -/

/-- Removes the blanks at the start. -/
def trimStart (cs : List Char) : List Char := cs.dropWhile isBlank

/-- Removes the characters that satisfy `p` at the end. -/
def trimEndWhile (p : Char → Bool) (cs : List Char) : List Char :=
  (cs.reverse.dropWhile p).reverse

/-- Removes the blanks at the end. -/
def trimEnd (cs : List Char) : List Char := trimEndWhile isBlank cs

/-- Removes the blanks at both ends. -/
def trim (cs : List Char) : List Char := trimEnd (trimStart cs)

theorem head_dropWhile {p : Char → Bool} {cs : List Char} {c : Char}
    (h : (cs.dropWhile p).head? = some c) : p c = false := by
  induction cs with
  | nil => simp at h
  | cons a cs ih =>
    by_cases ha : p a = true
    · rw [List.dropWhile_cons_of_pos ha] at h
      exact ih h
    · rw [List.dropWhile_cons_of_neg ha] at h
      simp only [List.head?_cons, Option.some.injEq] at h
      simpa [← h] using ha

/-- What is left after trimming ends with no blank. -/
theorem trim_getLast {cs : List Char} {c : Char} (h : (trim cs).getLast? = some c) :
    isBlank c = false := by
  rw [trim, trimEnd, trimEndWhile, List.getLast?_reverse] at h
  exact head_dropWhile h

/-- What is left after trimming starts with no blank. -/
theorem trim_head {cs : List Char} {c : Char} (h : (trim cs).head? = some c) :
    isBlank c = false := by
  have hp : trim cs <+: trimStart cs := by
    rw [trim, trimEnd, trimEndWhile]
    obtain ⟨t, ht⟩ := List.dropWhile_suffix isBlank (l := (trimStart cs).reverse)
    exact ⟨t.reverse, by rw [← List.reverse_append, ht, List.reverse_reverse]⟩
  obtain ⟨t, ht⟩ := hp
  refine head_dropWhile (c := c) (show (cs.dropWhile isBlank).head? = some c from ?_)
  rw [trimStart] at ht
  rw [← ht, List.head?_append, h]
  rfl

end SignedPdf.Text
