import SignedPdf.Json
import SignedPdf.Search

/-!
# What JSON says

The grammar of JSON, as far as values are concerned whose numbers are natural
numbers, written so that a phrase is read from the front of some characters and
leaves the rest. Blanks may stand around every value and every mark; a string may
be written with any of the escapes.

* `Reads.unique`: characters are read in one way only.
* `reads_compact` and `reads_pretty`: either way of writing a value is read as this
  value.
* `isDocument_compact_iff` and `isDocument_pretty_iff`: hence a text that has been
  written is a document with this value, and with no other one.
-/

namespace SignedPdf.Json

/-! ## Blanks -/

/-- The blanks of JSON. -/
def isBlank (c : Char) : Bool := c == ' ' || c == '\t' || c == '\n' || c == '\r'

/-- There is nothing but blanks. -/
def AreBlanks (cs : List Char) : Prop := ∀ c ∈ cs, isBlank c = true

/-- What is left after the blanks at the start. -/
def skipBlanks (cs : List Char) : List Char := cs.dropWhile isBlank

theorem skipBlanks_cons {c : Char} (h : isBlank c = false) (cs : List Char) :
    skipBlanks (c :: cs) = c :: cs := by
  simp [skipBlanks, h]

/-- Blanks before something else are left out. -/
theorem skipBlanks_append {blanks : List Char} (h : AreBlanks blanks)
    (cs : List Char) : skipBlanks (blanks ++ cs) = skipBlanks cs :=
  List.dropWhile_append_of_pos h

/-! ## Strings -/

/-- The escapes of two characters: what follows the backslash, and what is meant. -/
def shortEscapes : List (Char × Char) :=
  [('"', '"'), ('\\', '\\'), ('/', '/'), ('b', '\x08'), ('f', '\x0c'), ('n', '\n'), ('r', '\r'),
    ('t', '\t')]

/-- The value of a hexadecimal digit of either letter case. -/
def hexValue? (c : Char) : Option Nat :=
  if '0' ≤ c ∧ c ≤ '9' then some (c.toNat - 0x30)
  else if 'A' ≤ c ∧ c ≤ 'F' then some (c.toNat - 0x37)
  else if 'a' ≤ c ∧ c ≤ 'f' then some (c.toNat - 0x57)
  else none

/-- The number that four hexadecimal digits stand for. -/
def codeUnit? (digits : List Char) : Option Nat :=
  if digits.length = 4 then
    digits.foldl (fun n? c => n?.bind fun n => (hexValue? c).map fun d => 16 * n + d) (some 0)
  else none

/-- What stands after the quotation mark that starts a string reads as the
characters of the string; the rest follows the mark that ends it. -/
inductive ReadsString : List Char → List Char → List Char → Prop
  | close {rest : List Char} : ReadsString ('"' :: rest) [] rest
  | plain {c : Char} {cs s rest : List Char} (hcontrol : 0x20 ≤ c.toNat) (hmark : c ≠ '"')
    (hslash : c ≠ '\\') (h : ReadsString cs s rest) : ReadsString (c :: cs) (c :: s) rest
  | short {e c : Char} {cs s rest : List Char} (he : (e, c) ∈ shortEscapes)
    (h : ReadsString cs s rest) : ReadsString ('\\' :: e :: cs) (c :: s) rest
  | unit {x₁ x₂ x₃ x₄ c : Char} {cs s rest : List Char}
    (hx : codeUnit? [x₁, x₂, x₃, x₄] = some c.toNat) (h : ReadsString cs s rest) :
    ReadsString ('\\' :: 'u' :: x₁ :: x₂ :: x₃ :: x₄ :: cs) (c :: s) rest
  /-- Characters beyond U+FFFF have two code units. -/
  | pair {x₁ x₂ x₃ x₄ y₁ y₂ y₃ y₄ c : Char} {high low : Nat} {cs s rest : List Char}
    (hx : codeUnit? [x₁, x₂, x₃, x₄] = some (0xD800 + high))
    (hy : codeUnit? [y₁, y₂, y₃, y₄] = some (0xDC00 + low))
    (hhigh : high < 0x400) (hlow : low < 0x400) (hc : c.toNat = 0x10000 + 0x400 * high + low)
    (h : ReadsString cs s rest) :
    ReadsString
      ('\\' :: 'u' :: x₁ :: x₂ :: x₃ :: x₄ :: '\\' :: 'u' :: y₁ :: y₂ :: y₃ :: y₄ :: cs)
      (c :: s) rest

/-! ## Numbers -/

/-- No digit comes first. -/
def NoDigit (cs : List Char) : Prop := ∀ c ∈ cs.head?, c.isDigit = false

/-- A number is read from its decimal digits, as far as they go. -/
def ReadsNumber (cs : List Char) (n : Nat) (rest : List Char) : Prop :=
  cs = Nat.toDigits 10 n ++ rest ∧ NoDigit rest

/-! ## Values -/

/-- What can be read: a value, the items of an array with the bracket that ends it, a
member of an object, and the members of an object with the brace that ends it. There
is at least one item or member. -/
inductive Phrase where
  | value (j : Json)
  | items (js : List Json)
  | member (m : String × Json)
  | members (ms : List (String × Json))

/-- The characters read as a phrase and leave the rest. -/
inductive Reads : List Char → Phrase → List Char → Prop
  | null {rest : List Char} : Reads ('n' :: 'u' :: 'l' :: 'l' :: rest) (.value .null) rest
  | isTrue {rest : List Char} :
    Reads ('t' :: 'r' :: 'u' :: 'e' :: rest) (.value (.bool true)) rest
  | isFalse {rest : List Char} :
    Reads ('f' :: 'a' :: 'l' :: 's' :: 'e' :: rest) (.value (.bool false)) rest
  | number {cs rest : List Char} {n : Nat} (h : ReadsNumber cs n rest) :
    Reads cs (.value (.number n)) rest
  | string {cs s rest : List Char} (h : ReadsString cs s rest) :
    Reads ('"' :: cs) (.value (.string (String.ofList s))) rest
  | emptyArray {cs rest : List Char} (h : skipBlanks cs = ']' :: rest) :
    Reads ('[' :: cs) (.value (.array [])) rest
  | array {cs rest : List Char} {js : List Json} (h : Reads cs (.items js) rest) :
    Reads ('[' :: cs) (.value (.array js)) rest
  | emptyObject {cs rest : List Char} (h : skipBlanks cs = '\x7d' :: rest) :
    Reads ('\x7b' :: cs) (.value (.object [])) rest
  | object {cs rest : List Char} {ms : List (String × Json)} (h : Reads cs (.members ms) rest) :
    Reads ('\x7b' :: cs) (.value (.object ms)) rest
  | lastItem {cs after rest : List Char} {j : Json} (h : Reads (skipBlanks cs) (.value j) after)
    (hend : skipBlanks after = ']' :: rest) : Reads cs (.items [j]) rest
  | nextItem {cs after more rest : List Char} {j : Json} {js : List Json}
    (h : Reads (skipBlanks cs) (.value j) after) (hcomma : skipBlanks after = ',' :: more)
    (hmore : Reads more (.items js) rest) : Reads cs (.items (j :: js)) rest
  | member {cs key afterKey value rest : List Char} {k : List Char} {j : Json}
    (hmark : skipBlanks cs = '"' :: key) (hkey : ReadsString key k afterKey)
    (hcolon : skipBlanks afterKey = ':' :: value)
    (h : Reads (skipBlanks value) (.value j) rest) : Reads cs (.member (String.ofList k, j)) rest
  | lastMember {cs after rest : List Char} {m : String × Json} (h : Reads cs (.member m) after)
    (hend : skipBlanks after = '\x7d' :: rest) : Reads cs (.members [m]) rest
  | nextMember {cs after more rest : List Char} {m : String × Json} {ms : List (String × Json)}
    (h : Reads cs (.member m) after) (hcomma : skipBlanks after = ',' :: more)
    (hmore : Reads more (.members ms) rest) : Reads cs (.members (m :: ms)) rest

/-- The text is one value with nothing but blanks around it. -/
def IsDocument (text : String) (j : Json) : Prop :=
  ∃ rest, Reads (skipBlanks text.toList) (.value j) rest ∧ skipBlanks rest = []

/-- The value of the first member of an object with that key. -/
def member? (key : String) : Json → Option Json
  | .object ms => ms.lookup key
  | _ => none

/-! ## Strings are read in one way -/

/-- The character that a short escape stands for. -/
theorem shortEscapes_unique {e c c' : Char} (h : (e, c) ∈ shortEscapes)
    (h' : (e, c') ∈ shortEscapes) : c' = c := by
  have hall : ∀ p ∈ shortEscapes, ∀ q ∈ shortEscapes, q.1 = p.1 → q.2 = p.2 := by decide
  exact hall _ h _ h' rfl

/-- No short escape looks like the start of a code unit. -/
theorem not_mem_shortEscapes (c : Char) : ('u', c) ∉ shortEscapes := by
  have hall : ∀ p ∈ shortEscapes, p.1 ≠ 'u' := by decide
  intro h
  exact hall _ h rfl

/-- A character is not half of a pair. -/
theorem toNat_ne_high (c : Char) {high : Nat} (h : high < 0x400) : c.toNat ≠ 0xD800 + high := by
  intro heq
  have hvalid := c.valid
  simp only [UInt32.isValidChar, Nat.isValidChar] at hvalid
  have hval : c.val.toNat = c.toNat := rfl
  omega

theorem ReadsString.unique {cs s rest : List Char} (h : ReadsString cs s rest) :
    ∀ s' rest', ReadsString cs s' rest' → s' = s ∧ rest' = rest := by
  induction h with
  | close =>
    intro s' rest' h'
    cases h' with
    | close => exact ⟨rfl, rfl⟩
    | plain _ hmark => exact absurd rfl hmark
  | plain _ hmark hslash _ ih =>
    intro s' rest' h'
    cases h' with
    | close => exact absurd rfl hmark
    | plain _ _ _ h' =>
      obtain ⟨rfl, rfl⟩ := ih _ _ h'
      exact ⟨rfl, rfl⟩
    | short => exact absurd rfl hslash
    | unit => exact absurd rfl hslash
    | pair => exact absurd rfl hslash
  | short he _ ih =>
    intro s' rest' h'
    cases h' with
    | plain _ _ hslash => exact absurd rfl hslash
    | short he' h' =>
      obtain ⟨rfl, rfl⟩ := ih _ _ h'
      exact ⟨by rw [shortEscapes_unique he he'], rfl⟩
    | unit => exact absurd he (not_mem_shortEscapes _)
    | pair => exact absurd he (not_mem_shortEscapes _)
  | unit hx _ ih =>
    intro s' rest' h'
    cases h' with
    | plain _ _ hslash => exact absurd rfl hslash
    | short he' => exact absurd he' (not_mem_shortEscapes _)
    | unit hx' h' =>
      obtain ⟨rfl, rfl⟩ := ih _ _ h'
      rw [hx, Option.some.injEq, Char.toNat_inj] at hx'
      exact ⟨by rw [hx'], rfl⟩
    | pair hx' _ hhigh =>
      rw [hx, Option.some.injEq] at hx'
      exact absurd hx' (toNat_ne_high _ hhigh)
  | pair hx hy hhigh hlow hc _ ih =>
    intro s' rest' h'
    cases h' with
    | plain _ _ hslash => exact absurd rfl hslash
    | short he' => exact absurd he' (not_mem_shortEscapes _)
    | unit hx' h' =>
      rw [hx, Option.some.injEq] at hx'
      exact absurd hx'.symm (toNat_ne_high _ hhigh)
    | pair hx' hy' _ _ hc' h' =>
      obtain ⟨rfl, rfl⟩ := ih _ _ h'
      rw [hx, Option.some.injEq] at hx'
      rw [hy, Option.some.injEq] at hy'
      have hsame := Char.toNat_inj.1 (hc'.trans (by omega) |>.trans hc.symm)
      exact ⟨by rw [hsame], rfl⟩

/-! ## Numbers are read in one way -/

theorem ReadsNumber.isDigit_head {c : Char} {cs rest : List Char} {n : Nat}
    (h : ReadsNumber (c :: cs) n rest) : c.isDigit = true := by
  have hmem : c ∈ Nat.toDigits 10 n := by
    cases hdigits : Nat.toDigits 10 n with
    | nil => exact absurd hdigits Nat.toDigits_ne_nil
    | cons d ds =>
      have heq := h.1
      rw [hdigits, List.cons_append, List.cons.injEq] at heq
      rw [heq.1]
      exact List.mem_cons_self
  exact Nat.isDigit_of_mem_toDigits (by decide) (by decide) hmem

/-- The digits of a number are those up to the first character that is none. -/
theorem ReadsNumber.takeWhile_eq {cs rest : List Char} {n : Nat} (h : ReadsNumber cs n rest) :
    cs.takeWhile Char.isDigit = Nat.toDigits 10 n := by
  obtain ⟨rfl, hrest⟩ := h
  have hdigits : ∀ c ∈ Nat.toDigits 10 n, c.isDigit = true := by
    intro c hc
    exact Nat.isDigit_of_mem_toDigits (by decide) (by decide) hc
  rw [List.takeWhile_append_of_pos hdigits]
  cases rest with
  | nil => simp
  | cons c rest => simp [hrest c rfl]

theorem ReadsNumber.unique {cs rest rest' : List Char} {n n' : Nat} (h : ReadsNumber cs n rest)
    (h' : ReadsNumber cs n' rest') : n' = n ∧ rest' = rest := by
  have hdigits : Nat.toDigits 10 n = Nat.toDigits 10 n' :=
    h.takeWhile_eq.symm.trans h'.takeWhile_eq
  have hn : n' = n := by
    rw [← Nat.ofDigitChars_ten_toDigits (n := n'), ← hdigits, Nat.ofDigitChars_ten_toDigits]
  subst hn
  exact ⟨rfl, List.append_cancel_left (h'.1.symm.trans h.1)⟩

/-! ## Phrases are read in one way -/

/-- No other phrase of this kind is read from the characters, and no other rest is
left. -/
def Phrase.ReadsOnly (cs rest : List Char) : Phrase → Prop
  | .value j => ∀ j' rest', Reads cs (.value j') rest' → j' = j ∧ rest' = rest
  | .items js => ∀ js' rest', Reads cs (.items js') rest' → js' = js ∧ rest' = rest
  | .member m => ∀ m' rest', Reads cs (.member m') rest' → m' = m ∧ rest' = rest
  | .members ms => ∀ ms' rest', Reads cs (.members ms') rest' → ms' = ms ∧ rest' = rest

/-- What ends an array starts no item. -/
theorem not_reads_items_of_close {cs rest rest' : List Char} {js : List Json}
    (hend : skipBlanks cs = ']' :: rest) : ¬ Reads cs (.items js) rest' := by
  have hvalue : ∀ j after, ¬ Reads (']' :: rest) (.value j) after := by
    intro j after h
    cases h with
    | number hn => exact absurd hn.isDigit_head (by decide)
  intro h
  cases h with
  | lastItem h => exact hvalue _ _ (hend ▸ h)
  | nextItem h => exact hvalue _ _ (hend ▸ h)

/-- What ends an object starts no member. -/
theorem not_reads_members_of_close {cs rest rest' : List Char} {ms : List (String × Json)}
    (hend : skipBlanks cs = '\x7d' :: rest) : ¬ Reads cs (.members ms) rest' := by
  have hmember : ∀ m after, ¬ Reads cs (.member m) after := by
    intro m after h
    cases h with
    | member hmark =>
      rw [hend] at hmark
      cases hmark
  intro h
  cases h with
  | lastMember h => exact hmember _ _ h
  | nextMember h => exact hmember _ _ h

/-- Characters are read in one way only: the first one that is no blank tells how to
go on. -/
theorem Reads.unique {cs rest : List Char} {p : Phrase} (h : Reads cs p rest) :
    p.ReadsOnly cs rest := by
  induction h with
  -- The first character of a value settles its kind; only numbers start with a digit.
  | null =>
    intro j' rest' h'
    cases h' with
    | null => exact ⟨rfl, rfl⟩
    | number hn => exact absurd hn.isDigit_head (by decide)
  | isTrue =>
    intro j' rest' h'
    cases h' with
    | isTrue => exact ⟨rfl, rfl⟩
    | number hn => exact absurd hn.isDigit_head (by decide)
  | isFalse =>
    intro j' rest' h'
    cases h' with
    | isFalse => exact ⟨rfl, rfl⟩
    | number hn => exact absurd hn.isDigit_head (by decide)
  | number hn =>
    intro j' rest' h'
    cases h' with
    | number hn' =>
      obtain ⟨rfl, rfl⟩ := hn.unique hn'
      exact ⟨rfl, rfl⟩
    | _ => exact absurd hn.isDigit_head (by decide)
  | string hs =>
    intro j' rest' h'
    cases h' with
    | number hn => exact absurd hn.isDigit_head (by decide)
    | string hs' =>
      obtain ⟨rfl, rfl⟩ := hs.unique _ _ hs'
      exact ⟨rfl, rfl⟩
  | emptyArray hend =>
    intro j' rest' h'
    cases h' with
    | number hn => exact absurd hn.isDigit_head (by decide)
    | emptyArray hend' =>
      rw [hend] at hend'
      cases hend'
      exact ⟨rfl, rfl⟩
    | array hitems => exact absurd hitems (not_reads_items_of_close hend)
  | array hitems ih =>
    intro j' rest' h'
    cases h' with
    | number hn => exact absurd hn.isDigit_head (by decide)
    | emptyArray hend => exact absurd hitems (not_reads_items_of_close hend)
    | array hitems' =>
      obtain ⟨rfl, rfl⟩ := ih _ _ hitems'
      exact ⟨rfl, rfl⟩
  | emptyObject hend =>
    intro j' rest' h'
    cases h' with
    | number hn => exact absurd hn.isDigit_head (by decide)
    | emptyObject hend' =>
      rw [hend] at hend'
      cases hend'
      exact ⟨rfl, rfl⟩
    | object hmembers => exact absurd hmembers (not_reads_members_of_close hend)
  | object hmembers ih =>
    intro j' rest' h'
    cases h' with
    | number hn => exact absurd hn.isDigit_head (by decide)
    | emptyObject hend => exact absurd hmembers (not_reads_members_of_close hend)
    | object hmembers' =>
      obtain ⟨rfl, rfl⟩ := ih _ _ hmembers'
      exact ⟨rfl, rfl⟩
  -- What follows an item settles whether it is the last one.
  | lastItem _ hend ih =>
    intro js' rest' h'
    cases h' with
    | lastItem hvalue hend' =>
      obtain ⟨rfl, rfl⟩ := ih _ _ hvalue
      rw [hend] at hend'
      cases hend'
      exact ⟨rfl, rfl⟩
    | nextItem hvalue hcomma =>
      obtain ⟨rfl, rfl⟩ := ih _ _ hvalue
      rw [hend] at hcomma
      cases hcomma
  | nextItem _ hcomma _ ih ihmore =>
    intro js' rest' h'
    cases h' with
    | lastItem hvalue hend =>
      obtain ⟨rfl, rfl⟩ := ih _ _ hvalue
      rw [hcomma] at hend
      cases hend
    | nextItem hvalue hcomma' hmore =>
      obtain ⟨rfl, rfl⟩ := ih _ _ hvalue
      rw [hcomma] at hcomma'
      cases hcomma'
      obtain ⟨rfl, rfl⟩ := ihmore _ _ hmore
      exact ⟨rfl, rfl⟩
  | member hmark hkey hcolon _ ih =>
    intro m' rest' h'
    cases h' with
    | member hmark' hkey' hcolon' hvalue =>
      rw [hmark] at hmark'
      cases hmark'
      obtain ⟨rfl, rfl⟩ := hkey.unique _ _ hkey'
      rw [hcolon] at hcolon'
      cases hcolon'
      obtain ⟨rfl, rfl⟩ := ih _ _ hvalue
      exact ⟨rfl, rfl⟩
  | lastMember _ hend ih =>
    intro ms' rest' h'
    cases h' with
    | lastMember hmember hend' =>
      obtain ⟨rfl, rfl⟩ := ih _ _ hmember
      rw [hend] at hend'
      cases hend'
      exact ⟨rfl, rfl⟩
    | nextMember hmember hcomma =>
      obtain ⟨rfl, rfl⟩ := ih _ _ hmember
      rw [hend] at hcomma
      cases hcomma
  | nextMember _ hcomma _ ih ihmore =>
    intro ms' rest' h'
    cases h' with
    | lastMember hmember hend =>
      obtain ⟨rfl, rfl⟩ := ih _ _ hmember
      rw [hcomma] at hend
      cases hend
    | nextMember hmember hcomma' hmore =>
      obtain ⟨rfl, rfl⟩ := ih _ _ hmember
      rw [hcomma] at hcomma'
      cases hcomma'
      obtain ⟨rfl, rfl⟩ := ihmore _ _ hmore
      exact ⟨rfl, rfl⟩

/-! ## Spellings -/

/-- The characters read as the value, unless a digit follows them. -/
def Spells (t : List Char) (j : Json) : Prop :=
  ∀ rest, NoDigit rest → Reads (t ++ rest) (.value j) rest

/-- So they do as items, if the bracket follows them. -/
def SpellsItems (t : List Char) (js : List Json) : Prop :=
  ∀ blanks rest, AreBlanks blanks →
    Reads (t ++ (blanks ++ ']' :: rest)) (.items js) rest

/-- So they do as members, if the brace follows them. -/
def SpellsMembers (t : List Char) (ms : List (String × Json)) : Prop :=
  ∀ blanks rest, AreBlanks blanks →
    Reads (t ++ (blanks ++ '\x7d' :: rest)) (.members ms) rest

theorem isDigit_of_isBlank {c : Char} (h : isBlank c = true) : c.isDigit = false := by
  simp only [isBlank, Bool.or_eq_true, beq_iff_eq] at h
  rcases h with ((rfl | rfl) | rfl) | rfl <;> rfl

theorem noDigit_cons {c : Char} (h : c.isDigit = false) (cs : List Char) : NoDigit (c :: cs) := by
  intro d hd
  cases hd
  exact h

theorem noDigit_blanks_append {blanks cs : List Char} (h : AreBlanks blanks)
    (hcs : NoDigit cs) : NoDigit (blanks ++ cs) := by
  cases blanks with
  | nil => exact hcs
  | cons c blanks => exact noDigit_cons (isDigit_of_isBlank (h c List.mem_cons_self)) _

/-- No value starts with a blank. -/
theorem Reads.skipBlanks_eq {cs rest : List Char} {j : Json} (h : Reads cs (.value j) rest) :
    skipBlanks cs = cs := by
  cases h with
  | number hn =>
    cases cs with
    | nil => rfl
    | cons c cs =>
      refine skipBlanks_cons ?_ cs
      rw [← Bool.not_eq_true]
      intro hblank
      exact absurd hn.isDigit_head (by simp [isDigit_of_isBlank hblank])
  | _ => exact skipBlanks_cons (by decide) _

/-! ### Strings and numbers -/

/-- The digits of the code units of controls. -/
theorem codeUnit?_control (n : Nat) (h : n < 0x20) :
    codeUnit? ['0', '0', Bytes.hexDigit (n / 16), Bytes.hexDigit (n % 16)] = some n := by
  have hall : ∀ n < 0x20,
      codeUnit? ['0', '0', Bytes.hexDigit (n / 16), Bytes.hexDigit (n % 16)] = some n := by decide
  exact hall n h

/-- A character reads as itself when it has been written in a string. -/
theorem readsString_escapedChar {c : Char} {cs s rest : List Char} (h : ReadsString cs s rest) :
    ReadsString (escapedChar c ++ cs) (c :: s) rest := by
  unfold escapedChar
  split
  · next hc => exact .short (by rw [hc]; decide) h
  split
  · next hc => exact .short (by rw [hc]; decide) h
  split
  · next hc => exact .short (by rw [hc]; decide) h
  split
  · next hc => exact .short (by rw [hc]; decide) h
  split
  · next hc => exact .short (by rw [hc]; decide) h
  split
  · next hc => exact .short (by rw [hc]; decide) h
  split
  · next hc => exact .short (by rw [hc]; decide) h
  split
  · next hc => exact .unit (codeUnit?_control c.toNat hc) h
  · next hmark hslash _ _ _ _ _ hcontrol => exact .plain (by omega) hmark hslash h

theorem readsString_flatMap (s rest : List Char) :
    ReadsString (s.flatMap escapedChar ++ '"' :: rest) s rest := by
  induction s with
  | nil => exact .close
  | cons c s ih =>
    rw [List.flatMap_cons, List.append_assoc]
    exact readsString_escapedChar ih

/-- The characters between the quotation marks, with the marks. -/
theorem toList_quoted (s : String) :
    (quoted s).toList = '"' :: (s.toList.flatMap escapedChar ++ ['"']) := by
  simp [quoted]

theorem spells_quoted (s : String) : Spells (quoted s).toList (.string s) := by
  intro rest _
  have h := Reads.string (readsString_flatMap s.toList rest)
  rw [String.ofList_toList] at h
  rw [toList_quoted]
  simpa using h

theorem spells_number (n : Nat) : Spells (toString n).toList (.number n) := by
  intro rest hrest
  rw [Nat.toString_eq_repr, Nat.toList_repr]
  exact .number ⟨rfl, hrest⟩

theorem spells_bool (b : Bool) : Spells (toString b).toList (.bool b) := by
  intro rest _
  cases b with
  | false => exact .isFalse
  | true => exact .isTrue

theorem spells_null : Spells "null".toList .null := by
  intro rest _
  exact .null

/-! ### Arrays and objects -/

variable {t ts lead blanks : List Char} {j : Json} {js : List Json} {key : String}
  {ms : List (String × Json)}

theorem spells_emptyArray : Spells "[]".toList (.array []) := by
  intro rest _
  exact .emptyArray (skipBlanks_cons (by decide) rest)

theorem spells_emptyObject : Spells "\x7b\x7d".toList (.object []) := by
  intro rest _
  exact .emptyObject (skipBlanks_cons (by decide) rest)

theorem spells_array (h : SpellsItems t js) (hblanks : AreBlanks blanks) :
    Spells ('[' :: (t ++ (blanks ++ [']']))) (.array js) := by
  intro rest _
  have hread := h blanks rest hblanks
  simpa using Reads.array hread

theorem spells_object (h : SpellsMembers t ms) (hblanks : AreBlanks blanks) :
    Spells ('\x7b' :: (t ++ (blanks ++ ['\x7d']))) (.object ms) := by
  intro rest _
  have hread := h blanks rest hblanks
  simpa using Reads.object hread

/-- A spelled value is read after blanks. -/
theorem Spells.reads_skipBlanks (h : Spells t j) (hlead : AreBlanks lead)
    {rest : List Char} (hrest : NoDigit rest) :
    Reads (skipBlanks (lead ++ (t ++ rest))) (.value j) rest := by
  have hread := h rest hrest
  rwa [skipBlanks_append hlead, hread.skipBlanks_eq]

theorem spellsItems_last (h : Spells t j) (hlead : AreBlanks lead) :
    SpellsItems (lead ++ t) [j] := by
  intro blanks rest hblanks
  rw [List.append_assoc]
  refine .lastItem (h.reads_skipBlanks hlead ?_) ?_
  · exact noDigit_blanks_append hblanks (noDigit_cons (by decide) rest)
  · rw [skipBlanks_append hblanks, skipBlanks_cons (by decide)]

theorem spellsItems_next (h : Spells t j) (hlead : AreBlanks lead)
    (hmore : SpellsItems ts js) : SpellsItems (lead ++ (t ++ ',' :: ts)) (j :: js) := by
  intro blanks rest hblanks
  have hread := h.reads_skipBlanks hlead
    (noDigit_cons (by decide) (ts ++ (blanks ++ ']' :: rest)) : NoDigit (',' :: _))
  rw [List.append_assoc, List.append_assoc]
  exact .nextItem hread (skipBlanks_cons (by decide) _) (hmore blanks rest hblanks)

/-- A member is read from its key, a colon, blanks and its value. -/
theorem reads_member (key : String) (h : Spells t j) (hlead : AreBlanks lead)
    (hblanks : AreBlanks blanks) {rest : List Char} (hrest : NoDigit rest) :
    Reads (lead ++ ((quoted key).toList ++ ':' :: (blanks ++ (t ++ rest)))) (.member (key, j))
      rest := by
  have hmark : skipBlanks (lead ++ ((quoted key).toList ++ ':' :: (blanks ++ (t ++ rest)))) =
      '"' :: (key.toList.flatMap escapedChar ++ '"' :: ':' :: (blanks ++ (t ++ rest))) := by
    rw [skipBlanks_append hlead, toList_quoted, List.cons_append, skipBlanks_cons (by decide)]
    simp
  have hread := Reads.member hmark (readsString_flatMap key.toList _)
    (skipBlanks_cons (by decide) _) (h.reads_skipBlanks hblanks hrest)
  rwa [String.ofList_toList] at hread

theorem spellsMembers_last (key : String) (h : Spells t j) (hlead : AreBlanks lead)
    (hblanks : AreBlanks blanks) :
    SpellsMembers (lead ++ ((quoted key).toList ++ ':' :: (blanks ++ t))) [(key, j)] := by
  intro after rest hafter
  have hread := reads_member key h hlead hblanks
    (noDigit_blanks_append hafter (noDigit_cons (c := '\x7d') (by decide) rest))
  have hend : skipBlanks (after ++ '\x7d' :: rest) = '\x7d' :: rest := by
    rw [skipBlanks_append hafter, skipBlanks_cons (by decide)]
  simpa using Reads.lastMember hread hend

theorem spellsMembers_next (key : String) (h : Spells t j) (hlead : AreBlanks lead)
    (hblanks : AreBlanks blanks) (hmore : SpellsMembers ts ms) :
    SpellsMembers (lead ++ ((quoted key).toList ++ ':' :: (blanks ++ (t ++ ',' :: ts))))
      ((key, j) :: ms) := by
  intro after rest hafter
  have hread := reads_member key h hlead hblanks
    (noDigit_cons (c := ',') (by decide) (ts ++ (after ++ '\x7d' :: rest)))
  simpa using Reads.nextMember hread (skipBlanks_cons (by decide) _) (hmore after rest hafter)

/-! ## What is written -/

theorem areBlanks_nil : AreBlanks [] := by
  intro c hc
  cases hc

theorem areBlanks_space : AreBlanks [' '] := by
  intro c hc
  rw [List.mem_singleton.1 hc]
  rfl

theorem areBlanks_newLine (level : Nat) : AreBlanks (newLine level).toList := by
  intro c hc
  simp only [newLine, String.toList_append, String.toList_ofList, List.mem_append] at hc
  rcases hc with hc | hc
  · rw [List.mem_singleton.1 hc]
    rfl
  · rw [(List.mem_replicate.1 hc).2]
    rfl

/-! ### On one line -/

mutual

/-- What is appended on one line spells the value. -/
theorem exists_compactTo (out : String) :
    (j : Json) → ∃ t, (compactTo out j).toList = out.toList ++ t ∧ Spells t j
  | .null => ⟨_, String.toList_append, spells_null⟩
  | .bool b => ⟨_, String.toList_append, spells_bool b⟩
  | .number n => ⟨_, String.toList_append, spells_number n⟩
  | .string s => ⟨_, String.toList_append, spells_quoted s⟩
  | .array [] => ⟨"[]".toList, by simp [compactTo, compactItemsTo], spells_emptyArray⟩
  | .array (j :: js) => by
    obtain ⟨t, ht, hspells⟩ := exists_compactItemsTo (out ++ "[") (j :: js) (by simp)
    exact ⟨_, by simp [compactTo, ht], spells_array hspells areBlanks_nil⟩
  | .object [] => ⟨"\x7b\x7d".toList, by simp [compactTo, compactMembersTo], spells_emptyObject⟩
  | .object (m :: ms) => by
    obtain ⟨t, ht, hspells⟩ := exists_compactMembersTo (out ++ "\x7b") (m :: ms) (by simp)
    exact ⟨_, by simp [compactTo, ht], spells_object hspells areBlanks_nil⟩

theorem exists_compactItemsTo (out : String) : (js : List Json) → js ≠ [] →
    ∃ t, (compactItemsTo out js).toList = out.toList ++ t ∧ SpellsItems t js
  | [], hne => absurd rfl hne
  | [j], _ => by
    obtain ⟨t, ht, hspells⟩ := exists_compactTo out j
    exact ⟨_, by simp [compactItemsTo, ht], spellsItems_last hspells areBlanks_nil⟩
  | j :: k :: js, _ => by
    obtain ⟨t, ht, hspells⟩ := exists_compactTo out j
    obtain ⟨ts, hts, hmore⟩ :=
      exists_compactItemsTo (compactTo out j ++ ",") (k :: js) (by simp)
    exact ⟨_, by simp [compactItemsTo, ht, hts], spellsItems_next hspells areBlanks_nil hmore⟩

theorem exists_compactMembersTo (out : String) : (ms : List (String × Json)) → ms ≠ [] →
    ∃ t, (compactMembersTo out ms).toList = out.toList ++ t ∧ SpellsMembers t ms
  | [], hne => absurd rfl hne
  | [(key, j)], _ => by
    obtain ⟨t, ht, hspells⟩ := exists_compactTo (out ++ quoted key ++ ":") j
    exact ⟨_, by simp [compactMembersTo, ht],
      spellsMembers_last key hspells areBlanks_nil areBlanks_nil⟩
  | (key, j) :: m :: ms, _ => by
    obtain ⟨t, ht, hspells⟩ := exists_compactTo (out ++ quoted key ++ ":") j
    obtain ⟨ts, hts, hmore⟩ :=
      exists_compactMembersTo (compactTo (out ++ quoted key ++ ":") j ++ ",") (m :: ms) (by simp)
    exact ⟨_, by simp [compactMembersTo, ht, hts],
      spellsMembers_next key hspells areBlanks_nil areBlanks_nil hmore⟩

end

/-! ### Over several lines -/

mutual

/-- What is appended over several lines spells the value. -/
theorem exists_prettyTo (out : String) (level : Nat) :
    (j : Json) → ∃ t, (prettyTo out level j).toList = out.toList ++ t ∧ Spells t j
  | .null => ⟨_, String.toList_append, spells_null⟩
  | .bool b => ⟨_, String.toList_append, spells_bool b⟩
  | .number n => ⟨_, String.toList_append, spells_number n⟩
  | .string s => ⟨_, String.toList_append, spells_quoted s⟩
  | .array [] => ⟨_, String.toList_append, spells_emptyArray⟩
  | .array (j :: js) => by
    obtain ⟨t, ht, hspells⟩ := exists_prettyItemsTo (out ++ "[") (level + 1) (j :: js) (by simp)
    exact ⟨_, by simp [prettyTo, ht], spells_array hspells (areBlanks_newLine level)⟩
  | .object [] => ⟨_, String.toList_append, spells_emptyObject⟩
  | .object (m :: ms) => by
    obtain ⟨t, ht, hspells⟩ :=
      exists_prettyMembersTo (out ++ "\x7b") (level + 1) (m :: ms) (by simp)
    exact ⟨_, by simp [prettyTo, ht], spells_object hspells (areBlanks_newLine level)⟩

theorem exists_prettyItemsTo (out : String) (level : Nat) : (js : List Json) → js ≠ [] →
    ∃ t, (prettyItemsTo out level js).toList = out.toList ++ t ∧ SpellsItems t js
  | [], hne => absurd rfl hne
  | [j], _ => by
    obtain ⟨t, ht, hspells⟩ := exists_prettyTo (out ++ newLine level) level j
    exact ⟨_, by simp [prettyItemsTo, ht], spellsItems_last hspells (areBlanks_newLine level)⟩
  | j :: k :: js, _ => by
    obtain ⟨t, ht, hspells⟩ := exists_prettyTo (out ++ newLine level) level j
    obtain ⟨ts, hts, hmore⟩ := exists_prettyItemsTo
      (prettyTo (out ++ newLine level) level j ++ ",") level (k :: js) (by simp)
    exact ⟨_, by simp [prettyItemsTo, ht, hts],
      spellsItems_next hspells (areBlanks_newLine level) hmore⟩

theorem exists_prettyMembersTo (out : String) (level : Nat) :
    (ms : List (String × Json)) → ms ≠ [] →
      ∃ t, (prettyMembersTo out level ms).toList = out.toList ++ t ∧ SpellsMembers t ms
  | [], hne => absurd rfl hne
  | [(key, j)], _ => by
    obtain ⟨t, ht, hspells⟩ := exists_prettyTo (out ++ newLine level ++ quoted key ++ ": ") level j
    exact ⟨_, by simp [prettyMembersTo, ht],
      spellsMembers_last key hspells (areBlanks_newLine level) areBlanks_space⟩
  | (key, j) :: m :: ms, _ => by
    obtain ⟨t, ht, hspells⟩ := exists_prettyTo (out ++ newLine level ++ quoted key ++ ": ") level j
    obtain ⟨ts, hts, hmore⟩ := exists_prettyMembersTo
      (prettyTo (out ++ newLine level ++ quoted key ++ ": ") level j ++ ",") level (m :: ms)
      (by simp)
    exact ⟨_, by simp [prettyMembersTo, ht, hts],
      spellsMembers_next key hspells (areBlanks_newLine level) areBlanks_space hmore⟩

end

/-! ## Documents -/

theorem IsDocument.unique {text : String} {j j' : Json} (h : IsDocument text j)
    (h' : IsDocument text j') : j' = j := by
  obtain ⟨rest, hread, _⟩ := h
  obtain ⟨rest', hread', _⟩ := h'
  exact (hread.unique j' rest' hread').1

theorem isDocument_of_spells {text : String} {j : Json} (h : Spells text.toList j) :
    IsDocument text j := by
  have hread := h [] (by simp [NoDigit])
  rw [List.append_nil] at hread
  exact ⟨[], by rwa [hread.skipBlanks_eq], rfl⟩

/-- A value that is written on one line is the value of the text, and the only
one. -/
theorem isDocument_compact_iff {j j' : Json} : IsDocument j.compact j' ↔ j' = j := by
  obtain ⟨t, ht, hspells⟩ := exists_compactTo "" j
  have hdocument : IsDocument j.compact j := by
    apply isDocument_of_spells
    rwa [compact, ht]
  exact ⟨fun h => hdocument.unique h, fun h => h ▸ hdocument⟩

/-- So is a value that is written over several lines. -/
theorem isDocument_pretty_iff {j j' : Json} : IsDocument j.pretty j' ↔ j' = j := by
  obtain ⟨t, ht, hspells⟩ := exists_prettyTo "" 0 j
  have hdocument : IsDocument j.pretty j := by
    apply isDocument_of_spells
    rwa [pretty, ht]
  exact ⟨fun h => hdocument.unique h, fun h => h ▸ hdocument⟩

end SignedPdf.Json
