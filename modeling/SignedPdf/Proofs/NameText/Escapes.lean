import SignedPdf.Hex
import SignedPdf.X509.NameText

/-!
# Escapes and separators

In the text of a name a backslash takes away the meaning of what follows it. This
file undoes escapes and splits text at the separators that are not escaped:

* `unescape?_escapedChars`: undoing the escapes of a value gives its octets, whatever
  characters it holds and wherever they stand.
* `splitBare_intercalate`: parts in which no separator stands bare are got back from
  the text that joins them.
* `sealed_escapedChars`: no separator stands bare in an escaped value.
-/

namespace SignedPdf.X509

/-! ## Undoing escapes -/

/-- The value of a hexadecimal digit of either letter case. -/
def hexDigit? (c : Char) : Option Nat :=
  if c.toNat < 0x80 then Hex.digit? (UInt8.ofNat c.toNat) else none

/-- The octets of an escaped value: a backslash stands for the octet whose two digits
follow, and otherwise for the character that follows. There are none if nothing
follows a backslash. -/
def unescape? : List Char → Option Bytes
  | [] => some []
  | ['\\'] => none
  | ['\\', c] => some (Bytes.ofChar c)
  | '\\' :: c :: d :: cs =>
    match hexDigit? c, hexDigit? d with
    | some high, some low => (unescape? cs).map (UInt8.ofNat (high * 16 + low) :: ·)
    | _, _ => (unescape? (d :: cs)).map (Bytes.ofChar c ++ ·)
  | c :: cs => (unescape? cs).map (Bytes.ofChar c ++ ·)

/-- Any character but a backslash stands for itself. -/
theorem unescape?_cons {c : Char} (h : c ≠ '\\') (cs : List Char) :
    unescape? (c :: cs) = (unescape? cs).map (Bytes.ofChar c ++ ·) := by
  cases cs with
  | nil => simp [unescape?, h]
  | cons d cs => simp [unescape?, h]

/-- After a backslash, any character but a digit stands for itself. -/
theorem unescape?_backslash {c : Char} (h : hexDigit? c = none) (cs : List Char) :
    unescape? ('\\' :: c :: cs) = (unescape? cs).map (Bytes.ofChar c ++ ·) := by
  cases cs with
  | nil => simp [unescape?]
  | cons d cs => simp [unescape?, h]

/-- Characters without a backslash stand for themselves. -/
theorem unescape?_of_notMem {cs : List Char} (h : '\\' ∉ cs) :
    unescape? cs = some (Bytes.ofChars cs) := by
  induction cs with
  | nil => rfl
  | cons c cs ih =>
    rw [List.mem_cons, not_or] at h
    rw [unescape?_cons (Ne.symm h.1), ih h.2, Bytes.ofChars_cons]
    rfl

/-! ## Escaped characters -/

/-- The second characters spell the first ones, each escaped as at some place of a
value. -/
inductive Spells : List Char → List Char → Prop
  | nil : Spells [] []
  | cons (first last : Bool) (c : Char) {cs es : List Char} (h : Spells cs es) :
    Spells (c :: cs) (escapedChar first last c ++ es)

theorem spells_flatMap (first last : Bool) (cs : List Char) {ds es : List Char} (h : Spells ds es) :
    Spells (cs ++ ds) (cs.flatMap (escapedChar first last) ++ es) := by
  induction cs with
  | nil => exact h
  | cons c cs ih =>
    rw [List.flatMap_cons, List.append_assoc]
    exact .cons first last c ih

theorem spells_escapedRest (cs : List Char) : Spells cs (escapedRest cs) := by
  rcases List.eq_nil_or_concat cs with rfl | ⟨init, last, rfl⟩
  · exact .nil
  · have hlast : Spells [last] (escapedChar false true last ++ []) := .cons false true last .nil
    have hrest : escapedRest (init.concat last) =
        init.flatMap (escapedChar false false) ++ (escapedChar false true last ++ []) := by
      simp [escapedRest]
    rw [hrest, List.concat_eq_append]
    exact spells_flatMap false false init hlast

/-- The escaped form of a value spells this value. -/
theorem spells_escapedChars (cs : List Char) : Spells cs (escapedChars cs) := by
  cases cs with
  | nil => exact .nil
  | cons c cs => exact .cons true cs.isEmpty c (spells_escapedRest cs)

/-- The characters that may be escaped by a backslash before them. -/
def markedChars : List Char := '#' :: ' ' :: specialChars

/-- An escaped character has one of three forms. -/
theorem escapedChar_cases (first last : Bool) (c : Char) :
    c ∈ markedChars ∧ escapedChar first last c = ['\\', c] ∨
      c = '\x00' ∧ escapedChar first last c = ['\\', '0', '0'] ∨
      c ∉ specialChars ∧ escapedChar first last c = [c] := by
  unfold escapedChar
  by_cases hspecial : c ∈ specialChars
  · rw [if_pos hspecial]
    exact .inl ⟨List.mem_cons_of_mem _ (List.mem_cons_of_mem _ hspecial), rfl⟩
  rw [if_neg hspecial]
  by_cases hhash : c = '#' ∧ first = true
  · rw [if_pos hhash, hhash.1]
    exact .inl ⟨by decide, rfl⟩
  rw [if_neg hhash]
  by_cases hblank : c = ' ' ∧ (first = true ∨ last = true)
  · rw [if_pos hblank, hblank.1]
    exact .inl ⟨by decide, rfl⟩
  rw [if_neg hblank]
  by_cases hnull : c = '\x00'
  · rw [if_pos hnull]
    exact .inr (.inl ⟨hnull, rfl⟩)
  · rw [if_neg hnull]
    exact .inr (.inr ⟨hspecial, rfl⟩)

/-- No character that is marked by a backslash is a digit. -/
theorem hexDigit?_of_mem_markedChars {c : Char} (h : c ∈ markedChars) : hexDigit? c = none := by
  have hall : (markedChars.all fun c => (hexDigit? c).isNone) = true := by decide
  exact Option.isNone_iff_eq_none.1 (List.all_eq_true.1 hall c h)

theorem backslash_mem_specialChars : '\\' ∈ specialChars := by decide

/-- What follows an escaped character is read apart from it. -/
theorem unescape?_escapedChar_append (first last : Bool) (c : Char) (rest : List Char) :
    unescape? (escapedChar first last c ++ rest) = (unescape? rest).map (Bytes.ofChar c ++ ·) := by
  rcases escapedChar_cases first last c with ⟨hmarked, hform⟩ | ⟨rfl, hform⟩ | ⟨hspecial, hform⟩
  · rw [hform]
    exact unescape?_backslash (hexDigit?_of_mem_markedChars hmarked) rest
  · have hzero : hexDigit? '0' = some 0 := by decide
    rw [hform]
    simp only [List.cons_append, List.nil_append, unescape?, hzero]
    rfl
  · rw [hform]
    refine unescape?_cons ?_ rest
    rintro rfl
    exact hspecial backslash_mem_specialChars

/-- Undoing the escapes of what spells a value gives the octets of the value. -/
theorem Spells.unescape? {cs es : List Char} (h : Spells cs es) :
    unescape? es = some (Bytes.ofChars cs) := by
  induction h with
  | nil => rfl
  | cons first last c _ ih =>
    rw [unescape?_escapedChar_append, ih, Bytes.ofChars_cons]
    rfl

/-- Undoing the escapes of a value gives its octets. -/
theorem unescape?_escapedChars (cs : List Char) :
    unescape? (escapedChars cs) = some (Bytes.ofChars cs) :=
  (spells_escapedChars cs).unescape?

/-! ## Separators -/

/-- The parts between the separators before which no backslash stands. -/
def splitBare (sep : Char) : List Char → List (List Char)
  | [] => [[]]
  | '\\' :: c :: cs => (splitBare sep cs).modifyHead fun p => '\\' :: c :: p
  | c :: cs =>
    if c = sep then [] :: splitBare sep cs else (splitBare sep cs).modifyHead fun p => c :: p

/-- Characters that take each other's meaning away only among themselves, and among
which no separator stands bare. -/
inductive Sealed (sep : Char) : List Char → Prop
  | nil : Sealed sep []
  | bare {c : Char} {cs : List Char} (hsep : c ≠ sep) (hback : c ≠ '\\') (h : Sealed sep cs) :
    Sealed sep (c :: cs)
  | escaped (c : Char) {cs : List Char} (h : Sealed sep cs) : Sealed sep ('\\' :: c :: cs)

variable {sep : Char} {p q : List Char}

theorem Sealed.append (hp : Sealed sep p) (hq : Sealed sep q) : Sealed sep (p ++ q) := by
  induction hp with
  | nil => exact hq
  | bare hsep hback _ ih => exact .bare hsep hback ih
  | escaped c _ ih => exact .escaped c ih

/-- Characters without separators and backslashes are sealed. -/
theorem sealed_of_forall (h : ∀ c ∈ p, c ≠ sep ∧ c ≠ '\\') : Sealed sep p := by
  induction p with
  | nil => exact .nil
  | cons c p ih =>
    have hc := h c List.mem_cons_self
    exact .bare hc.1 hc.2 (ih fun d hd => h d (List.mem_cons_of_mem _ hd))

theorem splitBare_cons {c : Char} (hsep : c ≠ sep) (hback : c ≠ '\\') (cs : List Char) :
    splitBare sep (c :: cs) = (splitBare sep cs).modifyHead fun p => c :: p := by
  cases cs with
  | nil => simp [splitBare, hsep]
  | cons d cs => simp [splitBare, hsep, hback]

theorem splitBare_sep (hback : sep ≠ '\\') (cs : List Char) :
    splitBare sep (sep :: cs) = [] :: splitBare sep cs := by
  cases cs with
  | nil => simp [splitBare]
  | cons d cs => simp [splitBare, hback]

/-- Sealed characters belong to the part that goes on after them. -/
theorem splitBare_append (hp : Sealed sep p) (rest : List Char) :
    splitBare sep (p ++ rest) = (splitBare sep rest).modifyHead fun q => p ++ q := by
  induction hp with
  | nil => cases hrest : splitBare sep rest <;> simp [hrest]
  | bare hsep hback _ ih =>
    rw [List.cons_append, splitBare_cons hsep hback, ih, List.modifyHead_modifyHead]
    rfl
  | escaped c _ ih =>
    rw [List.cons_append, List.cons_append, splitBare, ih, List.modifyHead_modifyHead]
    rfl

/-- Sealed parts are got back from the text that joins them. -/
theorem splitBare_intercalate (hback : sep ≠ '\\') {ps : List (List Char)} (hne : ps ≠ [])
    (h : ∀ p ∈ ps, Sealed sep p) : splitBare sep (List.intercalate [sep] ps) = ps := by
  induction ps with
  | nil => exact absurd rfl hne
  | cons p ps ih =>
    have hp := h p List.mem_cons_self
    cases ps with
    | nil =>
      have hlast := splitBare_append hp []
      rw [List.append_nil] at hlast
      rw [List.intercalate_singleton, hlast]
      simp [splitBare]
    | cons q qs =>
      have hrest := ih (by simp) fun r hr => h r (List.mem_cons_of_mem _ hr)
      rw [List.intercalate_cons_cons, List.append_assoc, splitBare_append hp, List.singleton_append,
        splitBare_sep hback, hrest]
      simp

/-- Parts that are sealed against a separator stay so when another one joins them. -/
theorem sealed_intercalate {sep' : Char} (hsep : sep' ≠ sep) (hback : sep' ≠ '\\')
    {ps : List (List Char)} (h : ∀ p ∈ ps, Sealed sep p) :
    Sealed sep (List.intercalate [sep'] ps) := by
  induction ps with
  | nil => exact .nil
  | cons p ps ih =>
    have hp := h p List.mem_cons_self
    cases ps with
    | nil =>
      rw [List.intercalate_singleton]
      exact hp
    | cons q qs =>
      have hrest := ih fun r hr => h r (List.mem_cons_of_mem _ hr)
      rw [List.intercalate_cons_cons, List.append_assoc]
      exact hp.append (.bare hsep hback hrest)

/-- An escaped character is sealed against each of the special ones. -/
theorem sealed_escapedChar (hsep : sep ∈ specialChars) (first last : Bool) (c : Char) :
    Sealed sep (escapedChar first last c) := by
  rcases escapedChar_cases first last c with ⟨_, hform⟩ | ⟨_, hform⟩ | ⟨hspecial, hform⟩
  · rw [hform]
    exact .escaped c .nil
  · have hzero : '0' ≠ sep := by
      rintro rfl
      exact absurd hsep (by decide)
    rw [hform]
    exact .escaped '0' (.bare hzero (by decide) .nil)
  · rw [hform]
    refine .bare ?_ ?_ .nil
    · rintro rfl
      exact hspecial hsep
    · rintro rfl
      exact hspecial backslash_mem_specialChars

theorem Spells.isSealed {cs es : List Char} (h : Spells cs es) (hsep : sep ∈ specialChars) :
    Sealed sep es := by
  induction h with
  | nil => exact .nil
  | cons first last c _ ih => exact (sealed_escapedChar hsep first last c).append ih

/-- No special character stands bare in an escaped value. -/
theorem sealed_escapedChars (hsep : sep ∈ specialChars) (cs : List Char) :
    Sealed sep (escapedChars cs) :=
  (spells_escapedChars cs).isSealed hsep

end SignedPdf.X509
