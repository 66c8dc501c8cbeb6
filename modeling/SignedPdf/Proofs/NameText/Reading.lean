import SignedPdf.Proofs.NameText.Escapes
import SignedPdf.Proofs.Utf8
import SignedPdf.Search

/-!
# Reading the text of a name

The text of a distinguished name is what people and records know a signer by. This
file shows that nothing in a name can make its text say something else: a reader that
splits the text at bare separators and undoes the escapes of the values gets back what
the name says.

* `NameText.read?` is this reader, and `Name.listing` is what a name says.
* `KeyedValue.pair?_text`: a key with a value reads back.
* `Name.text_reads_back`: so does the text of any name, and two names have the same
  text exactly if they say the same.
-/

namespace SignedPdf.X509

open SignedPdf.Asn1

/-! ## The reader -/

/-- What stands between two commas: keys with their values. -/
abbrev Rdn := List (String × String)

namespace NameText

/-- The key before the first equals sign, and the value after it. -/
def pair? (part : List Char) : Option (String × String) :=
  match part.dropWhile (· != '=') with
  | [] => none
  | _ :: value =>
    ((unescape? value).bind Utf8.text?).map fun v =>
      (String.ofList (part.takeWhile (· != '=')), v)

/-- The keys and values between bare pluses. -/
def rdn? (cs : List Char) : Option Rdn := (splitBare '+' cs).mapM pair?

/-- What stands between bare commas. A text without characters is the text of a name
without parts. -/
def read? (text : String) : Option (List Rdn) :=
  match text.toList with
  | [] => some []
  | c :: cs => (splitBare ',' (c :: cs)).mapM rdn?

end NameText

/-! ## What a name says -/

/-- The value that is meant by the text of a value: the text itself, or the digits of
its encoding after a number sign. -/
def ValueText.content : ValueText → String
  | .plain text => text
  | .encoded octets => "#" ++ Bytes.hex octets

/-- A key with the value that is meant. -/
def KeyedValue.pair (p : KeyedValue) : String × String := (p.key, p.value.content)

/-- The standard types in the order in which they are written. -/
def StandardType.written : List StandardType :=
  [.serialNumber, .commonName, .unit, .organization, .postalCode, .street, .locality, .state,
    .country]

namespace Name

/-- What a name says: for each standard type that has values, these values in the order
of the name; then every other attribute by itself, the last one first. -/
def listing (n : Name) : List Rdn :=
  ((StandardType.written.map fun t => (n.valuesOf t).map fun v => (t.key, v)).filter
      fun r => !r.isEmpty) ++
    (n.attributes.filter fun a => a.standardType?.isNone).reverse.map fun a => [a.alone.pair]

/-- The groups of the standard types say what the types have for values. -/
theorem map_pair_groups (n : Name) :
    n.groups.reverse.map (fun g => g.map KeyedValue.pair) =
      (StandardType.written.map fun t => (n.valuesOf t).map fun v => (t.key, v)).filter
        fun r => !r.isEmpty := by
  have hwritten : StandardType.written = StandardType.all.reverse := rfl
  rw [groups, hwritten, ← List.filter_reverse, ← List.map_reverse, List.filter_map, List.filter_map,
    List.map_map]
  simp [Function.comp_def, group, KeyedValue.pair, ValueText.content]

/-- What a name says is what the parts of its text mean. -/
theorem listing_eq (n : Name) : n.listing = n.parts.map fun g => g.map KeyedValue.pair := by
  rw [listing, parts, List.reverse_append, List.map_append, map_pair_groups, others,
    ← List.map_reverse, List.map_map]
  rfl

end Name

/-! ## Characters of keys and values -/

/-- The characters of hexadecimal digits and of paths. -/
def isPathChar (c : Char) : Bool := c.isDigit || c ∈ "abcdef. ".toList

theorem isPathChar_hexDigit : ∀ n < 16, isPathChar (Bytes.hexDigit n) = true := by decide

theorem isPathChar_of_mem_hex {bs : Bytes} {c : Char} (h : c ∈ (Bytes.hex bs).toList) :
    isPathChar c = true := by
  rw [Bytes.hex, String.toList_ofList, List.mem_flatMap] at h
  obtain ⟨b, _, hc⟩ := h
  have hb := b.toNat_lt
  simp only [List.mem_cons, List.not_mem_nil, or_false] at hc
  rcases hc with rfl | rfl
  · exact isPathChar_hexDigit _ (by omega)
  · exact isPathChar_hexDigit _ (by omega)

theorem isPathChar_of_mem_toString {n : Nat} {c : Char} (h : c ∈ (toString n).toList) :
    isPathChar c = true := by
  rw [Nat.toString_eq_repr, Nat.toList_repr] at h
  have hdigit : c.isDigit = true := Nat.isDigit_of_mem_toDigits (by decide) (by decide) h
  rw [isPathChar, hdigit, Bool.true_or]

/-- A text that joins texts of such characters has no others. -/
theorem isPathChar_of_mem_intercalate {sep : String} {ss : List String}
    (hsep : sep.toList.all isPathChar = true)
    (hss : ∀ s ∈ ss, ∀ c ∈ s.toList, isPathChar c = true) :
    ∀ c ∈ (String.intercalate sep ss).toList, isPathChar c = true := by
  induction ss with
  | nil => simp
  | cons s ss ih =>
    have hs := hss s List.mem_cons_self
    have hrest := ih fun t ht => hss t (List.mem_cons_of_mem _ ht)
    intro c hc
    cases ss with
    | nil => exact hs c (by simpa using hc)
    | cons t ss =>
      rw [String.intercalate_cons_cons, String.toList_append, String.toList_append, List.mem_append,
        List.mem_append] at hc
      rcases hc with (hc | hc) | hc
      · exact hs c hc
      · exact List.all_eq_true.1 hsep c hc
      · exact hrest c hc

theorem isPathChar_of_mem_text {o : Oid} : ∀ c ∈ o.text.toList, isPathChar c = true := by
  unfold Oid.text
  split
  · refine isPathChar_of_mem_intercalate (by decide) ?_
    intro s hs c hc
    obtain ⟨n, _, rfl⟩ := List.mem_map.1 hs
    exact isPathChar_of_mem_toString hc
  · refine isPathChar_of_mem_intercalate (by decide) ?_
    intro s hs c hc
    obtain ⟨b, _, rfl⟩ := List.mem_map.1 hs
    exact isPathChar_of_mem_hex hc

/-- The characters with a meaning of their own in the text of a name. -/
def syntaxChars : List Char := [',', '+', '=', '\\']

/-- A character of a path has no meaning of its own. -/
theorem notMem_syntaxChars_of_isPathChar {c : Char} (h : isPathChar c = true) :
    c ∉ syntaxChars := by
  have hall : (syntaxChars.all fun c => !isPathChar c) = true := by decide
  intro hmem
  have hnot := List.all_eq_true.1 hall c hmem
  rw [h] at hnot
  cases hnot

/-- Characters without such a meaning are sealed against the separators. -/
theorem sealed_of_notMem_syntaxChars {sep : Char} (hsep : sep ∈ [',', '+']) {cs : List Char}
    (h : ∀ c ∈ cs, c ∉ syntaxChars) : Sealed sep cs := by
  refine sealed_of_forall ?_
  intro c hc
  refine ⟨?_, ?_⟩
  · rintro rfl
    exact h c hc (List.mem_append_left ['=', '\\'] hsep)
  · rintro rfl
    exact h '\\' hc (by decide)

/-! ## Keys -/

/-- The keys whose values are text. -/
def textKeys : List String := StandardType.all.map StandardType.key ++ ["UID", "DC"]

theorem key_mem_textKeys (t : StandardType) : t.key ∈ textKeys :=
  List.mem_append_left _ (List.mem_map_of_mem (StandardType.mem_all t))

theorem mem_textKeys_of_otherKey? {path key : String} (h : otherKey? path = some key) :
    key ∈ textKeys := by
  unfold otherKey? at h
  split at h
  · cases h
    decide
  · split at h
    · cases h
      decide
    · cases h

/-- A key of a text is a known one, and a key of an encoding is a path. -/
def KeyedValue.IsKeyed (p : KeyedValue) : Prop :=
  match p.value with
  | .plain _ => p.key ∈ textKeys
  | .encoded _ => ∃ o : Oid, p.key = o.text

theorem Attribute.isKeyed_alone (a : Attribute) : a.alone.IsKeyed := by
  simp only [Attribute.alone]
  split
  · next key text hkey _ => exact mem_textKeys_of_otherKey? hkey
  · exact ⟨a.type, rfl⟩

/-- All parts of a text have a key of their kind, and no part between commas is
empty. -/
theorem Name.isKeyed_of_mem_parts {n : Name} {g : List KeyedValue} (h : g ∈ n.parts) :
    g ≠ [] ∧ ∀ p ∈ g, p.IsKeyed := by
  rw [parts, List.mem_reverse, List.mem_append] at h
  rcases h with h | h
  · obtain ⟨a, _, rfl⟩ := List.mem_map.1 h
    refine ⟨List.cons_ne_nil _ _, ?_⟩
    intro p hp
    rw [List.mem_singleton.1 hp]
    exact a.isKeyed_alone
  · obtain ⟨hmem, hne⟩ := List.mem_filter.1 h
    obtain ⟨t, _, rfl⟩ := List.mem_map.1 hmem
    refine ⟨by simpa using hne, ?_⟩
    intro p hp
    obtain ⟨v, _, rfl⟩ := List.mem_map.1 hp
    exact key_mem_textKeys t

theorem notMem_syntaxChars_of_mem_textKeys {key : String} (hkey : key ∈ textKeys) :
    ∀ c ∈ key.toList, c ∉ syntaxChars := by
  have hall : (textKeys.all fun key => key.toList.all fun c => c ∉ syntaxChars) = true := by decide
  intro c hc
  exact of_decide_eq_true (List.all_eq_true.1 (List.all_eq_true.1 hall key hkey) c hc)

/-- No character of a key has a meaning of its own. -/
theorem KeyedValue.IsKeyed.notMem_syntaxChars {p : KeyedValue} (h : p.IsKeyed) :
    ∀ c ∈ p.key.toList, c ∉ syntaxChars := by
  unfold IsKeyed at h
  split at h
  · exact notMem_syntaxChars_of_mem_textKeys h
  · obtain ⟨o, ho⟩ := h
    intro c hc
    rw [ho] at hc
    exact notMem_syntaxChars_of_isPathChar (isPathChar_of_mem_text c hc)

/-! ## A key with its value -/

variable {sep : Char}

/-- Undoing the escapes of a value gives the value that is meant. -/
theorem ValueText.unescape?_text (v : ValueText) :
    unescape? v.text.toList = some (Bytes.ofText v.content) := by
  cases v with
  | plain text =>
    rw [ValueText.text, escaped, String.toList_ofList, unescape?_escapedChars]
    rfl
  | encoded octets =>
    refine unescape?_of_notMem ?_
    intro hmem
    rw [ValueText.text, String.toList_append, List.mem_append] at hmem
    rcases hmem with hmem | hmem
    · exact absurd hmem (by decide)
    · exact notMem_syntaxChars_of_isPathChar (isPathChar_of_mem_hex hmem) (by decide)

/-- No comma and no plus stands bare in a value. -/
theorem ValueText.sealed_text (v : ValueText) (hsep : sep ∈ [',', '+']) :
    Sealed sep v.text.toList := by
  cases v with
  | plain text =>
    have hspecial : sep ∈ specialChars := by
      simp only [List.mem_cons, List.not_mem_nil, or_false] at hsep
      rcases hsep with rfl | rfl
      · decide
      · decide
    rw [ValueText.text, escaped, String.toList_ofList]
    exact sealed_escapedChars hspecial text.toList
  | encoded octets =>
    have hhash : '#' ≠ sep := by
      rintro rfl
      exact absurd hsep (by decide)
    rw [ValueText.text, String.toList_append]
    refine Sealed.append (.bare hhash (by decide) .nil) (sealed_of_notMem_syntaxChars hsep ?_)
    intro c hc
    exact notMem_syntaxChars_of_isPathChar (isPathChar_of_mem_hex hc)

namespace KeyedValue

variable {p : KeyedValue}

theorem toList_text (p : KeyedValue) :
    p.text.toList = p.key.toList ++ '=' :: p.value.text.toList := by
  simp [text]

/-- No comma and no plus stands bare in a key with its value. -/
theorem IsKeyed.sealed_text (h : p.IsKeyed) (hsep : sep ∈ [',', '+']) :
    Sealed sep p.text.toList := by
  have hequals : '=' ≠ sep := by
    rintro rfl
    exact absurd hsep (by decide)
  have hkey : Sealed sep p.key.toList := sealed_of_notMem_syntaxChars hsep h.notMem_syntaxChars
  rw [toList_text]
  exact hkey.append (.bare hequals (by decide) (p.value.sealed_text hsep))

/-- A key with its value reads back. -/
theorem IsKeyed.pair?_text (h : p.IsKeyed) : NameText.pair? p.text.toList = some p.pair := by
  have hkey : ∀ c ∈ p.key.toList, (c != '=') = true := by
    intro c hc
    rw [bne_iff_ne]
    rintro rfl
    exact h.notMem_syntaxChars '=' hc (by decide)
  have hequals : ('=' != '=') = false := by decide
  have htext : Utf8.text? (Bytes.ofText p.value.content) = some p.value.content := by
    rw [Utf8.text?, Bytes.ofText, Utf8.decode?_ofChars, Option.map_some, String.ofList_toList]
  rw [NameText.pair?, toList_text, Search.dropWhile_run hkey hequals,
    Search.takeWhile_run hkey hequals]
  simp only [p.value.unescape?_text, Option.bind_some, htext, Option.map_some,
    String.ofList_toList]
  rfl

end KeyedValue

/-! ## Parts and names -/

/-- If everything is read as it should be, so is everything in a row. -/
theorem mapM_map_eq_some {α β γ : Type} {f : β → Option γ} {g : α → β} {k : α → γ} {xs : List α}
    (h : ∀ x ∈ xs, f (g x) = some (k x)) : (xs.map g).mapM f = some (xs.map k) := by
  induction xs with
  | nil => rfl
  | cons x xs ih =>
    have hx := h x List.mem_cons_self
    have hxs := ih fun y hy => h y (List.mem_cons_of_mem _ hy)
    simp [hx, hxs]

/-- The text of the keys and values between two commas. -/
def rdnText (g : List KeyedValue) : String := String.intercalate "+" (g.map KeyedValue.text)

theorem toList_rdnText (g : List KeyedValue) :
    (rdnText g).toList = List.intercalate ['+'] (g.map fun p => p.text.toList) := by
  rw [rdnText, String.toList_intercalate, List.map_map]
  rfl

theorem rdn?_rdnText {g : List KeyedValue} (hne : g ≠ []) (h : ∀ p ∈ g, p.IsKeyed) :
    NameText.rdn? (rdnText g).toList = some (g.map KeyedValue.pair) := by
  have hsealed : ∀ cs ∈ g.map fun p => p.text.toList, Sealed '+' cs := by
    intro cs hcs
    obtain ⟨p, hp, rfl⟩ := List.mem_map.1 hcs
    exact (h p hp).sealed_text (by decide)
  rw [NameText.rdn?, toList_rdnText, splitBare_intercalate (by decide) (by simpa using hne) hsealed]
  exact mapM_map_eq_some fun p hp => (h p hp).pair?_text

theorem sealed_rdnText {g : List KeyedValue} (h : ∀ p ∈ g, p.IsKeyed) :
    Sealed ',' (rdnText g).toList := by
  rw [toList_rdnText]
  refine sealed_intercalate (by decide) (by decide) ?_
  intro cs hcs
  obtain ⟨p, hp, rfl⟩ := List.mem_map.1 hcs
  exact (h p hp).sealed_text (by decide)

namespace Name

theorem toList_text (n : Name) :
    n.text.toList = List.intercalate [','] (n.parts.map fun g => (rdnText g).toList) := by
  rw [text, String.toList_intercalate, List.map_map]
  rfl

/-- The text of a name reads back. -/
theorem read?_text (n : Name) : NameText.read? n.text = some n.listing := by
  by_cases hnone : n.parts = []
  · simp [NameText.read?, toList_text, listing_eq, hnone]
  have hsplit : splitBare ',' n.text.toList = n.parts.map fun g => (rdnText g).toList := by
    rw [toList_text]
    refine splitBare_intercalate (by decide) (by simpa using hnone) ?_
    intro cs hcs
    obtain ⟨g, hg, rfl⟩ := List.mem_map.1 hcs
    exact sealed_rdnText (isKeyed_of_mem_parts hg).2
  have hread : (splitBare ',' n.text.toList).mapM NameText.rdn? = some n.listing := by
    rw [hsplit, listing_eq]
    refine mapM_map_eq_some ?_
    intro g hg
    obtain ⟨hne, hkeyed⟩ := isKeyed_of_mem_parts hg
    exact rdn?_rdnText hne hkeyed
  unfold NameText.read?
  split
  · next hempty =>
    -- a text without characters would have a part that is no pair
    rw [hempty] at hread
    cases hread
  · next c cs hcons =>
    rw [← hcons]
    exact hread

end Name

/-! ## The text of what a name says -/

/-- The text of a key with the value that is meant: only the values of known keys are
escaped. -/
def pairText (p : String × String) : String :=
  p.1 ++ "=" ++ (if p.1 ∈ textKeys then escaped p.2 else p.2)

/-- No known key is a path: it has a character that no path has. -/
theorem text_notMem_textKeys (o : Oid) : o.text ∉ textKeys := by
  have hall : (textKeys.all fun key => key.toList.any fun c => !isPathChar c) = true := by decide
  intro hmem
  obtain ⟨c, hc, hnot⟩ := List.any_eq_true.1 (List.all_eq_true.1 hall o.text hmem)
  rw [isPathChar_of_mem_text c hc] at hnot
  cases hnot

theorem KeyedValue.IsKeyed.text_eq {p : KeyedValue} (h : p.IsKeyed) : p.text = pairText p.pair := by
  obtain ⟨key, value⟩ := p
  cases value with
  | plain text =>
    have hkey : key ∈ textKeys := h
    rw [pairText, KeyedValue.pair, if_pos hkey]
    rfl
  | encoded octets =>
    obtain ⟨o, ho⟩ : ∃ o : Oid, key = o.text := h
    have hkey : key ∉ textKeys := ho ▸ text_notMem_textKeys o
    rw [pairText, KeyedValue.pair, if_neg hkey]
    rfl

namespace Name

/-- The text of a name can be written from what the name says. -/
theorem text_eq (n : Name) :
    n.text =
      String.intercalate "," (n.listing.map fun r => String.intercalate "+" (r.map pairText)) := by
  rw [text, listing_eq, List.map_map]
  congr 1
  refine List.map_congr_left ?_
  intro g hg
  have hkeyed := (isKeyed_of_mem_parts hg).2
  have htext : g.map KeyedValue.text = g.map fun p => pairText p.pair :=
    List.map_congr_left fun p hp => (hkeyed p hp).text_eq
  simp only [Function.comp_apply, List.map_map, htext]
  rfl

/-- **The text of a name cannot be forged.** There is a reader that gets back from the
text of any name exactly what the name says, whatever characters its values hold. So
two names have the same text exactly if they say the same. -/
theorem text_reads_back :
    (∀ n : Name, NameText.read? n.text = some n.listing) ∧
      ∀ n n' : Name, n.text = n'.text ↔ n.listing = n'.listing := by
  refine ⟨read?_text, ?_⟩
  intro n n'
  constructor
  · intro htext
    have hread := n.read?_text
    rw [htext, n'.read?_text] at hread
    exact (Option.some.inj hread).symm
  · intro hlisting
    rw [n.text_eq, n'.text_eq, hlisting]

end Name

/-- A comma and a plus that stand bare separate; escaped ones belong to a value, and so
does the octet that two digits name. -/
example :
    NameText.read? "CN=a\\,b+CN=\\ c\\+\\00d,2.5.4.12=#0c0141" =
      some [[("CN", "a,b"), ("CN", " c+\x00d")], [("2.5.4.12", "#0c0141")]] := by decide

end SignedPdf.X509
