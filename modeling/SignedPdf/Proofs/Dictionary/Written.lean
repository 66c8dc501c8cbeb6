import SignedPdf.Proofs.Dictionary.Fields
import SignedPdf.Proofs.Hex
import SignedPdf.Proofs.Markers.Joined

/-!
# Dictionaries that are written and found again

A writer may put the entries of a dictionary in any order, with any blanks
between them, and spell the contents in any way. As long as a dictionary fits into
a window, a scan finds it with the values that were written, whatever other
dictionaries stand beside it.

* `Draft`: a dictionary and how it is laid out.
* `Draft.field?_octets`: a look-up in a window finds the entry of the dictionary
  with which the window starts.
* `scan_written`: the dictionaries of a document.
-/

namespace SignedPdf

namespace SignatureDictionary

/-! ## Drafts -/

/-- The text holds neither a closing bracket nor a solidus. -/
def IsPlain (s : String) : Prop := ')' ∉ s.toList ∧ '/' ∉ s.toList

instance (s : String) : Decidable (IsPlain s) := inferInstanceAs (Decidable (_ ∧ _))

/-- The values of a dictionary, and the way in which it is written. -/
structure Draft where
  name : String
  reason : String
  date : String
  /-- The octets of the signature. -/
  contents : Bytes
  /-- The digits in which they are written. -/
  digits : Bytes
  /-- What stands between the two parts of the marker. -/
  markerGap : Bytes
  /-- The order of the entries. -/
  order : List Key
  /-- What stands before an entry. -/
  gap : Key → Bytes
  /-- What stands between the key and the value of an entry. -/
  inset : Key → Bytes
  name_plain : IsPlain name
  name_ne : name.toList ≠ []
  name_trimmed : Text.IsTrimmed name.toList
  reason_plain : IsPlain reason
  reason_ne : reason.toList ≠ []
  reason_trimmed : Text.IsTrimmed reason.toList
  date_plain : IsPlain date
  contents_ne : contents ≠ []
  spells : Hex.Spells digits (Hex.halves contents)
  /-- Every entry occurs once. -/
  order_perm : order.Perm [.name, .reason, .date, .contents]
  markerGap_blank : ∀ b ∈ markerGap, b ∈ blankOctets
  gap_blank : ∀ k, ∀ b ∈ gap k, b ∈ blankOctets
  inset_blank : ∀ k, ∀ b ∈ inset k, b ∈ blankOctets

namespace Draft

/-- What stands between the brackets of an entry. -/
def value (d : Draft) : Key → Bytes
  | .contents => d.digits
  | .name => Bytes.ofText d.name
  | .reason => Bytes.ofText d.reason
  | .date => Bytes.ofText d.date

/-- An entry: what stands before it, key, blanks, and the value between
brackets. -/
def entry (d : Draft) (k : Key) : Bytes :=
  d.gap k ++ (k.octets ++ (d.inset k ++ k.opening :: (d.value k ++ [k.closing])))

/-- The entries in their order. -/
def entries (d : Draft) (ks : List Key) : Bytes := ks.flatMap d.entry

/-- The dictionary as it is written, from its marker on. -/
def octets (d : Draft) : Bytes :=
  typeKey ++ (d.markerGap ++ (signatureType ++ d.entries d.order))

/-- What stands between the first solidus and the entries. -/
def start (d : Draft) : Bytes := Bytes.ofText "Type" ++ (d.markerGap ++ signatureType)

theorem octets_eq (d : Draft) : d.octets = solidus :: (d.start ++ d.entries d.order) := by
  simp only [octets, start, typeKey_eq, List.cons_append, List.append_assoc]

/-! ## Values -/

theorem solidus_notMem_ofText {s : String} (h : IsPlain s) : solidus ∉ Bytes.ofText s :=
  Utf8.notMem_ofChars (by decide) h.2

theorem closing_notMem_ofText {s : String} (h : IsPlain s) : 0x29 ∉ Bytes.ofText s :=
  Utf8.notMem_ofChars (by decide) h.1

variable (d : Draft)

theorem digits_ne_nil : d.digits ≠ [] := by
  apply d.spells.ne_nil
  intro hnil
  have hlength := Hex.length_halves d.contents
  rw [hnil, List.length_nil] at hlength
  exact d.contents_ne (List.length_eq_zero_iff.1 (by omega))

theorem isHexOctet_of_mem_digits {b : UInt8} (hb : b ∈ d.digits) : isHexOctet b = true := by
  rw [isHexOctet, Text.isSeparator]
  rcases d.spells.isDigit_or hb with h | h <;> simp [h]

/-- Every value may stand between its brackets. -/
theorem allows_value (k : Key) : k.Allows (d.value k) := by
  cases k with
  | contents => exact ⟨d.digits_ne_nil, fun b => d.isHexOctet_of_mem_digits⟩
  | name => exact closing_notMem_ofText d.name_plain
  | reason => exact closing_notMem_ofText d.reason_plain
  | date => exact closing_notMem_ofText d.date_plain

theorem solidus_notMem_value (k : Key) : solidus ∉ d.value k := by
  cases k with
  | contents => exact fun hmem => absurd (d.isHexOctet_of_mem_digits hmem) (by decide)
  | name => exact solidus_notMem_ofText d.name_plain
  | reason => exact solidus_notMem_ofText d.reason_plain
  | date => exact solidus_notMem_ofText d.date_plain

/-! ## Passing over entries -/

section Misses

variable {α : Type} {f : Bytes → Option α} {d}

/-- An entry is passed over if its key is not accepted: it holds no other
solidus. -/
theorem misses_entry (hf : Seeks f) {k : Key} (hk : ∀ rest, f (k.octets ++ rest) = none)
    (rest : Bytes) : Search.Misses f (d.entry k) rest := by
  obtain ⟨name, hname, hfree⟩ := k.exists_octets_eq
  have hvalue : solidus ∉ d.inset k ++ k.opening :: (d.value k ++ [k.closing]) := by
    simp only [List.mem_append, List.mem_cons, List.not_mem_nil, or_false, not_or]
    exact ⟨solidus_notMem_of_blank (d.inset_blank k), k.opening_ne_solidus,
      d.solidus_notMem_value k, k.closing_ne_solidus⟩
  have hhead := hk (d.inset k ++ k.opening :: (d.value k ++ [k.closing]) ++ rest)
  rw [hname, List.cons_append] at hhead
  refine Search.misses_append_iff.2
    ⟨hf.misses_of_notMem (solidus_notMem_of_blank (d.gap_blank k)) _,
      Search.misses_append_iff.2 ⟨?_, hf.misses_of_notMem hvalue rest⟩⟩
  rw [hname]
  exact hf.misses_solidus_cons hfree hhead

theorem misses_entries (hf : Seeks f) {ks : List Key}
    (hks : ∀ k ∈ ks, ∀ rest, f (k.octets ++ rest) = none) (rest : Bytes) :
    Search.Misses f (d.entries ks) rest := by
  induction ks with
  | nil => exact Search.misses_nil f rest
  | cons k ks ih =>
    refine Search.misses_append_iff.2 ⟨misses_entry hf (hks k List.mem_cons_self) _, ?_⟩
    exact ih fun k hk => hks k (List.mem_cons_of_mem _ hk)

/-- The second part of the marker is all that could be accepted before the
entries. -/
theorem misses_start (hf : Seeks f) (hsig : ∀ rest, f (signatureType ++ rest) = none)
    (rest : Bytes) : Search.Misses f d.start rest :=
  hf.misses_marker d.markerGap_blank (hsig rest)

end Misses

/-! ## Look-ups in a window -/

/-- Look-ups pass over the marker. -/
theorem misses_solidus_start (k : Key) (rest : Bytes) :
    Search.Misses k.read? (solidus :: d.start) rest := by
  refine Search.misses_cons_iff.2 ⟨?_, misses_start k.seeks_read? k.read?_signatureType rest⟩
  have htype := k.read?_typeKey (d.markerGap ++ (signatureType ++ rest))
  rw [typeKey_eq, List.cons_append] at htype
  simpa only [start, List.append_assoc] using htype

/-- A look-up in octets that start with a dictionary finds the entry of this
dictionary: its key is not the beginning of anything that stands before it. -/
theorem field?_octets (k : Key) (rest : Bytes) :
    field? k.octets k.value? (d.octets ++ rest) = some (d.value k) := by
  have hmem : k ∈ d.order := by
    rw [d.order_perm.mem_iff]
    cases k <;> decide
  have hnodup : d.order.Nodup := d.order_perm.nodup_iff.2 (by decide)
  obtain ⟨before, after, horder⟩ := List.append_of_mem hmem
  have hbefore : k ∉ before := by
    intro hk
    rw [horder, List.nodup_append] at hnodup
    exact hnodup.2.2 k hk k List.mem_cons_self rfl
  have hsplit : d.octets ++ rest =
      (solidus :: d.start ++ (d.entries before ++ d.gap k)) ++
      (k.octets ++ (d.inset k ++ k.opening :: (d.value k ++ k.closing ::
        (d.entries after ++ rest)))) := by
    simp only [octets_eq, horder, entries, entry, List.flatMap_append, List.flatMap_cons,
      List.cons_append, List.append_assoc, List.nil_append]
  rw [hsplit]
  refine k.field?_append (d.inset_blank k) (d.allows_value k) ?_
  refine Search.misses_append_iff.2 ⟨d.misses_solidus_start k _,
    Search.misses_append_iff.2 ⟨?_, ?_⟩⟩
  · refine misses_entries k.seeks_read? (fun k' hk' rest => k.read?_other ?_ rest) _
    rintro rfl
    exact hbefore hk'
  · exact k.seeks_read?.misses_of_notMem (solidus_notMem_of_blank (d.gap_blank k)) _

/-- The dictionary has been read with the values of the draft. -/
structure IsReadAs (found : SignatureDictionary) : Prop where
  name : found.name = some d.name
  reason : found.reason = some d.reason
  date : found.date = some d.date
  contents : Hex.decode found.contents = .ok d.contents

/-- A window that starts with a dictionary is read as this dictionary. -/
theorem isReadAs_ofWindow (rest : Bytes) : d.IsReadAs (ofWindow (d.octets ++ rest)) := by
  have hname := d.field?_octets .name rest
  have hreason := d.field?_octets .reason rest
  have hdate := d.field?_octets .date rest
  have hcontents := d.field?_octets .contents rest
  simp only [Key.octets, Key.value?, value] at hname hreason hdate hcontents
  constructor
  case name =>
    simp only [ofWindow, hname, Option.bind_some]
    exact textValue_ofText d.name_ne d.name_trimmed
  case reason =>
    simp only [ofWindow, hreason, Option.bind_some]
    exact textValue_ofText d.reason_ne d.reason_trimmed
  case date =>
    simp only [ofWindow, hdate, Option.map_some, Bytes.ofText, Utf8.decodeLossy_ofChars,
      String.ofList_toList]
  case contents =>
    simp only [ofWindow, rawContents?, hcontents]
    exact Hex.decode_of_spells d.spells

/-! ## Dictionaries in a document -/

theorem exists_markerAt?_octets (rest : Bytes) :
    ∃ size, markerAt? (d.octets ++ rest) = some size := by
  refine ⟨_, markerAt?_eq_some_iff.2
    ⟨d.markerGap, d.entries d.order ++ rest, d.markerGap_blank, ?_, rfl⟩⟩
  simp only [octets, List.append_assoc]

/-- A dictionary that fits into a window is found at its marker, and nothing else
is found in it. -/
theorem dictionaries_octets_append (hfits : d.octets.length ≤ windowSize) (rest : Bytes) :
    ∃ found, d.IsReadAs found ∧ dictionaries (d.octets ++ rest) = found :: dictionaries rest := by
  have hwindow : windowOf (d.octets ++ rest) =
      d.octets ++ rest.take (windowSize - d.octets.length) := by
    rw [windowOf, List.take_append, List.take_of_length_le hfits]
  refine ⟨_, d.isReadAs_ofWindow (rest.take (windowSize - d.octets.length)), ?_⟩
  obtain ⟨size, hmarker⟩ := d.exists_markerAt?_octets rest
  have hmisses : Search.Misses markerAt? (d.start ++ d.entries d.order) rest :=
    Search.misses_append_iff.2 ⟨misses_start seeks_markerAt? markerAt?_signatureType _,
      misses_entries seeks_markerAt? (fun k _ => k.markerAt?_octets) rest⟩
  rw [← hwindow]
  rw [octets_eq, List.cons_append] at hmarker ⊢
  rw [dictionaries_cons, hmarker, Option.isSome_some, if_pos rfl, dictionaries_append hmisses,
    List.singleton_append]

/-- A document with dictionaries and what stands before each of them and after the
last one. -/
def document (pieces : List (Bytes × Draft)) (last : Bytes) : Bytes :=
  pieces.flatMap (fun p => p.1 ++ p.2.octets) ++ last

end Draft

end SignatureDictionary

namespace Verification

open SignatureDictionary

/-- **What is written is found.** A document has dictionaries, each of which fits
into a window, and stretches between them in which no marker stands. A scan finds
these dictionaries in their order and no others, each with the values that were
written, whatever the order of its entries, the blanks, the letter case of the
digits, and whatever stands in the rest of its window. -/
theorem scan_written (pieces : List (Bytes × Draft)) (last : Bytes)
    (hfree : ∀ p ∈ pieces, MarkerFree p.1) (hlast : MarkerFree last)
    (hfits : ∀ p ∈ pieces, p.2.octets.length ≤ 4096) :
    List.Forall₂ (fun found p => found.name = some p.2.name ∧ found.reason = some p.2.reason ∧
        found.date = some p.2.date ∧ Hex.decode found.contents = .ok p.2.contents)
      (Scanner.textual.scan (Draft.document pieces last)) pieces := by
  show List.Forall₂ _ (dictionaries (Draft.document pieces last)) pieces
  induction pieces with
  | nil =>
    rw [Draft.document, List.flatMap_nil, List.nil_append, dictionaries_of_markerFree hlast]
    exact .nil
  | cons p pieces ih =>
    obtain ⟨stretch, d⟩ := p
    have hdocument : Draft.document ((stretch, d) :: pieces) last =
        stretch ++ (d.octets ++ Draft.document pieces last) := by
      simp only [Draft.document, List.flatMap_cons, List.append_assoc]
    obtain ⟨size, hmarker⟩ := d.exists_markerAt?_octets (Draft.document pieces last)
    have hstretch : MarkerFree stretch := hfree _ List.mem_cons_self
    obtain ⟨found, hfound, hdictionaries⟩ :=
      d.dictionaries_octets_append (hfits _ List.mem_cons_self) (Draft.document pieces last)
    rw [hdocument, dictionaries_append (misses_of_markerFree hstretch hmarker), hdictionaries]
    refine .cons ⟨hfound.name, hfound.reason, hfound.date, hfound.contents⟩ (ih ?_ ?_)
    · exact fun p hp => hfree p (List.mem_cons_of_mem _ hp)
    · exact fun p hp => hfits p (List.mem_cons_of_mem _ hp)

/-- A dictionary with its contents in digits of both cases, broken into two
lines. -/
def firstDraft : Draft where
  name := "Zoë (ops"
  reason := "Author"
  date := "D:20250101"
  contents := [0xAB, 0x0C]
  digits := Bytes.ofText "aB\n 0c"
  markerGap := [0x20]
  order := [.contents, .date, .name, .reason]
  gap := fun _ => [0x0A]
  inset := fun _ => []
  name_plain := by decide
  name_ne := by decide
  name_trimmed := by decide
  reason_plain := by decide
  reason_ne := by decide
  reason_trimmed := by decide
  date_plain := by decide
  contents_ne := by decide
  spells := .digit (.inl rfl) (.digit (.inr rfl) (.blank rfl (.blank rfl
    (.digit (.inl rfl) (.digit (.inl rfl) .nil)))))
  order_perm := by decide
  markerGap_blank := List.forall_mem_singleton.2 (by decide)
  gap_blank := fun _ => List.forall_mem_singleton.2 (by decide)
  inset_blank := fun _ => List.forall_mem_nil _

/-- The same entries in another order, with another name and no date. -/
def secondDraft : Draft where
  __ := firstDraft
  name := "B"
  date := ""
  order := [.reason, .name, .contents, .date]
  inset := fun _ => [0x20]
  name_plain := by decide
  name_ne := by decide
  name_trimmed := by decide
  date_plain := by decide
  order_perm := by decide
  inset_blank := fun _ => List.forall_mem_singleton.2 (by decide)

/-- Both dictionaries in a document. The window of the first one reaches over the
second one, and what stands between them ends in the way a marker begins. -/
def writtenSample : Bytes :=
  Bytes.ofText
    ("%PDF-1.7 << /Type /Sig\n/Contents<aB\n 0c>\n/M(D:20250101)\n/Name(Zoë (ops)" ++
      "\n/Reason(Author) >> /Type /Type /Sig\n/Reason (Author)\n/Name (B)" ++
      "\n/Contents <aB\n 0c>\n/M () >> %%EOF")

theorem scan_written_sample :
    ∃ a b, Scanner.textual.scan writtenSample = [a, b] ∧
      a.name = some "Zoë (ops" ∧ a.date = some "D:20250101" ∧
      Hex.decode a.contents = .ok [0xAB, 0x0C] ∧
      b.name = some "B" ∧ b.date = some "" ∧ Hex.decode b.contents = .ok [0xAB, 0x0C] := by
  have hfound := scan_written
    [(Bytes.ofText "%PDF-1.7 << ", firstDraft), (Bytes.ofText " >> /Type ", secondDraft)]
    (Bytes.ofText " >> %%EOF") (by decide) (by decide) (by decide)
  have hdocument : Draft.document
      [(Bytes.ofText "%PDF-1.7 << ", firstDraft), (Bytes.ofText " >> /Type ", secondDraft)]
      (Bytes.ofText " >> %%EOF") = writtenSample := by decide +kernel
  rw [hdocument] at hfound
  obtain ⟨a, _, ⟨hname, _, hdate, hcontents⟩, hrest, hscan⟩ := List.forall₂_cons_right_iff.1 hfound
  obtain ⟨b, _, ⟨hname', _, hdate', hcontents'⟩, hnil, rfl⟩ := List.forall₂_cons_right_iff.1 hrest
  obtain rfl := List.forall₂_nil_right_iff.1 hnil
  exact ⟨a, b, hscan, hname, hdate, hcontents, hname', hdate', hcontents'⟩

end Verification

end SignedPdf
