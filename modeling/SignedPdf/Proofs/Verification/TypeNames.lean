import SignedPdf.Proofs.Markers
import SignedPdf.Verification

/-!
# Types of the dictionaries that are reported

A marker ends with `/Sig`, and nothing is asked of the octet that follows. If
this octet may stand in a name, the name of the type goes on: `/Type /SigRef` and
`/Type /SigFieldLock` are markers as well, although dictionaries of these types
hold no signature.

* `startsMarker_iff_typeName?`: markers stand where the name of a type begins with
  `Sig`.
* `typeName?_eq_sigName_iff`: that name is `Sig` itself exactly if a white octet,
  a delimiter or the end of the document follows.
* `scan_typeNames`: dictionaries of other types are reported beside those that
  hold signatures, and have a part in the verdict.
-/

namespace SignedPdf

namespace SignatureDictionary

/-! ## Names -/

/-- White octets: NUL, tab, line feed, form feed, carriage return and space. -/
def whiteOctets : List UInt8 := [0x00, 0x09, 0x0A, 0x0C, 0x0D, 0x20]

/-- The octets other than white ones that end a name: brackets of every kind, the
solidus and the percent sign. -/
def delimiterOctets : List UInt8 := Bytes.ofText "()<>[]{}/%"

/-- Whether an octet may stand in a name. -/
def isNameOctet (b : UInt8) : Bool := !whiteOctets.contains b && !delimiterOctets.contains b

/-- The type of signature dictionaries. -/
def sigName : Bytes := Bytes.ofText "Sig"

/-- The name of the type at the start: what stands after `/Type`, blanks and a
solidus, up to the first octet that may not stand in a name. -/
def typeName? (bs : Bytes) : Option Bytes :=
  (Bytes.dropStart? typeKey bs).bind fun rest =>
    (Bytes.dropStart? [solidus] (rest.dropWhile Text.isSeparator)).map
      (List.takeWhile isNameOctet)

theorem isNameOctet_eq_false_iff {b : UInt8} :
    isNameOctet b = false ↔ b ∈ whiteOctets ∨ b ∈ delimiterOctets := by
  rw [isNameOctet, Bool.and_eq_false_iff]
  simp only [Bool.not_eq_false', List.contains_iff_mem]

/-- No name goes on exactly if a white octet, a delimiter or nothing follows. -/
theorem takeWhile_isNameOctet_eq_nil_iff {rest : Bytes} :
    rest.takeWhile isNameOctet = [] ↔
      ∀ b, rest.head? = some b → b ∈ whiteOctets ∨ b ∈ delimiterOctets := by
  cases rest with
  | nil => simp
  | cons b rest =>
    simp only [List.head?_cons, Option.some.injEq, forall_eq', ← isNameOctet_eq_false_iff,
      List.takeWhile_cons]
    cases isNameOctet b <;> simp

/-! ## The name of the type at a marker -/

/-- At a marker the name of the type starts with `Sig` and goes on as long as it
can. -/
theorem typeName?_append {blanks : Bytes} (h : ∀ b ∈ blanks, b ∈ blankOctets) (rest : Bytes) :
    typeName? (Bytes.ofText "/Type" ++ blanks ++ Bytes.ofText "/Sig" ++ rest) =
      some (sigName ++ rest.takeWhile isNameOctet) := by
  have hsplit : Bytes.ofText "/Type" ++ blanks ++ Bytes.ofText "/Sig" ++ rest =
      typeKey ++ (blanks ++ solidus :: (sigName ++ rest)) := by
    simp only [List.append_assoc]
    rfl
  have hall : ∀ b ∈ sigName, isNameOctet b = true := List.all_eq_true.1 (by decide)
  have hcut : Bytes.dropStart? [solidus] (solidus :: (sigName ++ rest)) = some (sigName ++ rest) :=
    Bytes.dropStart?_append [solidus] _
  rw [typeName?, hsplit, Bytes.dropStart?_append, Option.bind_some,
    dropWhile_blanks h (by decide), hcut, Option.map_some, List.takeWhile_append_of_pos hall]

/-- Markers stand exactly where the name of a type begins with `Sig`. -/
theorem startsMarker_iff_typeName? {bs : Bytes} :
    StartsMarker bs ↔ ∃ name, typeName? bs = some name ∧ sigName <+: name := by
  constructor
  · rintro ⟨blanks, rest, hblanks, rfl⟩
    exact ⟨_, typeName?_append hblanks rest, List.prefix_append ..⟩
  · rintro ⟨name, hname, hsig⟩
    simp only [typeName?, Option.bind_eq_some_iff, Option.map_eq_some_iff,
      Bytes.dropStart?_eq_some_iff] at hname
    obtain ⟨after, rfl, whole, hwhole, rfl⟩ := hname
    obtain ⟨rest, rfl⟩ : sigName <+: whole := hsig.trans (List.takeWhile_prefix _)
    obtain ⟨blanks, hblanks, rfl⟩ := exists_blanks_of_dropWhile hwhole
    refine ⟨blanks, rest, hblanks, ?_⟩
    rw [List.append_assoc, List.append_assoc]
    rfl

/-- The name of the type is `Sig` itself exactly if nothing follows that could go
on with it. -/
theorem typeName?_eq_sigName_iff {blanks rest : Bytes} (h : ∀ b ∈ blanks, b ∈ blankOctets) :
    typeName? (Bytes.ofText "/Type" ++ blanks ++ Bytes.ofText "/Sig" ++ rest) = some sigName ↔
      ∀ b, rest.head? = some b → b ∈ whiteOctets ∨ b ∈ delimiterOctets := by
  rw [typeName?_append h, Option.some.injEq, List.append_right_eq_self,
    takeWhile_isNameOctet_eq_nil_iff]

/-! ## Markers of both kinds -/

/-- The markers of signature dictionaries. -/
def signatureMarkers (document : Bytes) : List Nat :=
  (markers document).filter fun p => typeName? (document.drop p) == some sigName

/-- The markers of dictionaries of other types. -/
def otherMarkers (document : Bytes) : List Nat :=
  (markers document).filter fun p => !(typeName? (document.drop p) == some sigName)

theorem mem_markers_iff_or {document : Bytes} {p : Nat} :
    p ∈ markers document ↔ p ∈ signatureMarkers document ∨ p ∈ otherMarkers document := by
  simp only [signatureMarkers, otherMarkers, List.mem_filter, ← and_or_left]
  refine (and_iff_left ?_).symm
  cases typeName? (document.drop p) == some sigName <;> simp

theorem length_markers (document : Bytes) :
    (markers document).length =
      (signatureMarkers document).length + (otherMarkers document).length :=
  List.length_eq_length_filter_add _

end SignatureDictionary

namespace Verification

open SignatureDictionary

/-- **Dictionaries of all types that begin with `Sig` are reported.** There is one
for each offset at which the name of the type has this beginning, and the name
is `Sig` itself exactly if a white octet, a delimiter or nothing follows. So the
dictionaries that hold signatures are all reported, but those of any other type
with this beginning are counted with them, and a report is valid only if their
entries are. -/
theorem scan_typeNames (document : Bytes) :
    Scanner.textual.scan document = (markers document).map (dictionaryAt document) ∧
    (∀ p, p ∈ markers document ↔
      ∃ name, typeName? (document.drop p) = some name ∧ sigName <+: name) ∧
    (∀ p blanks rest, (∀ b ∈ blanks, b ∈ blankOctets) →
      document.drop p = Bytes.ofText "/Type" ++ blanks ++ Bytes.ofText "/Sig" ++ rest →
      (typeName? (document.drop p) = some sigName ↔
        ∀ b, rest.head? = some b → b ∈ whiteOctets ∨ b ∈ delimiterOctets)) ∧
    ∀ (v : Verifier) (now : Instant) (o : Verifier.Outcome), v.scanner = .textual →
      v.options.maxSignatures = 0 → v.run document now = .ok o →
      o.report.signedCount =
        (signatureMarkers document).length + (otherMarkers document).length ∧
      (o.report.allValid = true ↔
        (∀ p ∈ signatureMarkers document,
          (v.entry now (dictionaryAt document p)).isValid = true) ∧
        ∀ p ∈ otherMarkers document,
          (v.entry now (dictionaryAt document p)).isValid = true) := by
  have hscan : Scanner.textual.scan document = (markers document).map (dictionaryAt document) :=
    dictionaries_eq_map_markers document
  refine ⟨hscan, fun p => mem_markers_iff.trans startsMarker_iff_typeName?, ?_, ?_⟩
  · intro p blanks rest hblanks hdrop
    rw [hdrop]
    exact typeName?_eq_sigName_iff hblanks
  · intro v now o hscanner hlimit ho
    have hentries : o.report.entries =
        (markers document).map fun p => v.entry now (dictionaryAt document p) := by
      rw [Verifier.run_ok_entries ho, Verifier.selected, if_pos hlimit, hscanner, hscan,
        List.map_map]
      rfl
    constructor
    · rw [Report.signedCount, hentries, List.length_map, length_markers]
    · simp only [Report.allValid, hentries, List.all_map, List.all_eq_true, Function.comp_apply,
        mem_markers_iff_or, or_imp, forall_and]

/-- A document with one dictionary, of type `SigRef`. -/
def referenceSample : Bytes :=
  Bytes.ofText "%PDF-1.7 << /Type /SigRef /TransformMethod /DocMDP >>"

/-- The dictionary is counted as a signature, and its entry settles the
verdict. -/
theorem scan_typeNames_sample :
    otherMarkers referenceSample = [12] ∧
      ∃ o, ({ anchors := .empty } : Verifier).run referenceSample ⟨0, 0⟩ = .ok o ∧
        o.report.signedCount = 1 ∧ o.report.allValid = false := by
  obtain ⟨_, _, _, hreport⟩ := scan_typeNames referenceSample
  have hothers : otherMarkers referenceSample = [12] := by decide
  have hrun : ({ anchors := .empty } : Verifier).run referenceSample ⟨0, 0⟩ = .ok _ := rfl
  obtain ⟨hcount, hvalid⟩ := hreport _ _ _ rfl rfl hrun
  have hsignatures : signatureMarkers referenceSample = [] := by decide
  refine ⟨hothers, _, hrun, ?_, ?_⟩
  · rw [hcount, hothers, hsignatures]
    rfl
  · rw [← Bool.not_eq_true, hvalid, hothers]
    simp only [List.mem_singleton, forall_eq, not_and]
    intro _
    decide

/-- A dictionary of type `SigRef` is found although the document holds no
signature dictionary. -/
theorem scan_reference_dictionary :
    (∀ p, typeName? (referenceSample.drop p) ≠ some sigName) ∧
      typeName? (referenceSample.drop 12) = some (Bytes.ofText "SigRef") ∧
      Scanner.textual.scan referenceSample = [{}] := by
  refine ⟨fun p hp => ?_, by decide, by decide⟩
  have hmem : p ∈ markers referenceSample :=
    mem_markers_iff.2 (startsMarker_iff_typeName?.2 ⟨_, hp, List.prefix_rfl⟩)
  have hmarkers : markers referenceSample = [12] := by decide
  rw [hmarkers, List.mem_singleton] at hmem
  subst hmem
  exact absurd hp (by decide)

end Verification

end SignedPdf
