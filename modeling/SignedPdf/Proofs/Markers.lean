import Mathlib.Data.List.Basic
import Mathlib.Data.List.TakeWhile
import Mathlib.Tactic.Tauto
import SignedPdf.Dictionary.Scan

/-!
# Where markers stand

The search for markers passes over the octets of a marker that it has found.
It misses nothing by this: a marker holds a solidus at its start and before
`Sig` only, and the second one does not start a marker. So the markers are
exactly the places at which `/Type`, blanks and `/Sig` follow each other.

* `Seeks.misses_marker`: what accepts nothing but a solidus to begin with can start
  at these two places of a marker only.
* `separate_markerAt?`: no marker starts inside another one.
* `mem_markers_iff` and `pairwise_markers`: the markers are all offsets at which
  the octets of a marker stand, in increasing order.
* `windows_eq` and `dictionaries_eq`: the window of each of them, and what is
  read from it.
-/

namespace SignedPdf

namespace SignatureDictionary

/-! ## The octets of a marker -/

/-- The blanks between the two parts of a marker: tab, line feed, vertical tab,
form feed, carriage return and space. -/
def blankOctets : List UInt8 := [0x09, 0x0A, 0x0B, 0x0C, 0x0D, 0x20]

theorem isSeparator_iff {b : UInt8} : Text.isSeparator b = true ↔ b ∈ blankOctets := by
  simp only [Text.isSeparator, Text.isAsciiBlank, Bool.or_eq_true, beq_iff_eq, blankOctets,
    List.mem_cons, List.not_mem_nil, or_false]
  tauto

section Blanks

variable {blanks : Bytes} {b : UInt8}

/-- Blanks are taken up to the first octet that is none. -/
theorem takeWhile_blanks (h : ∀ b ∈ blanks, b ∈ blankOctets) (hb : b ∉ blankOctets)
    (rest : Bytes) : (blanks ++ b :: rest).takeWhile Text.isSeparator = blanks :=
  Search.takeWhile_run (fun b hb => isSeparator_iff.2 (h b hb))
    (Bool.eq_false_iff.2 (mt isSeparator_iff.1 hb)) rest

/-- Blanks are passed over up to the first octet that is none. -/
theorem dropWhile_blanks (h : ∀ b ∈ blanks, b ∈ blankOctets) (hb : b ∉ blankOctets)
    (rest : Bytes) : (blanks ++ b :: rest).dropWhile Text.isSeparator = b :: rest :=
  Search.dropWhile_run (fun b hb => isSeparator_iff.2 (h b hb))
    (Bool.eq_false_iff.2 (mt isSeparator_iff.1 hb)) rest

/-- Nothing but blanks is passed over. -/
theorem exists_blanks_of_dropWhile {bs rest : Bytes} (h : bs.dropWhile Text.isSeparator = rest) :
    ∃ blanks, (∀ b ∈ blanks, b ∈ blankOctets) ∧ bs = blanks ++ rest := by
  refine ⟨bs.takeWhile Text.isSeparator, fun b hb => ?_, ?_⟩
  · exact isSeparator_iff.1 (List.mem_takeWhile_imp hb)
  · rw [← h, List.takeWhile_append_dropWhile]

end Blanks

/-- The octets start with a marker: `/Type`, any number of blanks, and `/Sig`. -/
def StartsMarker (bs : Bytes) : Prop :=
  ∃ blanks rest, (∀ b ∈ blanks, b ∈ blankOctets) ∧
    bs = Bytes.ofText "/Type" ++ blanks ++ Bytes.ofText "/Sig" ++ rest

/-- The octet `/`, with which both parts of a marker start. -/
def solidus : UInt8 := 0x2F

theorem typeKey_eq : typeKey = solidus :: Bytes.ofText "Type" := by decide

theorem signatureType_eq : signatureType = solidus :: Bytes.ofText "Sig" := by decide

/-- A marker at the start is read with all of its blanks. -/
theorem markerAt?_eq_some_iff {bs : Bytes} {size : Nat} :
    markerAt? bs = some size ↔
      ∃ blanks rest, (∀ b ∈ blanks, b ∈ blankOctets) ∧
        bs = typeKey ++ blanks ++ signatureType ++ rest ∧
        size = typeKey.length + blanks.length + signatureType.length := by
  simp only [markerAt?, Option.bind_eq_some_iff, Option.map_eq_some_iff,
    Bytes.dropStart?_eq_some_iff]
  constructor
  · rintro ⟨after, rfl, rest, hrest, rfl⟩
    refine ⟨after.takeWhile Text.isSeparator, rest, ?_, ?_, rfl⟩
    · intro b hb
      exact isSeparator_iff.1 (List.mem_takeWhile_imp hb)
    · rw [List.append_assoc, List.append_assoc, ← hrest, List.takeWhile_append_dropWhile]
  · rintro ⟨blanks, rest, hblanks, rfl, rfl⟩
    have hend : solidus ∉ blankOctets := by decide
    refine ⟨blanks ++ (signatureType ++ rest), by simp only [List.append_assoc], rest, ?_, ?_⟩
    · exact dropWhile_blanks hblanks hend _
    · rw [signatureType_eq, List.cons_append, takeWhile_blanks hblanks hend]

theorem isSome_markerAt?_iff {bs : Bytes} : (markerAt? bs).isSome = true ↔ StartsMarker bs := by
  rw [Option.isSome_iff_exists]
  constructor
  · rintro ⟨size, h⟩
    obtain ⟨blanks, rest, hblanks, hbs, _⟩ := markerAt?_eq_some_iff.1 h
    exact ⟨blanks, rest, hblanks, hbs⟩
  · rintro ⟨blanks, rest, hblanks, hbs⟩
    exact ⟨_, markerAt?_eq_some_iff.2 ⟨blanks, rest, hblanks, hbs, rfl⟩⟩

/-! ## Matchers that seek a solidus -/

/-- The matcher accepts nothing that starts with another octet. -/
def Seeks {α : Type} (f : Bytes → Option α) : Prop :=
  ∀ b bs, b ≠ solidus → f (b :: bs) = none

/-- Blanks hold no solidus. -/
theorem solidus_notMem_of_blank {blanks : Bytes} (h : ∀ b ∈ blanks, b ∈ blankOctets) :
    solidus ∉ blanks := fun hmem => absurd (h _ hmem) (by decide)

section Seeks

variable {α : Type} {f : Bytes → Option α}

/-- A part without a solidus is passed over. -/
theorem Seeks.misses_of_notMem (hf : Seeks f) {part : Bytes} (h : solidus ∉ part) (rest : Bytes) :
    Search.Misses f part rest := by
  induction part with
  | nil => exact Search.misses_nil f rest
  | cons b part ih =>
    rw [List.mem_cons, not_or] at h
    exact Search.misses_cons_iff.2 ⟨hf b _ (Ne.symm h.1), ih h.2⟩

/-- A part with a solidus at its start is passed over if this one is not
accepted. -/
theorem Seeks.misses_solidus_cons (hf : Seeks f) {part rest : Bytes} (h : solidus ∉ part)
    (hno : f (solidus :: (part ++ rest)) = none) : Search.Misses f (solidus :: part) rest :=
  Search.misses_cons_iff.2 ⟨hno, hf.misses_of_notMem h rest⟩

/-- What follows the first solidus of a marker is passed over up to its end if the
second part of the marker is not accepted. -/
theorem Seeks.misses_marker (hf : Seeks f) {blanks : Bytes} (h : ∀ b ∈ blanks, b ∈ blankOctets)
    {rest : Bytes} (hsig : f (signatureType ++ rest) = none) :
    Search.Misses f (Bytes.ofText "Type" ++ (blanks ++ signatureType)) rest := by
  refine Search.misses_append_iff.2 ⟨hf.misses_of_notMem (by decide) _,
    Search.misses_append_iff.2 ⟨hf.misses_of_notMem (solidus_notMem_of_blank h) _, ?_⟩⟩
  rw [signatureType_eq] at hsig ⊢
  exact hf.misses_solidus_cons (by decide) hsig

end Seeks

/-! ## No marker starts inside another one -/

theorem markerAt?_nil : markerAt? [] = none := rfl

theorem seeks_markerAt? : Seeks markerAt? := by
  intro b bs h
  have hb : ¬ solidus = b := fun hb => h hb.symm
  simp only [markerAt?, typeKey_eq, Bytes.dropStart?, hb, if_false, Option.bind_none]

/-- The second part of a marker does not start a marker. -/
theorem markerAt?_signatureType (rest : Bytes) : markerAt? (signatureType ++ rest) = none := rfl

/-- No marker starts inside another one. -/
theorem markerAt?_drop_eq_none {bs : Bytes} {size : Nat} (h : markerAt? bs = some size) {j : Nat}
    (h0 : 0 < j) (hj : j < size) : markerAt? (bs.drop j) = none := by
  obtain ⟨blanks, rest, hblanks, rfl, rfl⟩ := markerAt?_eq_some_iff.1 h
  have hmisses := seeks_markerAt?.misses_marker hblanks (markerAt?_signatureType rest)
  -- The octets in question come after the first solidus.
  obtain ⟨i, rfl⟩ : ∃ i, j = i + 1 := ⟨j - 1, by omega⟩
  have hi : i < (Bytes.ofText "Type" ++ (blanks ++ signatureType)).length := by
    have h5 : typeKey.length = 5 := by decide
    have h4 : (Bytes.ofText "Type").length = 4 := by decide
    rw [List.length_append, List.length_append]
    omega
  have hsplit : typeKey ++ blanks ++ signatureType ++ rest =
      solidus :: (Bytes.ofText "Type" ++ (blanks ++ signatureType) ++ rest) := by
    simp only [typeKey_eq, List.cons_append, List.append_assoc]
  rw [hsplit, List.drop_succ_cons]
  exact hmisses i hi

/-- No marker starts inside another one, whatever is read at it. -/
theorem separate_markerAt? {α : Type} (read : Bytes → α) :
    Search.Separate fun bs => (markerAt? bs).map fun size => (size, read bs) := by
  intro bs size a h j h0 hj
  obtain ⟨size', hmarker, heq⟩ := Option.map_eq_some_iff.1 h
  cases heq
  simp only [markerAt?_drop_eq_none hmarker h0 hj, Option.map_none]

/-! ## The search for markers -/

variable {α : Type} {document : Bytes}

/-- The first marker that is found is the leftmost one, and the search goes on
where it ends. -/
theorem markers_of_first?_eq_some {p size : Nat}
    (h : Search.first? markerAt? document = some (p, size)) :
    markers document = p :: (markers (document.drop (p + size))).map (p + size + ·) := by
  obtain ⟨hp, hmarker, hleast⟩ := Search.first?_eq_some_iff.1 h
  have hsize : 0 < size := by
    obtain ⟨blanks, _, _, _, rfl⟩ := markerAt?_eq_some_iff.1 hmarker
    have h5 : typeKey.length = 5 := by decide
    omega
  have hlt : p < document.length := by
    rcases Nat.lt_or_eq_of_le hp with hp | rfl
    · exact hp
    · rw [List.drop_length, markerAt?_nil] at hmarker
      cases hmarker
  have hfirst : Search.first? (fun bs => (markerAt? bs).map fun size => (size, ())) document =
      some (p, size, ()) := by
    refine Search.first?_eq_some_iff.2 ⟨hp, ?_, fun j hj => ?_⟩
    · rw [hmarker, Option.map_some]
    · rw [hleast j hj, Option.map_none]
  simp only [markers, atMarkers, Search.apart_of_first?_eq_some hfirst hsize hlt, List.map_cons,
    List.map_map, Function.comp_def]

/-- Where there is no marker, none is found. -/
theorem markers_of_first?_eq_none (h : Search.first? markerAt? document = none) :
    markers document = [] := by
  have hfirst : Search.first? (fun bs => (markerAt? bs).map fun size => (size, ())) document =
      none := by
    refine Search.first?_eq_none_iff.2 fun j hj => ?_
    rw [Search.first?_eq_none_iff.1 h j hj, Option.map_none]
  rw [markers, atMarkers, Search.apart_of_first?_eq_none hfirst, List.map_nil]

/-! ## All markers of a document -/

/-- Something is read at each offset at which a marker stands. -/
theorem atMarkers_eq_filter (read : Bytes → α) (document : Bytes) :
    atMarkers read document =
      ((List.range document.length).filter fun p => (markerAt? (document.drop p)).isSome).map
        fun p => (p, read (document.drop p)) := by
  rw [atMarkers, (separate_markerAt? read).apart_eq_all, Search.all_eq, ← List.filterMap_eq_map,
    List.filterMap_filter]
  refine List.filterMap_congr fun p _ => ?_
  cases markerAt? (document.drop p) <;> rfl

theorem markers_eq (document : Bytes) :
    markers document =
      (List.range document.length).filter fun p => (markerAt? (document.drop p)).isSome := by
  rw [markers, atMarkers_eq_filter, List.map_map]
  exact List.map_id _

theorem atMarkers_eq (read : Bytes → α) (document : Bytes) :
    atMarkers read document = (markers document).map fun p => (p, read (document.drop p)) := by
  rw [atMarkers_eq_filter, markers_eq]

/-- The markers are told in increasing order, each once. -/
theorem pairwise_markers (document : Bytes) : (markers document).Pairwise (· < ·) := by
  rw [markers_eq]
  exact List.pairwise_lt_range.filter _

/-- The markers are exactly the offsets at which the octets of a marker
stand. -/
theorem mem_markers_iff {p : Nat} : p ∈ markers document ↔ StartsMarker (document.drop p) := by
  rw [markers_eq, List.mem_filter, List.mem_range, isSome_markerAt?_iff]
  refine and_iff_right_of_imp fun h => ?_
  by_contra hp
  rw [List.drop_eq_nil_of_le (by omega), ← isSome_markerAt?_iff, markerAt?_nil] at h
  cases h

example : markers (Bytes.ofText "/Type/Type \t/Sig/Type/Sig") = [5, 16] := by decide

/-! ## Windows and dictionaries -/

/-- A window ends after 4096 octets or with the document. -/
theorem windows_eq (document : Bytes) :
    windows document =
      (markers document).map fun p => document.extract p (min (p + 4096) document.length) := by
  rw [windows, atMarkers_eq, List.map_map]
  refine List.map_congr_left fun p _ => ?_
  show (document.drop p).take 4096 = _
  rw [List.extract_eq_take_drop, List.take_eq_take_iff, List.length_drop]
  omega

/-- Every window gives one dictionary. -/
theorem dictionaries_eq (document : Bytes) :
    dictionaries document = (windows document).map ofWindow := by
  rw [dictionaries, windows, atMarkers_eq, atMarkers_eq, List.map_map, List.map_map, List.map_map]
  rfl

/-- The dictionary that is read at an offset. -/
def dictionaryAt (document : Bytes) (p : Nat) : SignatureDictionary :=
  ofWindow (windowOf (document.drop p))

/-- One dictionary is read at each marker. -/
theorem dictionaries_eq_map_markers (document : Bytes) :
    dictionaries document = (markers document).map (dictionaryAt document) := by
  rw [dictionaries, atMarkers_eq, List.map_map]
  rfl

/-- There is one dictionary for each marker. -/
theorem length_dictionaries (document : Bytes) :
    (dictionaries document).length = (markers document).length := by
  rw [dictionaries_eq, windows_eq, List.length_map, List.length_map]

end SignatureDictionary

end SignedPdf
