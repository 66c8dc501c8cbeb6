import Mathlib.Data.List.Sort
import SignedPdf.Proofs.Markers

/-!
# Markers of joined documents

What follows a document takes none of its markers away, but can complete one
that the document breaks off. Such a marker comes after all the complete ones,
since none of them starts inside of it.

* `markerAt?_append` and `markerAt?_of_append`: a marker is read in the same way
  with other octets after it, and nothing after its end has a part in it.
* `markers_append`: new markers come after the old ones.
* `dictionaries_cons`, `dictionaries_append`: a document taken apart octet by octet,
  or by a part in which no marker starts.
* `misses_of_markerFree`: what stands before a marker and holds none.
-/

namespace SignedPdf

namespace SignatureDictionary

variable {bs more : Bytes} {size : Nat}

/-! ## Where a marker ends -/

/-- A marker stays one whatever follows. -/
theorem markerAt?_append (h : markerAt? bs = some size) (more : Bytes) :
    markerAt? (bs ++ more) = some size := by
  obtain ⟨blanks, rest, hblanks, rfl, rfl⟩ := markerAt?_eq_some_iff.1 h
  exact markerAt?_eq_some_iff.2 ⟨blanks, rest ++ more, hblanks, List.append_assoc .., rfl⟩

/-- A marker lies in the octets that it is read from. -/
theorem size_le_length (h : markerAt? bs = some size) : size ≤ bs.length := by
  obtain ⟨blanks, rest, _, rfl, rfl⟩ := markerAt?_eq_some_iff.1 h
  simp only [List.length_append]
  omega

/-- A marker that does not reach into the octets that follow is one without
them. -/
theorem markerAt?_of_append (h : markerAt? (bs ++ more) = some size) (hsize : size ≤ bs.length) :
    markerAt? bs = some size := by
  obtain ⟨blanks, rest, hblanks, hbs, rfl⟩ := markerAt?_eq_some_iff.1 h
  have hlength : (typeKey ++ blanks ++ signatureType).length ≤ bs.length := by
    rwa [List.length_append, List.length_append]
  have hmarker : typeKey ++ blanks ++ signatureType <+: bs ++ more := ⟨rest, hbs.symm⟩
  obtain ⟨rest', hrest'⟩ :=
    List.prefix_of_prefix_length_le hmarker (List.prefix_append bs more) hlength
  exact markerAt?_eq_some_iff.2 ⟨blanks, rest', hblanks, hrest'.symm, rfl⟩

/-- Where a marker starts, the marker before has ended. -/
theorem size_le_of_markerAt?_drop {size' j : Nat} (h : markerAt? bs = some size)
    (hj : 0 < j) (h' : markerAt? (bs.drop j) = some size') : size ≤ j := by
  by_contra hlt
  rw [markerAt?_drop_eq_none h hj (by omega)] at h'
  cases h'

/-! ## New markers come last -/

variable {a b document : Bytes} {p q : Nat}

theorem exists_markerAt?_of_mem_markers (h : p ∈ markers document) :
    ∃ size, markerAt? (document.drop p) = some size ∧ p + size ≤ document.length := by
  obtain ⟨size, hsize⟩ := Option.isSome_iff_exists.1 (isSome_markerAt?_iff.2 (mem_markers_iff.1 h))
  have hlength := size_le_length hsize
  have hp : p < document.length := by
    rw [markers_eq, List.mem_filter, List.mem_range] at h
    exact h.1
  rw [List.length_drop] at hlength
  exact ⟨size, hsize, by omega⟩

theorem mem_markers_of_markerAt? (h : markerAt? (document.drop p) = some size) :
    p ∈ markers document :=
  mem_markers_iff.2 (isSome_markerAt?_iff.1 (by rw [h, Option.isSome_some]))

/-- The markers of a document stay where they are when octets are appended. -/
theorem mem_markers_append (h : p ∈ markers a) (b : Bytes) : p ∈ markers (a ++ b) := by
  obtain ⟨size, hsize, hle⟩ := exists_markerAt?_of_mem_markers h
  have hagain : markerAt? ((a ++ b).drop p) = some size := by
    rw [List.drop_append_of_le_length (by omega)]
    exact markerAt?_append hsize b
  exact mem_markers_of_markerAt? hagain

/-- A marker that comes in with octets that are appended starts after every old
one: it is not complete without these octets, so an old one would start inside
of it. -/
theorem lt_of_mem_markers_append (hp : p ∈ markers (a ++ b)) (hnew : p ∉ markers a)
    (hq : q ∈ markers a) : q < p := by
  by_contra hle
  have hne : p ≠ q := fun heq => hnew (heq ▸ hq)
  obtain ⟨j, rfl⟩ : ∃ j, q = p + j := ⟨q - p, by omega⟩
  obtain ⟨size, hsize, _⟩ := exists_markerAt?_of_mem_markers hp
  obtain ⟨size', hsize', hend⟩ := exists_markerAt?_of_mem_markers hq
  obtain ⟨_, hagain, _⟩ := exists_markerAt?_of_mem_markers (mem_markers_append hq b)
  rw [← List.drop_drop] at hagain
  have hover : size ≤ j := size_le_of_markerAt?_drop hsize (by omega) hagain
  rw [List.drop_append_of_le_length (by omega)] at hsize
  have hold : markerAt? (a.drop p) = some size := by
    apply markerAt?_of_append hsize
    rw [List.length_drop]
    omega
  exact hnew (mem_markers_of_markerAt? hold)

/-- With octets appended a document keeps its markers, and new ones come after
them. -/
theorem markers_append (a b : Bytes) : markers a <+: markers (a ++ b) := by
  refine ⟨(markers (a ++ b)).filter fun p => !(markers a).contains p, ?_⟩
  have hlate : ((markers (a ++ b)).filter fun p => !(markers a).contains p).Pairwise (· < ·) :=
    (pairwise_markers _).filter _
  refine List.Pairwise.eq_of_mem_iff (List.pairwise_append.2 ⟨pairwise_markers a, hlate, ?_⟩)
    (pairwise_markers (a ++ b)) fun p => ?_
  · intro q hq p hp
    rw [List.mem_filter] at hp
    have hnew : p ∉ markers a := by simpa using hp.2
    exact lt_of_mem_markers_append hp.1 hnew hq
  · rw [List.mem_append, List.mem_filter]
    by_cases hp : p ∈ markers a
    · simp [hp, mem_markers_append hp b]
    · simp [hp]

/-! ## Documents taken apart -/

theorem markers_cons (x : UInt8) (bs : Bytes) :
    markers (x :: bs) =
      (if (markerAt? (x :: bs)).isSome then [0] else []) ++ (markers bs).map (· + 1) := by
  rw [markers_eq, markers_eq, List.length_cons, List.range_succ_eq_map, List.filter_cons,
    List.filter_map]
  simp only [List.drop_zero, Function.comp_def, List.drop_succ_cons]
  split <;> rfl

theorem dictionaries_cons (x : UInt8) (bs : Bytes) :
    dictionaries (x :: bs) =
      (if (markerAt? (x :: bs)).isSome then [ofWindow (windowOf (x :: bs))] else []) ++
        dictionaries bs := by
  rw [dictionaries_eq_map_markers, dictionaries_eq_map_markers, markers_cons, List.map_append,
    List.map_map]
  congr 1
  split <;> rfl

/-- A part in which no marker starts has no dictionary. -/
theorem dictionaries_append {part rest : Bytes} (h : Search.Misses markerAt? part rest) :
    dictionaries (part ++ rest) = dictionaries rest := by
  induction part with
  | nil => rfl
  | cons x part ih =>
    obtain ⟨hx, hpart⟩ := Search.misses_cons_iff.1 h
    rw [List.cons_append, dictionaries_cons, hx, ih hpart]
    rfl

/-! ## Parts without a marker -/

/-- No marker stands in the octets. -/
def MarkerFree (bs : Bytes) : Prop := ∀ p, ¬ StartsMarker (bs.drop p)

theorem markerFree_iff : MarkerFree bs ↔ markers bs = [] := by
  rw [List.eq_nil_iff_forall_not_mem]
  exact forall_congr' fun p => not_congr mem_markers_iff.symm

instance (bs : Bytes) : Decidable (MarkerFree bs) := decidable_of_iff _ markerFree_iff.symm

theorem dictionaries_of_markerFree (h : MarkerFree bs) : dictionaries bs = [] := by
  rw [dictionaries_eq_map_markers, markerFree_iff.1 h, List.map_nil]

/-- No marker starts in such a part if another one starts after it: one that starts
in it would have to end there as well. -/
theorem misses_of_markerFree {part rest : Bytes} (h : MarkerFree part)
    (hrest : markerAt? rest = some size) : Search.Misses markerAt? part rest := by
  intro j hj
  by_contra hsome
  obtain ⟨size', hsize'⟩ := Option.ne_none_iff_exists'.1 hsome
  rw [List.drop_append_of_le_length (by omega)] at hsize'
  have hnext : markerAt? ((part.drop j ++ rest).drop (part.drop j).length) = some size := by
    rw [List.drop_left]
    exact hrest
  have hpos : 0 < (part.drop j).length := by
    rw [List.length_drop]
    omega
  have hwithin := markerAt?_of_append hsize' (size_le_of_markerAt?_drop hsize' hpos hnext)
  apply h j
  rw [← isSome_markerAt?_iff, hwithin, Option.isSome_some]

end SignatureDictionary

end SignedPdf
