import Mathlib.Data.List.Nodup
import SignedPdf.Proofs.NameText.Reading

/-!
# The normalised order

The text of a name does not mirror its encoding. It depends on two things only: which
attributes there are without a standard type, and which texts each standard type has
for values, each in the order of the name. How the types are interleaved, and which
attributes share a set, does not matter. For the types of which only the last value is
written, all texts but the last do not matter either.

* `Name.text_congr`: what the text depends on.
* `Name.valuesOf_eq`: which values of a standard type are written.
* `Name.filter_key_listing`: under the key of a standard type the text says these
  values and no others.
* `Name.text_normalised`: names that differ in what does not matter have the same text.
-/

namespace SignedPdf.X509

/-! ## Standard types -/

/-- Standard types have different paths. -/
theorem StandardType.path_injective {t t' : StandardType} (h : t.path = t'.path) : t = t' :=
  List.inj_on_of_nodup_map (by decide) (mem_all t) (mem_all t') h

/-- Standard types have different keys. -/
theorem StandardType.key_injective {t t' : StandardType} (h : t.key = t'.key) : t = t' :=
  List.inj_on_of_nodup_map (by decide) (mem_all t) (mem_all t') h

namespace Attribute

variable {a : Attribute} {t t' : StandardType}

/-- The standard type of an attribute is the one with its path. -/
theorem standardType?_eq_some_iff : a.standardType? = some t ↔ a.type.text = t.path := by
  constructor
  · intro h
    have hpath := List.find?_some h
    exact (of_decide_eq_true hpath).symm
  · intro h
    cases hfound : a.standardType? with
    | none =>
      have hno := List.find?_eq_none.1 hfound t (StandardType.mem_all t)
      exact absurd h.symm (by simpa using hno)
    | some t' =>
      have hpath := List.find?_some hfound
      rw [StandardType.path_injective ((of_decide_eq_true hpath).trans h)]

/-- The value of an attribute of a standard type, if it is text. -/
def stringOf? (t : StandardType) (a : Attribute) : Option String :=
  if a.standardType? = some t then a.text? else none

/-- An attribute of a standard type that does not matter before others: it has no text
for a value, or only the last text of its type is written and a later one follows. -/
def IsPassedOver (a : Attribute) (after : List Attribute) : Prop :=
  ∃ t, a.standardType? = some t ∧
    (a.text? = none ∨ t.isSingle = true ∧ ∃ b ∈ after, (b.stringOf? t).isSome = true)

theorem stringOf?_of_ne (h : a.standardType? = some t) (hne : t' ≠ t) :
    a.stringOf? t' = none := by
  rw [stringOf?, h, if_neg]
  rintro heq
  exact hne (Option.some.inj heq).symm

theorem stringOf?_of_text?_eq_none (h : a.text? = none) (t : StandardType) :
    a.stringOf? t = none := by
  unfold stringOf?
  split
  · exact h
  · rfl

end Attribute

namespace Name

/-! ## What the text depends on -/

/-- The attributes without a standard type, in the order of the name. -/
def nonStandard (n : Name) : List Attribute := n.attributes.filter fun a => a.standardType?.isNone

/-- The texts that a standard type has for values, in the order of the name. -/
def stringsOf (n : Name) (t : StandardType) : List String :=
  n.attributes.filterMap (Attribute.stringOf? t)

variable {n n' : Name} {t : StandardType} {before after : List Attribute} {a : Attribute}

/-- The values of a standard type that are written are its texts, or only the last of
them, unless it is empty. -/
theorem valuesOf_eq (n : Name) (t : StandardType) :
    n.valuesOf t =
      if t.isSingle then ((n.stringsOf t).getLast?.filter fun v => v ≠ "").toList
      else n.stringsOf t := by
  have hstrings : (n.attributes.filter fun a => a.type.text = t.path).filterMap Attribute.text? =
      n.stringsOf t := by
    rw [stringsOf, List.filterMap_filter]
    refine congrArg (List.filterMap · n.attributes) ?_
    funext a
    simp only [Attribute.stringOf?, Attribute.standardType?_eq_some_iff, decide_eq_true_eq]
  rw [valuesOf, hstrings]

/-- The text depends on the attributes without a standard type and on the values that
are written of each standard type. -/
theorem text_congr (hrest : n.nonStandard = n'.nonStandard)
    (hvalues : ∀ t, n.valuesOf t = n'.valuesOf t) : n.text = n'.text := by
  have hothers : n.others = n'.others := by
    show (n.nonStandard.map fun a => [a.alone]) = n'.nonStandard.map fun a => [a.alone]
    rw [hrest]
  have hgroups : n.groups = n'.groups := by
    unfold groups group
    simp only [hvalues]
  rw [text, text, parts, parts, hothers, hgroups]

/-! ## Leaving an attribute out -/

theorem stringsOf_of_attributes (h : n.attributes = before ++ a :: after) (t : StandardType) :
    n.stringsOf t =
      before.filterMap (Attribute.stringOf? t) ++
        ((a.stringOf? t).toList ++ after.filterMap (Attribute.stringOf? t)) := by
  rw [stringsOf, h, List.filterMap_append, List.filterMap_cons]
  cases a.stringOf? t <;> rfl

/-- Without an attribute that has no text of the type, the texts are the same. -/
theorem stringsOf_of_removed (h : n.attributes = before ++ a :: after)
    (h' : n'.attributes = before ++ after) (hnone : a.stringOf? t = none) :
    n'.stringsOf t = n.stringsOf t := by
  rw [stringsOf_of_attributes h, hnone, stringsOf, h', List.filterMap_append]
  rfl

/-- Without an attribute before a later text of the type, the last text is the same. -/
theorem getLast?_stringsOf_of_removed (h : n.attributes = before ++ a :: after)
    (h' : n'.attributes = before ++ after)
    (hlater : ∃ b ∈ after, (b.stringOf? t).isSome = true) :
    (n'.stringsOf t).getLast? = (n.stringsOf t).getLast? := by
  obtain ⟨b, hb, hsome⟩ := hlater
  obtain ⟨v, hv⟩ := Option.isSome_iff_exists.1 hsome
  have hne : after.filterMap (Attribute.stringOf? t) ≠ [] :=
    List.ne_nil_of_mem (List.mem_filterMap.2 ⟨b, hb, hv⟩)
  rw [stringsOf_of_attributes h, stringsOf, h', List.filterMap_append,
    List.getLast?_append_of_ne_nil _ hne, ← List.append_assoc, List.getLast?_append_of_ne_nil _ hne]

/-- Without an attribute that is passed over, the same values are written. -/
theorem valuesOf_of_removed (h : n.attributes = before ++ a :: after)
    (h' : n'.attributes = before ++ after) (hpassed : a.IsPassedOver after) (t : StandardType) :
    n'.valuesOf t = n.valuesOf t := by
  obtain ⟨s, hs, hreason⟩ := hpassed
  rw [valuesOf_eq, valuesOf_eq]
  by_cases ht : t = s
  · subst ht
    rcases hreason with hnone | ⟨hsingle, hlater⟩
    · rw [stringsOf_of_removed h h' (Attribute.stringOf?_of_text?_eq_none hnone t)]
    · rw [if_pos hsingle, if_pos hsingle, getLast?_stringsOf_of_removed h h' hlater]
  · rw [stringsOf_of_removed h h' (Attribute.stringOf?_of_ne hs ht)]

/-- An attribute that is passed over has a standard type. -/
theorem nonStandard_of_removed (h : n.attributes = before ++ a :: after)
    (h' : n'.attributes = before ++ after) (hpassed : a.IsPassedOver after) :
    n'.nonStandard = n.nonStandard := by
  obtain ⟨s, hs, _⟩ := hpassed
  have hstandard : ¬ a.standardType?.isNone = true := by simp [hs]
  rw [nonStandard, nonStandard, h, h', List.filter_append, List.filter_append,
    List.filter_cons_of_neg (p := fun a : Attribute => a.standardType?.isNone) hstandard]

/-! ## What is said under a key -/

/-- An attribute that stands by itself does not have the key of a standard type. -/
theorem key_alone_ne (a : Attribute) (t : StandardType) : a.alone.key ≠ t.key := by
  have hother : ∀ key, otherKey? a.type.text = some key → key ≠ t.key := by
    intro key hkey
    have hall : (StandardType.all.all fun t => t.key ≠ "UID" ∧ t.key ≠ "DC") = true := by decide
    obtain ⟨hUid, hDc⟩ := of_decide_eq_true (List.all_eq_true.1 hall t (StandardType.mem_all t))
    unfold otherKey? at hkey
    split at hkey
    · cases hkey
      exact hUid.symm
    · split at hkey
      · cases hkey
        exact hDc.symm
      · cases hkey
  simp only [Attribute.alone]
  split
  · next key _ hkey _ => exact hother key hkey
  · intro heq
    have hpath : a.type.text = t.key := heq
    exact text_notMem_textKeys a.type (hpath ▸ key_mem_textKeys t)

/-- Under the key of a standard type a name says the values that are written of this
type and no others. -/
theorem filter_key_listing (n : Name) (t : StandardType) :
    (n.listing.flatten.filter fun p => p.1 = t.key) = (n.valuesOf t).map fun v => (t.key, v) := by
  have hgroup : ∀ t' : StandardType,
      (((n.valuesOf t').map fun v => (t'.key, v)).filter fun p => p.1 = t.key) =
        if t' = t then (n.valuesOf t).map fun v => (t.key, v) else [] := by
    intro t'
    by_cases ht : t' = t
    · subst ht
      simp
    · have hkey : t'.key ≠ t.key := fun h => ht (StandardType.key_injective h)
      simp [ht, hkey]
  have hothers : ((n.attributes.filter fun a => a.standardType?.isNone).reverse.map
      fun a => [a.alone.pair]).flatten.filter (fun p => p.1 = t.key) = [] := by
    refine List.filter_eq_nil_iff.2 ?_
    intro p hp
    obtain ⟨r, hr, hpr⟩ := List.mem_flatten.1 hp
    obtain ⟨a, _, rfl⟩ := List.mem_map.1 hr
    rw [List.mem_singleton.1 hpr, decide_eq_true_eq]
    exact key_alone_ne a t
  rw [listing, List.flatten_append, List.filter_append, hothers, List.append_nil,
    List.flatten_filter_not_isEmpty, List.filter_flatten, List.map_map]
  -- Exactly one of the types that are written is `t`.
  simp only [Function.comp_def, hgroup]
  cases t <;> simp [StandardType.written]

/-! ## Names with the same text -/

/-- **The text of a name is normalised.** Names with the same attributes without a
standard type, and with the same texts for each standard type, have the same text,
however their types are interleaved and their attributes grouped. An attribute of a
standard type that has no text for a value can be left out, and so can a common name or
a serial number with a text before a later one of its type. So under the key of such a
type at most one value is ever read, the last text, and none if this is empty. -/
theorem text_normalised :
    (∀ n n' : Name, n.nonStandard = n'.nonStandard → (∀ t, n.stringsOf t = n'.stringsOf t) →
      n.text = n'.text) ∧
    (∀ (n n' : Name) (before after : List Attribute) (a : Attribute),
      n.attributes = before ++ a :: after → n'.attributes = before ++ after →
      a.IsPassedOver after → n'.text = n.text) ∧
    ∀ (n : Name) (t : StandardType), t.isSingle = true →
      ∃ rdns, NameText.read? n.text = some rdns ∧
        (rdns.flatten.filter fun p => p.1 = t.key) =
          match (n.stringsOf t).getLast? with
          | some v => if v = "" then [] else [(t.key, v)]
          | none => [] := by
  refine ⟨fun n n' hrest hstrings => ?_, fun n n' before after a h h' hpassed => ?_,
    fun n t hsingle => ⟨n.listing, n.read?_text, ?_⟩⟩
  · refine text_congr hrest fun t => ?_
    rw [valuesOf_eq, valuesOf_eq, hstrings]
  · exact text_congr (nonStandard_of_removed h h' hpassed) (valuesOf_of_removed h h' hpassed)
  · rw [filter_key_listing, valuesOf_eq, if_pos hsingle]
    cases (n.stringsOf t).getLast? with
    | none => rfl
    | some v => by_cases hv : v = "" <;> simp [hv]

/-- An attribute with a text in UTF-8. -/
def sampleAttribute (path : Bytes) (text : String) : Attribute :=
  ⟨⟨path⟩, ⟨⟨.universal, false, 12⟩, Bytes.ofText text⟩⟩

/-- Two common names in sets of their own, the last of them empty, after an
organization. -/
def sampleSeparate : Name :=
  ⟨[[sampleAttribute [0x55, 4, 10] "O"], [sampleAttribute [0x55, 4, 3] "A"],
    [sampleAttribute [0x55, 4, 3] ""]], []⟩

/-- The same in one set, in another order. -/
def sampleJoined : Name :=
  ⟨[[sampleAttribute [0x55, 4, 3] "A", sampleAttribute [0x55, 4, 3] "",
    sampleAttribute [0x55, 4, 10] "O"]], []⟩

/-- The first common name left out. -/
def sampleRemoved : Name :=
  ⟨[[sampleAttribute [0x55, 4, 3] "", sampleAttribute [0x55, 4, 10] "O"]], []⟩

theorem text_normalised_sample :
    sampleSeparate.text = sampleJoined.text ∧ sampleRemoved.text = sampleJoined.text ∧
      ∃ rdns, NameText.read? sampleJoined.text = some rdns ∧
        (rdns.flatten.filter fun p => p.1 = "CN") = [] := by
  obtain ⟨hsame, hremoved, hsingle⟩ := text_normalised
  refine ⟨hsame _ _ (by decide) (by intro t; cases t <;> decide), ?_, ?_⟩
  · refine hremoved _ _ [] _ _ rfl rfl ⟨.commonName, by decide, .inr ⟨rfl, ?_⟩⟩
    exact ⟨sampleAttribute [0x55, 4, 3] "", by decide, by decide⟩
  · exact hsingle sampleJoined .commonName rfl

end Name

end SignedPdf.X509
