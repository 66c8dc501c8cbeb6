import Mathlib.Data.List.Basic
import SignedPdf.Proofs.CommandLine.Arguments
import SignedPdf.Proofs.CommandLine.Items

/-!
# The grammar of command lines

Arguments are understood exactly if they are items with one document among them.
Otherwise the leftmost thing that is out of place is reported, or that the document is
missing if nothing is out of place. While arguments are read, a draft holds what the
items so far ask for.

* `Draft.Records.add` and `Draft.Records.exists_parseFrom`: what a draft holds after one
  item, and after many.
* `Draft.Records.takenApart`: all arguments are items, up to something out of place.
* `parse_eq_ok_iff` and `parse_eq_error_iff`: when arguments are understood, and what is
  reported if they are not.
* `parse_grammar`: which arguments are understood, what they ask for, and what is reported
  of the others.
-/

namespace SignedPdf

namespace CommandLine

variable {items items' : List Item} {item : Item} {rest arguments : List String}
  {fault : ArgumentFault} {d : Draft} {a b : Arguments}

/-! ## What a draft holds -/

/-- The draft holds what the items ask for. -/
structure Draft.Records (d : Draft) (items : List Item) : Prop where
  document : documentsOf items = d.document.toList
  bundles : bundlesOf items = d.bundles.reverse
  useSystem : d.useSystem = false ↔ Item.withoutSystem ∈ items
  pretty : d.pretty = true ↔ Item.pretty ∈ items
  withCertificates : d.withCertificates = true ↔ Item.withCertificates ∈ items

/-- The draft after one more item. -/
def Draft.add (d : Draft) : Item → Draft
  | .withoutSystem => { d with useSystem := false }
  | .pretty => { d with pretty := true }
  | .withCertificates => { d with withCertificates := true }
  | .bundle path => { d with bundles := path :: d.bundles }
  | .document path _ => { d with document := some path }

theorem Draft.records_empty : ({} : Draft).Records [] :=
  ⟨rfl, rfl, by simp, by simp, by simp⟩

/-- The item is no second document. -/
def Draft.Takes (d : Draft) (item : Item) : Prop := item.document? = none ∨ d.document = none

theorem Draft.Records.takes (h : d.Records items)
    (hone : (documentsOf (items ++ [item])).length ≤ 1) : d.Takes item := by
  cases hpath : item.document? with
  | none => exact .inl hpath
  | some path =>
    rw [documentsOf_append, documentsOf_cons, hpath, h.document] at hone
    cases hdocument : d.document with
    | none => exact .inr hdocument
    | some document =>
      rw [hdocument] at hone
      simp at hone

/-- One more item is written down. -/
theorem Draft.Records.add (h : d.Records items) (item : Item) (htakes : d.Takes item) :
    (d.add item).Records (items ++ [item]) := by
  obtain ⟨hdocument, hbundles, hsystem, hpretty, hpem⟩ := h
  cases item with
  | document path hpath =>
    rw [htakes.resolve_left (by simp [Item.document?])] at hdocument
    constructor <;> simp_all [Draft.add, documentsOf, bundlesOf, Item.document?, Item.bundle?]
  | withoutSystem | pretty | withCertificates | bundle path =>
    constructor <;> simp_all [Draft.add, documentsOf, bundlesOf, Item.document?, Item.bundle?]

/-- An argument that is no option is the document, which is named once. -/
theorem parseFrom_of_notMem {argument : String} (hname : argument ∉ optionNames) (d : Draft)
    (rest : List String) :
    parseFrom d (argument :: rest) =
      if argument.startsWith "-" then .error (.unknownOption argument)
      else
        match d.document with
        | some _ => .error (.unexpectedArgument argument)
        | none => parseFrom { d with document := some argument } rest :=
  have ⟨hbundle, hsystem, hpretty, hpem⟩ := notMem_optionNames_iff.1 hname
  parseFrom_cons hbundle hsystem hpretty hpem d rest

/-- One item is read. -/
theorem parseFrom_words (htakes : d.Takes item) (rest : List String) :
    parseFrom d (item.words ++ rest) = parseFrom (d.add item) rest := by
  cases item with
  | document path hpath =>
    rw [Item.words, List.singleton_append, parseFrom_of_notMem (notMem_optionNames hpath),
      if_neg hpath, htakes.resolve_left (by simp [Item.document?])]
    rfl
  | withoutSystem | pretty | withCertificates | bundle path => rfl

/-- Items with one document at most are read to their end. -/
theorem Draft.Records.exists_parseFrom (h : d.Records items)
    (hone : (documentsOf (items ++ items')).length ≤ 1) (rest : List String) :
    ∃ e : Draft, parseFrom d (spelled items' ++ rest) = parseFrom e rest ∧
      e.Records (items ++ items') := by
  -- Each item moves from those to come to those that the draft holds.
  induction items' generalizing d items with
  | nil => exact ⟨d, rfl, by rwa [List.append_nil]⟩
  | cons item items' ih =>
    have hitems : items ++ item :: items' = (items ++ [item]) ++ items' := by simp
    rw [hitems] at hone ⊢
    have htakes : d.Takes item := by
      rw [documentsOf_append, List.length_append] at hone
      exact h.takes (by omega)
    obtain ⟨e, hread, he⟩ := ih (h.add item htakes) hone
    refine ⟨e, ?_, he⟩
    rw [spelled_cons_append, parseFrom_words htakes, hread]

/-- Reading stops where something is out of place. -/
theorem Draft.Records.parseFrom_of_offends (h : d.Records items)
    (hoffends : Offends items rest fault) : parseFrom d rest = .error fault := by
  cases hoffends with
  | bundleMissing => rfl
  | unknownOption hdash hname rest => rw [parseFrom_of_notMem hname, if_pos hdash]
  | unexpectedArgument hdash hdocument rest =>
    obtain ⟨document, hsome⟩ : ∃ document, d.document = some document := by
      rw [h.document] at hdocument
      exact Option.ne_none_iff_exists'.1 (mt Option.toList_eq_nil_iff.2 hdocument)
    rw [parseFrom_of_notMem (notMem_optionNames hdash), if_neg hdash, hsome]

/-! ## Taking arguments apart -/

/-- After the items, the arguments are more items, with one document at most among all of
them, up to something out of place. -/
def TakenApart (items : List Item) (arguments : List String) : Prop :=
  ∃ more rest, spelled more ++ rest = arguments ∧ (documentsOf (items ++ more)).length ≤ 1 ∧
    (rest = [] ∨ ∃ fault, Offends (items ++ more) rest fault)

theorem TakenApart.cons (h : TakenApart (items ++ [item]) arguments) :
    TakenApart items (item.words ++ arguments) := by
  obtain ⟨more, rest, rfl, hone, hrest⟩ := h
  rw [List.append_assoc, List.singleton_append] at hone hrest
  exact ⟨item :: more, rest, spelled_cons_append item more rest, hone, hrest⟩

theorem Draft.Records.takenApart_rest (h : d.Records items)
    (hrest : rest = [] ∨ ∃ fault, Offends items rest fault) : TakenApart items rest := by
  refine ⟨[], rest, rfl, ?_, ?_⟩
  · rw [List.append_nil, h.document]
    cases d.document <;> simp
  · rwa [List.append_nil]

/-- All arguments can be taken apart. -/
theorem Draft.Records.takenApart (h : d.Records items) (arguments : List String) :
    TakenApart items arguments := by
  -- By the cases of reading: where it goes on there is one more item, and where it stops there
  -- is nothing left or something out of place. The draft tells whether there is a document.
  induction d, arguments using parseFrom.induct generalizing items with
  | case1 d => exact h.takenApart_rest (.inl rfl)
  | case2 d => exact h.takenApart_rest (.inr ⟨_, .bundleMissing⟩)
  | case3 d path rest ih => exact (ih (h.add (.bundle path) (.inl rfl))).cons
  | case4 d rest ih => exact (ih (h.add .withoutSystem (.inl rfl))).cons
  | case5 d rest ih => exact (ih (h.add .pretty (.inl rfl))).cons
  | case6 d rest ih => exact (ih (h.add .withCertificates (.inl rfl))).cons
  | case7 d argument rest hlast hpath hsystem hpretty hpem hoption =>
    have hname : argument ∉ optionNames :=
      notMem_optionNames_iff.2 ⟨ne_anchors hlast hpath, hsystem, hpretty, hpem⟩
    exact h.takenApart_rest (.inr ⟨_, .unknownOption hoption hname rest⟩)
  | case8 d argument rest hlast hpath hsystem hpretty hpem hoption document hdocument =>
    have hdocuments : documentsOf items ≠ [] := by simp [h.document, hdocument]
    exact h.takenApart_rest (.inr ⟨_, .unexpectedArgument hoption hdocuments rest⟩)
  | case9 d argument rest hlast hpath hsystem hpretty hpem hoption hdocument ih =>
    exact (ih (h.add (.document argument hoption) (.inr hdocument))).cons

/-! ## What command lines ask for -/

/-- What the items ask for. -/
structure Asks (items : List Item) (a : Arguments) : Prop where
  document : documentsOf items = [a.document]
  bundles : a.bundles = bundlesOf items
  useSystem : a.useSystem = false ↔ Item.withoutSystem ∈ items
  pretty : a.pretty = true ↔ Item.pretty ∈ items
  withCertificates : a.withCertificates = true ↔ Item.withCertificates ∈ items

theorem Asks.unique (ha : Asks items a) (hb : Asks items b) : a = b := by
  have hdocument : a.document = b.document :=
    List.singleton_inj.1 (ha.document.symm.trans hb.document)
  have hsystem : a.useSystem = b.useSystem :=
    Bool.eq_iff_iff.2 (by simpa using not_congr (ha.useSystem.trans hb.useSystem.symm))
  have hpretty : a.pretty = b.pretty :=
    Bool.eq_iff_iff.2 (ha.pretty.trans hb.pretty.symm)
  have hpem : a.withCertificates = b.withCertificates :=
    Bool.eq_iff_iff.2 (ha.withCertificates.trans hb.withCertificates.symm)
  cases a
  cases b
  rw [Arguments.mk.injEq]
  exact ⟨hdocument, ha.bundles.trans hb.bundles.symm, hsystem, hpretty, hpem⟩

/-- The order of the items matters only among bundles. -/
theorem Asks.perm (h : Asks items a) (hperm : items'.Perm items)
    (hbundles : bundlesOf items' = bundlesOf items) : Asks items' a where
  document := List.perm_singleton.1 (h.document ▸ hperm.filterMap Item.document?)
  bundles := h.bundles.trans hbundles.symm
  useSystem := h.useSystem.trans hperm.mem_iff.symm
  pretty := h.pretty.trans hperm.mem_iff.symm
  withCertificates := h.withCertificates.trans hperm.mem_iff.symm

theorem Draft.Records.exists_finish (h : d.Records items) {path : String}
    (hone : documentsOf items = [path]) : ∃ a, d.finish = .ok a ∧ Asks items a := by
  have hdocument : d.document = some path :=
    Option.toList_eq_singleton_iff.1 (h.document.symm.trans hone)
  refine ⟨_, by rw [finish, hdocument], ?_⟩
  exact ⟨hone, h.bundles.symm, h.useSystem, h.pretty, h.withCertificates⟩

theorem Draft.Records.finish_eq_error (h : d.Records items) (hnone : documentsOf items = []) :
    d.finish = .error .documentMissing := by
  have hdocument : d.document = none :=
    Option.toList_eq_nil_iff.1 (h.document.symm.trans hnone)
  rw [finish, hdocument]

/-- Arguments that start with such items are read on from a draft that holds these. -/
theorem exists_parse_spelled_append (hone : (documentsOf items).length ≤ 1) (rest : List String) :
    ∃ d : Draft, d.Records items ∧
      Arguments.parse (spelled items ++ rest) = parseFrom d rest >>= Draft.finish := by
  obtain ⟨d, hread, h⟩ := Draft.records_empty.exists_parseFrom hone rest
  exact ⟨d, h, by rw [Arguments.parse, hread]⟩

theorem exists_parse_spelled_eq (hone : (documentsOf items).length ≤ 1) :
    ∃ d : Draft, d.Records items ∧ Arguments.parse (spelled items) = d.finish := by
  obtain ⟨d, h, hparse⟩ := exists_parse_spelled_append hone []
  rw [List.append_nil] at hparse
  exact ⟨d, h, hparse⟩

/-- Items with one document are understood. -/
theorem exists_parse_spelled {path : String} (hone : documentsOf items = [path]) :
    ∃ a, Arguments.parse (spelled items) = .ok a ∧ Asks items a := by
  have hlength : (documentsOf items).length ≤ 1 := by simp [hone]
  obtain ⟨d, h, hparse⟩ := exists_parse_spelled_eq hlength
  obtain ⟨a, hfinish, hasks⟩ := h.exists_finish hone
  exact ⟨a, hparse.trans hfinish, hasks⟩

/-- Without a document they are not. -/
theorem parse_spelled_eq_error (hnone : documentsOf items = []) :
    Arguments.parse (spelled items) = .error .documentMissing := by
  have hlength : (documentsOf items).length ≤ 1 := by simp [hnone]
  obtain ⟨d, h, hparse⟩ := exists_parse_spelled_eq hlength
  exact hparse.trans (h.finish_eq_error hnone)

theorem parse_eq_error_of_offends (hone : (documentsOf items).length ≤ 1)
    (h : Offends items rest fault) : Arguments.parse (spelled items ++ rest) = .error fault := by
  obtain ⟨d, hrecords, hparse⟩ := exists_parse_spelled_append hone rest
  rw [hparse, hrecords.parseFrom_of_offends h]
  rfl

theorem Asks.parse_spelled (h : Asks items a) : Arguments.parse (spelled items) = .ok a := by
  obtain ⟨b, hparse, hb⟩ := exists_parse_spelled h.document
  rw [hparse, hb.unique h]

/-! ## The grammar -/

/-- Either the arguments are items with one document, or they have a first fault, which is
reported. -/
theorem parse_cases (arguments : List String) :
    (∃ items a, spelled items = arguments ∧ Asks items a ∧ Arguments.parse arguments = .ok a) ∨
      ∃ fault, FirstFault arguments fault ∧ Arguments.parse arguments = .error fault := by
  obtain ⟨items, rest, rfl, hone, hrest⟩ := Draft.records_empty.takenApart arguments
  rw [List.nil_append] at hone hrest
  rcases hrest with rfl | ⟨fault, hoffends⟩
  · rw [List.append_nil]
    cases hdocuments : documentsOf items with
    | nil =>
      exact .inr ⟨_, .documentMissing rfl hdocuments fun _ _ => not_faultAfter hone,
        parse_spelled_eq_error hdocuments⟩
    | cons path paths =>
      rw [hdocuments, List.length_cons] at hone
      obtain rfl : paths = [] := List.length_eq_zero_iff.1 (by omega)
      obtain ⟨a, hparse, hasks⟩ := exists_parse_spelled hdocuments
      exact .inl ⟨items, a, rfl, hasks, hparse⟩
  · exact .inr ⟨fault, .leftmost ⟨rest, rfl, hoffends⟩ fun _ _ => prefix_of_faultAfter rfl hone,
      parse_eq_error_of_offends hone hoffends⟩

/-- Arguments are understood exactly if they are items with one document, and ask for what
these ask for. -/
theorem parse_eq_ok_iff :
    Arguments.parse arguments = .ok a ↔ ∃ items, spelled items = arguments ∧ Asks items a := by
  constructor
  · intro h
    rcases parse_cases arguments with ⟨items, b, hspelled, hasks, hparse⟩ | ⟨fault, _, hparse⟩
    · rw [hparse] at h
      cases h
      exact ⟨items, hspelled, hasks⟩
    · rw [hparse] at h
      cases h
  · rintro ⟨items, rfl, hasks⟩
    exact hasks.parse_spelled

/-- What is reported is the first fault. -/
theorem parse_eq_error_iff :
    Arguments.parse arguments = .error fault ↔ FirstFault arguments fault := by
  rcases parse_cases arguments with ⟨items, a, rfl, hasks, hparse⟩ | ⟨first, hfirst, hparse⟩
  · rw [hparse]
    exact ⟨fun h => (by cases h), fun h => absurd h (not_firstFault hasks.document)⟩
  · rw [hparse, Except.error.injEq]
    constructor
    · rintro rfl
      exact hfirst
    · exact hfirst.unique

/-- **Which arguments are understood.** Arguments are understood exactly if they are items,
in any order, with one document among them. They ask for this document, for the bundles
that are named, in order, and for each switch exactly if it is among the items. The items
may be put in another order, as long as that of the bundles is kept: they ask for the same.
Of other arguments the leftmost thing that is out of place is reported, and that the
document is missing only if nothing is. -/
theorem parse_grammar (arguments : List String) :
    ((∃ a, Arguments.parse arguments = .ok a) ↔
        ∃ items path, spelled items = arguments ∧ documentsOf items = [path]) ∧
      (∀ items a, spelled items = arguments → Arguments.parse arguments = .ok a →
        Asks items a ∧
          ∀ items', items'.Perm items → bundlesOf items' = bundlesOf items →
            Arguments.parse (spelled items') = .ok a) ∧
      ∀ fault, Arguments.parse arguments = .error fault ↔ FirstFault arguments fault := by
  refine ⟨⟨?_, ?_⟩, ?_, fun fault => parse_eq_error_iff⟩
  · rintro ⟨a, hparse⟩
    obtain ⟨items, hspelled, hasks⟩ := parse_eq_ok_iff.1 hparse
    exact ⟨items, a.document, hspelled, hasks.document⟩
  · rintro ⟨items, path, rfl, hone⟩
    obtain ⟨a, hparse, _⟩ := exists_parse_spelled hone
    exact ⟨a, hparse⟩
  · rintro items a rfl hparse
    obtain ⟨read, hspelled, hasks⟩ := parse_eq_ok_iff.1 hparse
    obtain rfl := spelled_injective hspelled
    exact ⟨hasks, fun items' hperm hbundles => (hasks.perm hperm hbundles).parse_spelled⟩

/-- Two bundles, whose paths look like options, a switch and the document. -/
def sampleItems : List Item :=
  [.bundle "--pem", .document "a.pdf" (by decide +kernel), .pretty, .bundle "--anchors"]

/-- What follows an option is a path whatever it looks like, also with the items in another
order; a second document is reported although an unknown option comes later. -/
theorem parse_grammar_sample :
    Asks sampleItems { document := "a.pdf", bundles := ["--pem", "--anchors"], pretty := true } ∧
      Arguments.parse ["--pretty", "--anchors", "--pem", "--anchors", "--anchors", "a.pdf"] =
        .ok { document := "a.pdf", bundles := ["--pem", "--anchors"], pretty := true } ∧
      FirstFault ["a.pdf", "--anchors", "-x", "b.pdf", "-x"] (.unexpectedArgument "b.pdf") := by
  have hparse : Arguments.parse ["--anchors", "--pem", "a.pdf", "--pretty", "--anchors",
      "--anchors"] =
      .ok { document := "a.pdf", bundles := ["--pem", "--anchors"], pretty := true } := by
    decide +kernel
  obtain ⟨-, hunderstood, -⟩ := parse_grammar ["--anchors", "--pem", "a.pdf", "--pretty",
    "--anchors", "--anchors"]
  obtain ⟨hasks, hperm⟩ := hunderstood sampleItems _ rfl hparse
  obtain ⟨-, -, hreported⟩ := parse_grammar ["a.pdf", "--anchors", "-x", "b.pdf", "-x"]
  refine ⟨hasks, ?_, (hreported _).1 (by decide +kernel)⟩
  exact hperm [.pretty, .bundle "--pem", .bundle "--anchors",
    .document "a.pdf" (by decide +kernel)] (by decide) rfl

end CommandLine

end SignedPdf
