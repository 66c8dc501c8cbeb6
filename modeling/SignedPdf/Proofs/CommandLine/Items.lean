import SignedPdf.CommandLine.Arguments

/-!
# Items of a command line

A command line is made of items: a switch, an option with the path of a bundle, or the
document. An option takes whatever argument follows it, so where an item starts is
settled by everything to its left; still there is only one way to take arguments apart.

* `Item.words_append_inj`: an item can be told from how it is written.
* `spelled_injective`: so can items in a row.
* `Offends` and `FaultAfter`: what is out of place after some items, and in arguments.
* `prefix_of_faultAfter`: items with one document at most are to the left of whatever is
  out of place.
-/

namespace SignedPdf

namespace CommandLine

/-! ## Items -/

/-- The arguments that are options. -/
def optionNames : List String := ["--anchors", "--no-system", "--pretty", "--pem"]

/-- One item of a command line. -/
inductive Item where
  /-- The anchors of the system do not count. -/
  | withoutSystem
  /-- The report is written over several lines. -/
  | pretty
  /-- The certificates of the signers are written, too. -/
  | withCertificates
  /-- A bundle, whatever its path looks like. -/
  | bundle (path : String)
  /-- The document, whose path does not look like an option. -/
  | document (path : String) (h : ¬ path.startsWith "-")
deriving DecidableEq, Repr

namespace Item

/-- The arguments that an item is written with. -/
def words : Item → List String
  | withoutSystem => ["--no-system"]
  | pretty => ["--pretty"]
  | withCertificates => ["--pem"]
  | bundle path => ["--anchors", path]
  | document path _ => [path]

/-- The path of a bundle. -/
def bundle? : Item → Option String
  | bundle path => some path
  | _ => none

/-- The path of a document. -/
def document? : Item → Option String
  | document path _ => some path
  | _ => none

end Item

/-- The arguments that items are written with, one after the other. -/
def spelled (items : List Item) : List String := items.flatMap Item.words

/-- The paths of the bundles among the items, in order. -/
def bundlesOf (items : List Item) : List String := items.filterMap Item.bundle?

/-- The paths of the documents among the items, in order. -/
def documentsOf (items : List Item) : List String := items.filterMap Item.document?

variable {items items' : List Item} {item item' : Item} {rest rest' : List String}

theorem spelled_append (items items' : List Item) :
    spelled (items ++ items') = spelled items ++ spelled items' :=
  List.flatMap_append

theorem spelled_cons_append (item : Item) (items : List Item) (rest : List String) :
    spelled (item :: items) ++ rest = item.words ++ (spelled items ++ rest) := by
  rw [spelled, List.flatMap_cons, List.append_assoc]
  rfl

theorem documentsOf_append (items items' : List Item) :
    documentsOf (items ++ items') = documentsOf items ++ documentsOf items' :=
  List.filterMap_append

theorem documentsOf_cons (item : Item) (items : List Item) :
    documentsOf (item :: items) = item.document?.toList ++ documentsOf items := by
  cases item <;> rfl

/-! ## Options and documents -/

variable {text : String}

/-- Every option looks like one. -/
theorem startsWith_of_mem_optionNames (h : text ∈ optionNames) : text.startsWith "-" := by
  simp only [optionNames, List.mem_cons, List.not_mem_nil, or_false] at h
  rcases h with rfl | rfl | rfl | rfl <;> decide +kernel

theorem notMem_optionNames (h : ¬ text.startsWith "-") : text ∉ optionNames :=
  mt startsWith_of_mem_optionNames h

theorem notMem_optionNames_iff :
    text ∉ optionNames ↔
      text ≠ "--anchors" ∧ text ≠ "--no-system" ∧ text ≠ "--pretty" ∧ text ≠ "--pem" := by
  simp [optionNames]

/-! ## Telling items apart -/

theorem Item.words_ne_nil (item : Item) : item.words ≠ [] := by
  cases item <;> exact List.cons_ne_nil _ _

/-- An item can be told from how it is written, whatever follows. -/
theorem Item.words_append_inj (h : item.words ++ rest = item'.words ++ rest') :
    item = item' ∧ rest = rest' := by
  -- The first argument tells the kind of the item, since a document is no option.
  cases item with
  | document path hpath =>
    have hname := notMem_optionNames hpath
    cases item' <;> simp_all [words, optionNames]
  | withoutSystem | pretty | withCertificates | bundle path =>
    cases item' with
    | document path' hpath =>
      have hname := notMem_optionNames hpath
      simp_all [words, optionNames]
    | _ => simp_all [words]

/-- Of two ways to start taking arguments apart, one goes on where the other stops. -/
theorem prefix_or_of_spelled_append (h : spelled items ++ rest = spelled items' ++ rest') :
    items <+: items' ∨ ∃ item more, items = items' ++ item :: more ∧
      rest' = item.words ++ (spelled more ++ rest) := by
  induction items generalizing items' with
  | nil => exact .inl List.nil_prefix
  | cons item items ih =>
    rw [spelled_cons_append] at h
    cases items' with
    | nil => exact .inr ⟨item, items, rfl, h.symm⟩
    | cons item' items' =>
      rw [spelled_cons_append] at h
      obtain ⟨rfl, hrest⟩ := Item.words_append_inj h
      rcases ih hrest with hprefix | ⟨next, more, rfl, hmore⟩
      · exact .inl ((List.prefix_cons_inj item).2 hprefix)
      · exact .inr ⟨next, more, rfl, hmore⟩

theorem prefix_of_spelled_eq (h : spelled items = spelled items') : items <+: items' := by
  have hnothing : spelled items ++ [] = spelled items' ++ [] := by rw [h]
  rcases prefix_or_of_spelled_append hnothing with hprefix | ⟨item, more, _, hnil⟩
  · exact hprefix
  · exact absurd (List.append_eq_nil_iff.1 hnil.symm).1 item.words_ne_nil

/-- Items can be told from how they are written. -/
theorem spelled_injective (h : spelled items = spelled items') : items = items' :=
  (prefix_of_spelled_eq h).eq_of_length_le (prefix_of_spelled_eq h.symm).length_le

/-! ## What is out of place -/

/-- After the items, the arguments go on with something that is out of place. -/
inductive Offends (items : List Item) : List String → ArgumentFault → Prop
  /-- No path follows. -/
  | bundleMissing : Offends items ["--anchors"] .bundleMissing
  /-- It looks like an option, and there is none of this name. -/
  | unknownOption {option : String} (h : option.startsWith "-") (hname : option ∉ optionNames)
    (rest : List String) : Offends items (option :: rest) (.unknownOption option)
  /-- There is a document already. -/
  | unexpectedArgument {argument : String} (h : ¬ argument.startsWith "-")
    (hdocument : documentsOf items ≠ []) (rest : List String) :
    Offends items (argument :: rest) (.unexpectedArgument argument)

/-- The arguments start with the items and go on with something that is out of place. -/
def FaultAfter (arguments : List String) (items : List Item) (fault : ArgumentFault) : Prop :=
  ∃ rest, spelled items ++ rest = arguments ∧ Offends items rest fault

variable {arguments : List String} {fault fault' : ArgumentFault}

theorem Offends.ne_nil (h : Offends items rest fault) : rest ≠ [] := by
  cases h <;> exact List.cons_ne_nil _ _

/-- Something that is out of place is so for one reason. -/
theorem Offends.unique (h : Offends items rest fault) (h' : Offends items rest fault') :
    fault = fault' := by
  cases h with
  | bundleMissing =>
    cases h' with
    | bundleMissing => rfl
    | unknownOption _ hname => exact absurd (by decide) hname
    | unexpectedArgument hpath => exact absurd (startsWith_of_mem_optionNames (by decide)) hpath
  | unknownOption hoption hname =>
    cases h' with
    | bundleMissing => exact absurd (by decide) hname
    | unknownOption => rfl
    | unexpectedArgument hpath => exact absurd hoption hpath
  | unexpectedArgument hpath =>
    cases h' with
    | bundleMissing => exact absurd (startsWith_of_mem_optionNames (by decide)) hpath
    | unknownOption hoption => exact absurd hoption hpath
    | unexpectedArgument => rfl

/-- An item is out of place only if it is a second document. -/
theorem Offends.of_words (h : Offends items (item.words ++ rest) fault) :
    ∃ path, item.document? = some path ∧ documentsOf items ≠ [] := by
  generalize hwords : item.words ++ rest = arguments at h
  cases h with
  | bundleMissing =>
    cases item with
    | document path hpath =>
      obtain ⟨rfl, -⟩ := List.cons.inj hwords
      exact absurd (startsWith_of_mem_optionNames (by decide)) hpath
    | _ => simp [Item.words] at hwords
  | unknownOption hoption hname =>
    cases item with
    | document path hpath =>
      obtain ⟨rfl, -⟩ := List.cons.inj hwords
      exact absurd hoption hpath
    | _ =>
      obtain ⟨rfl, -⟩ := List.cons.inj hwords
      exact absurd (by decide) hname
  | unexpectedArgument hargument hdocument =>
    cases item with
    | document path hpath => exact ⟨path, rfl, hdocument⟩
    | _ =>
      obtain ⟨rfl, -⟩ := List.cons.inj hwords
      exact absurd (startsWith_of_mem_optionNames (by decide)) hargument

/-- Items with one document at most are to the left of whatever is out of place. -/
theorem prefix_of_faultAfter (hspelled : spelled items ++ rest = arguments)
    (hone : (documentsOf items).length ≤ 1) (h : FaultAfter arguments items' fault) :
    items <+: items' := by
  obtain ⟨rest', hspelled', hoffends⟩ := h
  rcases prefix_or_of_spelled_append (hspelled.trans hspelled'.symm) with
    hprefix | ⟨item, more, rfl, rfl⟩
  · exact hprefix
  · -- The item that is out of place is among the items, so these have two documents.
    obtain ⟨path, hpath, hdocument⟩ := hoffends.of_words
    have hbefore := List.length_pos_iff.2 hdocument
    rw [documentsOf_append, documentsOf_cons, hpath] at hone
    simp only [List.length_append, Option.toList_some, List.length_singleton] at hone
    omega

/-- If there is nothing after such items, then nothing is out of place. -/
theorem not_faultAfter (hone : (documentsOf items).length ≤ 1) :
    ¬ FaultAfter (spelled items) items' fault := by
  intro h
  obtain ⟨more, rfl⟩ := prefix_of_faultAfter (List.append_nil _) hone h
  obtain ⟨rest, hrest, hoffends⟩ := h
  rw [spelled_append, List.append_assoc, List.append_right_eq_self] at hrest
  exact hoffends.ne_nil (List.append_eq_nil_iff.1 hrest).2

/-! ## The leftmost fault -/

/-- The fault of the leftmost thing that is out of place, or that the document is missing if
nothing is out of place. -/
inductive FirstFault (arguments : List String) : ArgumentFault → Prop
  | leftmost {items : List Item} {fault : ArgumentFault} (h : FaultAfter arguments items fault)
    (hfirst : ∀ items' fault', FaultAfter arguments items' fault' → items <+: items') :
    FirstFault arguments fault
  | documentMissing {items : List Item} (hspelled : spelled items = arguments)
    (hnone : documentsOf items = []) (hall : ∀ items' fault, ¬ FaultAfter arguments items' fault) :
    FirstFault arguments .documentMissing

theorem FirstFault.unique (h : FirstFault arguments fault) (h' : FirstFault arguments fault') :
    fault = fault' := by
  cases h with
  | leftmost hfault hfirst =>
    cases h' with
    | leftmost hfault' hfirst' =>
      obtain rfl := (hfirst _ _ hfault').eq_of_length_le (hfirst' _ _ hfault).length_le
      obtain ⟨rest, hrest, hoffends⟩ := hfault
      obtain ⟨rest', hrest', hoffends'⟩ := hfault'
      obtain rfl := List.append_cancel_left (hrest.trans hrest'.symm)
      exact hoffends.unique hoffends'
    | documentMissing _ _ hall => exact absurd hfault (hall _ _)
  | documentMissing _ _ hall =>
    cases h' with
    | leftmost hfault' => exact absurd hfault' (hall _ _)
    | documentMissing => rfl

/-- Items with one document have no fault. -/
theorem not_firstFault {path : String} (hone : documentsOf items = [path]) :
    ¬ FirstFault (spelled items) fault := by
  intro h
  cases h with
  | leftmost hfault => exact not_faultAfter (by simp [hone]) hfault
  | documentMissing hspelled hnone =>
    obtain rfl := spelled_injective hspelled
    rw [hone] at hnone
    cases hnone

end CommandLine

end SignedPdf
