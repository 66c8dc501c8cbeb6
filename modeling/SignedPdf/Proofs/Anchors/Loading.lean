import Mathlib.Data.List.Dedup
import SignedPdf.Anchors.Directory
import SignedPdf.Proofs.Anchors.Filing

/-!
# How anchors are loaded

Certificates, bundles and directories are loaded into an empty set one after
the other, and each may fail midway. Whatever happens, the set is the same as
if some octet strings had been offered to it in order, of which it takes those
that start with a certificate.

* `Load.run_eq`: every way of loading offers some octet strings in order.
* `filed_ofLoads`: the invariant of the store holds after every history.
* `mem_withSubject_ofLoads` and `count_ofLoads` tell what a look-up finds and
  what the count is, from the accepted octet strings alone.
-/

namespace SignedPdf

namespace Anchors

/-! ## Octet strings offered in order -/

/-- The set after octets have been offered to it; it stays as it is if they do
not start with a certificate. -/
def offer (a : Anchors) (der : Bytes) : Anchors :=
  match a.add der with
  | .ok a' => a'
  | .error _ => a

/-- The set after octet strings have been offered to it one by one. -/
def offerAll (a : Anchors) (ders : List Bytes) : Anchors := ders.foldl offer a

theorem offerAll_append (a : Anchors) (ders ders' : List Bytes) :
    a.offerAll (ders ++ ders') = (a.offerAll ders).offerAll ders' := List.foldl_append

theorem offer_of_subjectOf?_eq_some {a : Anchors} {der subject : Bytes}
    (h : subjectOf? der = some subject) : a.offer der = a.insert subject der := by
  simp only [offer, add_eq_ok_iff.2 ⟨subject, h, rfl⟩]

theorem offer_of_subjectOf?_eq_none {a : Anchors} {der : Bytes} (h : subjectOf? der = none) :
    a.offer der = a := by
  unfold offer
  split
  · next a' ha =>
    obtain ⟨subject, hsubject, _⟩ := add_eq_ok_iff.1 ha
    rw [h] at hsubject
    cases hsubject
  · rfl

theorem Filed.offer {a : Anchors} (h : a.Filed) (der : Bytes) : (a.offer der).Filed := by
  cases hs : subjectOf? der with
  | none =>
    rw [offer_of_subjectOf?_eq_none hs]
    exact h
  | some subject =>
    rw [offer_of_subjectOf?_eq_some hs]
    exact h.insert hs

theorem Filed.mem_stored_offer {a : Anchors} (h : a.Filed) {der d : Bytes} :
    d ∈ (a.offer der).stored ↔ d ∈ a.stored ∨ d = der ∧ (subjectOf? der).isSome = true := by
  cases hs : subjectOf? der with
  | none => simp [offer_of_subjectOf?_eq_none hs]
  | some subject => simp [offer_of_subjectOf?_eq_some hs, h.mem_stored_insert]

/-- The invariant holds after any run of offers, and what is stored then was
stored before or has been offered and holds a certificate. -/
theorem Filed.offerAll {a : Anchors} (h : a.Filed) (ders : List Bytes) :
    (a.offerAll ders).Filed ∧ ∀ d, d ∈ (a.offerAll ders).stored ↔
      d ∈ a.stored ∨ d ∈ ders ∧ (subjectOf? d).isSome = true := by
  induction ders generalizing a with
  | nil => exact ⟨h, fun d => by simp [Anchors.offerAll]⟩
  | cons der ders ih =>
    obtain ⟨hfiled, hmem⟩ := ih (h.offer der)
    refine ⟨hfiled, fun d => (hmem d).trans ?_⟩
    rw [h.mem_stored_offer, List.mem_cons]
    constructor
    · rintro ((hd | ⟨rfl, hd⟩) | ⟨hd, hs⟩)
      · exact .inl hd
      · exact .inr ⟨.inl rfl, hd⟩
      · exact .inr ⟨.inr hd, hs⟩
    · rintro (hd | ⟨rfl | hd, hs⟩)
      · exact .inl (.inl hd)
      · exact .inl (.inr ⟨rfl, hs⟩)
      · exact .inr ⟨hd, hs⟩

/-- What a look-up finds after any run of offers, whatever set they are made to: what it
found before, and the offers with this subject. -/
theorem mem_withSubject_offerAll {a : Anchors} {ders : List Bytes} {subject d : Bytes} :
    d ∈ (a.offerAll ders).withSubject subject ↔
      d ∈ a.withSubject subject ∨ d ∈ ders ∧ subjectOf? d = some subject := by
  induction ders generalizing a with
  | nil => simp [Anchors.offerAll]
  | cons der ders ih =>
    have hoffer : d ∈ (a.offer der).withSubject subject ↔
        d ∈ a.withSubject subject ∨ d = der ∧ subjectOf? d = some subject := by
      cases hs : subjectOf? der with
      | none =>
        rw [offer_of_subjectOf?_eq_none hs]
        refine ⟨.inl, ?_⟩
        rintro (hd | ⟨rfl, hd⟩)
        · exact hd
        · rw [hs] at hd
          cases hd
      | some found =>
        rw [offer_of_subjectOf?_eq_some hs, mem_withSubject_insert]
        refine or_congr_right ⟨?_, ?_⟩
        · rintro ⟨rfl, rfl⟩
          exact ⟨rfl, hs⟩
        · rintro ⟨rfl, hd⟩
          rw [hs, Option.some.injEq] at hd
          exact ⟨hd.symm, rfl⟩
    have hcons : a.offerAll (der :: ders) = (a.offer der).offerAll ders := rfl
    rw [hcons, ih, hoffer, List.mem_cons, or_and_right, or_assoc]

/-! ## What bundles and directories offer -/

/-- What blocks offer: the contents of those with the label of certificates. -/
def offersOf (blocks : List Pem.Block) : List Bytes :=
  (blocks.filter fun b => b.label = bundleLabel).map Pem.Block.contents

/-- What a bundle offers: its blocks before the first one that cannot be
read. -/
def bundleOffers (bundle : Bytes) : List Bytes := offersOf (Pem.blocks bundle).1

/-- What an entry of a directory offers: its bundle, if it is one that can be
read. -/
def entryOffers (e : DirectoryEntry) : List Bytes :=
  match e.contents with
  | none => []
  | some bundle => if isBundleName e.name then bundleOffers bundle else []

/-- Adding a block leaves the set as offering its contents does. -/
theorem addBlock_fst (s : Anchors × Nat) (b : Pem.Block) :
    (addBlock s b).1 = s.1.offerAll (offersOf [b]) := by
  unfold addBlock
  by_cases hb : b.label = bundleLabel
  · simp only [hb, if_true, offersOf, List.filter_cons, decide_true, List.filter_nil, List.map_cons,
      List.map_nil, offerAll, List.foldl_cons, List.foldl_nil, offer]
    cases s.1.add b.contents <;> rfl
  · simp only [hb, if_false, offersOf, List.filter_cons, decide_false, Bool.false_eq_true,
      List.filter_nil, List.map_nil, offerAll, List.foldl_nil]

theorem foldl_addBlock_fst (blocks : List Pem.Block) (s : Anchors × Nat) :
    (blocks.foldl addBlock s).1 = s.1.offerAll (offersOf blocks) := by
  induction blocks generalizing s with
  | nil => rfl
  | cons b blocks ih =>
    have hsplit : offersOf (b :: blocks) = offersOf [b] ++ offersOf blocks := by
      simp only [offersOf, ← List.map_append, ← List.filter_append, List.singleton_append]
    rw [List.foldl_cons, ih, addBlock_fst, hsplit, offerAll_append]

/-- A bundle, read to its end or not, leaves the set as offering its contents
does. -/
theorem addBundle_fst (a : Anchors) (bundle : Bytes) :
    (a.addBundle bundle).1 = a.offerAll (bundleOffers bundle) := by
  rw [bundleOffers, ← foldl_addBlock_fst (Pem.blocks bundle).1 (a, 0)]
  simp only [addBundle]
  split <;> rfl

theorem addEntry_fst (s : Anchors × Nat) (e : DirectoryEntry) :
    (addEntry s e).1 = s.1.offerAll (entryOffers e) := by
  unfold addEntry entryOffers
  cases e.contents with
  | none => rfl
  | some bundle =>
    by_cases hname : isBundleName e.name = true
    · simp only [hname, if_true, ← addBundle_fst]
      split <;> next hbundle => rw [hbundle]
    · simp only [hname, if_false, Bool.false_eq_true]
      rfl

theorem addEntries_fst (a : Anchors) (entries : List DirectoryEntry) :
    (a.addEntries entries).1 = a.offerAll (entries.flatMap entryOffers) := by
  suffices h : ∀ s : Anchors × Nat,
      (entries.foldl addEntry s).1 = s.1.offerAll (entries.flatMap entryOffers) from h (a, 0)
  induction entries with
  | nil => exact fun s => rfl
  | cons e entries ih =>
    intro s
    rw [List.foldl_cons, ih, addEntry_fst, List.flatMap_cons, offerAll_append]

/-! ## Histories -/

/-- A way of adding anchors to a set. -/
inductive Load where
  | certificate (der : Bytes)
  | bundle (octets : Bytes)
  | directory (fs : FileSystem) (path : String)

namespace Load

/-- The set that is left, whether the loading succeeds or fails. -/
def run : Load → Anchors → Anchors
  | .certificate der, a => a.offer der
  | .bundle octets, a => (a.addBundle octets).1
  | .directory fs path, a => (a.addDirectory fs path).1

/-- The octet strings that are offered to the set. -/
def offers : Load → List Bytes
  | .certificate der => [der]
  | .bundle octets => bundleOffers octets
  | .directory fs path =>
    match fs.list path with
    | .ok listing => listing.entries.flatMap entryOffers
    | .error _ => []

/-- Every way of loading offers some octet strings in order. -/
theorem run_eq (l : Load) (a : Anchors) : l.run a = a.offerAll l.offers := by
  cases l with
  | certificate der => rfl
  | bundle octets => exact addBundle_fst a octets
  | directory fs path =>
    simp only [run, offers, addDirectory]
    cases fs.list path with
    | error fault => rfl
    | ok listing =>
      simp only [← addEntries_fst]
      cases listing.fault <;> rfl

end Load

/-- The set that a history of loads builds, failed ones included. -/
def ofLoads (loads : List Load) : Anchors := loads.foldl (fun a l => l.run a) empty

/-- The octet strings that a history of loads adds: those that are offered and
start with a certificate. -/
def accepted (loads : List Load) : List Bytes :=
  (loads.flatMap Load.offers).filter fun der => (subjectOf? der).isSome

theorem ofLoads_concat (loads : List Load) (l : Load) :
    ofLoads (loads ++ [l]) = l.run (ofLoads loads) := List.foldl_concat ..

theorem accepted_append (loads loads' : List Load) :
    accepted (loads ++ loads') = accepted loads ++ accepted loads' := by
  simp only [accepted, List.flatMap_append, List.filter_append]

theorem ofLoads_eq_offerAll (loads : List Load) :
    ofLoads loads = empty.offerAll (loads.flatMap Load.offers) := by
  suffices h : ∀ a : Anchors,
      loads.foldl (fun a l => l.run a) a = a.offerAll (loads.flatMap Load.offers) from h empty
  induction loads with
  | nil => exact fun a => rfl
  | cons l loads ih =>
    intro a
    rw [List.foldl_cons, ih, Load.run_eq, List.flatMap_cons, offerAll_append]

/-- The invariant holds after every history of loads. -/
theorem filed_ofLoads (loads : List Load) : (ofLoads loads).Filed := by
  rw [ofLoads_eq_offerAll]
  exact (filed_empty.offerAll _).1

/-- What is stored is exactly what has been accepted. -/
theorem mem_stored_ofLoads {loads : List Load} {der : Bytes} :
    der ∈ (ofLoads loads).stored ↔ der ∈ accepted loads := by
  rw [ofLoads_eq_offerAll, (filed_empty.offerAll _).2, accepted, List.mem_filter]
  simp [stored, empty]

/-- A look-up finds exactly the accepted certificates with that subject. -/
theorem mem_withSubject_ofLoads {loads : List Load} {subject der : Bytes} :
    der ∈ (ofLoads loads).withSubject subject ↔
      der ∈ accepted loads ∧ subjectOf? der = some subject := by
  rw [(filed_ofLoads loads).mem_withSubject_iff, mem_stored_ofLoads]

/-- The count is the number of different accepted certificates. -/
theorem count_ofLoads (loads : List Load) :
    (ofLoads loads).count = (accepted loads).dedup.length := by
  rw [(filed_ofLoads loads).counted]
  refine List.Perm.length_eq ?_
  refine (List.perm_ext_iff_of_nodup (filed_ofLoads loads).distinct (List.nodup_dedup _)).2 ?_
  intro der
  rw [mem_stored_ofLoads, List.mem_dedup]

end Anchors

end SignedPdf
