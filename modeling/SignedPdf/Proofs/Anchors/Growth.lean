import Mathlib.Data.List.Dedup
import SignedPdf.Proofs.Anchors.Additions

/-!
# How far a set of anchors grows

Of the octet strings that are offered a set takes those that start with a certificate.
What it holds afterwards is what it held before and those among them that are new, each
once; so it grows by no more than there are, and by fewer if one of them comes again or
was there before. The loader counts every one of them.

* `foldlM_add_taken`: a set takes what is offered as if only the certificates among it
  were added, each with success.
* `Filed.count_offerAll`: the count grows by what is new.
* `addBundle_snd`: what is told of a bundle, whatever the set.
-/

namespace SignedPdf

namespace Anchors

variable {a : Anchors} {ders : List Bytes} {der : Bytes}

/-! ## What is taken -/

/-- Those of some octet strings that start with a certificate. -/
def taken (ders : List Bytes) : List Bytes := ders.filter fun der => (subjectOf? der).isSome

theorem mem_taken_iff : der ∈ taken ders ↔ der ∈ ders ∧ (subjectOf? der).isSome = true :=
  List.mem_filter

theorem taken_cons_of_eq_none (h : subjectOf? der = none) (ders : List Bytes) :
    taken (der :: ders) = taken ders := by
  simp [taken, h]

theorem taken_cons_of_eq_some {subject : Bytes} (h : subjectOf? der = some subject)
    (ders : List Bytes) : taken (der :: ders) = der :: taken ders := by
  simp [taken, h]

theorem taken_append (ders ders' : List Bytes) :
    taken (ders ++ ders') = taken ders ++ taken ders' :=
  List.filter_append ..

theorem accepted_eq (loads : List Load) : accepted loads = taken (loads.flatMap Load.offers) := rfl

/-- The set takes what is offered as if only the certificates among it were added, each
with success. -/
theorem foldlM_add_taken (a : Anchors) (ders : List Bytes) :
    (taken ders).foldlM add a = .ok (a.offerAll ders) := by
  induction ders generalizing a with
  | nil => rfl
  | cons der ders ih =>
    have hcons : a.offerAll (der :: ders) = (a.offer der).offerAll ders := rfl
    cases hs : subjectOf? der with
    | none => rw [taken_cons_of_eq_none hs, hcons, offer_of_subjectOf?_eq_none hs, ih]
    | some subject =>
      have hadd : a.add der = .ok (a.insert subject der) := add_eq_ok_iff.2 ⟨subject, hs, rfl⟩
      rw [taken_cons_of_eq_some hs, List.foldlM_cons, hadd, hcons,
        offer_of_subjectOf?_eq_some hs]
      exact ih _

/-- What does not start with a certificate makes no difference. -/
theorem offerAll_taken (a : Anchors) (ders : List Bytes) :
    a.offerAll (taken ders) = a.offerAll ders := by
  have htwice : taken (taken ders) = taken ders := by simp [taken]
  have h := foldlM_add_taken a (taken ders)
  rw [htwice, foldlM_add_taken] at h
  exact (Except.ok.inj h).symm

/-! ## What is new -/

/-- The certificates among some octet strings that a set does not hold, each once. -/
def fresh (a : Anchors) (ders : List Bytes) : List Bytes :=
  (taken ders).dedup.filter fun der => !a.stored.contains der

theorem mem_fresh_iff : der ∈ a.fresh ders ↔ der ∈ taken ders ∧ der ∉ a.stored := by
  simp [fresh]

theorem nodup_fresh (a : Anchors) (ders : List Bytes) : (a.fresh ders).Nodup :=
  (List.nodup_dedup _).filter _

theorem fresh_sublist (a : Anchors) (ders : List Bytes) : (a.fresh ders).Sublist (taken ders) :=
  List.filter_sublist.trans (List.dedup_sublist _)

/-- No more is new than has been offered. -/
theorem length_fresh_le (a : Anchors) (ders : List Bytes) : (a.fresh ders).length ≤ ders.length :=
  ((fresh_sublist a ders).trans List.filter_sublist).length_le

/-- Everything is new exactly if nothing comes twice and nothing was there before. -/
theorem length_fresh_eq_iff :
    (a.fresh ders).length = (taken ders).length ↔
      (taken ders).Nodup ∧ ∀ der ∈ taken ders, der ∉ a.stored := by
  constructor
  · intro h
    have heq : a.fresh ders = taken ders := (fresh_sublist a ders).eq_of_length h
    have hnodup := nodup_fresh a ders
    rw [heq] at hnodup
    refine ⟨hnodup, fun der hder => ?_⟩
    rw [← heq] at hder
    exact (mem_fresh_iff.1 hder).2
  · rintro ⟨hnodup, hnew⟩
    rw [fresh, hnodup.dedup, List.filter_eq_self.2]
    simpa using hnew

/-- How much is new is settled by what is taken that was not there before. -/
theorem length_fresh_congr {ders' : List Bytes}
    (hsame : ∀ der, der ∉ a.stored → (der ∈ taken ders ↔ der ∈ taken ders')) :
    (a.fresh ders).length = (a.fresh ders').length := by
  refine ((List.perm_ext_iff_of_nodup (nodup_fresh a ders) (nodup_fresh a ders')).2
    fun der => ?_).length_eq
  rw [mem_fresh_iff, mem_fresh_iff]
  exact and_congr_left (hsame der)

/-- What is stored after some offers: what was stored before, and what is new. -/
theorem Filed.stored_offerAll_perm (h : a.Filed) (ders : List Bytes) :
    (a.offerAll ders).stored.Perm (a.stored ++ a.fresh ders) := by
  obtain ⟨hfiled, hmem⟩ := h.offerAll ders
  have hnodup : (a.stored ++ a.fresh ders).Nodup := by
    refine List.nodup_append.2 ⟨h.distinct, nodup_fresh a ders, ?_⟩
    rintro der hold der' hnew rfl
    exact (mem_fresh_iff.1 hnew).2 hold
  refine (List.perm_ext_iff_of_nodup hfiled.distinct hnodup).2 fun der => ?_
  rw [hmem, List.mem_append, mem_fresh_iff, mem_taken_iff]
  by_cases hold : der ∈ a.stored <;> simp [hold]

/-- The same offers in another order leave the same stored. -/
theorem Filed.stored_offerAll_congr (h : a.Filed) {ders' : List Bytes} (hperm : ders.Perm ders') :
    (a.offerAll ders).stored.Perm (a.offerAll ders').stored := by
  obtain ⟨hfiled, hmem⟩ := h.offerAll ders
  obtain ⟨hfiled', hmem'⟩ := h.offerAll ders'
  refine (List.perm_ext_iff_of_nodup hfiled.distinct hfiled'.distinct).2 fun der => ?_
  rw [hmem, hmem', hperm.mem_iff]

/-- The count grows by what is new. -/
theorem Filed.count_offerAll (h : a.Filed) (ders : List Bytes) :
    (a.offerAll ders).count = a.count + (a.fresh ders).length := by
  rw [(h.offerAll ders).1.counted, (h.stored_offerAll_perm ders).length_eq, List.length_append,
    h.counted]

/-- What is stored already makes no difference. -/
theorem Filed.offer_of_mem_stored (h : a.Filed) (hder : der ∈ a.stored) : a.offer der = a := by
  obtain ⟨b, hb, hmem⟩ := mem_stored_iff.1 hder
  have hs : subjectOf? der = some b.subject := h.filed b hb der hmem
  have hheld : a.holds b.subject der = true :=
    holds_iff.2 (h.mem_withSubject_iff.2 ⟨hder, hs⟩)
  rw [offer_of_subjectOf?_eq_some hs, Anchors.insert, if_pos hheld]

/-- A set stays as it is exactly if nothing is new. -/
theorem Filed.offerAll_eq_self_iff (h : a.Filed) :
    a.offerAll ders = a ↔ ∀ der ∈ taken ders, der ∈ a.stored := by
  constructor
  · intro heq der hder
    have hstored := ((h.offerAll ders).2 der).2 (.inr (mem_taken_iff.1 hder))
    rwa [heq] at hstored
  · intro hold
    rw [← offerAll_taken]
    generalize taken ders = certificates at hold
    induction certificates with
    | nil => rfl
    | cons der certificates ih =>
      have hcons : a.offerAll (der :: certificates) = (a.offer der).offerAll certificates := rfl
      rw [hcons, h.offer_of_mem_stored (hold der List.mem_cons_self)]
      exact ih fun d hd => hold d (List.mem_cons_of_mem _ hd)

/-! ## What is counted -/

theorem addBlock_snd (s : Anchors × Nat) (b : Pem.Block) :
    (addBlock s b).2 = s.2 + (taken (offersOf [b])).length := by
  unfold addBlock
  by_cases hlabel : b.label = bundleLabel
  · have hoffers : offersOf [b] = [b.contents] := by simp [offersOf, hlabel]
    rw [if_pos hlabel, hoffers]
    cases hadd : s.1.add b.contents with
    | ok a =>
      have hs : (subjectOf? b.contents).isSome = true := exists_add_ok_iff.1 ⟨a, hadd⟩
      simp [taken, hs]
    | error fault =>
      have hs : ¬ (subjectOf? b.contents).isSome = true := by
        intro hs
        obtain ⟨a, ha⟩ := (exists_add_ok_iff (a := s.1)).2 hs
        rw [hadd] at ha
        cases ha
      simp [taken, hs]
  · have hoffers : offersOf [b] = [] := by simp [offersOf, hlabel]
    rw [if_neg hlabel, hoffers]
    rfl

theorem offersOf_append (blocks blocks' : List Pem.Block) :
    offersOf (blocks ++ blocks') = offersOf blocks ++ offersOf blocks' := by
  simp only [offersOf, List.filter_append, List.map_append]

/-- Among some blocks those are counted that hold a certificate. -/
theorem foldl_addBlock_snd (blocks : List Pem.Block) (s : Anchors × Nat) :
    (blocks.foldl addBlock s).2 = s.2 + (taken (offersOf blocks)).length := by
  induction blocks generalizing s with
  | nil => rfl
  | cons b blocks ih =>
    have hsplit : offersOf (b :: blocks) = offersOf [b] ++ offersOf blocks :=
      offersOf_append [b] blocks
    rw [List.foldl_cons, ih, addBlock_snd, hsplit, taken_append, List.length_append]
    omega

/-- The certificates in a bundle, up to the first block that cannot be read. -/
def bundleCertificates (bundle : Bytes) : List Bytes := taken (bundleOffers bundle)

/-- A bundle that can be read to its end tells how many certificates it holds, any other
one its fault. -/
theorem addBundle_snd (a : Anchors) (bundle : Bytes) :
    (a.addBundle bundle).2 =
      match (Pem.blocks bundle).2 with
      | none => .ok (bundleCertificates bundle).length
      | some fault => .error (.bundle fault.message) := by
  have hcount := foldl_addBlock_snd (Pem.blocks bundle).1 (a, 0)
  rw [Nat.zero_add] at hcount
  simp only [addBundle, bundleCertificates, bundleOffers]
  cases (Pem.blocks bundle).2 with
  | none => exact congrArg Except.ok hcount
  | some fault => rfl

end Anchors

end SignedPdf
