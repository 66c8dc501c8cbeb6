import SignedPdf.Proofs.Anchors.Loading
import SignedPdf.Proofs.Certificate

/-!
# What a set of anchors holds after any history

Bundles and directories add the certificates that they come across one by one,
and each addition may fail. `Reaches` follows the loading to each place at which
something is added, with the set as it is there; so "added in a history" can be
said without regard to how the set keeps its certificates.

* `mem_stored_iff_added`: the set holds exactly what has been added.
* `stored_once_ofLoads`: the whole state of the store after any history.
-/

namespace SignedPdf

namespace Anchors

/-! ## Where certificates are added -/

/-- `Reaches l a s der`: a load that starts with the set `a` comes to a place at
which it adds the octets `der`, and the set is `s` by then. A bundle does so at
each of its blocks with the label of certificates, and a directory at those of
each bundle that it holds. -/
inductive Reaches : Load → Anchors → Anchors → Bytes → Prop
  | certificate (a : Anchors) (der : Bytes) : Reaches (.certificate der) a a der
  | block {octets : Bytes} {before after : List Pem.Block} {b : Pem.Block} (a : Anchors)
    (hblocks : (Pem.blocks octets).1 = before ++ b :: after) (hlabel : b.label = bundleLabel) :
    Reaches (.bundle octets) a (before.foldl addBlock (a, 0)).1 b.contents
  | entry {fs : FileSystem} {path : String} {listing : Listing}
    {before after : List DirectoryEntry} {e : DirectoryEntry} {bundle : Bytes}
    {a s : Anchors} {der : Bytes} (hlist : fs.list path = .ok listing)
    (hentries : listing.entries = before ++ e :: after) (hcontents : e.contents = some bundle)
    (hname : isBundleName e.name = true)
    (hbundle : Reaches (.bundle bundle) (a.addEntries before).1 s der) :
    Reaches (.directory fs path) a s der

theorem mem_offersOf {blocks : List Pem.Block} {der : Bytes} :
    der ∈ offersOf blocks ↔ ∃ b ∈ blocks, b.label = bundleLabel ∧ b.contents = der := by
  simp only [offersOf, List.mem_map, List.mem_filter, decide_eq_true_eq, and_assoc]

/-- What is reached has been offered. -/
theorem Reaches.mem_offers {l : Load} {a s : Anchors} {der : Bytes} (h : Reaches l a s der) :
    der ∈ l.offers := by
  induction h with
  | certificate a der => exact List.mem_singleton.2 rfl
  | block a hblocks hlabel =>
    refine mem_offersOf.2 ⟨_, ?_, hlabel, rfl⟩
    rw [hblocks]
    exact List.mem_append_right _ List.mem_cons_self
  | @entry fs path listing before after e bundle a s der hlist hentries hcontents hname _ ih =>
    have he : e ∈ listing.entries := by
      rw [hentries]
      exact List.mem_append_right _ List.mem_cons_self
    simp only [Load.offers, hlist]
    refine List.mem_flatMap.2 ⟨e, he, ?_⟩
    simp only [entryOffers, hcontents, hname, if_true]
    exact ih

/-- What a bundle offers is reached, whatever the set. -/
theorem exists_reaches_bundle {octets der : Bytes} (h : der ∈ bundleOffers octets) (a : Anchors) :
    ∃ s, Reaches (.bundle octets) a s der := by
  obtain ⟨b, hb, hlabel, rfl⟩ := mem_offersOf.1 h
  obtain ⟨before, after, hblocks⟩ := List.append_of_mem hb
  exact ⟨_, .block a hblocks hlabel⟩

/-- What is offered is reached, whatever the set. -/
theorem exists_reaches {l : Load} {der : Bytes} (h : der ∈ l.offers) (a : Anchors) :
    ∃ s, Reaches l a s der := by
  cases l with
  | certificate d =>
    rw [Load.offers, List.mem_singleton] at h
    subst h
    exact ⟨a, .certificate a der⟩
  | bundle octets => exact exists_reaches_bundle h a
  | directory fs path =>
    simp only [Load.offers] at h
    cases hlist : fs.list path with
    | error fault =>
      rw [hlist] at h
      cases h
    | ok listing =>
      rw [hlist] at h
      obtain ⟨e, he, hder⟩ := List.mem_flatMap.1 h
      obtain ⟨before, after, hentries⟩ := List.append_of_mem he
      unfold entryOffers at hder
      split at hder
      · cases hder
      · next bundle hcontents =>
        split at hder
        · next hname =>
          obtain ⟨s, hs⟩ := exists_reaches_bundle hder (a.addEntries before).1
          exact ⟨s, .entry hlist hentries hcontents hname hs⟩
        · cases hder

/-! ## Additions in a history -/

/-- In the course of a history the octets have been added to a set, and this
succeeded. -/
def Added (loads : List Load) (der : Bytes) : Prop :=
  ∃ before l after s s', loads = before ++ l :: after ∧
    Reaches l (ofLoads before) s der ∧ s.add der = .ok s'

/-- Whether adding succeeds does not depend on the set. -/
theorem exists_add_ok_iff {a : Anchors} {der : Bytes} :
    (∃ a', a.add der = .ok a') ↔ (subjectOf? der).isSome = true := by
  simp only [add_eq_ok_iff, Option.isSome_iff_exists]
  constructor
  · rintro ⟨_, subject, h, _⟩
    exact ⟨subject, h⟩
  · rintro ⟨subject, h⟩
    exact ⟨_, subject, h, rfl⟩

/-- What has been added is what was offered and starts with a certificate. -/
theorem added_iff {loads : List Load} {der : Bytes} : Added loads der ↔ der ∈ accepted loads := by
  rw [accepted, List.mem_filter, List.mem_flatMap]
  constructor
  · rintro ⟨before, l, after, s, s', rfl, hreach, hadd⟩
    refine ⟨⟨l, ?_, hreach.mem_offers⟩, exists_add_ok_iff.1 ⟨s', hadd⟩⟩
    exact List.mem_append_right _ List.mem_cons_self
  · rintro ⟨⟨l, hl, hder⟩, hsubject⟩
    obtain ⟨before, after, rfl⟩ := List.append_of_mem hl
    obtain ⟨s, hreach⟩ := exists_reaches hder (ofLoads before)
    obtain ⟨s', hadd⟩ := exists_add_ok_iff (a := s).2 hsubject
    exact ⟨before, l, after, s, s', rfl, hreach, hadd⟩

/-- The set holds exactly what has been added to it. -/
theorem mem_stored_iff_added {loads : List Load} {der : Bytes} :
    der ∈ (ofLoads loads).stored ↔ Added loads der := by
  rw [mem_stored_ofLoads, added_iff]

/-! ## The state of the store -/

/-- Octets that are filed start with a certificate, and their bucket is that of
its subject. -/
theorem Filed.exists_read {a : Anchors} (h : a.Filed) {b : Bucket} (hb : b ∈ a.buckets)
    {der : Bytes} (hder : der ∈ b.certificates) :
    ∃ s rest, X509.SignedCertificate.read der = .ok (s, rest) ∧
      b.subject = s.statement.subject.octets := by
  obtain ⟨s, rest, hread, hsubject⟩ := subjectOf?_eq_some_iff.1 (h.filed b hb der hder)
  exact ⟨s, rest, hread, hsubject.symm⟩

theorem Filed.isEmpty_iff {a : Anchors} (h : a.Filed) : a.isEmpty = true ↔ a.stored = [] := by
  rw [isEmpty, beq_iff_eq, h.counted, List.length_eq_zero_iff]

/-- An addition that fails leaves the set as it is. -/
theorem offer_of_add_eq_error {a : Anchors} {der : Bytes} {fault : AnchorFault}
    (h : a.add der = .error fault) : a.offer der = a := by
  simp only [offer, h]

/-- **The store after any history of loads.** No two buckets have the same
subject and none is empty. The octets in a bucket start with a certificate that
has this very subject. Nothing is stored twice, the count tells how much is
stored, and the set is called empty exactly if that is nothing. What is stored
is what has been added with success, in whatever way, and an addition that fails
changes nothing. -/
theorem stored_once_ofLoads (loads : List Load) :
    ((ofLoads loads).buckets.map Bucket.subject).Nodup ∧
      (∀ b ∈ (ofLoads loads).buckets, b.certificates ≠ [] ∧
        ∀ der ∈ b.certificates, ∃ s rest, X509.SignedCertificate.read der = .ok (s, rest) ∧
          b.subject = s.statement.subject.octets) ∧
      ((ofLoads loads).buckets.flatMap Bucket.certificates).Nodup ∧
      (ofLoads loads).count = ((ofLoads loads).buckets.flatMap Bucket.certificates).length ∧
      ((ofLoads loads).isEmpty = true ↔
        (ofLoads loads).buckets.flatMap Bucket.certificates = []) ∧
      (∀ der, der ∈ (ofLoads loads).buckets.flatMap Bucket.certificates ↔ Added loads der) ∧
      ∀ der fault, (ofLoads loads).add der = .error fault →
        ofLoads (loads ++ [.certificate der]) = ofLoads loads := by
  have h := filed_ofLoads loads
  refine ⟨h.subjects, ?_, h.distinct, h.counted, h.isEmpty_iff, fun der => mem_stored_iff_added, ?_⟩
  · intro b hb
    exact ⟨h.nonempty b hb, fun der hder => h.exists_read hb hder⟩
  · intro der fault hfault
    rw [ofLoads_concat]
    exact offer_of_add_eq_error hfault

/-- A certificate that is loaded twice, and then octets that are none: one
certificate is stored, and the last load changes nothing. -/
theorem stored_once_ofLoads_sample :
    (ofLoads [.certificate Certificate.sampleDer, .certificate Certificate.sampleDer]).count = 1 ∧
      Added [.certificate Certificate.sampleDer, .certificate Certificate.sampleDer]
        Certificate.sampleDer ∧
      ofLoads [.certificate Certificate.sampleDer, .certificate Certificate.sampleDer,
          .certificate [0x30]] =
        ofLoads [.certificate Certificate.sampleDer, .certificate Certificate.sampleDer] := by
  obtain ⟨_, _, _, hcount, _, hadded, hfailed⟩ := stored_once_ofLoads
    [.certificate Certificate.sampleDer, .certificate Certificate.sampleDer]
  refine ⟨?_, ?_, ?_⟩
  · rw [hcount]
    rfl
  · exact (hadded _).1 (by decide +kernel)
  · exact hfailed [0x30] _ rfl

end Anchors

end SignedPdf
