import SignedPdf.Anchors.System
import SignedPdf.Proofs.Anchors.Bundles
import SignedPdf.Proofs.Chain.Decision

/-!
# Directories of bundles

A directory is loaded entry by entry into one set, and what goes wrong with an entry is
passed over. A bundle that breaks off has left its certificates in the set by then, but
they are not counted.

* `addEntries_snd`: what is counted of a directory, whatever the set.
* `addDirectory_perm`: the order in which a directory is listed does not matter.
* `count_addDirectory`: how far the set grows, against what is counted.
* `addDirectory_cutBundle`: a directory that is told to hold nothing, and does not.
-/

namespace SignedPdf

namespace Anchors

variable {a : Anchors} {fs fs' : FileSystem} {path path' : String} {n : Nat}
  {entries entries' : List DirectoryEntry}

/-! ## What is counted -/

/-- Whether an entry is a bundle that cannot be read to its end. -/
def breaksOff (e : DirectoryEntry) : Bool :=
  match e.contents with
  | none => false
  | some bundle => isBundleName e.name && (Pem.blocks bundle).2.isSome

/-- The certificates of an entry, up to where it breaks off. -/
def entryCertificates (e : DirectoryEntry) : List Bytes := taken (entryOffers e)

/-- The certificates in bundles that can be read to their end. -/
def counted (entries : List DirectoryEntry) : List Bytes :=
  (entries.filter fun e => !breaksOff e).flatMap entryCertificates

/-- The certificates in bundles that break off, each bundle up to there. -/
def uncounted (entries : List DirectoryEntry) : List Bytes :=
  (entries.filter breaksOff).flatMap entryCertificates

theorem addEntry_snd_of_bundle {e : DirectoryEntry} {bundle : Bytes}
    (hcontents : e.contents = some bundle) (hname : isBundleName e.name = true)
    (s : Anchors × Nat) :
    (addEntry s e).2 =
      match (s.1.addBundle bundle).2 with
      | .ok added => s.2 + added
      | .error _ => s.2 := by
  simp only [addEntry, hcontents, hname, if_true]
  split <;> next h => rw [h]

theorem addEntry_snd (s : Anchors × Nat) (e : DirectoryEntry) :
    (addEntry s e).2 = s.2 + (counted [e]).length := by
  cases hcontents : e.contents with
  | none =>
    have hcounted : counted [e] = [] := by
      simp [counted, breaksOff, hcontents, entryCertificates, entryOffers, taken]
    simp only [addEntry, hcontents, hcounted, List.length_nil, Nat.add_zero]
  | some bundle =>
    by_cases hname : isBundleName e.name = true
    · rw [addEntry_snd_of_bundle hcontents hname, addBundle_snd]
      cases hfault : (Pem.blocks bundle).2 with
      | none =>
        have hcounted : counted [e] = bundleCertificates bundle := by
          simp [counted, breaksOff, hcontents, hname, hfault, entryCertificates, entryOffers,
            bundleCertificates]
        rw [hcounted]
      | some fault =>
        have hcounted : counted [e] = [] := by
          simp [counted, breaksOff, hcontents, hname, hfault]
        rw [hcounted]
        rfl
    · have hcounted : counted [e] = [] := by
        simp [counted, breaksOff, hcontents, hname, entryCertificates, entryOffers, taken]
      simp only [addEntry, hcontents, hname, if_false, hcounted, List.length_nil, Nat.add_zero,
        Bool.false_eq_true]

theorem counted_append (entries entries' : List DirectoryEntry) :
    counted (entries ++ entries') = counted entries ++ counted entries' := by
  simp only [counted, List.filter_append, List.flatMap_append]

/-- Certificates are counted if their bundle can be read to its end. -/
theorem addEntries_snd (a : Anchors) (entries : List DirectoryEntry) :
    (a.addEntries entries).2 = (counted entries).length := by
  suffices h : ∀ s : Anchors × Nat, (entries.foldl addEntry s).2 = s.2 + (counted entries).length by
    rw [addEntries, h, Nat.zero_add]
  induction entries with
  | nil => exact fun s => rfl
  | cons e entries ih =>
    intro s
    have hsplit : counted (e :: entries) = counted [e] ++ counted entries :=
      counted_append [e] entries
    rw [List.foldl_cons, ih, addEntry_snd, hsplit, List.length_append]
    omega

/-- What a directory adds is counted or not. -/
theorem mem_taken_entries_iff {der : Bytes} :
    der ∈ taken (entries.flatMap entryOffers) ↔
      der ∈ counted entries ∨ der ∈ uncounted entries := by
  simp only [counted, uncounted, entryCertificates, List.mem_flatMap, List.mem_filter,
    mem_taken_iff]
  constructor
  · rintro ⟨⟨e, he, hder⟩, hs⟩
    cases hbreaks : breaksOff e with
    | true => exact .inr ⟨e, ⟨he, hbreaks⟩, hder, hs⟩
    | false => exact .inl ⟨e, ⟨he, by simp [hbreaks]⟩, hder, hs⟩
  · rintro (⟨e, ⟨he, _⟩, hder, hs⟩ | ⟨e, ⟨he, _⟩, hder, hs⟩)
    · exact ⟨⟨e, he, hder⟩, hs⟩
    · exact ⟨⟨e, he, hder⟩, hs⟩

/-- All of it starts with a certificate. -/
theorem mem_taken_parts_iff {der : Bytes} :
    der ∈ taken (counted entries ++ uncounted entries) ↔
      der ∈ counted entries ∨ der ∈ uncounted entries := by
  rw [mem_taken_iff, List.mem_append]
  exact and_iff_left_of_imp fun h => (mem_taken_iff.1 (mem_taken_entries_iff.2 h)).2

/-! ## A directory that is listed to its end -/

theorem addDirectory_of_list (hlist : fs.list path = .ok ⟨entries, none⟩) (a : Anchors) :
    a.addDirectory fs path =
      (a.offerAll (entries.flatMap entryOffers), .ok (counted entries).length) := by
  simp only [addDirectory, hlist, ← addEntries_fst, ← addEntries_snd a]

/-- A number is told of a directory only if it is listed to its end. -/
theorem exists_list_of_addDirectory (h : (a.addDirectory fs path).2 = .ok n) :
    ∃ entries, fs.list path = .ok ⟨entries, none⟩ := by
  unfold addDirectory at h
  split at h
  · cases h
  · next listing hlist =>
    obtain ⟨entries, fault⟩ := listing
    cases fault with
    | none => exact ⟨entries, hlist⟩
    | some fault => cases h

/-! ## Directories to look at -/

/-- A file system that has nothing but directories with these entries. -/
def onlyDirectories (entries : List DirectoryEntry) : FileSystem :=
  ⟨fun _ => .error .isADirectory, fun _ => .ok ⟨entries, none⟩⟩

/-- A bundle of one certificate. -/
def wholeEntry : DirectoryEntry := ⟨"a.pem", some sampleBundle⟩

/-- A bundle that breaks off after the same certificate. -/
def cutEntry : DirectoryEntry := ⟨"b.crt", some cutBundle⟩

theorem breaksOff_wholeEntry : breaksOff wholeEntry = false := by
  simp [breaksOff, wholeEntry, blocks_sampleBundle]

theorem breaksOff_cutEntry : breaksOff cutEntry = true := by
  have hname : isBundleName "b.crt" = true := by decide +kernel
  simp [breaksOff, cutEntry, blocks_cutBundle, hname]

theorem entryCertificates_wholeEntry : entryCertificates wholeEntry = [Certificate.sampleDer] := by
  have hname : isBundleName "a.pem" = true := by decide +kernel
  rw [← bundleCertificates_sampleBundle]
  simp only [entryCertificates, entryOffers, wholeEntry, hname, if_true, bundleCertificates]

theorem entryCertificates_cutEntry : entryCertificates cutEntry = [Certificate.sampleDer] := by
  have hname : isBundleName "b.crt" = true := by decide +kernel
  rw [← bundleCertificates_cutBundle]
  simp only [entryCertificates, entryOffers, cutEntry, hname, if_true, bundleCertificates]

/-! ## The order of a listing -/

/-- **The order in which a directory is listed does not matter.** Two listings of the
same entries in different orders, both of them to their end, make the directory add the
same number to a set, and leave sets that store the same octets, have the same count and
decide alike on every certificate at every instant. This is so although some of the
entries may be directories or files that cannot be read, some bundles may break off
after a few certificates, and certificates may come in several of them. -/
theorem addDirectory_perm {loads : List Load} (ha : a = ofLoads loads)
    (hperm : entries.Perm entries') (hlist : fs.list path = .ok ⟨entries, none⟩)
    (hlist' : fs'.list path' = .ok ⟨entries', none⟩) :
    ∃ n s s', a.addDirectory fs path = (s, .ok n) ∧ a.addDirectory fs' path' = (s', .ok n) ∧
      s.stored.Perm s'.stored ∧ s.count = s'.count ∧
      ∀ (c : Certificate) (now : Instant),
        Chain.decision (Chain.validate c s now) = Chain.decision (Chain.validate c s' now) := by
  have hfiled : a.Filed := ha ▸ filed_ofLoads loads
  have hnumber : (counted entries).length = (counted entries').length :=
    ((hperm.filter _).flatMap_right _).length_eq
  have hs := (hfiled.offerAll (entries.flatMap entryOffers)).1
  have hs' := (hfiled.offerAll (entries'.flatMap entryOffers)).1
  have hstored := hfiled.stored_offerAll_congr (hperm.flatMap_right entryOffers)
  refine ⟨(counted entries).length, _, _, addDirectory_of_list hlist a, ?_, hstored, ?_, ?_⟩
  · rw [addDirectory_of_list hlist' a, hnumber]
  · rw [hs.counted, hs'.counted, hstored.length_eq]
  · intro c now
    refine Chain.decision_validate_congr (fun subject der => ?_) c now
    rw [hs.mem_withSubject_iff, hs'.mem_withSubject_iff, hstored.mem_iff]

/-- A bundle of one certificate, one that breaks off after the same certificate, and a
directory, listed in both orders. -/
theorem addDirectory_perm_sample :
    ∃ s s', empty.addDirectory (onlyDirectories [wholeEntry, cutEntry, ⟨"c", none⟩]) "certs" =
        (s, .ok 1) ∧
      empty.addDirectory (onlyDirectories [⟨"c", none⟩, cutEntry, wholeEntry]) "certs" =
        (s', .ok 1) ∧
      s.stored.Perm s'.stored ∧ s.count = s'.count := by
  have hperm : [wholeEntry, cutEntry, ⟨"c", none⟩].Perm [⟨"c", none⟩, cutEntry, wholeEntry] :=
    (List.reverse_perm _).symm
  have hempty : empty = ofLoads [] := rfl
  have hlist (entries : List DirectoryEntry) :
      (onlyDirectories entries).list "certs" = .ok ⟨entries, none⟩ := rfl
  obtain ⟨n, s, s', h, h', hstored, hcount, _⟩ :=
    addDirectory_perm hempty hperm (hlist _) (hlist _)
  have hdirectory : breaksOff ⟨"c", none⟩ = false ∧ entryCertificates ⟨"c", none⟩ = [] := ⟨rfl, rfl⟩
  have hcounted : counted [wholeEntry, cutEntry, ⟨"c", none⟩] = [Certificate.sampleDer] := by
    simp [counted, breaksOff_wholeEntry, breaksOff_cutEntry, entryCertificates_wholeEntry,
      hdirectory]
  have hn : n = 1 := by
    rw [addDirectory_of_list rfl, hcounted] at h
    cases h
    rfl
  subst hn
  exact ⟨s, s', h, h', hstored, hcount⟩

/-! ## The number that is told -/

/-- **What the number of a directory says.** If adding a directory succeeds, it has been
listed to its end, and the number is that of the certificates in those of its bundles
that can be read to their end, repeated ones included. The set grows by what is new in
these bundles and in those that break off, up to there. So it grows by no more than the
number if everything in the latter was in the set before or comes in the former, too;
else it may grow by as much more as they hold. If the number is zero, the set is the
same exactly if all that they hold was in it. -/
theorem count_addDirectory {loads : List Load} (ha : a = ofLoads loads)
    (h : (a.addDirectory fs path).2 = .ok n) :
    ∃ entries, fs.list path = .ok ⟨entries, none⟩ ∧ n = (counted entries).length ∧
      (a.addDirectory fs path).1.count =
        a.count + (a.fresh (counted entries ++ uncounted entries)).length ∧
      (a.addDirectory fs path).1.count ≤ a.count + n + (uncounted entries).length ∧
      ((∀ der ∈ uncounted entries, der ∈ a.stored ∨ der ∈ counted entries) →
        (a.addDirectory fs path).1.count ≤ a.count + n) ∧
      (n = 0 → ((a.addDirectory fs path).1 = a ↔ ∀ der ∈ uncounted entries, der ∈ a.stored)) := by
  have hfiled : a.Filed := ha ▸ filed_ofLoads loads
  obtain ⟨entries, hlist⟩ := exists_list_of_addDirectory h
  simp only [addDirectory_of_list hlist] at h ⊢
  cases h
  have hcount : (a.offerAll (entries.flatMap entryOffers)).count =
      a.count + (a.fresh (counted entries ++ uncounted entries)).length := by
    rw [hfiled.count_offerAll, length_fresh_congr fun der _ =>
      mem_taken_entries_iff.trans mem_taken_parts_iff.symm]
  refine ⟨entries, hlist, rfl, hcount, ?_, ?_, ?_⟩
  · have hle := length_fresh_le a (counted entries ++ uncounted entries)
    rw [List.length_append] at hle
    omega
  · intro hknown
    have hfresh : (a.fresh (counted entries ++ uncounted entries)).length =
        (a.fresh (counted entries)).length := by
      refine length_fresh_congr fun der hnew => ?_
      rw [taken_append, List.mem_append]
      refine ⟨fun hder => hder.elim id fun hder => ?_, .inl⟩
      obtain ⟨hder, hs⟩ := mem_taken_iff.1 hder
      exact mem_taken_iff.2 ⟨(hknown der hder).resolve_left hnew, hs⟩
    have hle := length_fresh_le a (counted entries)
    omega
  · intro hzero
    have hnone : counted entries = [] := List.length_eq_zero_iff.1 hzero
    rw [hfiled.offerAll_eq_self_iff]
    simp [mem_taken_entries_iff, hnone]

/-- A bundle that breaks off after a certificate which another bundle holds as well: the
certificate is counted, and the set grows by no more. -/
theorem count_addDirectory_sample :
    (empty.addDirectory (onlyDirectories [wholeEntry, cutEntry]) "certs").2 = .ok 1 ∧
      (empty.addDirectory (onlyDirectories [wholeEntry, cutEntry]) "certs").1.count ≤ 1 := by
  have hcounted : counted [wholeEntry, cutEntry] = [Certificate.sampleDer] := by
    simp [counted, breaksOff_wholeEntry, breaksOff_cutEntry, entryCertificates_wholeEntry]
  have huncounted : uncounted [wholeEntry, cutEntry] = [Certificate.sampleDer] := by
    simp [uncounted, breaksOff_wholeEntry, breaksOff_cutEntry, entryCertificates_cutEntry]
  have hresult :
      (empty.addDirectory (onlyDirectories [wholeEntry, cutEntry]) "certs").2 = .ok 1 := by
    rw [addDirectory_of_list rfl, hcounted]
    rfl
  have hempty : empty = ofLoads [] := rfl
  obtain ⟨entries, hlist, _, _, _, hknown, _⟩ := count_addDirectory hempty hresult
  have hentries : [wholeEntry, cutEntry] = entries := by
    injection hlist with hlisting
    injection hlisting
  subst hentries
  exact ⟨hresult, hknown fun der hder => .inr (by rwa [hcounted, ← huncounted])⟩

/-- A directory whose only bundle breaks off after its first certificate is told to add
none, and is passed over in the search for the anchors of the system; but its
certificate is in the set. -/
theorem addDirectory_cutBundle :
    (empty.addDirectory (onlyDirectories [cutEntry]) "certs").2 = .ok 0 ∧
      (empty.addDirectory (onlyDirectories [cutEntry]) "certs").1 ≠ empty ∧
      (empty.addDirectory (onlyDirectories [cutEntry]) "certs").1.count = empty.count + 1 ∧
      someOfDirectory? (onlyDirectories [cutEntry]) "certs" = none := by
  have hcounted : counted [cutEntry] = [] := by simp [counted, breaksOff_cutEntry]
  have hadd : empty.addDirectory (onlyDirectories [cutEntry]) "certs" =
      (empty.offerAll [Certificate.sampleDer], .ok 0) := by
    rw [addDirectory_of_list rfl, hcounted, List.flatMap_singleton, ← offerAll_taken,
      ← entryCertificates, entryCertificates_cutEntry]
    rfl
  rw [someOfDirectory?, hadd]
  exact ⟨rfl, by decide +kernel, rfl, rfl⟩

end Anchors

end SignedPdf
