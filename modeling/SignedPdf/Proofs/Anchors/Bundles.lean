import SignedPdf.Proofs.Anchors.Growth
import SignedPdf.Proofs.Armour.Joined
import SignedPdf.Proofs.Certificate

/-!
# Bundles, one after the other

A bundle is loaded block by block while it is read, so a fault comes when some of its
certificates are in the set already. This file says what is left in the set in either
case, and that loading two bundles one after the other comes to the same as loading
them joined, if the first one can be read to its end and ends with its line.

* `bundleOffers_append`: what a joined bundle offers.
* `addBundle_snd_append`: what is told of a joined bundle.
* `addBundle_append`: the set, the result and the count after a bundle.
-/

namespace SignedPdf

namespace Anchors

variable {a : Anchors} {x : Bytes} {n : Nat}

/-! ## Joined bundles -/

theorem addBundle_snd_eq_ok_iff {bundle : Bytes} :
    (a.addBundle bundle).2 = .ok n ↔
      (Pem.blocks bundle).2 = none ∧ n = (bundleCertificates bundle).length := by
  rw [addBundle_snd]
  cases (Pem.blocks bundle).2 with
  | none => simp [eq_comm]
  | some fault => simp

/-- A joined bundle offers what both parts offer. -/
theorem bundleOffers_append (hlines : Pem.IsLines x) (hend : (Pem.blocks x).2 = none) (y : Bytes) :
    bundleOffers (x ++ y) = bundleOffers x ++ bundleOffers y := by
  simp only [bundleOffers, Pem.blocks_append hlines hend, offersOf_append]

theorem bundleCertificates_append (hlines : Pem.IsLines x) (hend : (Pem.blocks x).2 = none)
    (y : Bytes) :
    bundleCertificates (x ++ y) = bundleCertificates x ++ bundleCertificates y := by
  simp only [bundleCertificates, bundleOffers_append hlines hend, taken_append]

/-- A joined bundle leaves what its parts leave one after the other. -/
theorem addBundle_fst_append (hlines : Pem.IsLines x) (hend : (Pem.blocks x).2 = none)
    (a : Anchors) (y : Bytes) :
    (a.addBundle (x ++ y)).1 = ((a.addBundle x).1.addBundle y).1 := by
  simp only [addBundle_fst, bundleOffers_append hlines hend, offerAll_append]

/-- Of a joined bundle is told what is told of its second part, with the certificates of
the first one counted as well. -/
theorem addBundle_snd_append (hlines : Pem.IsLines x) (hend : (Pem.blocks x).2 = none)
    (a b : Anchors) (y : Bytes) :
    (a.addBundle (x ++ y)).2 = (b.addBundle y).2.map ((bundleCertificates x).length + ·) := by
  rw [addBundle_snd, addBundle_snd, Pem.blocks_append hlines hend]
  cases (Pem.blocks y).2 with
  | none =>
    have hcount : (bundleCertificates (x ++ y)).length =
        (bundleCertificates x).length + (bundleCertificates y).length := by
      rw [bundleCertificates_append hlines hend, List.length_append]
    exact congrArg Except.ok hcount
  | some fault => rfl

/-! ## A bundle that breaks off -/

/-- The bundle of one certificate. -/
def sampleBundle : Bytes := Bytes.ofText Certificate.sample.armoured

/-- A bundle that breaks off after its first certificate. -/
def cutBundle : Bytes := sampleBundle ++ Bytes.ofText "-----BEGIN CERTIFICATE-----\n"

theorem blocks_sampleBundle_append (more : Bytes) :
    Pem.blocks (sampleBundle ++ more) =
      (⟨Certificate.label, Certificate.sampleDer⟩ :: (Pem.blocks more).1, (Pem.blocks more).2) :=
  Pem.blocks_of_read (Certificate.read_ofText_armoured .sample more)

theorem blocks_sampleBundle :
    Pem.blocks sampleBundle = ([⟨Certificate.label, Certificate.sampleDer⟩], none) := by
  have h := blocks_sampleBundle_append []
  rwa [List.append_nil, Pem.blocks_nil] at h

theorem blocks_cutBundle :
    Pem.blocks cutBundle =
      ([⟨Certificate.label, Certificate.sampleDer⟩], some .incomplete) := by
  have hread : Pem.read (Bytes.ofText "-----BEGIN CERTIFICATE-----\n") = .error .incomplete := by
    decide +kernel
  rw [cutBundle, blocks_sampleBundle_append, Pem.blocks_eq, hread]

theorem getLast?_sampleBundle : sampleBundle.getLast? = some Pem.lineFeed := by
  have h := Pem.ofText_armoured ⟨Certificate.label, Certificate.sample.der⟩ []
  rw [List.append_nil] at h
  rw [sampleBundle, Certificate.armoured, h]
  simp [List.getLast?_append, List.getLast?_cons]

theorem bundleCertificates_sampleBundle :
    bundleCertificates sampleBundle = [Certificate.sampleDer] := by
  rw [bundleCertificates, bundleOffers, blocks_sampleBundle]
  decide +kernel

theorem bundleCertificates_cutBundle : bundleCertificates cutBundle = [Certificate.sampleDer] := by
  rw [bundleCertificates, bundleOffers, blocks_cutBundle]
  decide +kernel

/-! ## Sets and results -/

/-- **Bundles are loaded piece by piece.** If a bundle is empty or ends with a line feed,
and loading it succeeds, then loading another one after it leaves the same set as
loading the joined bundle, which tells the sum of both numbers or the fault of the
second. Whether it can be read to its end or not, a bundle leaves the set to which its
certificates up to there have been added in order, each with success; blocks with
another label or other contents are passed over. The count grows by no more than there
are certificates, and by as many exactly if they are different from each other and from
all that was in the set. -/
theorem addBundle_append {loads : List Load} (ha : a = ofLoads loads) :
    (∀ (x y : Bytes) (n : Nat), (x = [] ∨ x.getLast? = some Pem.lineFeed) →
      (a.addBundle x).2 = .ok n →
        (a.addBundle (x ++ y)).1 = ((a.addBundle x).1.addBundle y).1 ∧
        (∀ m, ((a.addBundle x).1.addBundle y).2 = .ok m → (a.addBundle (x ++ y)).2 = .ok (n + m)) ∧
        ∀ fault, ((a.addBundle x).1.addBundle y).2 = .error fault →
          (a.addBundle (x ++ y)).2 = .error fault) ∧
      ∀ bundle,
        (bundleCertificates bundle).foldlM add a = .ok (a.addBundle bundle).1 ∧
        (∀ n, (a.addBundle bundle).2 = .ok n → n = (bundleCertificates bundle).length) ∧
        (a.addBundle bundle).1.count ≤ a.count + (bundleCertificates bundle).length ∧
        ((a.addBundle bundle).1.count = a.count + (bundleCertificates bundle).length ↔
          (bundleCertificates bundle).Nodup ∧
            ∀ der ∈ bundleCertificates bundle, der ∉ a.stored) := by
  have hfiled : a.Filed := ha ▸ filed_ofLoads loads
  constructor
  · intro x y n hend hx
    have hlines : Pem.IsLines x := Pem.isLines_of_getLast? hend
    obtain ⟨hread, rfl⟩ := addBundle_snd_eq_ok_iff.1 hx
    have hresult := addBundle_snd_append hlines hread a (a.addBundle x).1 y
    refine ⟨addBundle_fst_append hlines hread a y, fun m hm => ?_, fun fault hfault => ?_⟩
    · rw [hresult, hm]
      rfl
    · rw [hresult, hfault]
      rfl
  · intro bundle
    have hcount : (a.addBundle bundle).1.count =
        a.count + (a.fresh (bundleOffers bundle)).length := by
      rw [addBundle_fst, hfiled.count_offerAll]
    have hle : (a.fresh (bundleOffers bundle)).length ≤ (bundleCertificates bundle).length :=
      (fresh_sublist a _).length_le
    refine ⟨?_, fun n hn => (addBundle_snd_eq_ok_iff.1 hn).2, ?_, ?_⟩
    · rw [addBundle_fst]
      exact foldlM_add_taken a _
    · omega
    · rw [hcount, Nat.add_left_cancel_iff]
      exact length_fresh_eq_iff

/-- A bundle of one certificate, and after it one that holds the certificate again and
breaks off: the joined bundle has the fault of the second, but the certificate is in
the set, once. -/
theorem addBundle_append_sample :
    (empty.addBundle sampleBundle).2 = .ok 1 ∧
      (empty.addBundle (sampleBundle ++ cutBundle)).2 = .error (.bundle "incomplete PEM") ∧
      (empty.addBundle (sampleBundle ++ cutBundle)).1.count = 1 := by
  have hempty : empty = ofLoads [] := rfl
  obtain ⟨hjoined, hbundle⟩ := addBundle_append hempty
  have hend : (Pem.blocks sampleBundle).2 = none := by rw [blocks_sampleBundle]
  have hfirst : (empty.addBundle sampleBundle).2 = .ok 1 :=
    addBundle_snd_eq_ok_iff.2 ⟨hend, by rw [bundleCertificates_sampleBundle]; rfl⟩
  have hsecond : ((empty.addBundle sampleBundle).1.addBundle cutBundle).2 =
      .error (.bundle "incomplete PEM") := by
    rw [addBundle_snd, blocks_cutBundle]
    rfl
  obtain ⟨_, _, hfault⟩ := hjoined sampleBundle cutBundle 1 (.inr getLast?_sampleBundle) hfirst
  refine ⟨hfirst, hfault _ hsecond, ?_⟩
  have hcertificates : bundleCertificates (sampleBundle ++ cutBundle) =
      [Certificate.sampleDer, Certificate.sampleDer] := by
    rw [bundleCertificates_append (Pem.isLines_of_getLast? (.inr getLast?_sampleBundle)) hend,
      bundleCertificates_sampleBundle, bundleCertificates_cutBundle]
    rfl
  have hadded := (hbundle (sampleBundle ++ cutBundle)).1
  rw [hcertificates] at hadded
  obtain ⟨s, hs, hcount⟩ : ∃ s, [Certificate.sampleDer, Certificate.sampleDer].foldlM add empty =
      .ok s ∧ s.count = 1 := ⟨_, rfl, rfl⟩
  rw [hs] at hadded
  rw [← Except.ok.inj hadded, hcount]

end Anchors

end SignedPdf
