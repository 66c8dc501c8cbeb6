import SignedPdf.CommandLine
import SignedPdf.Proofs.CommandLine.Arguments
import SignedPdf.Proofs.Json
import SignedPdf.Proofs.Verification.Verdicts

/-!
# What the program leaves behind

A run of the program either writes a report or stops before it writes anything. This
file tells the two cases apart by what the run meets on its way, and shows that
neither the order of the bundles of anchors nor how often one is named matters for
the exit code.

* `NoReport`: the ways in which a run stops without a report.
* `IsReported`: what a run leaves behind when there is a report.
* `addBundles_of_usable` and `exists_addBundles_error`: adding bundles succeeds exactly
  if each of them can be used, and then leaves what offering their certificates leaves.
* `exitCode_runWith_congr`: the bundles count as a set.
* `run_outcome`: what a run leaves behind.
-/

namespace SignedPdf

namespace CommandLine

open Verification (Verifier Entry)

/-! ## Runs with given anchors of the system -/

/-- Runs the program; `system` stands for the anchors that the system has, and for what
there is to tell about them. -/
def runGiven (system : Anchors × List Event) (arguments : List String) (fs : FileSystem)
    (now : Instant) (verifiedAt : String) : Outcome :=
  match Arguments.parse arguments with
  | .error fault => usageOutcome fault
  | .ok a => runWith a (if a.useSystem then system else (.empty, [])) fs now verifiedAt

/-- The anchors that the system has in an environment. -/
def systemIn (env : Environment) (fs : FileSystem) : Anchors × List Event :=
  let (a, event) := Anchors.systemOrEmpty env fs
  (a, [event])

/-- The program takes the anchors of the system from its environment. -/
theorem run_eq_runGiven (arguments : List String) (env : Environment) (fs : FileSystem)
    (now : Instant) (verifiedAt : String) :
    run arguments env fs now verifiedAt =
      runGiven (systemIn env fs) arguments fs now verifiedAt := rfl

/-! ## Bundles that can be used -/

/-- The bundle at the path cannot be read, or it has a block that cannot be read, so that
adding it to any set fails. -/
def BundleFails (fs : FileSystem) (path : String) : Prop :=
  (∃ fault, fs.read path = .error fault) ∨
    ∃ bundle fault, fs.read path = .ok bundle ∧
      ∀ anchors : Anchors, (anchors.addBundle bundle).2 = .error fault

/-- What the bundle at a path offers. -/
def offersAt (fs : FileSystem) (path : String) : List Bytes :=
  match fs.read path with
  | .ok bundle => Anchors.bundleOffers bundle
  | .error _ => []

/-- Whether adding a bundle fails does not depend on the set. -/
theorem addBundle_snd_cases (bundle : Bytes) :
    (∃ fault, ∀ anchors : Anchors, (anchors.addBundle bundle).2 = .error fault) ∨
      ∀ anchors : Anchors, ∃ added, (anchors.addBundle bundle).2 = .ok added := by
  cases hblocks : (Pem.blocks bundle).2 with
  | none =>
    refine .inr fun anchors => ⟨((Pem.blocks bundle).1.foldl Anchors.addBlock (anchors, 0)).2, ?_⟩
    simp only [Anchors.addBundle, hblocks]
  | some fault =>
    refine .inl ⟨.bundle fault.message, fun anchors => ?_⟩
    simp only [Anchors.addBundle, hblocks]

variable {fs : FileSystem} {path : String} {paths : List String}

/-- A bundle that can be used leaves what offering its certificates leaves. -/
theorem addBundles_cons (h : ¬ BundleFails fs path) (a : Anchors) (paths : List String) :
    (addBundles fs a (path :: paths)).1 =
      (addBundles fs (a.offerAll (offersAt fs path)) paths).1 := by
  cases hread : fs.read path with
  | error fault => exact absurd (.inl ⟨fault, hread⟩) h
  | ok bundle =>
    rcases addBundle_snd_cases bundle with ⟨fault, hfault⟩ | hadded
    · exact absurd (.inr ⟨bundle, fault, hread, hfault⟩) h
    · obtain ⟨added, hadded⟩ := hadded a
      have hadd : a.addBundle bundle = (a.offerAll (offersAt fs path), .ok added) := by
        refine Prod.ext ?_ hadded
        simp only [offersAt, hread, Anchors.addBundle_fst]
      simp only [addBundles, hread, hadd]

theorem exists_addBundles_cons_error (h : BundleFails fs path) (a : Anchors)
    (paths : List String) : ∃ fault, (addBundles fs a (path :: paths)).1 = .error fault := by
  rcases h with ⟨fault, hread⟩ | ⟨bundle, fault, hread, hfault⟩
  · exact ⟨.file fault, by simp only [addBundles, hread]⟩
  · have hadd : a.addBundle bundle = ((a.addBundle bundle).1, .error fault) :=
      Prod.ext rfl (hfault a)
    refine ⟨.anchors fault, ?_⟩
    simp only [addBundles, hread]
    rw [hadd]

/-- Bundles that can be used leave what offering their certificates leaves. -/
theorem addBundles_of_usable (h : ∀ path ∈ paths, ¬ BundleFails fs path) (a : Anchors) :
    (addBundles fs a paths).1 = .ok (a.offerAll (paths.flatMap (offersAt fs))) := by
  induction paths generalizing a with
  | nil => rfl
  | cons path paths ih =>
    rw [addBundles_cons (h path List.mem_cons_self), List.flatMap_cons, Anchors.offerAll_append]
    exact ih (fun p hp => h p (List.mem_cons_of_mem _ hp)) _

/-- One bundle that cannot be used is enough to stop. -/
theorem exists_addBundles_error (hpath : path ∈ paths) (h : BundleFails fs path) (a : Anchors) :
    ∃ fault, (addBundles fs a paths).1 = .error fault := by
  induction paths generalizing a with
  | nil => cases hpath
  | cons first paths ih =>
    by_cases hfirst : BundleFails fs first
    · exact exists_addBundles_cons_error hfirst a paths
    · rw [addBundles_cons hfirst]
      rcases List.mem_cons.1 hpath with rfl | hpath
      · exact absurd h hfirst
      · exact ih hpath _

/-! ## Runs with understood arguments -/

/-- The report of a run with understood arguments, or what keeps it from one. -/
def reportFrom (system : Anchors) (a : Arguments) (fs : FileSystem) (now : Instant) :
    Except Fault Verifier.Outcome := do
  let anchors ← (addBundles fs system a.bundles).1
  report a fs now anchors

variable {a : Arguments} {system : Anchors} {events : List Event} {now : Instant}
  {verifiedAt : String} {fault : Fault} {o : Verifier.Outcome}

/-- A run writes its report, or else the fault. -/
theorem exists_runWith_eq (a : Arguments) (system : Anchors) (events : List Event)
    (fs : FileSystem) (now : Instant) (verifiedAt : String) :
    ∃ events', runWith a (system, events) fs now verifiedAt =
      match reportFrom system a fs now with
      | .ok o => reportOutcome a verifiedAt events' o
      | .error fault => faultOutcome a events' fault := by
  simp only [runWith, reportFrom]
  cases addBundles fs system a.bundles with
  | mk anchors added =>
    refine ⟨events ++ added, ?_⟩
    cases anchors with
    | error fault => rfl
    | ok anchors =>
      simp only [bind, Except.bind]
      cases report a fs now anchors with
      | error fault => rfl
      | ok o => rfl

theorem exists_runWith_of_ok (h : reportFrom system a fs now = .ok o) (events : List Event)
    (verifiedAt : String) : ∃ events',
      runWith a (system, events) fs now verifiedAt = reportOutcome a verifiedAt events' o := by
  obtain ⟨events', hrun⟩ := exists_runWith_eq a system events fs now verifiedAt
  rw [h] at hrun
  exact ⟨events', hrun⟩

theorem exists_runWith_of_error (h : reportFrom system a fs now = .error fault)
    (events : List Event) (verifiedAt : String) : ∃ events',
      runWith a (system, events) fs now verifiedAt = faultOutcome a events' fault := by
  obtain ⟨events', hrun⟩ := exists_runWith_eq a system events fs now verifiedAt
  rw [h] at hrun
  exact ⟨events', hrun⟩

/-- The verifier of a run. -/
def verifierOf (a : Arguments) (anchors : Anchors) : Verifier :=
  { anchors, options := { includeCertificate := a.withCertificates } }

theorem report_eq_ok_iff {anchors : Anchors} :
    report a fs now anchors = .ok o ↔
      ∃ document, fs.read a.document = .ok document ∧
        (verifierOf a anchors).run document now = .ok o := by
  unfold report
  split
  · next fault hread => simp [hread]
  · next document hread =>
    simp only [hread, Except.ok.injEq, exists_eq_left']
    split
    · next fault hrun => simp [verifierOf, hrun]
    · next outcome hrun => simp [verifierOf, hrun]

/-- There is a report exactly if every bundle can be used and the document can be read and
passes the checks. -/
theorem reportFrom_eq_ok_iff :
    reportFrom system a fs now = .ok o ↔
      (∀ path ∈ a.bundles, ¬ BundleFails fs path) ∧
        ∃ document, fs.read a.document = .ok document ∧
          (verifierOf a (system.offerAll (a.bundles.flatMap (offersAt fs)))).run document now =
            .ok o := by
  simp only [reportFrom, bind_eq_ok_iff, report_eq_ok_iff]
  constructor
  · rintro ⟨anchors, hadd, hreport⟩
    have hall : ∀ path ∈ a.bundles, ¬ BundleFails fs path := by
      intro path hpath hfails
      obtain ⟨fault, hfault⟩ := exists_addBundles_error hpath hfails system
      rw [hadd] at hfault
      cases hfault
    rw [addBundles_of_usable hall, Except.ok.injEq] at hadd
    exact ⟨hall, hadd ▸ hreport⟩
  · rintro ⟨hall, hreport⟩
    exact ⟨_, addBundles_of_usable hall system, hreport⟩

/-- Runs that name the same bundles, in whatever order and however often, have both a
report or none, and agree whether every signature is valid. -/
theorem reportFrom_congr {paths paths' : List String}
    (hsame : ∀ path, path ∈ paths ↔ path ∈ paths')
    (h : reportFrom system { a with bundles := paths } fs now = .ok o) :
    ∃ o', reportFrom system { a with bundles := paths' } fs now = .ok o' ∧
      o'.report.allValid = o.report.allValid := by
  obtain ⟨hall, document, hread, hrun⟩ := reportFrom_eq_ok_iff.1 h
  have hall' : ∀ path ∈ paths', ¬ BundleFails fs path := fun path hpath =>
    hall path ((hsame path).2 hpath)
  have hcheck := Verifier.exists_run_eq_ok_iff.1 ⟨o, hrun⟩
  have halike : (verifierOf { a with bundles := paths }
      (system.offerAll (paths.flatMap (offersAt fs)))).Alike
      (verifierOf { a with bundles := paths' } (system.offerAll (paths'.flatMap (offersAt fs)))) :=
    ⟨rfl, rfl, rfl⟩
  rw [← halike.options] at hcheck
  obtain ⟨o', hrun'⟩ : ∃ o', (verifierOf { a with bundles := paths' }
      (system.offerAll (paths'.flatMap (offersAt fs)))).run document now = .ok o' :=
    Verifier.exists_run_eq_ok_iff.2 hcheck
  refine ⟨o', reportFrom_eq_ok_iff.2 ⟨hall', document, hread, hrun'⟩, ?_⟩
  -- The two sets may file their anchors in another order, but look-ups find the same ones.
  refine (Verification.allValid_congr halike (fun subject der => ?_) hrun hrun').symm
  simp only [verifierOf, Anchors.mem_withSubject_offerAll, List.mem_flatMap, hsame]

/-! ## Exit codes -/

/-- The bundles count as a set. -/
theorem exitCode_runWith_congr {paths paths' : List String}
    (hsame : ∀ path, path ∈ paths ↔ path ∈ paths') :
    (runWith { a with bundles := paths } (system, events) fs now verifiedAt).exitCode =
      (runWith { a with bundles := paths' } (system, events) fs now verifiedAt).exitCode := by
  cases hreport : reportFrom system { a with bundles := paths } fs now with
  | ok o =>
    obtain ⟨o', hreport', hvalid⟩ := reportFrom_congr hsame hreport
    obtain ⟨_, hrun⟩ := exists_runWith_of_ok hreport events verifiedAt
    obtain ⟨_, hrun'⟩ := exists_runWith_of_ok hreport' events verifiedAt
    rw [hrun, hrun']
    simp only [reportOutcome, hvalid]
  | error fault =>
    cases hreport' : reportFrom system { a with bundles := paths' } fs now with
    | ok o' =>
      obtain ⟨o, ho, _⟩ := reportFrom_congr (fun path => (hsame path).symm) hreport'
      rw [hreport] at ho
      cases ho
    | error fault' =>
      obtain ⟨_, hrun⟩ := exists_runWith_of_error hreport events verifiedAt
      obtain ⟨_, hrun'⟩ := exists_runWith_of_error hreport' events verifiedAt
      rw [hrun, hrun']
      rfl

/-! ## Runs without a report -/

/-- A run stops without a report: its arguments cannot be understood, a bundle cannot be
used, the document cannot be read, or the document is refused. -/
inductive NoReport (fs : FileSystem) (arguments : List String) : Prop
  | usage {fault : ArgumentFault} (h : Arguments.parse arguments = .error fault)
  | bundle {a : Arguments} {path : String} (h : Arguments.parse arguments = .ok a)
    (hpath : path ∈ a.bundles) (hfails : BundleFails fs path)
  | document {a : Arguments} {fault : FileFault} (h : Arguments.parse arguments = .ok a)
    (hread : fs.read a.document = .error fault)
  | refused {a : Arguments} {document : Bytes} {fault : Verification.InputFault}
    (h : Arguments.parse arguments = .ok a) (hread : fs.read a.document = .ok document)
    (hcheck : Verification.checkInput { includeCertificate := a.withCertificates } document =
      .error fault)

variable {arguments : List String}

/-- With understood arguments it is for the other reasons that there is no report. -/
theorem noReport_of_reportFrom_error (hparse : Arguments.parse arguments = .ok a)
    (h : reportFrom system a fs now = .error fault) : NoReport fs arguments := by
  by_cases hall : ∀ path ∈ a.bundles, ¬ BundleFails fs path
  · cases hread : fs.read a.document with
    | error fault => exact .document hparse hread
    | ok document =>
      cases hrun : (verifierOf a (system.offerAll (a.bundles.flatMap (offersAt fs)))).run document
        now with
      | error fault => exact .refused hparse hread (Verifier.run_eq_error_iff.1 hrun)
      | ok o =>
        rw [reportFrom_eq_ok_iff.2 ⟨hall, document, hread, hrun⟩] at h
        cases h
  · push Not at hall
    obtain ⟨path, hpath, hfails⟩ := hall
    exact .bundle hparse hpath hfails

/-- A run that has a report does not stop. -/
theorem not_noReport_of_reportFrom_ok (hparse : Arguments.parse arguments = .ok a)
    (h : reportFrom system a fs now = .ok o) : ¬ NoReport fs arguments := by
  obtain ⟨hall, document, hread, hrun⟩ := reportFrom_eq_ok_iff.1 h
  intro hno
  cases hno with
  | usage hparse' =>
    rw [hparse] at hparse'
    cases hparse'
  | bundle hparse' hpath hfails =>
    rw [hparse] at hparse'
    cases hparse'
    exact hall _ hpath hfails
  | document hparse' hread' =>
    rw [hparse] at hparse'
    cases hparse'
    rw [hread] at hread'
    cases hread'
  | refused hparse' hread' hcheck =>
    rw [hparse] at hparse'
    cases hparse'
    rw [hread] at hread'
    cases hread'
    have hpasses : Verification.checkInput { includeCertificate := a.withCertificates } document =
        .ok () := Verifier.exists_run_eq_ok_iff.1 ⟨o, hrun⟩
    rw [hpasses] at hcheck
    cases hcheck

/-! ## Runs with a report -/

/-- A run with these arguments leaves behind the report on this document: one JSON
document that says it, an exit code that tells whether every signature is valid, and the
certificates of the entries, if they are asked for. -/
structure IsReported (system : Anchors) (arguments : List String) (fs : FileSystem)
    (now : Instant) (verifiedAt : String) (outcome : Outcome) (a : Arguments) (document : Bytes)
    (o : Verifier.Outcome) : Prop where
  parsed : Arguments.parse arguments = .ok a
  read : fs.read a.document = .ok document
  verified : ∃ anchors,
    (addBundles fs (if a.useSystem then system else .empty) a.bundles).1 = .ok anchors ∧
      (verifierOf a anchors).run document now = .ok o
  output : ∃ text, outcome.output = text ++ "\n" ∧
    ∀ value, Json.IsDocument text value ↔ value = o.report.json verifiedAt
  allValid : (o.report.json verifiedAt).member? "all_valid" = some (.bool o.report.allValid)
  exitCode : outcome.exitCode = if o.report.allValid then 0 else 1
  errors : outcome.errors =
    if "--pem" ∈ withoutBundles arguments then
      String.join (o.report.entries.filterMap Entry.certificateText)
    else ""

/-- Whichever way it is written, the report is one document. -/
theorem exists_text_reportOutcome (a : Arguments) (verifiedAt : String) (events : List Event)
    (o : Verifier.Outcome) :
    ∃ text, (reportOutcome a verifiedAt events o).output = text ++ "\n" ∧
      ∀ value, Json.IsDocument text value ↔ value = o.report.json verifiedAt := by
  refine ⟨_, rfl, fun value => ?_⟩
  cases a.pretty with
  | true => exact Json.isDocument_pretty_iff
  | false => exact Json.isDocument_compact_iff

theorem isReported_reportOutcome {base : Anchors} (hparse : Arguments.parse arguments = .ok a)
    (hbase : (if a.useSystem then system else .empty) = base)
    (h : reportFrom base a fs now = .ok o) (events : List Event) (verifiedAt : String) :
    ∃ document, IsReported system arguments fs now verifiedAt
      (reportOutcome a verifiedAt events o) a document o := by
  obtain ⟨anchors, hadd, hreport⟩ := bind_eq_ok_iff.1 h
  obtain ⟨document, hread, hrun⟩ := report_eq_ok_iff.1 hreport
  refine ⟨document, hparse, hread, ⟨anchors, hbase ▸ hadd, hrun⟩,
    exists_text_reportOutcome a verifiedAt events o, rfl, rfl, ?_⟩
  simp only [reportOutcome, Arguments.withCertificates_iff hparse]

/-! ## The outcome -/

theorem runGiven_of_parse_ok (hparse : Arguments.parse arguments = .ok a)
    (system : Anchors × List Event) (fs : FileSystem) (now : Instant) (verifiedAt : String) :
    runGiven system arguments fs now verifiedAt =
      runWith a (if a.useSystem then system else (.empty, [])) fs now verifiedAt := by
  rw [runGiven, hparse]

/-- A run stops, or what it leaves behind is reported. -/
theorem runGiven_cases (system : Anchors × List Event) (arguments : List String)
    (fs : FileSystem) (now : Instant) (verifiedAt : String) :
    (NoReport fs arguments ∧ (runGiven system arguments fs now verifiedAt).exitCode = 2 ∧
        (runGiven system arguments fs now verifiedAt).output = "") ∨
      (¬ NoReport fs arguments ∧ ∃ a document o,
        IsReported system.1 arguments fs now verifiedAt
          (runGiven system arguments fs now verifiedAt) a document o) := by
  cases hparse : Arguments.parse arguments with
  | error fault =>
    have hrun : runGiven system arguments fs now verifiedAt = usageOutcome fault := by
      rw [runGiven, hparse]
    rw [hrun]
    exact .inl ⟨.usage hparse, rfl, rfl⟩
  | ok a =>
    rw [runGiven_of_parse_ok hparse]
    have hbase : (if a.useSystem then system.1 else .empty) =
        (if a.useSystem then system else (.empty, [])).1 := by
      split <;> rfl
    generalize (if a.useSystem then system else (.empty, [])) = start at hbase
    obtain ⟨base, events⟩ := start
    cases hreport : reportFrom base a fs now with
    | error fault =>
      obtain ⟨events', hrun⟩ := exists_runWith_of_error hreport events verifiedAt
      rw [hrun]
      exact .inl ⟨noReport_of_reportFrom_error hparse hreport, rfl, rfl⟩
    | ok o =>
      obtain ⟨events', hrun⟩ := exists_runWith_of_ok hreport events verifiedAt
      rw [hrun]
      obtain ⟨document, hreported⟩ :=
        isReported_reportOutcome hparse hbase hreport events' verifiedAt
      exact .inr ⟨not_noReport_of_reportFrom_ok hparse hreport, a, document, o, hreported⟩

/-- With the same other arguments the bundles count as a set, whether the arguments are
understood or not. -/
theorem exitCode_runGiven_congr {arguments' : List String}
    (hothers : withoutBundles arguments' = withoutBundles arguments)
    (hsame : ∀ path, path ∈ bundlePaths arguments' ↔ path ∈ bundlePaths arguments)
    (system : Anchors × List Event) (fs : FileSystem) (now : Instant) (verifiedAt : String) :
    (runGiven system arguments' fs now verifiedAt).exitCode =
      (runGiven system arguments fs now verifiedAt).exitCode := by
  simp only [runGiven, Arguments.parse_eq arguments', Arguments.parse_eq arguments, hothers]
  cases Arguments.parse (withoutBundles arguments) with
  | error fault => rfl
  | ok a =>
    simp only [Except.map]
    exact exitCode_runWith_congr hsame

/-- **What a run leaves behind.** Whatever anchors the system has, the program exits with
two and writes nothing to the standard output exactly if its arguments cannot be understood,
a bundle cannot be read or used, or the document cannot be read or is refused. Otherwise the
standard output is one JSON document with a line feed, which says the report and nothing
else; the exit code is zero if every signature is valid and one if not, as the document
says; and the standard error holds the certificates of the entries, in order, if they are
asked for, and nothing otherwise. The options that name bundles may be put in another order,
moved between the other arguments and repeated: the exit code stays the same. -/
theorem run_outcome (system : Anchors × List Event) (arguments : List String) (fs : FileSystem)
    (now : Instant) (verifiedAt : String) :
    ((runGiven system arguments fs now verifiedAt).exitCode = 2 ∧
        (runGiven system arguments fs now verifiedAt).output = "" ↔ NoReport fs arguments) ∧
      (¬ NoReport fs arguments → ∃ a document o,
        IsReported system.1 arguments fs now verifiedAt
          (runGiven system arguments fs now verifiedAt) a document o) ∧
      (∀ arguments', withoutBundles arguments' = withoutBundles arguments →
        (∀ path, path ∈ bundlePaths arguments' ↔ path ∈ bundlePaths arguments) →
        (runGiven system arguments' fs now verifiedAt).exitCode =
          (runGiven system arguments fs now verifiedAt).exitCode) ∧
      ∀ env, run arguments env fs now verifiedAt =
        runGiven (systemIn env fs) arguments fs now verifiedAt := by
  refine ⟨?_, ?_, fun arguments' hothers hsame =>
    exitCode_runGiven_congr hothers hsame system fs now verifiedAt,
    fun env => run_eq_runGiven arguments env fs now verifiedAt⟩
  · rcases runGiven_cases system arguments fs now verifiedAt with
      ⟨hno, hexit⟩ | ⟨hreport, a, document, o, hreported⟩
    · exact ⟨fun _ => hno, fun _ => hexit⟩
    · refine ⟨fun h => ?_, fun h => absurd h hreport⟩
      have hcode := hreported.exitCode
      rw [h.1] at hcode
      split at hcode <;> cases hcode
  · intro hreport
    rcases runGiven_cases system arguments fs now verifiedAt with ⟨hno, _⟩ | ⟨_, hreported⟩
    · exact absurd hno hreport
    · exact hreported

/-- A document with a signature that holds nothing, and two bundles without
certificates. -/
def outcomeFiles : FileSystem where
  read path :=
    if path = "a.pdf" then .ok (Bytes.ofText "%PDF /Type/Sig")
    else if path = "first.pem" ∨ path = "second.pem" then .ok []
    else .error .notFound
  list _ := .error .notFound

/-- The report says that not every signature is valid, also with the bundles in another
order and one of them named twice; a bundle that is not there leaves no report. -/
theorem run_outcome_sample :
    (runGiven (.empty, []) ["--anchors", "second.pem", "a.pdf", "--anchors", "first.pem",
        "--anchors", "second.pem"] outcomeFiles ⟨0, 0⟩ "now").exitCode = 1 ∧
      (∃ text j, (runGiven (.empty, []) ["a.pdf", "--anchors", "first.pem", "--anchors",
          "second.pem"] outcomeFiles ⟨0, 0⟩ "now").output = text ++ "\n" ∧
        ∀ value, Json.IsDocument text value ↔ value = j) ∧
      (runGiven (.empty, []) ["a.pdf", "--anchors", "third.pem"] outcomeFiles ⟨0, 0⟩
        "now").output = "" := by
  obtain ⟨hstops, hreports, hsame, _⟩ := run_outcome (.empty, [])
    ["a.pdf", "--anchors", "first.pem", "--anchors", "second.pem"] outcomeFiles ⟨0, 0⟩ "now"
  have hexit : (runGiven (.empty, []) ["a.pdf", "--anchors", "first.pem", "--anchors",
      "second.pem"] outcomeFiles ⟨0, 0⟩ "now").exitCode = 1 := by decide +kernel
  have hreport : ¬ NoReport outcomeFiles
      ["a.pdf", "--anchors", "first.pem", "--anchors", "second.pem"] := by
    intro hno
    have htwo := (hstops.2 hno).1
    rw [hexit] at htwo
    cases htwo
  obtain ⟨_, _, o, hreported⟩ := hreports hreport
  obtain ⟨text, htext, hdocument⟩ := hreported.output
  have hmissing : NoReport outcomeFiles ["a.pdf", "--anchors", "third.pem"] :=
    .bundle (a := { document := "a.pdf", bundles := ["third.pem"] }) (by decide +kernel)
      List.mem_cons_self (.inl ⟨.notFound, by decide⟩)
  refine ⟨?_, ⟨text, _, htext, hdocument⟩, ?_⟩
  · have hpaths : ∀ path, path ∈ bundlePaths ["--anchors", "second.pem", "a.pdf", "--anchors",
        "first.pem", "--anchors", "second.pem"] ↔
        path ∈ bundlePaths ["a.pdf", "--anchors", "first.pem", "--anchors", "second.pem"] := by
      intro path
      simp only [bundlePaths]
      grind
    exact (hsame _ (by decide) hpaths).trans hexit
  · exact ((run_outcome (.empty, []) ["a.pdf", "--anchors", "third.pem"] outcomeFiles ⟨0, 0⟩
      "now").1.2 hmissing).2

end CommandLine

end SignedPdf
