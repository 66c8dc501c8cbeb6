import Mathlib.Data.List.Basic
import SignedPdf.Main

/-!
# What a run asks of the file system

The executable reads files and directories before the run and gives it a snapshot of
them. This file shows that it reads enough: a run asks for no other paths, so it leaves
behind what it would leave behind with the file system itself.

* `run_congr`: a run depends on the paths of `Main.pathsOf` only.
* `run_snapshot`: a run with a snapshot of these is the run with the file system.
-/

namespace SignedPdf

/-- Two file systems give the same answers for some files and directories. -/
structure Main.Paths.AnsweredAlike (paths : Paths) (fs fs' : FileSystem) : Prop where
  read : ∀ path ∈ paths.files, fs.read path = fs'.read path
  list : ∀ path ∈ paths.directories, fs.list path = fs'.list path

variable {fs fs' : FileSystem} {env : Environment} {arguments : List String}

/-! ## Anchors of the system -/

theorem findSome?_congr {α β : Type} {f g : α → Option β} {l : List α}
    (h : ∀ a ∈ l, f a = g a) : l.findSome? f = l.findSome? g := by
  induction l with
  | nil => rfl
  | cons a l ih =>
    rw [List.findSome?_cons, List.findSome?_cons, h a List.mem_cons_self,
      ih fun b hb => h b (List.mem_cons_of_mem _ hb)]

/-- The anchors of the system are settled by the bundles and directories that are
tried. -/
theorem Anchors.systemOrEmpty_congr
    (hread : ∀ path ∈ systemBundles env, fs.read path = fs'.read path)
    (hlist : ∀ path ∈ systemDirectories env, fs.list path = fs'.list path) :
    systemOrEmpty env fs = systemOrEmpty env fs' := by
  have hbundles : (systemBundles env).findSome? (someOfFile? fs) =
      (systemBundles env).findSome? (someOfFile? fs') := by
    apply findSome?_congr
    intro path hpath
    simp only [someOfFile?, ofFile, hread path hpath]
  have hdirectories : (systemDirectories env).findSome? (someOfDirectory? fs) =
      (systemDirectories env).findSome? (someOfDirectory? fs') := by
    apply findSome?_congr
    intro path hpath
    simp only [someOfDirectory?, addDirectory, hlist path hpath]
  simp only [systemOrEmpty, system, hbundles, hdirectories]

/-! ## Runs -/

namespace CommandLine

variable {a : Arguments}

theorem addBundles_congr {paths : List String}
    (h : ∀ path ∈ paths, fs.read path = fs'.read path) (a : Anchors) :
    addBundles fs a paths = addBundles fs' a paths := by
  induction paths generalizing a with
  | nil => rfl
  | cons path paths ih =>
    have hrest := ih fun p hp => h p (List.mem_cons_of_mem _ hp)
    simp only [addBundles, h path List.mem_cons_self, hrest]

/-- The files that a command line names are answered alike. -/
theorem read_named (h : (Main.pathsOf arguments env).AnsweredAlike fs fs')
    (hparse : Arguments.parse arguments = .ok a) {path : String}
    (hpath : path ∈ a.document :: a.bundles) : fs.read path = fs'.read path := by
  apply h.read
  simp only [Main.pathsOf, hparse]
  split
  · exact List.mem_append_left _ hpath
  · exact hpath

theorem systemAnchors_congr (h : (Main.pathsOf arguments env).AnsweredAlike fs fs')
    (hparse : Arguments.parse arguments = .ok a) :
    systemAnchors a env fs = systemAnchors a env fs' := by
  unfold systemAnchors
  split
  · next huse =>
    have hpaths : Main.pathsOf arguments env =
        ⟨a.document :: a.bundles ++ Anchors.systemBundles env,
          Anchors.systemDirectories env⟩ := by
      simp only [Main.pathsOf, hparse, huse, if_true]
    rw [hpaths] at h
    have hread : ∀ path ∈ Anchors.systemBundles env, fs.read path = fs'.read path := by
      intro path hpath
      exact h.read path (List.mem_append_right _ hpath)
    rw [Anchors.systemOrEmpty_congr hread h.list]
  · rfl

/-- What a run leaves behind depends only on the answers for the paths that it may ask
for. -/
theorem run_congr (h : (Main.pathsOf arguments env).AnsweredAlike fs fs') (now : Instant)
    (verifiedAt : String) :
    run arguments env fs now verifiedAt = run arguments env fs' now verifiedAt := by
  cases hparse : Arguments.parse arguments with
  | error fault => simp only [run, hparse]
  | ok a =>
    have hbundles : ∀ system, addBundles fs system a.bundles = addBundles fs' system a.bundles := by
      apply addBundles_congr
      intro path hpath
      exact read_named h hparse (List.mem_cons_of_mem _ hpath)
    have hreport : report a fs now = report a fs' now := by
      funext anchors
      simp only [report, read_named h hparse List.mem_cons_self]
    simp only [run, hparse, runWith, systemAnchors_congr h hparse, hbundles, hreport]

/-- A snapshot of what a run may ask for serves as well as the file system. -/
theorem run_snapshot (arguments : List String) (env : Environment) (fs : FileSystem)
    (now : Instant) (verifiedAt : String) :
    let paths := Main.pathsOf arguments env
    run arguments env
        (Main.snapshot (paths.files.map fun path => (path, fs.read path))
          (paths.directories.map fun path => (path, fs.list path))) now verifiedAt =
      run arguments env fs now verifiedAt := by
  intro paths
  apply run_congr
  constructor
  · intro path hpath
    simp only [Main.snapshot, paths, List.lookup_graph _ hpath, Option.getD_some]
  · intro path hpath
    simp only [Main.snapshot, paths, List.lookup_graph _ hpath, Option.getD_some]

end CommandLine

end SignedPdf
