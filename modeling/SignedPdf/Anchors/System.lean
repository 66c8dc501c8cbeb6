import SignedPdf.Anchors.Directory
import SignedPdf.Event

/-!
# Anchors of the system

The environment may name a bundle and a directory, and a probe of the system may
find one of each. They are tried in this order, and after them the places where
systems usually keep bundles and directories. The first bundle that has anchors
counts, else the first directory that has some.
-/

namespace SignedPdf

/-- Where to look for something before the usual places. -/
structure Hints where
  /-- The path that the environment names. -/
  named : Option String := none
  /-- The path that a probe of the system has found. -/
  probed : Option String := none
deriving DecidableEq, Repr

/-- The path in the environment alone, if there was no probe. -/
instance : Coe (Option String) Hints := ⟨fun named => { named }⟩

/-- The paths in the order in which they are tried. -/
def Hints.paths (h : Hints) : List String := h.named.toList ++ h.probed.toList

/-- What there is to go by in the search for anchors of the system. -/
structure Environment where
  /-- Paths of bundles. -/
  bundle : Hints := {}
  /-- Paths of directories of bundles. -/
  directory : Hints := {}
deriving DecidableEq, Repr

namespace Anchors

/-- The usual places of bundles. -/
def usualBundles : List String :=
  ["/etc/ssl/certs/ca-certificates.crt", "/etc/pki/tls/certs/ca-bundle.crt",
    "/etc/ssl/ca-bundle.pem", "/etc/ssl/cert.pem"]

/-- The usual places of directories of bundles. -/
def usualDirectories : List String := ["/etc/ssl/certs"]

/-- The bundles of the system, in the order in which they are tried. -/
def systemBundles (env : Environment) : List String := env.bundle.paths ++ usualBundles

/-- The directories of the system, in the order in which they are tried. -/
def systemDirectories (env : Environment) : List String := env.directory.paths ++ usualDirectories

/-- The anchors of a bundle, if it has some. -/
def someOfFile? (fs : FileSystem) (path : String) : Option (Anchors × Event) :=
  match ofFile fs path with
  | .ok a => if a.isEmpty then none else some (a, .anchorsLoaded a.count path)
  | .error _ => none

/-- The anchors of a directory, if it has some. -/
def someOfDirectory? (fs : FileSystem) (path : String) : Option (Anchors × Event) :=
  match empty.addDirectory fs path with
  | (a, .ok (added + 1)) => some (a, .anchorsLoaded (added + 1) path)
  | _ => none

/-- The anchors of the system, and what there is to tell about them. -/
def system (env : Environment) (fs : FileSystem) : Except AnchorFault (Anchors × Event) :=
  match (systemBundles env).findSome? (someOfFile? fs) with
  | some r => .ok r
  | none =>
    match (systemDirectories env).findSome? (someOfDirectory? fs) with
    | some r => .ok r
    | none => .error .notFound

/-- The anchors of the system, or none if it has none. -/
def systemOrEmpty (env : Environment) (fs : FileSystem) : Anchors × Event :=
  match system env fs with
  | .ok r => r
  | .error fault => (empty, .systemUnavailable fault.message)

end Anchors

end SignedPdf
