import SignedPdf.Anchors

/-!
# Anchors from directories

The bundles of a directory are the files whose name ends in a known extension.
A file that cannot be read is passed over, and so is the fault of a bundle,
although the certificates before the fault stay. The fault of a listing ends the
search, and what was added before it stays too.
-/

namespace SignedPdf

namespace Anchors

/-- What follows the last point of a name, unless the point comes first. -/
def extension? (name : String) : Option String :=
  let cs := name.toList.reverse
  match cs.dropWhile (· != '.') with
  | _ :: _ :: _ => some (String.ofList (cs.takeWhile (· != '.')).reverse)
  | _ => none

/-- Whether a name has the extension of a bundle: `pem`, `crt`, `cer`, or the
single digit of a hash link. -/
def isBundleName (name : String) : Bool :=
  match extension? name with
  | none => false
  | some e => e == "pem" || e == "crt" || e == "cer" ||
    match e.toList with
    | [c] => '0' ≤ c && c ≤ '9'
    | _ => false

/-- Adds the bundle of an entry, if it is one, and counts its certificates if
it could be read to its end. -/
def addEntry (s : Anchors × Nat) (e : DirectoryEntry) : Anchors × Nat :=
  match e.contents with
  | none => s
  | some bundle =>
    if isBundleName e.name then
      match s.1.addBundle bundle with
      | (a, .ok added) => (a, s.2 + added)
      | (a, .error _) => (a, s.2)
    else s

/-- Adds the bundles among some entries, and counts the certificates. -/
def addEntries (a : Anchors) (entries : List DirectoryEntry) : Anchors × Nat :=
  entries.foldl addEntry (a, 0)

/-- Adds the bundles of the directory at a path, as far as it can be listed. -/
def addDirectory (a : Anchors) (fs : FileSystem) (path : String) :
    Anchors × Except AnchorFault Nat :=
  match fs.list path with
  | .error fault => (a, .error (.file fault))
  | .ok listing =>
    let (a, added) := a.addEntries listing.entries
    match listing.fault with
    | none => (a, .ok added)
    | some fault => (a, .error (.file fault))

/-- The anchors of the bundle in the file at a path. -/
def ofFile (fs : FileSystem) (path : String) : Except AnchorFault Anchors :=
  match fs.read path with
  | .error fault => .error (.file fault)
  | .ok bundle => ofBundle bundle

end Anchors

end SignedPdf
