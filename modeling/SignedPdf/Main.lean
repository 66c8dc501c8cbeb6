import SignedPdf.CommandLine
import Std.Time.DateTime.Timestamp

/-!
# The executable

Reads what a run of the program asks for, runs it, and writes what it leaves
behind. It does not probe the system for anchors, so it goes by the environment
and the usual places alone.
-/

namespace SignedPdf

namespace Main

/-- The number of an error; the system may give it with a minus sign. -/
def errorNumber (code : UInt32) : Nat :=
  if code.toNat < 0x80000000 then code.toNat else 0x100000000 - code.toNat

/-- The fault with that number and wording. -/
def faultOfNumber (number : Nat) (text : String) : FileFault :=
  match number with
  | 2 => .notFound
  | 20 => .notADirectory
  | 21 => .isADirectory
  | _ => .other (text.capitalize ++ " (os error " ++ toString number ++ ")")

/-- The fault that a failed reading stands for. -/
def faultOf : IO.Error → FileFault
  | .noFileOrDirectory _ code text | .inappropriateType _ code text | .otherError code text
  | .permissionDenied _ code text | .resourceExhausted _ code text
  | .invalidArgument _ code text => faultOfNumber (errorNumber code) text
  | e => .other (toString e)

/-- The octets of the file at a path. -/
def readFile (path : String) : IO (Except FileFault Bytes) := do
  try
    let octets ← IO.FS.readBinFile path
    return .ok octets.toList
  catch e =>
    return .error (faultOf e)

/-- An entry of a directory, with its octets if it is a bundle that can be read. -/
def readEntry (e : IO.FS.DirEntry) : IO DirectoryEntry := do
  let name := e.fileName
  try
    let metadata ← e.path.metadata
    if Anchors.isBundleName name && metadata.type == .file then
      let octets ← IO.FS.readBinFile e.path
      return ⟨name, some octets.toList⟩
    else return ⟨name, none⟩
  catch _ =>
    return ⟨name, none⟩

/-- The entries of the directory at a path. -/
def readDirectory (path : String) : IO (Except FileFault Listing) := do
  try
    let found ← (System.mkFilePath [path]).readDir
    let entries ← found.toList.mapM readEntry
    return .ok { entries }
  catch e =>
    return .error (faultOf e)

/-- The files and the directories that a run may ask for. -/
structure Paths where
  files : List String := []
  directories : List String := []
deriving DecidableEq, Repr

/-- What a run may ask for: the document and the bundles of the command line, and, if
the anchors of the system count, all the places where these may be. -/
def pathsOf (arguments : List String) (env : Environment) : Paths :=
  match CommandLine.Arguments.parse arguments with
  | .error _ => {}
  | .ok a =>
    let named := a.document :: a.bundles
    if a.useSystem then ⟨named ++ Anchors.systemBundles env, Anchors.systemDirectories env⟩
    else ⟨named, []⟩

/-- Files and directories that have been read, as a file system. -/
def snapshot (files : List (String × Except FileFault Bytes))
    (directories : List (String × Except FileFault Listing)) : FileSystem where
  read path := (files.lookup path).getD (.error .notFound)
  list path := (directories.lookup path).getD (.error .notFound)

/-- The present instant. -/
def presentInstant : IO Instant := do
  let t ← Std.Time.Timestamp.now
  let nanos := t.toNanosecondsSinceUnixEpoch.val
  return ⟨nanos / 1000000000, (nanos % 1000000000).toNat⟩

end Main

end SignedPdf

open SignedPdf in
/-- Runs the program on its command line. -/
def main (arguments : List String) : IO UInt32 := do
  let env : Environment := ⟨← IO.getEnv "SSL_CERT_FILE", ← IO.getEnv "SSL_CERT_DIR"⟩
  let paths := Main.pathsOf arguments env
  let files ← paths.files.mapM fun path => do return (path, ← Main.readFile path)
  let directories ← paths.directories.mapM fun path => do
    return (path, ← Main.readDirectory path)
  let now ← Main.presentInstant
  let outcome := CommandLine.run arguments env (Main.snapshot files directories) now now.text
  IO.print outcome.output
  IO.eprint outcome.errors
  return UInt32.ofNat outcome.exitCode
