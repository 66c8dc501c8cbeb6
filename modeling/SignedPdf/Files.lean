import SignedPdf.Bytes

/-!
# Files

What the library asks of a file system: the octets of a file and the entries
of a directory, each under a path, or the reason why there are none. A
`FileTree` answers these questions from a list of files and directories, with
paths that start at its root.
-/

namespace SignedPdf

/-- Why a path gives no octets or no entries. -/
inductive FileFault where
  | notFound
  | notADirectory
  | isADirectory
  /-- Another reason, in words. -/
  | other (text : String)
deriving DecidableEq, Repr

/-- The reason in words. -/
def FileFault.message : FileFault → String
  | .notFound => "No such file or directory (os error 2)"
  | .notADirectory => "Not a directory (os error 20)"
  | .isADirectory => "Is a directory (os error 21)"
  | .other text => text

/-- An entry of a directory. -/
structure DirectoryEntry where
  /-- The last part of the path. -/
  name : String
  /-- The octets; none for a directory and for a file that cannot be read. -/
  contents : Option Bytes
deriving DecidableEq, Repr

/-- What is told of a directory, one entry after the other. -/
structure Listing where
  /-- The entries, in the order in which they are told. -/
  entries : List DirectoryEntry
  /-- Why the listing ended before its time, if it did. -/
  fault : Option FileFault := none
deriving DecidableEq, Repr

/-- The questions that are asked of a file system. -/
structure FileSystem where
  /-- The octets of the file at a path. -/
  read : String → Except FileFault Bytes
  /-- The entries of the directory at a path. -/
  list : String → Except FileFault Listing

/-! ## File trees -/

/-- The names from the root to a file or a directory. -/
abbrev Place := List String

/-- Files and directories. A directory that holds another need not be mentioned,
but a file makes no directory: it is out of reach unless the one that it lies in
is there. -/
structure FileTree where
  files : List (Place × Bytes) := []
  directories : List Place := []
deriving DecidableEq, Repr

namespace FileTree

/-- The octets of the file at a place. -/
def contents? (t : FileTree) (p : Place) : Option Bytes :=
  (t.files.find? fun f => f.1 == p).map Prod.snd

/-- Whether there is a directory at a place: the root, one that is mentioned, or
one on the way to it. -/
def isDirectory (t : FileTree) (p : Place) : Bool :=
  p.isEmpty || t.directories.any fun q => p.isPrefixOf q

/-- Goes from a directory to one of its entries. -/
def enter (t : FileTree) (here : Place) (name : String) : Except FileFault Place :=
  if t.isDirectory here then
    if name = "" ∨ name = "." then .ok here
    else if name = ".." then .ok here.dropLast
    else
      let there := here ++ [name]
      if t.isDirectory there ∨ (t.contents? there).isSome then .ok there else .error .notFound
  else .error .notADirectory

/-- The place to which a path leads. -/
def resolve (t : FileTree) (path : String) : Except FileFault Place :=
  if path = "" ∨ path.startsWith "/" then .error .notFound
  else (path.splitOn "/").foldlM t.enter []

/-- The octets of the file at a path. -/
def read (t : FileTree) (path : String) : Except FileFault Bytes := do
  let p ← t.resolve path
  match t.contents? p with
  | some bs => return bs
  | none => throw .isADirectory

/-- The names of what a directory holds: directories before files, and each in
the order in which they are first mentioned. -/
def names (t : FileTree) (p : Place) : List String :=
  let directories := t.directories.filterMap fun q =>
    if p.isPrefixOf q then q[p.length]? else none
  let files := t.files.filterMap fun f => if f.1.dropLast = p then f.1.getLast? else none
  (directories ++ files).eraseDups

/-- The entries of the directory at a path. -/
def list (t : FileTree) (path : String) : Except FileFault Listing := do
  let p ← t.resolve path
  if t.isDirectory p then
    return { entries := (t.names p).map fun name => ⟨name, t.contents? (p ++ [name])⟩ }
  else throw .notADirectory

/-- The tree as a file system. -/
def system (t : FileTree) : FileSystem := ⟨t.read, t.list⟩

end FileTree

end SignedPdf
