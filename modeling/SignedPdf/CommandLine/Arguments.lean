/-!
# Arguments

A command line names one document. It may name bundles of anchors, each after
`--anchors`, and set three switches; these and the document may stand in any
order. Whatever follows `--anchors` is the path of a bundle, even if it looks
like an option. The first argument that is out of place is reported; that the
document is missing, only if nothing else is wrong.
-/

namespace SignedPdf

namespace CommandLine

/-- What a command line asks for. -/
structure Arguments where
  /-- The path of the document. -/
  document : String
  /-- The paths of bundles of anchors, in order. -/
  bundles : List String := []
  /-- Whether the anchors of the system count. -/
  useSystem : Bool := true
  /-- Whether the report is written over several lines. -/
  pretty : Bool := false
  /-- Whether the certificates of the signers are written, too. -/
  withCertificates : Bool := false
deriving DecidableEq, Repr

/-- Why a command line cannot be understood. -/
inductive ArgumentFault where
  | bundleMissing
  | unknownOption (option : String)
  | unexpectedArgument (argument : String)
  | documentMissing
deriving DecidableEq, Repr

/-- The fault in words. -/
def ArgumentFault.message : ArgumentFault → String
  | .bundleMissing => "--anchors requires a PEM file"
  | .unknownOption option => "unknown option: " ++ option
  | .unexpectedArgument argument => "unexpected argument: " ++ argument
  | .documentMissing => "missing PDF file"

/-- How the program is used. -/
def usage : String :=
  "Usage: verify_signatures <file.pdf> [--anchors <roots.pem>]... [--no-system] [--pretty] [--pem]"

/-- What the arguments read so far ask for. -/
structure Draft where
  document : Option String := none
  /-- The paths of bundles, the last one first. -/
  bundles : List String := []
  useSystem : Bool := true
  pretty : Bool := false
  withCertificates : Bool := false
deriving DecidableEq, Repr

/-- The arguments, when all have been read. -/
def Draft.finish (d : Draft) : Except ArgumentFault Arguments :=
  match d.document with
  | none => .error .documentMissing
  | some document =>
    .ok {
      document
      bundles := d.bundles.reverse
      useSystem := d.useSystem
      pretty := d.pretty
      withCertificates := d.withCertificates }

/-- Reads on. -/
def parseFrom (d : Draft) : List String → Except ArgumentFault Draft
  | [] => .ok d
  | "--anchors" :: [] => .error .bundleMissing
  | "--anchors" :: path :: rest => parseFrom { d with bundles := path :: d.bundles } rest
  | "--no-system" :: rest => parseFrom { d with useSystem := false } rest
  | "--pretty" :: rest => parseFrom { d with pretty := true } rest
  | "--pem" :: rest => parseFrom { d with withCertificates := true } rest
  | argument :: rest =>
    if argument.startsWith "-" then .error (.unknownOption argument)
    else
      match d.document with
      | some _ => .error (.unexpectedArgument argument)
      | none => parseFrom { d with document := some argument } rest

/-- What a command line asks for. -/
def Arguments.parse (arguments : List String) : Except ArgumentFault Arguments := do
  let d ← parseFrom {} arguments
  d.finish

end CommandLine

end SignedPdf
