import SignedPdf.Anchors.System
import SignedPdf.CommandLine.Arguments
import SignedPdf.Verification

/-!
# The program

The program reads its arguments, gathers the anchors, verifies the document
and writes the report. What it reads from files and from the environment is
given to it, so that a run is a function.

The exit code is zero if every signature is valid, one if some is not, and two
if there is no report.
-/

namespace SignedPdf

namespace CommandLine

/-- What a run of the program leaves behind. -/
structure Outcome where
  exitCode : Nat
  /-- What is written to the standard output. -/
  output : String
  /-- What is written to the standard error. -/
  errors : String
  events : List Event
deriving DecidableEq, Repr

/-- Why there is no report. -/
inductive Fault where
  /-- A bundle could not be used. -/
  | anchors (fault : AnchorFault)
  /-- The document could not be read. -/
  | file (fault : FileFault)
  /-- The document was refused. -/
  | input (fault : Verification.InputFault)
deriving DecidableEq, Repr

/-- The fault in words. -/
def Fault.message : Fault → String
  | .anchors fault => fault.message
  | .file fault => (AnchorFault.file fault).message
  | .input fault => fault.message

/-- Adds bundles, one after the other. -/
def addBundles (fs : FileSystem) (a : Anchors) :
    List String → Except Fault Anchors × List Event
  | [] => (.ok a, [])
  | path :: rest =>
    match fs.read path with
    | .error fault => (.error (.file fault), [])
    | .ok bundle =>
      match a.addBundle bundle with
      | (_, .error fault) => (.error (.anchors fault), [])
      | (a, .ok added) =>
        let (r, events) := addBundles fs a rest
        (r, .anchorsAdded added path :: events)

/-- The anchors of the system, if they count. -/
def systemAnchors (arguments : Arguments) (env : Environment) (fs : FileSystem) :
    Anchors × List Event :=
  if arguments.useSystem then
    let (a, event) := Anchors.systemOrEmpty env fs
    (a, [event])
  else (.empty, [])

/-- Verifies the document of a command line with some anchors. -/
def report (arguments : Arguments) (fs : FileSystem) (now : Instant) (anchors : Anchors) :
    Except Fault Verification.Verifier.Outcome :=
  match fs.read arguments.document with
  | .error fault => .error (.file fault)
  | .ok document =>
    let options : Verification.Options := { includeCertificate := arguments.withCertificates }
    match Verification.Verifier.run { anchors, options } document now with
    | .error fault => .error (.input fault)
    | .ok outcome => .ok outcome

/-- What is written when there is a report. -/
def reportOutcome (arguments : Arguments) (verifiedAt : String) (events : List Event)
    (o : Verification.Verifier.Outcome) : Outcome where
  exitCode := if o.report.allValid then 0 else 1
  output :=
    let json := o.report.json verifiedAt
    (if arguments.pretty then json.pretty else json.compact) ++ "\n"
  errors :=
    if arguments.withCertificates then
      String.join (o.report.entries.filterMap Verification.Entry.certificateText)
    else ""
  events := events ++ o.events

/-- What is written when there is none. -/
def faultOutcome (arguments : Arguments) (events : List Event) (fault : Fault) : Outcome where
  exitCode := 2
  output := ""
  errors := "Error: " ++ arguments.document ++ ": " ++ fault.message ++ "\n"
  events

/-- What is written when a command line cannot be understood. -/
def usageOutcome (fault : ArgumentFault) : Outcome where
  exitCode := 2
  output := ""
  errors := "Error: " ++ fault.message ++ "\n" ++ usage ++ "\n"
  events := []

/-- Runs the program for understood arguments, from the given anchors of the
system on. -/
def runWith (arguments : Arguments) (system : Anchors × List Event) (fs : FileSystem)
    (now : Instant) (verifiedAt : String) : Outcome :=
  match addBundles fs system.1 arguments.bundles with
  | (.error fault, events) => faultOutcome arguments (system.2 ++ events) fault
  | (.ok anchors, events) =>
    match report arguments fs now anchors with
    | .error fault => faultOutcome arguments (system.2 ++ events) fault
    | .ok o => reportOutcome arguments verifiedAt (system.2 ++ events) o

/-- Runs the program. -/
def run (arguments : List String) (env : Environment) (fs : FileSystem) (now : Instant)
    (verifiedAt : String) : Outcome :=
  match Arguments.parse arguments with
  | .error fault => usageOutcome fault
  | .ok arguments => runWith arguments (systemAnchors arguments env fs) fs now verifiedAt

end CommandLine

end SignedPdf
