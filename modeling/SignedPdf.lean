import SignedPdf.CommandLine
import SignedPdf.Main
import SignedPdf.Verification.Description
import SignedPdf.Proofs.Validity
import SignedPdf.Proofs.Certificate
import SignedPdf.Proofs.Anchors.Filing
import SignedPdf.Proofs.Anchors.Loading
import SignedPdf.Proofs.Chain.Decision
import SignedPdf.Proofs.Utf8
import SignedPdf.Proofs.Verification.Stages
import SignedPdf.Proofs.Armour
import SignedPdf.Proofs.Verification.Pinning
import SignedPdf.Proofs.Anchors.Additions
import SignedPdf.Proofs.Markers
import SignedPdf.Proofs.Verification.Records
import SignedPdf.Proofs.Verification.Locality
import SignedPdf.Proofs.Verification.TypeNames
import SignedPdf.Proofs.Markers.Joined
import SignedPdf.Proofs.Verification.Updates
import SignedPdf.Proofs.Dictionary.Fields
import SignedPdf.Proofs.Hex
import SignedPdf.Proofs.Verification.Verdicts
import SignedPdf.Proofs.Dictionary.Written
import SignedPdf.Proofs.Chain.Readable
import SignedPdf.Proofs.Verification.Options
import SignedPdf.Proofs.Extraction.Embedded
import SignedPdf.Proofs.Extraction.Armoured
import SignedPdf.Proofs.Minimal
import SignedPdf.Proofs.Extraction.Walk
import SignedPdf.Proofs.NameText.Escapes
import SignedPdf.Proofs.NameText.Reading
import SignedPdf.Proofs.Json
import SignedPdf.Proofs.CommandLine.Arguments
import SignedPdf.Proofs.CommandLine.Outcome
import SignedPdf.Proofs.CommandLine.Items
import SignedPdf.Proofs.CommandLine.Grammar
import SignedPdf.Proofs.CommandLine.Snapshot
import SignedPdf.Proofs.Dictionary.Entries
import SignedPdf.Proofs.Hex.Decoding
import SignedPdf.Proofs.Verification.Contents
import SignedPdf.Proofs.Utf16
import SignedPdf.Proofs.Dictionary.Texts
import SignedPdf.Proofs.NameText.Normalised
import SignedPdf.Proofs.NameText.Encoded
import SignedPdf.Proofs.Calendar
import SignedPdf.Proofs.PdfDate.Layouts
import SignedPdf.Proofs.PdfDate.Literals
import SignedPdf.Proofs.Armour.Joined
import SignedPdf.Proofs.Anchors.Growth
import SignedPdf.Proofs.Anchors.Bundles
import SignedPdf.Proofs.Anchors.Directories
import SignedPdf.Proofs.Chain.Reasons
