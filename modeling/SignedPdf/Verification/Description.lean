import SignedPdf.Text.Quoted
import SignedPdf.Verification

/-!
# Descriptions

A one-line description of a verifier and of its parts, for people who look for
a mistake. Of a set of anchors it tells only how many there are.
-/

namespace SignedPdf

/-- A name and what it is made of. -/
def describe (name : String) (fields : List (String × String)) : String :=
  name ++ " \x7b " ++ String.intercalate ", " (fields.map fun f => f.1 ++ ": " ++ f.2) ++ " \x7d"

/-- The description of a set of anchors. -/
def Anchors.description (a : Anchors) : String :=
  describe "TrustAnchors" [("count", toString a.count)]

namespace Verification

/-- The description of options. -/
def Options.description (o : Options) : String :=
  describe "VerifierOptions"
    [("max_input_size", toString o.maxInputSize),
      ("max_signatures", toString o.maxSignatures),
      ("include_certificate_pem", toString o.includeCertificate)]

/-- The description of a verifier. -/
def Verifier.description (v : Verifier) : String :=
  describe "SignatureVerifier"
    [("anchors", v.anchors.description),
      ("options", v.options.description),
      ("scanner", Text.quotedName v.scanner.name),
      ("extractor", describe "CertificateExtractor"
        [("strategies", Text.quotedNames (v.strategies.map Extraction.Strategy.name))])]

end Verification

end SignedPdf
