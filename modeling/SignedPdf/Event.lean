/-!
# Events

What happens during a verification is told as a list of events. An event has a
level and a one-line text; nothing else in the library depends on events.
-/

namespace SignedPdf

/-- How much an event matters. -/
inductive Level where
  | debug
  | info
  | warning
deriving DecidableEq, Repr

/-- The level in capital letters. -/
def Level.text : Level → String
  | .debug => "DEBUG"
  | .info => "INFO"
  | .warning => "WARN"

/-- Something worth telling. -/
inductive Event where
  /-- A signature dictionary starts at the offset. -/
  | markerFound (offset : Nat)
  /-- The document has so many signature dictionaries. -/
  | markersCounted (count : Nat)
  /-- A certificate block was read at the offset. -/
  | blockFound (offset : Nat)
  /-- A certificate was read at the offset. -/
  | certificateFound (offset : Nat)
  /-- A certificate was read inside the element at the offset. -/
  | wrappedFound (offset : Nat)
  /-- A strategy found the certificate. -/
  | extractedBy (strategy : String)
  /-- A strategy found none. -/
  | strategyFailed (strategy cause : String)
  /-- The signer's certificate is trusted itself. -/
  | pinned
  /-- The signer's certificate was issued by the anchor with that subject. -/
  | chainsTo (subject : String)
  /-- Anchors were loaded from a file or a directory of the system. -/
  | anchorsLoaded (count : Nat) (path : String)
  /-- The system has no anchors. -/
  | systemUnavailable (cause : String)
  /-- Anchors were added from a file named by the user. -/
  | anchorsAdded (count : Nat) (path : String)
  /-- Only the first `limit` of the dictionaries are looked at. -/
  | dictionariesSkipped (found limit : Nat)
  /-- The signature with that number, counted from one, is invalid. -/
  | signatureInvalid (number : Nat) (reason : String)
  /-- A document has been verified. -/
  | verified (count : Nat) (scanner : String) (allValid : Bool)
deriving DecidableEq, Repr

namespace Event

/-- How much the event matters. -/
def level : Event → Level
  | .systemUnavailable .. | .dictionariesSkipped .. | .signatureInvalid .. => .warning
  | .anchorsAdded .. | .verified .. => .info
  | _ => .debug

/-- The event in words. -/
def message : Event → String
  | .markerFound offset => "Signature dictionary marker at offset " ++ toString offset
  | .markersCounted count => "Found " ++ toString count ++ " signature dictionary marker(s)"
  | .blockFound offset => "PEM certificate found at offset " ++ toString offset
  | .certificateFound offset => "Certificate found at offset " ++ toString offset
  | .wrappedFound offset => "Wrapped certificate found at offset " ++ toString offset
  | .extractedBy strategy => "Certificate extracted by '" ++ strategy ++ "' strategy"
  | .strategyFailed strategy cause => "'" ++ strategy ++ "' strategy failed: " ++ cause
  | .pinned => "Signer certificate is itself a trust anchor"
  | .chainsTo subject => "Signer certificate chains to \"" ++ subject ++ "\""
  | .anchorsLoaded count path =>
    "Loaded " ++ toString count ++ " trust anchors from " ++ path
  | .systemUnavailable cause =>
    "System trust store unavailable (" ++ cause ++ "), using an empty anchor set"
  | .anchorsAdded count path => "Added " ++ toString count ++ " trust anchor(s) from " ++ path
  | .dictionariesSkipped found limit =>
    "Document has " ++ toString found ++ " signature dictionaries, only the first " ++
      toString limit ++ " are verified"
  | .signatureInvalid number reason =>
    "Signature #" ++ toString number ++ " is invalid: " ++ reason
  | .verified count scanner allValid =>
    "Verified " ++ toString count ++ " signature(s) with the " ++ scanner ++
      " scanner, all valid: " ++ toString allValid

/-- Level and message on one line. -/
def text (e : Event) : String := e.level.text ++ " " ++ e.message

end Event

end SignedPdf
