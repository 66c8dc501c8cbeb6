import SignedPdf.Event
import SignedPdf.Extraction.Armoured
import SignedPdf.Extraction.Walk

/-!
# Extracting the certificate of a signer

The octets of a signature hold the signer's certificate somewhere. A strategy
is one way of finding it; strategies are tried in order, and the first that
finds a certificate decides. The signature itself is not interpreted.

* `exists_extract_error_iff`: extraction fails exactly if every strategy does.
-/

namespace SignedPdf

namespace Extraction

/-! ## Strategies -/

/-- A certificate, and what there is to tell about finding it. -/
structure Finding where
  certificate : Certificate
  events : List Event := []
deriving DecidableEq, Repr

/-- One way of finding a certificate. -/
structure Strategy where
  /-- The name under which events mention it. -/
  name : String
  /-- The certificate in some octets, or why there is none. -/
  find : Bytes → Except String Finding

namespace Strategy

/-- Finds a certificate in armour. -/
def armoured : Strategy where
  name := "pem"
  find blob :=
    match Armoured.find blob with
    | .ok (offset, c) => .ok ⟨c, [.blockFound offset]⟩
    | .error fault => .error fault.message

/-- Finds a certificate by walking over sequences. -/
def walk : Strategy where
  name := "der-walk"
  find blob :=
    match Walk.find? blob with
    | some (offset, .bare, c) => .ok ⟨c, [.certificateFound offset]⟩
    | some (offset, .wrapped, c) => .ok ⟨c, [.wrappedFound offset]⟩
    | none => .error "no certificate SEQUENCE found"

/-- Never finds a certificate. -/
def failing (cause : String) : Strategy where
  name := "fail"
  find _ := .error cause

/-- Reads the same octets whatever it is given. -/
def fixed (der : Bytes) : Strategy where
  name := "fixed"
  find _ :=
    match Certificate.ofDer der with
    | .ok c => .ok ⟨c, []⟩
    | .error fault => .error fault.message

/-- The strategies that are tried unless others are asked for. -/
def standard : List Strategy := [armoured, walk]

end Strategy

/-! ## Trying strategies -/

/-- No strategy found a certificate. -/
structure Failure where
  /-- The causes, in the order of the strategies. -/
  cause : String
deriving DecidableEq, Repr

/-- The failure in words. -/
def Failure.message (e : Failure) : String :=
  "no parseable certificate found in CMS blob: " ++ e.cause

/-- How the strategies fared. -/
abbrev Trail := Trial Strategy Finding String

/-- Tries strategies in order, until one finds a certificate. -/
def attempt (strategies : List Strategy) (blob : Bytes) : Trail :=
  .tryEach (fun s => s.find blob) strategies

namespace Trail

/-- The cause that is told when no strategy was tried. -/
def nothingTried : String := "no extraction strategies configured"

/-- The causes of the failed strategies, one after the other. -/
def causes (t : Trail) : String :=
  match t.failed with
  | [] => nothingTried
  | f :: fs => String.intercalate "; " ((f :: fs).map Prod.snd)

/-- The certificate, or the failure of all strategies. -/
def result (t : Trail) : Except Failure Certificate :=
  match t.found with
  | some (_, f) => .ok f.certificate
  | none => .error ⟨t.causes⟩

/-- What there is to tell. -/
def events (t : Trail) : List Event :=
  t.failed.map (fun f => .strategyFailed f.1.name f.2) ++
    match t.found with
    | some (s, f) => f.events ++ [.extractedBy s.name]
    | none => []

/-- Extraction fails only if no strategy found a certificate. -/
theorem result_error_iff {t : Trail} {e : Failure} :
    t.result = .error e ↔ t.found = none ∧ e = ⟨t.causes⟩ := by
  unfold result
  split
  · next h => simp [h]
  · next h => simp [h, eq_comm]

end Trail

/-- The certificate and the failure of the strategies, tried in order. -/
def extract (strategies : List Strategy) (blob : Bytes) : Except Failure Certificate :=
  Trail.result (attempt strategies blob)

/-- Extraction fails exactly if every strategy does. -/
theorem exists_extract_error_iff {strategies : List Strategy} {blob : Bytes} :
    (∃ e, extract strategies blob = .error e) ↔
      ∀ s ∈ strategies, ∃ cause, s.find blob = .error cause := by
  simp only [extract, Trail.result_error_iff, attempt, Trial.found_tryEach_eq_none_iff]
  exact ⟨fun ⟨_, h, _⟩ => h, fun h => ⟨_, h, rfl⟩⟩

end Extraction

end SignedPdf
