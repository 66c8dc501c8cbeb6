/-!
# Faults of encoded elements

Why an element could not be read. Octets that run out are told apart from
octets that are wrong: the first might still be mended by more input.
-/

namespace SignedPdf.Asn1

/-- The four classes of tags. -/
inductive TagClass where
  | universal
  | application
  | contextSpecific
  | privateUse
deriving DecidableEq, Repr

namespace TagClass

/-- The class with the given number, taken modulo four. -/
def ofNumber (n : Nat) : TagClass :=
  match n % 4 with
  | 0 => .universal
  | 1 => .application
  | 2 => .contextSpecific
  | _ => .privateUse

/-- The number of a class. -/
def number : TagClass → Nat
  | .universal => 0
  | .application => 1
  | .contextSpecific => 2
  | .privateUse => 3

theorem ofNumber_number (c : TagClass) : ofNumber c.number = c := by
  cases c <;> rfl

/-- The name of a class in messages. -/
def name : TagClass → String
  | .universal => "Universal"
  | .application => "Application"
  | .contextSpecific => "ContextSpecific"
  | .privateUse => "Private"

end TagClass

/-- Why an element could not be read. -/
inductive Fault where
  /-- So many octets are missing. -/
  | incomplete (missing : Nat)
  /-- The contents of a container end after the input. -/
  | overrun
  /-- The tag number does not end, or takes more than five octets. -/
  | identifier
  /-- The length takes 127 octets, or has a value above 64 bits. -/
  | length
  /-- The length is indefinite. -/
  | indefinite
  /-- The tag number is another one. -/
  | unexpectedTag (expected actual : Nat)
  /-- The class of the tag is another one. -/
  | unexpectedClass (expected actual : TagClass)
deriving DecidableEq, Repr

namespace Fault

/-- A fault that is wrapped in the name of the encoding. -/
def wrapped (text : String) : String := "Parsing Error: Der(" ++ text ++ ")"

/-- A tag number in messages. -/
def tagText (number : Nat) : String := "Tag(" ++ toString number ++ ")"

/-- The fault in words. -/
def message : Fault → String
  | .incomplete missing => "Parsing requires " ++ toString missing ++ " bytes/chars"
  | .overrun => "Parsing Error: NomError(Eof)"
  | .identifier => wrapped "InvalidTag"
  | .length => wrapped "InvalidLength"
  | .indefinite => wrapped "DerConstraintFailed(IndefiniteLength)"
  | .unexpectedTag expected actual =>
    wrapped ("UnexpectedTag \x7b expected: Some(" ++ tagText expected ++ "), actual: " ++
      tagText actual ++ " \x7d")
  | .unexpectedClass expected actual =>
    wrapped ("UnexpectedClass \x7b expected: Some(" ++ expected.name ++ "), actual: " ++
      actual.name ++ " \x7d")

end Fault

end SignedPdf.Asn1
