import SignedPdf.X509.Name
import SignedPdf.X509.Fault

/-!
# Extensions and alternative names

An extension is a type with a value whose octets mean something only to those
who know the type. One type is known here: the alternative names of the
subject, of which the first mail address is of interest.
-/

namespace SignedPdf.X509

open SignedPdf.Asn1

/-! ## Extensions -/

/-- A type with the octets of its value. -/
structure Extension where
  type : Oid
  value : Bytes
deriving DecidableEq, Repr

namespace Extension

/-- The tag number of a truth value. -/
def booleanTag : Nat := 1

/-- The tag number of an octet string. -/
def octetsTag : Nat := 4

/-- Passes over a truth value at the start, if there is one. -/
def skipBoolean (bs : Bytes) : Bytes :=
  match LooseHeader.read bs with
  | .error _ => bs
  | .ok h =>
    let body := bs.drop h.size
    if h.identifier.number = booleanTag ∧ h.length = .definite 1 ∧ hasAtLeast 1 body then body.drop 1
    else bs

/-- The extension at the start, and what follows it. -/
def read? (bs : Bytes) : Option (Extension × Bytes) :=
  match Container.read sequenceTag bs with
  | .error _ => none
  | .ok c =>
    (Oid.read? c.contents).bind fun (type, rest) =>
      match Element.read (skipBoolean rest) with
      | .error _ => none
      | .ok (e, _) =>
        if e.identifier.number = octetsTag ∧ !e.identifier.constructed then
          some (⟨type, e.contents⟩, c.rest)
        else none

/-- The tag number that extensions have in a certificate. -/
def rowTag : Nat := 3

/-- The extensions that make up all of the octets. The length of their outer
header is not looked at. -/
def readAll : Bytes → Except Fault (List Extension)
  | [] => return []
  | b :: bs => do
    let h ← orFault .extensions (Header.read (b :: bs)).toOption
    if h.identifier.number = rowTag then
      let c ← element (Container.read sequenceTag ((b :: bs).drop h.size))
      let (es, unread) := readRow read? c.contents
      if unread.isEmpty ∧ c.rest.isEmpty then return es else throw (.element .overrun)
    else throw (.malformed .extensions)

end Extension

/-! ## Alternative names -/

/-- A name of the subject. -/
inductive GeneralName where
  /-- A mail address. -/
  | mail (address : String)
  /-- A name of another kind. -/
  | other
deriving DecidableEq, Repr

namespace GeneralName

/-- The name that an element of the given tag number holds. -/
def ofContents? (number : Nat) (contents : Bytes) : Option GeneralName :=
  match number with
  | 0 => (Oid.read? contents).map fun _ => .other
  | 1 => (Utf8.text? contents).map .mail
  | 2 | 6 => (Utf8.text? contents).map fun _ => .other
  | 4 =>
    match Name.read contents with
    | .ok (_, []) => some .other
    | _ => none
  | 3 | 5 | 7 | 8 => some .other
  | _ => none

/-- The name at the start, and what follows it. -/
def read? (bs : Bytes) : Option (GeneralName × Bytes) :=
  match Element.read bs with
  | .error _ => none
  | .ok (e, rest) =>
    if e.identifier.tagClass = .contextSpecific then
      (ofContents? e.identifier.number e.contents).map fun n => (n, rest)
    else none

/-- The names that make up an extension. -/
def readAll? (bs : Bytes) : Option (List GeneralName) :=
  match Container.read sequenceTag bs with
  | .error _ => none
  | .ok c =>
    let (names, unread) := readRow read? c.contents
    if unread.isEmpty then some names else none

/-- The address, if the name is one. -/
def address? : GeneralName → Option String
  | .mail address => some address
  | .other => none

end GeneralName

/-- The type of the alternative names of the subject. -/
def alternativeNamesType : Oid := ⟨[0x55, 0x1D, 0x11]⟩

/-- The first mail address among the alternative names. There is none if the
extension does not stand exactly once or has other contents. -/
def mailAddress? (extensions : List Extension) : Option String :=
  match extensions.filter fun e => e.type = alternativeNamesType with
  | [e] => (GeneralName.readAll? e.value).bind fun names => names.findSome? GeneralName.address?
  | _ => none

end SignedPdf.X509
