import SignedPdf.Asn1.Minimal
import SignedPdf.X509.Name

/-!
# The text of a distinguished name

A name is written in a normalised order. The attributes of nine standard types
are grouped by type, and the groups stand in a fixed order that does not
depend on the order of the name; every other attribute stands by itself, after
them, the last one first.

* `Name.parts` gives the groups and single attributes as data, in the order
  in which they are written, and `Name.text` writes them.
* A value that is text is escaped, so that no separator stands bare in it; any
  other value is written as `#` and the hexadecimal digits of its encoding.
-/

namespace SignedPdf.X509

open SignedPdf.Asn1

/-! ## Attribute types -/

/-- The attribute types that have a place in the normalised order. -/
inductive StandardType where
  | country
  | state
  | locality
  | street
  | postalCode
  | organization
  | unit
  | commonName
  | serialNumber
deriving DecidableEq, Repr

namespace StandardType

/-- The types from the outermost to the innermost. -/
def all : List StandardType :=
  [.country, .state, .locality, .street, .postalCode, .organization, .unit, .commonName,
    .serialNumber]

/-- The path of the object identifier. -/
def path : StandardType → String
  | .country => "2.5.4.6"
  | .state => "2.5.4.8"
  | .locality => "2.5.4.7"
  | .street => "2.5.4.9"
  | .postalCode => "2.5.4.17"
  | .organization => "2.5.4.10"
  | .unit => "2.5.4.11"
  | .commonName => "2.5.4.3"
  | .serialNumber => "2.5.4.5"

/-- The key in the text of a name. -/
def key : StandardType → String
  | .country => "C"
  | .state => "ST"
  | .locality => "L"
  | .street => "STREET"
  | .postalCode => "POSTALCODE"
  | .organization => "O"
  | .unit => "OU"
  | .commonName => "CN"
  | .serialNumber => "SERIALNUMBER"

/-- Whether only the last value is written. -/
def isSingle : StandardType → Bool
  | .commonName | .serialNumber => true
  | _ => false

theorem mem_all (t : StandardType) : t ∈ all := by
  cases t <;> decide

end StandardType

/-- The keys of further types whose text values are written as text. -/
def otherKey? (path : String) : Option String :=
  if path = "0.9.2342.19200300.100.1.1" then some "UID"
  else if path = "0.9.2342.19200300.100.1.25" then some "DC"
  else none

/-! ## Values -/

/-- A value in the text of a name. -/
inductive ValueText where
  /-- Text, still to be escaped. -/
  | plain (text : String)
  /-- The octets of an encoding. -/
  | encoded (octets : Bytes)
deriving DecidableEq, Repr

/-- The characters that are escaped wherever they stand. -/
def specialChars : List Char := ['"', '+', ',', ';', '<', '>', '\\']

/-- The escaped form of a character; `first` and `last` tell whether it stands
at an end of the value. -/
def escapedChar (first last : Bool) (c : Char) : List Char :=
  if c ∈ specialChars then ['\\', c]
  else if c = '#' ∧ first then ['\\', '#']
  else if c = ' ' ∧ (first ∨ last) then ['\\', ' ']
  else if c = '\x00' then ['\\', '0', '0']
  else [c]

/-- The escaped form of what follows the first character of a value. -/
def escapedRest (cs : List Char) : List Char :=
  cs.dropLast.flatMap (escapedChar false false) ++
    (cs.getLast?.toList.flatMap (escapedChar false true))

/-- The escaped form of a value. -/
def escapedChars : List Char → List Char
  | [] => []
  | c :: cs => escapedChar true cs.isEmpty c ++ escapedRest cs

/-- The escaped form of a value. -/
def escaped (text : String) : String := String.ofList (escapedChars text.toList)

/-- The value as it is written. -/
def ValueText.text : ValueText → String
  | .plain text => escaped text
  | .encoded octets => "#" ++ Bytes.hex octets

/-! ## Parts -/

/-- A key and a value. -/
structure KeyedValue where
  key : String
  value : ValueText
deriving DecidableEq, Repr

/-- Key and value with an equals sign between them. -/
def KeyedValue.text (p : KeyedValue) : String := p.key ++ "=" ++ p.value.text

namespace Attribute

/-- The standard type of an attribute. Types are told apart by their paths. -/
def standardType? (a : Attribute) : Option StandardType :=
  StandardType.all.find? fun t => t.path = a.type.text

/-- The octets that stand for a value that is no text: the element in minimal
form, or its bare contents if it has no such form. -/
def encoding (a : Attribute) : Bytes := (Minimal.encode? a.value).getD a.value.contents

/-- An attribute that stands by itself. -/
def alone (a : Attribute) : KeyedValue :=
  let path := a.type.text
  match otherKey? path, a.text? with
  | some key, some text => ⟨key, .plain text⟩
  | _, _ => ⟨path, .encoded a.encoding⟩

end Attribute

namespace Name

/-- The text values of a standard type that are written. -/
def valuesOf (n : Name) (t : StandardType) : List String :=
  let values := (n.attributes.filter fun a => a.type.text = t.path).filterMap Attribute.text?
  if t.isSingle then (values.getLast?.filter fun v => v ≠ "").toList else values

/-- The group of a standard type. -/
def group (n : Name) (t : StandardType) : List KeyedValue :=
  (n.valuesOf t).map fun v => ⟨t.key, .plain v⟩

/-- The groups that are not empty, outermost first. -/
def groups (n : Name) : List (List KeyedValue) :=
  (StandardType.all.map n.group).filter fun g => !g.isEmpty

/-- The attributes without a standard type, each by itself. -/
def others (n : Name) : List (List KeyedValue) :=
  (n.attributes.filter fun a => a.standardType?.isNone).map fun a => [a.alone]

/-- What is written, in the order of writing. -/
def parts (n : Name) : List (List KeyedValue) := (n.others ++ n.groups).reverse

/-- The text of a name. -/
def text (n : Name) : String :=
  String.intercalate "," (n.parts.map fun g => String.intercalate "+" (g.map KeyedValue.text))

end Name

end SignedPdf.X509
