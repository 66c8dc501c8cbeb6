import SignedPdf.Asn1.Oid
import SignedPdf.Text.Utf8

/-!
# Distinguished names

A name is a sequence of sets of attributes, and an attribute is a type with a
value of any kind. Reading stops without a fault before the first set that
cannot be read; such a set holds no attribute that can be read. The octets of
a name are those that were read, so that two names with the same octets have
the same attributes.

* `Name.read_octets`: the octets of a name start the input.
-/

namespace SignedPdf.X509

open SignedPdf.Asn1

/-! ## Attributes -/

/-- A type with a value. -/
structure Attribute where
  type : Oid
  value : Element
deriving DecidableEq, Repr

namespace Attribute

/-- The tag numbers of the strings whose octets are read as UTF-8: UTF-8,
numeric, printable and IA5 strings. -/
def stringTags : List Nat := [12, 18, 19, 22]

/-- The value as text, if it is a string. -/
def text? (a : Attribute) : Option String :=
  if a.value.identifier.number ∈ stringTags then Utf8.text? a.value.contents else none

/-- The attribute at the start, and what follows it. -/
def read? (bs : Bytes) : Option (Attribute × Bytes) :=
  match Container.read sequenceTag bs with
  | .error _ => none
  | .ok c =>
    (Oid.read? c.contents).bind fun (type, rest) =>
      match Element.read rest with
      | .error _ => none
      | .ok (value, _) => some (⟨type, value⟩, c.rest)

/-- The set of attributes at the start, and what follows it. The set ends
before the first attribute that cannot be read, and it is not empty. -/
def readSet? (bs : Bytes) : Option (List Attribute × Bytes) :=
  match Container.read setTag bs with
  | .error _ => none
  | .ok c =>
    match (readRow read? c.contents).1 with
    | [] => none
    | a :: as => some (a :: as, c.rest)

end Attribute

/-! ## Names -/

/-- A sequence of sets of attributes. -/
structure Name where
  /-- The sets, in order. -/
  sets : List (List Attribute)
  /-- The header and the sets as they are encoded. -/
  octets : Bytes
deriving DecidableEq, Repr

namespace Name

/-- All attributes, in order. -/
def attributes (n : Name) : List Attribute := n.sets.flatten

/-- The name at the start, and what follows it. -/
def read (bs : Bytes) : Except Asn1.Fault (Name × Bytes) := do
  let c ← Container.read sequenceTag bs
  let (sets, unread) := readRow Attribute.readSet? c.contents
  return (⟨sets, c.head ++ c.contents.take (c.contents.length - unread.length)⟩, c.rest)

/-- The type of the common name. -/
def commonNameType : Oid := ⟨[0x55, 0x04, 0x03]⟩

/-- The first common name, if it is a string. -/
def commonName? (n : Name) : Option String :=
  (n.attributes.find? fun a => a.type = commonNameType).bind Attribute.text?

/-- The octets of a name start the input. -/
theorem read_octets {bs rest : Bytes} {n : Name} (h : read bs = .ok (n, rest)) :
    n.octets <+: bs := by
  simp only [read, bind_eq_ok_iff] at h
  obtain ⟨c, hc, h⟩ := h
  cases h
  rw [← Container.append_eq hc, List.append_assoc]
  exact List.prefix_append_right_inj _ |>.2
    ((List.take_prefix _ _).trans (List.prefix_append _ _))

end Name

end SignedPdf.X509
