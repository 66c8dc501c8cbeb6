import SignedPdf.Asn1.Element

/-!
# Object identifiers

An object identifier names a thing by a path of numbers. It is kept as its
octets, and two identifiers are the same only if their octets are; `text`
writes the path with dots, where padding in the octets is no longer seen. A
path with a number that takes too many octets is not written out; the text
then shows the octets themselves.

An identifier is read from any primitive element, whatever its tag.
-/

namespace SignedPdf.Asn1

/-- The octets of an object identifier. -/
structure Oid where
  octets : Bytes
deriving DecidableEq, Repr

namespace Oid

/-! ## The path -/

/-- The groups of seven bits: each ends with an octet below 128. The flag
tells that the last group has no end. -/
def groupsFrom (open' : Bytes) (out : List (Bytes × Bool)) : Bytes → List (Bytes × Bool)
  | [] => (if open'.isEmpty then out else (open'.reverse, false) :: out).reverse
  | b :: bs =>
    if b.toNat < 128 then groupsFrom [] (((b :: open').reverse, true) :: out) bs
    else groupsFrom (b :: open') out bs

/-- The value of a group of seven-bit digits. -/
def groupValue (bs : Bytes) : Nat := bs.foldl (fun n b => n * 128 + b.toNat % 128) 0

/-- The greatest number of octets in a finished group. -/
def groupLimit : Nat := 9

/-- The numbers after the first two, if no finished group has too many octets.
They are counted in 64 bits, which only an unfinished group can exceed. -/
def laterNumbers? (bs : Bytes) : Option (List Nat) :=
  let groups := groupsFrom [] [] bs
  if groups.all fun g => !g.2 || g.1.length ≤ groupLimit then
    some (groups.map fun g => groupValue g.1 % 18446744073709551616)
  else none

/-- The numbers of the path, if they can be counted. The first octet holds two
of them, unless it is a lone zero. -/
def numbers? : Oid → Option (List Nat)
  | ⟨[]⟩ => some []
  | ⟨[0]⟩ => some [0]
  | ⟨b :: bs⟩ => (laterNumbers? bs).map fun ns => b.toNat / 40 :: b.toNat % 40 :: ns

/-- The path with dots, or else the digits of the octets with blanks between
them. -/
def text (o : Oid) : String :=
  match o.numbers? with
  | some ns => String.intercalate "." (ns.map toString)
  | none => String.intercalate " " (o.octets.map fun b => Bytes.hex [b])

/-! ## Reading -/

/-- Why no identifier could be read. -/
inductive Unread where
  /-- So many octets are missing. -/
  | incomplete (missing : Nat)
  /-- There is no element, or it is not primitive. -/
  | malformed
deriving DecidableEq, Repr

/-- The identifier at the start and what follows it. -/
def read (bs : Bytes) : Except Unread (Oid × Bytes) :=
  match Element.read bs with
  | .error (.incomplete missing) => .error (.incomplete missing)
  | .error _ => .error .malformed
  | .ok (e, rest) => if e.identifier.constructed then .error .malformed else .ok (⟨e.contents⟩, rest)

/-- The identifier at the start, if there is one, and what follows it. -/
def read? (bs : Bytes) : Option (Oid × Bytes) := (read bs).toOption

end Oid

end SignedPdf.Asn1
