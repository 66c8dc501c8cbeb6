import SignedPdf.Asn1.Header

/-!
# Encoded elements

An element is a header and as many octets of contents as the header tells.
`Element.read` reads any element of definite length, `Container.read` one with
a given tag number that holds further elements, and `skipLoose?` passes over an
element whose length may be indefinite.

Both readers split their input: `Element.read_eq_ok` and
`Container.read_eq_ok` say where the contents lie in it. A container is settled
by its octets (`Container.read_append`).
-/

namespace SignedPdf.Asn1

/-! ## Elements of definite length -/

/-- What an element is and what it holds. -/
structure Element where
  identifier : Identifier
  contents : Bytes
deriving DecidableEq, Repr

/-- The element at the start and what follows it. -/
def Element.read (bs : Bytes) : Except Fault (Element × Bytes) := do
  let h ← Header.read bs
  let body := bs.drop h.size
  if hasAtLeast h.length body then
    return (⟨h.identifier, body.take h.length⟩, body.drop h.length)
  else throw (.incomplete (h.length - body.length))

theorem Element.read_eq_ok {bs rest : Bytes} {e : Element} :
    Element.read bs = .ok (e, rest) ↔
      ∃ h, Header.read bs = .ok h ∧ h.length ≤ (bs.drop h.size).length ∧
        e = ⟨h.identifier, (bs.drop h.size).take h.length⟩ ∧
        rest = (bs.drop h.size).drop h.length := by
  simp only [Element.read, bind_eq_ok_iff]
  refine exists_congr fun h => and_congr_right fun _ => ?_
  rw [← hasAtLeast_iff]
  split
  · next hlen => simp [hlen, pure, Except.pure, eq_comm]
  · next hlen => simp [hlen, throw, throwThe, MonadExceptOf.throw]

/-! ## Containers -/

/-- An element that holds further elements, in its place. -/
structure Container where
  /-- The octets of the header. -/
  head : Bytes
  /-- What the element holds. -/
  contents : Bytes
  /-- What follows the element. -/
  rest : Bytes
deriving DecidableEq, Repr

/-- The element at the start, which must have that tag number; class and kind
are not looked at. -/
def Container.read (number : Nat) (bs : Bytes) : Except Fault Container := do
  let h ← Header.read bs
  let body := bs.drop h.size
  if hasAtLeast h.length body then
    if h.identifier.number = number then
      return ⟨bs.take h.size, body.take h.length, body.drop h.length⟩
    else throw (.unexpectedTag number h.identifier.number)
  else throw .overrun

theorem Container.read_eq_ok {number : Nat} {bs : Bytes} {c : Container} :
    Container.read number bs = .ok c ↔
      ∃ h, Header.read bs = .ok h ∧ h.length ≤ (bs.drop h.size).length ∧
        h.identifier.number = number ∧
        c = ⟨bs.take h.size, (bs.drop h.size).take h.length, (bs.drop h.size).drop h.length⟩ := by
  simp only [Container.read, bind_eq_ok_iff]
  refine exists_congr fun h => and_congr_right fun _ => ?_
  rw [← hasAtLeast_iff]
  split
  · next hlen =>
    split
    · next hnum => simp [hlen, hnum, pure, Except.pure, eq_comm]
    · next hnum => simp [hnum, throw, throwThe, MonadExceptOf.throw]
  · next hlen => simp [hlen, throw, throwThe, MonadExceptOf.throw]

/-- The parts of a container make up the input. -/
theorem Container.append_eq {number : Nat} {bs : Bytes} {c : Container}
    (h : Container.read number bs = .ok c) : c.head ++ c.contents ++ c.rest = bs := by
  obtain ⟨hd, _, _, _, rfl⟩ := Container.read_eq_ok.1 h
  simp only [List.append_assoc, List.take_append_drop]

/-- Whatever follows a container, its octets read as that container. -/
theorem Container.read_append {number : Nat} {bs : Bytes} {c : Container}
    (h : Container.read number bs = .ok c) (rest : Bytes) :
    Container.read number (c.head ++ c.contents ++ rest) = .ok { c with rest } := by
  obtain ⟨hd, hr, hlen, hnum, rfl⟩ := Container.read_eq_ok.1 h
  have hsize : (bs.take hd.size).length = hd.size := by
    have := (Header.read_size hr).2
    rw [List.length_take]
    omega
  have hcontents : ((bs.drop hd.size).take hd.length).length = hd.length := by
    rw [List.length_take]
    omega
  rw [List.append_assoc]
  refine Container.read_eq_ok.2 ⟨hd, Header.read_take_append hr _, ?_, hnum, ?_⟩
  · rw [List.drop_left' hsize, List.length_append, hcontents]
    omega
  · rw [List.take_left' hsize, List.drop_left' hsize, List.take_left' hcontents,
      List.drop_left' hcontents]

/-- The tag number of a sequence. -/
def sequenceTag : Nat := 16

/-- The tag number of a set. -/
def setTag : Nat := 17

/-! ## Elements in a row -/

/-- Reads elements one after the other, at most `left` of them; `out` holds
those read, last first. Stops before the first that cannot be read. -/
def repeatFrom {α : Type} (read : Bytes → Option (α × Bytes)) :
    (left : Nat) → (out : List α) → Bytes → List α × Bytes
  | 0, out, bs => (out.reverse, bs)
  | left + 1, out, bs =>
    match read bs with
    | none => (out.reverse, bs)
    | some (a, rest) => repeatFrom read left (a :: out) rest

/-- All elements in a row that can be read, and what is left after them. Every
element takes at least one octet, so there are no more than octets. -/
def readRow {α : Type} (read : Bytes → Option (α × Bytes)) (bs : Bytes) : List α × Bytes :=
  repeatFrom read bs.length [] bs

/-! ## Elements of indefinite length -/

/-- How many elements of indefinite length may stand in one another. -/
def depthLimit : Nat := 50

/-- What follows after `level` open elements of indefinite length have been
closed. An element of no contents and tag number zero closes one. -/
def afterOpen? : (level : Nat) → Bytes → Option Bytes
  | 0, bs => some bs
  | level + 1, bs =>
    match _hr : LooseHeader.read bs with
    | .error _ => none
    | .ok h =>
      if depthLimit ≤ level + 1 then none
      else
        match h.length with
        | .definite n =>
          if n = 0 ∧ h.identifier.number = 0 then afterOpen? level (bs.drop h.size)
          else if hasAtLeast n (bs.drop h.size) then
            afterOpen? (level + 1) ((bs.drop h.size).drop n)
          else none
        | .indefinite =>
          if h.identifier.constructed then afterOpen? (level + 2) (bs.drop h.size) else none
termination_by _ bs => bs.length
decreasing_by
  all_goals
    have := (LooseHeader.read_take_append _hr []).2
    simp only [List.length_drop]
    omega

/-- The tag number of the element at the start, whatever the form of its
length, and what follows the element. -/
def skipLoose? (bs : Bytes) : Option (Nat × Bytes) :=
  match LooseHeader.read bs with
  | .error _ => none
  | .ok h =>
    let body := bs.drop h.size
    match h.length with
    | .definite n =>
      if hasAtLeast n body then some (h.identifier.number, body.drop n) else none
    | .indefinite =>
      if h.identifier.constructed then
        (afterOpen? 1 body).map fun rest => (h.identifier.number, rest)
      else none

end SignedPdf.Asn1
