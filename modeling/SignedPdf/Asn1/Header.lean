import SignedPdf.Asn1.Fault
import SignedPdf.Bytes
import SignedPdf.Steps

/-!
# Headers of encoded elements

An element starts with its identifier (class, constructed or primitive, and a
tag number) and the length of its contents. `Header.read` takes any definite
length, minimal or not; `LooseHeader.read` takes an indefinite one as well.

A header is settled by the octets that it takes:

* `Header.read_take_append`: whatever follows it, the same octets read as the
  same header.
* `Header.read_size`: a header takes at least two octets, all of the input.
-/

namespace SignedPdf.Asn1

/-! ## Taking octets -/

/-- Whether there are at least `n` octets; looks at no more than those. -/
def hasAtLeast (n : Nat) (bs : Bytes) : Bool := n == 0 || !(bs.drop (n - 1)).isEmpty

theorem hasAtLeast_iff {n : Nat} {bs : Bytes} : hasAtLeast n bs = true ↔ n ≤ bs.length := by
  simp only [hasAtLeast, Bool.or_eq_true, beq_iff_eq, Bool.not_eq_true', List.isEmpty_eq_false_iff,
    ne_eq, List.drop_eq_nil_iff]
  omega

/-! ## Identifiers -/

/-- What an element is. -/
structure Identifier where
  tagClass : TagClass
  constructed : Bool
  /-- The tag number, modulo 2^32. -/
  number : Nat
deriving DecidableEq, Repr

/-- Reads a tag number in groups of seven bits, taking at most `left` octets;
gives the number and how many octets have been taken. -/
def tagNumberFrom : (left value count : Nat) → Bytes → Option (Nat × Nat)
  | 0, _, _, _ => none
  | _ + 1, _, _, [] => none
  | left + 1, value, count, b :: bs =>
    let value := (value * 128 + b.toNat % 128) % 4294967296
    if b.toNat < 128 then some (value, count + 1) else tagNumberFrom left value (count + 1) bs

/-- The identifier at the start and how many octets it takes. -/
def Identifier.read : Bytes → Except Fault (Identifier × Nat)
  | [] => .error (.incomplete 1)
  | b :: bs =>
    let tagClass := TagClass.ofNumber (b.toNat / 64)
    let constructed := b.toNat / 32 % 2 == 1
    if b.toNat % 32 = 31 then
      match tagNumberFrom 5 0 0 bs with
      | none => .error .identifier
      | some (number, count) => .ok (⟨tagClass, constructed, number⟩, count + 1)
    else .ok (⟨tagClass, constructed, b.toNat % 32⟩, 1)

/-! ## Lengths -/

/-- The length of the contents of an element. -/
inductive Length where
  | definite (octets : Nat)
  /-- The contents end with an end-of-contents element. -/
  | indefinite
deriving DecidableEq, Repr

/-- The length at the start and how many octets it takes. -/
def Length.read : Bytes → Except Fault (Length × Nat)
  | [] => .error (.incomplete 1)
  | b :: bs =>
    let n := b.toNat
    if n < 128 then .ok (.definite n, 1)
    else if n = 128 then .ok (.indefinite, 1)
    else if n = 255 then .error .length
    else if hasAtLeast (n - 128) bs then
      let value := Bytes.toNat (bs.take (n - 128))
      if value < 18446744073709551616 then .ok (.definite value, n - 127) else .error .length
    else .error (.incomplete (n - 128 - bs.length))

/-! ## Headers -/

/-- Identifier and length of an element. -/
structure Header where
  identifier : Identifier
  /-- The number of octets of the contents. -/
  length : Nat
  /-- The number of octets of the header itself. -/
  size : Nat
deriving DecidableEq, Repr

/-- Identifier and length of an element whose length may be indefinite. -/
structure LooseHeader where
  identifier : Identifier
  length : Length
  /-- The number of octets of the header itself. -/
  size : Nat
deriving DecidableEq, Repr

/-- The header at the start, with any form of length. -/
def LooseHeader.read (bs : Bytes) : Except Fault LooseHeader := do
  let (identifier, m) ← Identifier.read bs
  let (length, n) ← Length.read (bs.drop m)
  return ⟨identifier, length, m + n⟩

/-- The header at the start; its length must be definite. -/
def Header.read (bs : Bytes) : Except Fault Header := do
  let h ← LooseHeader.read bs
  match h.length with
  | .definite length => return ⟨h.identifier, length, h.size⟩
  | .indefinite => throw .indefinite

/-! ## A header is settled by its octets -/

theorem tagNumberFrom_take_append {left value count number count' : Nat} {bs : Bytes}
    (h : tagNumberFrom left value count bs = some (number, count')) (rest : Bytes) :
    tagNumberFrom left value count (bs.take (count' - count) ++ rest) = some (number, count') ∧
      count < count' ∧ count' - count ≤ bs.length := by
  induction left generalizing value count bs with
  | zero => simp [tagNumberFrom] at h
  | succ left ih =>
    cases bs with
    | nil => simp [tagNumberFrom] at h
    | cons b bs =>
      simp only [tagNumberFrom] at h
      split at h
      · next hb =>
        simp only [Option.some.injEq, Prod.mk.injEq] at h
        obtain ⟨rfl, rfl⟩ := h
        simp [tagNumberFrom, hb]
      · next hb =>
        obtain ⟨h1, h2, h3⟩ := ih h
        refine ⟨?_, by omega, by simp only [List.length_cons]; omega⟩
        obtain ⟨k, hk⟩ : ∃ k, count' - count = k + 1 := ⟨count' - count - 1, by omega⟩
        have hk' : count' - (count + 1) = k := by omega
        rw [hk, List.take_succ_cons, List.cons_append, tagNumberFrom, if_neg hb, ← hk', h1]

theorem Identifier.read_take_append {bs : Bytes} {i : Identifier} {m : Nat}
    (h : Identifier.read bs = .ok (i, m)) (rest : Bytes) :
    Identifier.read (bs.take m ++ rest) = .ok (i, m) ∧ 0 < m ∧ m ≤ bs.length := by
  cases bs with
  | nil => simp [Identifier.read] at h
  | cons b bs =>
    simp only [Identifier.read] at h
    split at h
    · next hb =>
      split at h
      · cases h
      · next number count hnum =>
        simp only [Except.ok.injEq, Prod.mk.injEq] at h
        obtain ⟨rfl, rfl⟩ := h
        obtain ⟨h1, h2, h3⟩ := tagNumberFrom_take_append hnum rest
        simp only [Nat.sub_zero] at h1 h3
        refine ⟨?_, by omega, by simp only [List.length_cons]; omega⟩
        simp [Identifier.read, hb, h1]
    · next hb =>
      simp only [Except.ok.injEq, Prod.mk.injEq] at h
      obtain ⟨rfl, rfl⟩ := h
      simp [Identifier.read, hb]

theorem Length.read_take_append {bs : Bytes} {l : Length} {n : Nat}
    (h : Length.read bs = .ok (l, n)) (rest : Bytes) :
    Length.read (bs.take n ++ rest) = .ok (l, n) ∧ 0 < n ∧ n ≤ bs.length := by
  cases bs with
  | nil => simp [Length.read] at h
  | cons b bs =>
    have hb256 : b.toNat < 256 := b.toNat_lt
    simp only [Length.read] at h
    split at h
    · next h1 =>
      cases h
      simp [Length.read, h1]
    split at h
    · next h1 h2 =>
      cases h
      simp [Length.read, h2]
    split at h
    · cases h
    · next h1 h2 h3 =>
      split at h
      · next hlen =>
        split at h
        · next hval =>
          simp only [Except.ok.injEq, Prod.mk.injEq] at h
          obtain ⟨rfl, rfl⟩ := h
          have hle := hasAtLeast_iff.1 hlen
          obtain ⟨k, hk⟩ : ∃ k, b.toNat - 127 = k + 1 := ⟨b.toNat - 128, by omega⟩
          have hk' : b.toNat - 128 = k := by omega
          rw [hk'] at hlen hval hle
          refine ⟨?_, by omega, by simp only [List.length_cons]; omega⟩
          have hk'' : (bs.take k).length = k := by
            rw [List.length_take]
            omega
          have htake : (bs.take k ++ rest).take k = bs.take k := List.take_left' hk''
          have hlen' : hasAtLeast k (bs.take k ++ rest) = true := by
            rw [hasAtLeast_iff, List.length_append]
            omega
          rw [hk, List.take_succ_cons, List.cons_append]
          simp only [Length.read, if_neg h1, if_neg h2, if_neg h3, hk', htake, hlen', hval, hk,
            if_true]
        · cases h
      · cases h

theorem LooseHeader.read_eq_ok {bs : Bytes} {h : LooseHeader} (hr : LooseHeader.read bs = .ok h) :
    ∃ m n, Identifier.read bs = .ok (h.identifier, m) ∧
      Length.read (bs.drop m) = .ok (h.length, n) ∧ h.size = m + n := by
  simp only [LooseHeader.read, bind_eq_ok_iff] at hr
  obtain ⟨r, hi, r', hl, hr⟩ := hr
  cases hr
  exact ⟨r.2, r'.2, hi, hl, rfl⟩

/-- Whatever follows a header, its octets read as that header. -/
theorem LooseHeader.read_take_append {bs : Bytes} {h : LooseHeader}
    (hr : LooseHeader.read bs = .ok h) (rest : Bytes) :
    LooseHeader.read (bs.take h.size ++ rest) = .ok h ∧ 2 ≤ h.size ∧ h.size ≤ bs.length := by
  obtain ⟨m, n, hi, hl, hs⟩ := LooseHeader.read_eq_ok hr
  obtain ⟨_, hm, hm'⟩ := Identifier.read_take_append hi []
  obtain ⟨hl1, hn, hn'⟩ := Length.read_take_append hl rest
  rw [List.length_drop] at hn'
  refine ⟨?_, by omega, by omega⟩
  have hsplit : bs.take h.size ++ rest = bs.take m ++ ((bs.drop m).take n ++ rest) := by
    rw [hs, List.take_add, List.append_assoc]
  have hi' := (Identifier.read_take_append hi ((bs.drop m).take n ++ rest)).1
  have hdrop : (bs.take h.size ++ rest).drop m = (bs.drop m).take n ++ rest := by
    rw [hsplit]
    exact List.drop_left' (by rw [List.length_take]; omega)
  rw [← hsplit] at hi'
  simp only [LooseHeader.read, hi', hdrop, hl1, bind, Except.bind, pure, Except.pure]
  rw [← hs]

theorem Header.read_eq_ok {bs : Bytes} {h : Header} :
    Header.read bs = .ok h ↔
      LooseHeader.read bs = .ok ⟨h.identifier, .definite h.length, h.size⟩ := by
  simp only [Header.read, bind_eq_ok_iff]
  constructor
  · rintro ⟨⟨i, len, s⟩, hl, hr⟩
    cases len with
    | definite k =>
      cases hr
      exact hl
    | indefinite => cases hr
  · exact fun hr => ⟨_, hr, rfl⟩

/-- Whatever follows a header, its octets read as that header. -/
theorem Header.read_take_append {bs : Bytes} {h : Header} (hr : Header.read bs = .ok h)
    (rest : Bytes) : Header.read (bs.take h.size ++ rest) = .ok h :=
  Header.read_eq_ok.2 (LooseHeader.read_take_append (Header.read_eq_ok.1 hr) rest).1

/-- A header takes at least two octets and all of them are there. -/
theorem Header.read_size {bs : Bytes} {h : Header} (hr : Header.read bs = .ok h) :
    2 ≤ h.size ∧ h.size ≤ bs.length :=
  (LooseHeader.read_take_append (Header.read_eq_ok.1 hr) []).2

end SignedPdf.Asn1
