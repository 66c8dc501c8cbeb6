import SignedPdf.Digest.Padding

/-!
# SHA-1

The digest of 160 bits. It is no longer safe against chosen documents, but old
certificates are signed with it.
-/

namespace SignedPdf.Digest.Sha1

/-- A word of 32 bits. -/
abbrev Word := BitVec 32

/-- The five words that are carried from block to block. -/
structure State where
  a : Word
  b : Word
  c : Word
  d : Word
  e : Word

/-- The state before the first block. -/
def initial : State := ⟨0x67452301, 0xEFCDAB89, 0x98BADCFE, 0x10325476, 0xC3D2E1F0⟩

/-- The function of three words in round `t`. -/
def mix (t : Nat) (b c d : Word) : Word :=
  if t < 20 then (b &&& c) ||| (~~~b &&& d)
  else if t < 40 then b ^^^ c ^^^ d
  else if t < 60 then (b &&& c) ||| (b &&& d) ||| (c &&& d)
  else b ^^^ c ^^^ d

/-- The constant of round `t`. -/
def constant (t : Nat) : Word :=
  if t < 20 then 0x5A827999
  else if t < 40 then 0x6ED9EBA1
  else if t < 60 then 0x8F1BBCDC
  else 0xCA62C1D6

/-- Adds `count` words to the schedule, which is kept last word first. -/
def extend : (count : Nat) → List Word → List Word
  | 0, ws => ws
  | count + 1, ws =>
    let w := ws.getD 2 0 ^^^ ws.getD 7 0 ^^^ ws.getD 13 0 ^^^ ws.getD 15 0
    extend count (w.rotateLeft 1 :: ws)

/-- The words of the eighty rounds. -/
def schedule (block : List Word) : List Word := (extend 64 block.reverse).reverse

/-- One round. -/
def round (s : State) (w : Word × Nat) : State :=
  let t := s.a.rotateLeft 5 + mix w.2 s.b s.c s.d + s.e + constant w.2 + w.1
  ⟨t, s.a, s.b.rotateLeft 30, s.c, s.d⟩

/-- Takes a block into the state. -/
def compress (s : State) (block : List Word) : State :=
  let r := (schedule block).zipIdx.foldl round s
  ⟨s.a + r.a, s.b + r.b, s.c + r.c, s.d + r.d, s.e + r.e⟩

/-- The twenty octets of the digest. -/
def digest (message : Bytes) : Bytes :=
  let s := (blocks 32 message).foldl compress initial
  [s.a, s.b, s.c, s.d, s.e].flatMap wordOctets

end SignedPdf.Digest.Sha1
