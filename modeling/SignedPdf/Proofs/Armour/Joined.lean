import Mathlib.Data.List.Basic
import SignedPdf.Proofs.Armour

/-!
# Joined texts of whole lines

Lines end where a line feed stands, so a text that ends with one is cut into the same
lines whatever follows it. Its blocks are then those that it has by itself, and if
reading comes to its end outside a block, it goes on with what follows as if this
stood alone.

* `IsLines.readFrom_append`: a block of the text is found in the joined one as well.
* `IsLines.readFrom_append_of_missingHeader`: a text without a further block is passed
  over.
* `blocks_append`: the blocks of both texts, and the fault of the second.
-/

namespace SignedPdf.Pem

/-! ## Whole lines -/

/-- The octets are lines, and a line feed ends each of them. -/
inductive IsLines : Bytes → Prop
  | nil : IsLines []
  | cons {line bs : Bytes} (hline : lineFeed ∉ line) (hbs : IsLines bs) :
    IsLines (line ++ lineFeed :: bs)

/-- Octets are whole lines if there are none, or the last of them is a line feed. -/
theorem isLines_of_getLast? {bs : Bytes} (h : bs = [] ∨ bs.getLast? = some lineFeed) :
    IsLines bs := by
  induction hlength : bs.length using Nat.strongRecOn generalizing bs with
  | ind n ih =>
    rcases h with rfl | h
    · exact .nil
    · obtain ⟨line, rest, rfl, hline⟩ := List.eq_append_cons_of_mem (List.mem_of_getLast? h)
      refine .cons hline (ih rest.length ?_ ?_ rfl)
      · rw [← hlength, List.length_append, List.length_cons]
        omega
      · cases rest with
        | nil => exact .inl rfl
        | cons b rest =>
          rw [List.getLast?_append_cons, List.getLast?_cons_cons] at h
          exact .inr h

/-! ## One block -/

variable {o : Option Opened} {bs rest : Bytes} {b : Block}

/-- A line may be faulty, but it is not for a line that a header is missing. -/
theorem takeLine_ne_missingHeader (o : Option Opened) (line : Bytes) :
    takeLine o line ≠ .failed .missingHeader := by
  intro h
  unfold takeLine at h
  split at h
  · cases h
  split at h
  · unfold takeOutside at h
    split at h
    · cases h
    · split at h <;> cases h
  · next o =>
    unfold takeInside Opened.close at h
    split at h
    · cases h
    · split at h
      · cases h
      · next hclose =>
        split at hclose <;> cases hclose
        cases h

/-- A block of whole lines is found whatever follows them, and what the block leaves of
them is whole lines again. -/
theorem IsLines.readFrom_append (h : IsLines bs) (hread : readFrom o [] bs = .ok (b, rest))
    (more : Bytes) : IsLines rest ∧ readFrom o [] (bs ++ more) = .ok (b, rest ++ more) := by
  induction h generalizing o with
  | nil => cases hread
  | @cons line bs hline hbs ih =>
    rw [readFrom_line hline] at hread
    rw [List.append_assoc, List.cons_append, readFrom_line hline]
    cases htake : takeLine o ([].reverse ++ line) with
    | done b' =>
      rw [htake] at hread
      cases hread
      exact ⟨hbs, rfl⟩
    | more o' =>
      rw [htake] at hread
      exact ih hread
    | failed fault =>
      rw [htake] at hread
      cases hread

/-- Whole lines without a further block are passed over. -/
theorem IsLines.readFrom_append_of_missingHeader (h : IsLines bs)
    (hread : readFrom o [] bs = .error .missingHeader) (more : Bytes) :
    readFrom o [] (bs ++ more) = read more := by
  induction h generalizing o with
  | nil =>
    cases o with
    | none => rfl
    | some o => cases hread
  | @cons line bs hline hbs ih =>
    rw [readFrom_line hline] at hread
    rw [List.append_assoc, List.cons_append, readFrom_line hline]
    cases htake : takeLine o ([].reverse ++ line) with
    | done b' =>
      rw [htake] at hread
      cases hread
    | more o' =>
      rw [htake] at hread
      exact ih hread
    | failed fault =>
      rw [htake] at hread
      cases hread
      exact absurd htake (takeLine_ne_missingHeader _ _)

/-! ## All blocks -/

/-- The blocks are settled by the first of them and by what it leaves. -/
theorem blocks_eq (bs : Bytes) :
    blocks bs =
      match read bs with
      | .ok (b, rest) => (b :: (blocks rest).1, (blocks rest).2)
      | .error .missingHeader => ([], none)
      | .error fault => ([], some fault) := by
  rw [blocks]
  split
  · next hread => rw [hread]
  · next hread => rw [hread]
  · next hne hread =>
    rw [hread]
    split
    · next h => cases h
    · next h => exact absurd (Except.error.inj h) hne
    · next h => rw [Except.error.inj h]

/-- **Blocks of joined texts.** If the first text consists of whole lines and is read to
its end, the joined text has its blocks and then those of the second one, up to the
fault of the second one. -/
theorem blocks_append (h : IsLines bs) (hend : (blocks bs).2 = none) (more : Bytes) :
    blocks (bs ++ more) = ((blocks bs).1 ++ (blocks more).1, (blocks more).2) := by
  induction hlength : bs.length using Nat.strongRecOn generalizing bs with
  | ind n ih =>
    cases hread : read bs with
    | ok r =>
      obtain ⟨b, rest⟩ := r
      obtain ⟨hrest, happend⟩ := h.readFrom_append hread more
      have hblocks : blocks bs = (b :: (blocks rest).1, (blocks rest).2) := blocks_of_read hread
      rw [hblocks] at hend ⊢
      rw [blocks_of_read happend, ih _ (hlength ▸ read_length hread) hrest hend rfl]
      rfl
    | error fault =>
      have hfault : fault = .missingHeader := by
        rw [blocks_eq, hread] at hend
        cases fault with
        | missingHeader => rfl
        | invalidHeader | incomplete | notBase64 | notText => cases hend
      subst hfault
      have happend : read (bs ++ more) = read more :=
        h.readFrom_append_of_missingHeader hread more
      have hblocks : blocks bs = ([], none) := by rw [blocks_eq, hread]
      rw [blocks_eq, happend, ← blocks_eq, hblocks]
      rfl

end SignedPdf.Pem
