import SignedPdf.Text.Blank

/-!
# Trimmed texts

Trimming takes a run of blanks off either end. What is left is a part of the text
(`trim_infix`) that neither starts nor ends with a blank, and it is got back from
between any blanks (`trim_append`).
-/

namespace SignedPdf.Text

variable {p : Char → Bool} {cs before after : List Char}

/-! ## Runs at an end -/

theorem dropWhile_of_head (h : ∀ c, cs.head? = some c → p c = false) : cs.dropWhile p = cs := by
  cases cs with
  | nil => rfl
  | cons c cs => exact List.dropWhile_cons_of_neg (by simp [h c rfl])

/-- What is taken off the end satisfies the condition. -/
theorem exists_trimEndWhile (p : Char → Bool) (cs : List Char) :
    ∃ after, (∀ c ∈ after, p c = true) ∧ cs = trimEndWhile p cs ++ after := by
  refine ⟨(cs.reverse.takeWhile p).reverse, fun c hc => ?_, ?_⟩
  · exact List.all_eq_true.1 List.all_takeWhile c (List.mem_reverse.1 hc)
  · rw [trimEndWhile, ← List.reverse_append, List.takeWhile_append_dropWhile, List.reverse_reverse]

/-- All that satisfies the condition is taken off the end. -/
theorem trimEndWhile_append (hcs : ∀ c, cs.getLast? = some c → p c = false)
    (hafter : ∀ c ∈ after, p c = true) : trimEndWhile p (cs ++ after) = cs := by
  have hend : ∀ c, cs.reverse.head? = some c → p c = false := by
    intro c hc
    rw [List.head?_reverse] at hc
    exact hcs c hc
  have hrun : ∀ c ∈ after.reverse, p c = true := fun c hc => hafter c (List.mem_reverse.1 hc)
  rw [trimEndWhile, List.reverse_append, List.dropWhile_append_of_pos hrun, dropWhile_of_head hend,
    List.reverse_reverse]

/-! ## Blanks at both ends -/

/-- Neither the first character is blank nor the last one. -/
def IsTrimmed (cs : List Char) : Prop :=
  (∀ c, cs.head? = some c → isBlank c = false) ∧ ∀ c, cs.getLast? = some c → isBlank c = false

theorem isTrimmed_iff {cs : List Char} :
    IsTrimmed cs ↔ (cs.head?.all fun c => !isBlank c) = true ∧
      (cs.getLast?.all fun c => !isBlank c) = true := by
  simp only [IsTrimmed, Option.all_eq_true, Bool.not_eq_true']

instance (cs : List Char) : Decidable (IsTrimmed cs) := decidable_of_iff _ isTrimmed_iff.symm

/-- Trimming leaves a part of the text. -/
theorem trim_infix (cs : List Char) : trim cs <:+: cs := by
  have hend : trim cs <+: trimStart cs := by
    rw [trim, trimEnd, trimEndWhile, ← List.reverse_suffix, List.reverse_reverse]
    exact List.dropWhile_suffix isBlank
  exact hend.isInfix.trans (List.dropWhile_suffix isBlank).isInfix

/-- A text is what trimming leaves of it, between blanks. -/
theorem exists_trim (cs : List Char) :
    ∃ before after, (∀ c ∈ before, isBlank c = true) ∧ (∀ c ∈ after, isBlank c = true) ∧
      cs = before ++ (trim cs ++ after) := by
  obtain ⟨after, hafter, heq⟩ := exists_trimEndWhile isBlank (trimStart cs)
  refine ⟨cs.takeWhile isBlank, after, List.all_eq_true.1 List.all_takeWhile, hafter, ?_⟩
  rw [trim, trimEnd, ← heq, trimStart, List.takeWhile_append_dropWhile]

/-- A text that is trimmed is what trimming leaves of it between blanks. -/
theorem trim_append (hbefore : ∀ c ∈ before, isBlank c = true)
    (hafter : ∀ c ∈ after, isBlank c = true) (hne : cs ≠ []) (h : IsTrimmed cs) :
    trim (before ++ (cs ++ after)) = cs := by
  have hhead : ∀ c, (cs ++ after).head? = some c → isBlank c = false := by
    obtain ⟨d, rest, rfl⟩ := List.exists_cons_of_ne_nil hne
    exact h.1
  rw [trim, trimStart, List.dropWhile_append_of_pos hbefore, dropWhile_of_head hhead, trimEnd,
    trimEndWhile_append h.2 hafter]

/-- Trimming leaves such a text as it is. -/
theorem trim_of_isTrimmed {cs : List Char} (h : IsTrimmed cs) : trim cs = cs := by
  have hend : trimEndWhile isBlank (cs ++ []) = cs :=
    trimEndWhile_append h.2 fun c hc => absurd hc List.not_mem_nil
  rw [List.append_nil] at hend
  rw [trim, trimStart, dropWhile_of_head h.1, trimEnd, hend]

end SignedPdf.Text
