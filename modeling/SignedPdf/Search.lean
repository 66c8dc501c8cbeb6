/-!
# Searching a list by offset

A matcher looks at what is left of a list and accepts it or not. `first?` finds
the least offset that a matcher accepts and `all` every such offset, in order;
`apart` finds matches one after the other, so that none overlaps another. All
hand back what the matcher read there.

* `first?_eq_some_iff` and `first?_eq_none_iff` say exactly when an offset is
  found.
* `misses_append_iff` and `Misses.first?_append`: a part in which nothing is
  accepted is passed over, and can be taken apart.
* `takeWhile_run`, `dropWhile_run` and `run_of_dropWhile`: a run of elements up to the
  one that ends it.
* `all_eq` says that `all` misses no offset and adds none, and `pairwise_all` that
  they stand in order.
* `apart_of_first?_eq_some` says that after a match the search goes on where it
  ends, and `Separate.apart_eq_all` that nothing is missed by this if no match
  can start inside another.
-/

namespace SignedPdf.Search

variable {α β : Type}

/-! ## The first match -/

/-- The least accepted offset, where `xs` starts at `offset`. -/
def firstFrom (f : List α → Option β) (offset : Nat) : List α → Option (Nat × β)
  | [] => (f []).map fun b => (offset, b)
  | x :: xs =>
    match f (x :: xs) with
    | some b => some (offset, b)
    | none => firstFrom f (offset + 1) xs

/-- The least offset at which `f` accepts what follows, and what it reads. -/
def first? (f : List α → Option β) (xs : List α) : Option (Nat × β) := firstFrom f 0 xs

theorem firstFrom_eq_some_iff {f : List α → Option β} {start o : Nat} {xs : List α} {b : β} :
    firstFrom f start xs = some (o, b) ↔
      ∃ i, o = start + i ∧ i ≤ xs.length ∧ f (xs.drop i) = some b ∧
        ∀ j < i, f (xs.drop j) = none := by
  induction xs generalizing start with
  | nil =>
    simp only [firstFrom, Option.map_eq_some_iff, Prod.mk.injEq, List.length_nil,
      Nat.le_zero_eq, List.drop_nil]
    constructor
    · rintro ⟨b', hb, rfl, rfl⟩
      exact ⟨0, rfl, rfl, hb, by simp⟩
    · rintro ⟨i, rfl, rfl, hb, _⟩
      exact ⟨b, hb, rfl, rfl⟩
  | cons x xs ih =>
    rw [firstFrom]
    split
    · next b' hb' =>
      simp only [Option.some.injEq, Prod.mk.injEq]
      constructor
      · rintro ⟨rfl, rfl⟩
        exact ⟨0, rfl, by simp, by simpa using hb', by simp⟩
      · rintro ⟨i, rfl, _, hb, hmin⟩
        cases i with
        | zero =>
          rw [List.drop_zero, hb'] at hb
          exact ⟨rfl, Option.some.inj hb⟩
        | succ i =>
          have := hmin 0 (by omega)
          rw [List.drop_zero, hb'] at this
          cases this
    · next hnone =>
      rw [ih]
      constructor
      · rintro ⟨i, rfl, hi, hb, hmin⟩
        refine ⟨i + 1, by omega, by simpa using hi, by simpa using hb, ?_⟩
        intro j hj
        cases j with
        | zero => simpa using hnone
        | succ j => simpa using hmin j (by omega)
      · rintro ⟨i, rfl, hi, hb, hmin⟩
        cases i with
        | zero =>
          rw [List.drop_zero, hnone] at hb
          cases hb
        | succ i =>
          refine ⟨i, by omega, by simpa using hi, by simpa using hb, ?_⟩
          intro j hj
          simpa using hmin (j + 1) (by omega)

/-- An offset is found exactly when it is accepted and no smaller one is. -/
theorem first?_eq_some_iff {f : List α → Option β} {xs : List α} {o : Nat} {b : β} :
    first? f xs = some (o, b) ↔
      o ≤ xs.length ∧ f (xs.drop o) = some b ∧ ∀ j < o, f (xs.drop j) = none := by
  rw [first?, firstFrom_eq_some_iff]
  constructor
  · rintro ⟨i, rfl, h⟩
    simpa using h
  · intro h
    exact ⟨o, by simp, h⟩

theorem firstFrom_eq_none_iff {f : List α → Option β} {start : Nat} {xs : List α} :
    firstFrom f start xs = none ↔ ∀ i ≤ xs.length, f (xs.drop i) = none := by
  induction xs generalizing start with
  | nil => simp [firstFrom]
  | cons x xs ih =>
    rw [firstFrom]
    split
    · next b hb =>
      simp only [reduceCtorEq, false_iff]
      intro h
      have := h 0 (by omega)
      rw [List.drop_zero, hb] at this
      cases this
    · next hnone =>
      rw [ih]
      constructor
      · intro h i hi
        cases i with
        | zero => simpa using hnone
        | succ i => simpa using h i (by simpa using hi)
      · intro h i hi
        simpa using h (i + 1) (by simpa using hi)

/-- Nothing is found exactly when no offset is accepted. -/
theorem first?_eq_none_iff {f : List α → Option β} {xs : List α} :
    first? f xs = none ↔ ∀ i ≤ xs.length, f (xs.drop i) = none :=
  firstFrom_eq_none_iff

/-! ## Parts without a match -/

/-- No offset within `part` is accepted if `rest` follows. -/
def Misses (f : List α → Option β) (part rest : List α) : Prop :=
  ∀ j < part.length, f ((part ++ rest).drop j) = none

theorem misses_nil (f : List α → Option β) (rest : List α) : Misses f [] rest := by
  intro j hj
  cases hj

theorem misses_cons_iff {f : List α → Option β} {x : α} {part rest : List α} :
    Misses f (x :: part) rest ↔ f (x :: (part ++ rest)) = none ∧ Misses f part rest := by
  constructor
  · intro h
    refine ⟨h 0 (by simp), fun j hj => ?_⟩
    exact h (j + 1) (by simpa using hj)
  · rintro ⟨hx, hpart⟩ j hj
    cases j with
    | zero => exact hx
    | succ j => exact hpart j (by simpa using hj)

/-- A part can be taken apart. -/
theorem misses_append_iff {f : List α → Option β} {part part' rest : List α} :
    Misses f (part ++ part') rest ↔ Misses f part (part' ++ rest) ∧ Misses f part' rest := by
  induction part with
  | nil => simp [misses_nil]
  | cons x part ih =>
    rw [List.cons_append, misses_cons_iff, misses_cons_iff, ih, List.append_assoc, and_assoc]

/-- What follows such a part is found first, if it is accepted. -/
theorem Misses.first?_append {f : List α → Option β} {part rest : List α} {b : β}
    (h : Misses f part rest) (hb : f rest = some b) :
    first? f (part ++ rest) = some (part.length, b) :=
  first?_eq_some_iff.2 ⟨by simp, by rw [List.drop_left]; exact hb, h⟩

/-! ## Runs -/

section Runs

variable {p : α → Bool} {run : List α} {x : α}

/-- A run that ends is taken whole. -/
theorem takeWhile_run (h : ∀ y ∈ run, p y = true) (hx : p x = false) (rest : List α) :
    (run ++ x :: rest).takeWhile p = run := by
  rw [List.takeWhile_append_of_pos h, List.takeWhile_cons_of_neg (by simp [hx]), List.append_nil]

/-- What ends a run is left. -/
theorem dropWhile_run (h : ∀ y ∈ run, p y = true) (hx : p x = false) (rest : List α) :
    (run ++ x :: rest).dropWhile p = x :: rest := by
  rw [List.dropWhile_append_of_pos h, List.dropWhile_cons_of_neg (by simp [hx])]

/-- What is left after a run starts with what ends it. -/
theorem run_of_dropWhile {xs rest : List α} (h : xs.dropWhile p = x :: rest) :
    xs = xs.takeWhile p ++ x :: rest ∧ (∀ y ∈ xs.takeWhile p, p y = true) ∧ p x = false := by
  refine ⟨?_, List.all_eq_true.1 List.all_takeWhile, ?_⟩
  · rw [← h, List.takeWhile_append_dropWhile]
  · have hhead := List.head?_dropWhile_not p xs
    rw [h] at hhead
    simpa using hhead

end Runs

/-! ## All matches -/

/-- The accepted offsets from `offset` on; `out` holds those before it, last
first. -/
def allFrom (f : List α → Option β) (offset : Nat) (out : List (Nat × β)) :
    List α → List (Nat × β)
  | [] => out.reverse
  | x :: xs =>
    match f (x :: xs) with
    | some b => allFrom f (offset + 1) ((offset, b) :: out) xs
    | none => allFrom f (offset + 1) out xs

/-- Every offset before the end at which `f` accepts what follows, in order,
with what it reads there. -/
def all (f : List α → Option β) (xs : List α) : List (Nat × β) := allFrom f 0 [] xs

theorem allFrom_eq {f : List α → Option β} {start : Nat} {out : List (Nat × β)} {xs : List α} :
    allFrom f start out xs = out.reverse ++
      (List.range xs.length).filterMap fun i => (f (xs.drop i)).map fun b => (start + i, b) := by
  induction xs generalizing start out with
  | nil => simp [allFrom]
  | cons x xs ih =>
    rw [allFrom, List.length_cons, List.range_succ_eq_map, List.filterMap_cons,
      List.filterMap_map, List.drop_zero]
    have hshift : ((fun i => (f ((x :: xs).drop i)).map fun b => (start + i, b)) ∘ Nat.succ) =
        fun i => (f (xs.drop i)).map fun b => (start + 1 + i, b) := by
      funext i
      simp [Function.comp, Nat.add_comm, Nat.add_left_comm]
    split
    · next b hb =>
      rw [ih, hb, hshift]
      simp
    · next hnone =>
      rw [ih, hnone, hshift]
      rfl

/-- All matches are those of the offsets before the end, one by one. -/
theorem all_eq {f : List α → Option β} {xs : List α} :
    all f xs =
      (List.range xs.length).filterMap fun i => (f (xs.drop i)).map fun b => (i, b) := by
  rw [all, allFrom_eq]
  simp

theorem mem_all_iff {f : List α → Option β} {xs : List α} {o : Nat} {b : β} :
    (o, b) ∈ all f xs ↔ o < xs.length ∧ f (xs.drop o) = some b := by
  rw [all_eq, List.mem_filterMap]
  constructor
  · rintro ⟨i, hi, h⟩
    obtain ⟨b', hb', heq⟩ := Option.map_eq_some_iff.1 h
    cases heq
    exact ⟨List.mem_range.1 hi, hb'⟩
  · rintro ⟨ho, hb⟩
    exact ⟨o, List.mem_range.2 ho, by simp [hb]⟩

/-- The matches stand in increasing order. -/
theorem pairwise_all (f : List α → Option β) (xs : List α) :
    (all f xs).Pairwise fun p q => p.1 < q.1 := by
  rw [all_eq, List.pairwise_filterMap]
  refine List.pairwise_lt_range.imp ?_
  intro i j hlt p hp q hq
  obtain ⟨_, _, rfl⟩ := Option.map_eq_some_iff.1 hp
  obtain ⟨_, _, rfl⟩ := Option.map_eq_some_iff.1 hq
  exact hlt

/-! ## Matches one after the other -/

/-- The matches from `offset` on. A matcher tells how many elements a match
takes; the first of them is looked at and the others are passed over, of which
`skip` are still left. `out` holds the matches before, last first. -/
def apartFrom (f : List α → Option (Nat × β)) :
    (skip offset : Nat) → (out : List (Nat × β)) → List α → List (Nat × β)
  | _, _, out, [] => out.reverse
  | skip + 1, offset, out, _ :: xs => apartFrom f skip (offset + 1) out xs
  | 0, offset, out, x :: xs =>
    match f (x :: xs) with
    | some (size, b) => apartFrom f (size - 1) (offset + 1) ((offset, b) :: out) xs
    | none => apartFrom f 0 (offset + 1) out xs

/-- The matches that are found one after the other: each is the leftmost one
that starts no sooner than the one before has ended. -/
def apart (f : List α → Option (Nat × β)) (xs : List α) : List (Nat × β) := apartFrom f 0 0 [] xs

/-- Passing elements over leads to what is left after them. -/
theorem apartFrom_skip {f : List α → Option (Nat × β)} {skip offset : Nat} {out : List (Nat × β)}
    {xs : List α} :
    apartFrom f skip offset out xs = apartFrom f 0 (offset + skip) out (xs.drop skip) := by
  induction xs generalizing skip offset with
  | nil => cases skip <;> simp [apartFrom]
  | cons x xs ih =>
    cases skip with
    | zero => rfl
    | succ skip =>
      rw [apartFrom, ih, List.drop_succ_cons]
      congr 1
      omega

/-- So do offsets that are not accepted. -/
theorem apartFrom_of_none {f : List α → Option (Nat × β)} {o offset : Nat}
    {out : List (Nat × β)} {xs : List α} (h : ∀ j < o, f (xs.drop j) = none) :
    apartFrom f 0 offset out xs = apartFrom f 0 (offset + o) out (xs.drop o) := by
  induction o generalizing offset xs with
  | zero => rfl
  | succ o ih =>
    cases xs with
    | nil => simp [apartFrom]
    | cons x xs =>
      have hx : f (x :: xs) = none := h 0 (by omega)
      have hxs : ∀ j < o, f (xs.drop j) = none := by
        intro j hj
        exact h (j + 1) (by omega)
      simp only [apartFrom, hx]
      rw [ih hxs, List.drop_succ_cons]
      congr 1
      omega

/-- Offsets count from where the search starts, and what has been found before
does not matter. -/
theorem apartFrom_shift {f : List α → Option (Nat × β)} {skip offset : Nat} {out : List (Nat × β)}
    {xs : List α} :
    apartFrom f skip offset out xs =
      out.reverse ++ (apartFrom f skip 0 [] xs).map fun p => (offset + p.1, p.2) := by
  induction xs generalizing skip offset out with
  | nil => cases skip <;> simp [apartFrom]
  | cons x xs ih =>
    cases skip with
    | succ skip =>
      simp only [apartFrom]
      rw [ih, @ih skip (0 + 1) []]
      simp [Function.comp_def, Nat.add_assoc]
    | zero =>
      simp only [apartFrom]
      split
      · next size b _ =>
        rw [ih, @ih (size - 1) (0 + 1) [(0, b)]]
        simp [Function.comp_def, Nat.add_assoc]
      · rw [ih, @ih 0 (0 + 1) []]
        simp [Function.comp_def, Nat.add_assoc]

/-- The first match is the leftmost one, and the search goes on where it
ends. -/
theorem apart_of_first?_eq_some {f : List α → Option (Nat × β)} {xs : List α} {o size : Nat} {b : β}
    (h : first? f xs = some (o, size, b)) (hsize : 0 < size) (ho : o < xs.length) :
    apart f xs =
      (o, b) :: (apart f (xs.drop (o + size))).map fun p => (o + size + p.1, p.2) := by
  obtain ⟨_, hmatch, hleast⟩ := first?_eq_some_iff.1 h
  rw [apart, apartFrom_of_none hleast]
  cases hrest : xs.drop o with
  | nil =>
    rw [List.drop_eq_nil_iff] at hrest
    omega
  | cons y ys =>
    rw [hrest] at hmatch
    have hdrop : ys.drop (size - 1) = xs.drop (o + size) := by
      rw [← List.drop_drop, hrest]
      obtain ⟨k, rfl⟩ : ∃ k, size = k + 1 := ⟨size - 1, by omega⟩
      rfl
    have hend : 0 + o + 1 + (size - 1) = o + size := by omega
    simp only [apartFrom, hmatch]
    rw [apartFrom_skip, hdrop, hend, apartFrom_shift, Nat.zero_add]
    rfl

theorem apart_of_first?_eq_none {f : List α → Option (Nat × β)} {xs : List α}
    (h : first? f xs = none) : apart f xs = [] := by
  have hnone : ∀ j < xs.length, f (xs.drop j) = none := by
    intro j hj
    exact first?_eq_none_iff.1 h j (by omega)
  rw [apart, apartFrom_of_none hnone, List.drop_length]
  rfl

/-- No match can start inside another one. -/
def Separate (f : List α → Option (Nat × β)) : Prop :=
  ∀ ⦃xs size b⦄, f xs = some (size, b) → ∀ j, 0 < j → j < size → f (xs.drop j) = none

/-- What is passed over holds no match. -/
theorem Separate.apartFrom_eq_allFrom {f : List α → Option (Nat × β)} (hf : Separate f)
    {skip offset : Nat} {out : List (Nat × β)} {xs : List α}
    (h : ∀ j < skip, f (xs.drop j) = none) :
    apartFrom f skip offset out xs = allFrom (fun ys => (f ys).map Prod.snd) offset out xs := by
  induction xs generalizing skip offset out with
  | nil => cases skip <;> rfl
  | cons x xs ih =>
    cases skip with
    | succ skip =>
      have hx : f (x :: xs) = none := h 0 (by omega)
      simp only [apartFrom, allFrom, hx, Option.map_none]
      apply ih
      intro j hj
      exact h (j + 1) (by omega)
    | zero =>
      cases hx : f (x :: xs) with
      | none =>
        simp only [apartFrom, allFrom, hx, Option.map_none]
        apply ih
        intro j hj
        omega
      | some p =>
        obtain ⟨size, b⟩ := p
        simp only [apartFrom, allFrom, hx, Option.map_some]
        apply ih
        intro j hj
        exact hf hx (j + 1) (by omega) (by omega)

/-- If no match can start inside another, none is missed. -/
theorem Separate.apart_eq_all {f : List α → Option (Nat × β)} (hf : Separate f) (xs : List α) :
    apart f xs = all (fun ys => (f ys).map Prod.snd) xs := by
  rw [apart, all, hf.apartFrom_eq_allFrom]
  intro j hj
  omega

end SignedPdf.Search
