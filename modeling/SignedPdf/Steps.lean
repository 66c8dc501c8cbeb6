/-!
# Steps that may fail

Steps can follow each other, so that all must succeed, or be alternatives, so
that one must.

* `bind_eq_ok_iff`: two steps in a row succeed exactly if each does.
* `found_tryEach_iff` and `found_tryEach_eq_none_iff`: of alternatives the
  first that succeeds counts, and there is none only if every one fails.
* `failed_tryEach_of_found_eq_none`: if none succeeds, the fault of each is
  told, in order.
* `exists_of_lastFault?_tryEach`: the last fault is that of an alternative, and
  `lastFault?_tryEach_of_found_eq_none`: of the last one, if none succeeds.
-/

namespace SignedPdf

variable {α β ε : Type}

/-- Two steps in a row succeed exactly if each does. -/
theorem bind_eq_ok_iff {x : Except ε α} {f : α → Except ε β} {b : β} :
    x >>= f = .ok b ↔ ∃ a, x = .ok a ∧ f a = .ok b := by
  cases x with
  | error e => exact ⟨fun h => (by cases h), fun ⟨_, h, _⟩ => (by cases h)⟩
  | ok a => exact ⟨fun h => ⟨a, rfl, h⟩, fun ⟨_, h, hb⟩ => (by cases h; exact hb)⟩

/-! ## Alternatives -/

/-- How alternatives fared. -/
structure Trial (α β ε : Type) where
  /-- The alternatives that failed before one succeeded, with their faults. -/
  failed : List (α × ε)
  /-- The alternative that succeeded, and what came of it. -/
  found : Option (α × β)
deriving DecidableEq, Repr

namespace Trial

/-- Tries alternatives in order, until one succeeds. -/
def tryEach (f : α → Except ε β) : List α → Trial α β ε
  | [] => ⟨[], none⟩
  | a :: as =>
    match f a with
    | .ok b => ⟨[], some (a, b)⟩
    | .error e =>
      let t := tryEach f as
      ⟨(a, e) :: t.failed, t.found⟩

/-- The fault of the last alternative that failed. -/
def lastFault? (t : Trial α β ε) : Option ε := t.failed.getLast?.map Prod.snd

theorem tryEach_cons_ok {f : α → Except ε β} {a : α} {b : β} (h : f a = .ok b) (as : List α) :
    tryEach f (a :: as) = ⟨[], some (a, b)⟩ := by
  rw [tryEach, h]

theorem tryEach_cons_error {f : α → Except ε β} {a : α} {e : ε} (h : f a = .error e)
    (as : List α) :
    tryEach f (a :: as) = ⟨(a, e) :: (tryEach f as).failed, (tryEach f as).found⟩ := by
  rw [tryEach, h]

/-- The alternative found is the first that succeeds. -/
theorem found_tryEach_iff {f : α → Except ε β} {as : List α} {a : α} {b : β} :
    (tryEach f as).found = some (a, b) ↔
      ∃ before after, as = before ++ a :: after ∧ f a = .ok b ∧
        ∀ c ∈ before, ∃ e, f c = .error e := by
  induction as with
  | nil => simp [tryEach]
  | cons x as ih =>
    cases hx : f x with
    | ok y =>
      rw [tryEach_cons_ok hx]
      constructor
      · intro h
        cases h
        exact ⟨[], as, rfl, hx, by simp⟩
      · rintro ⟨before, after, heq, ha, hbefore⟩
        cases before with
        | nil =>
          cases heq
          rw [hx] at ha
          cases ha
          rfl
        | cons z before =>
          cases heq
          obtain ⟨e, he⟩ := hbefore _ (List.mem_cons_self ..)
          rw [hx] at he
          cases he
    | error e =>
      rw [tryEach_cons_error hx, ih]
      constructor
      · rintro ⟨before, after, rfl, ha, hbefore⟩
        refine ⟨x :: before, after, rfl, ha, fun c hc => ?_⟩
        rcases List.mem_cons.1 hc with rfl | hc
        · exact ⟨e, hx⟩
        · exact hbefore c hc
      · rintro ⟨before, after, heq, ha, hbefore⟩
        cases before with
        | nil =>
          cases heq
          rw [hx] at ha
          cases ha
        | cons z before =>
          cases heq
          exact ⟨before, after, rfl, ha, fun c hc => hbefore c (List.mem_cons_of_mem _ hc)⟩

/-- None is found exactly if every alternative fails. -/
theorem found_tryEach_eq_none_iff {f : α → Except ε β} {as : List α} :
    (tryEach f as).found = none ↔ ∀ a ∈ as, ∃ e, f a = .error e := by
  induction as with
  | nil => simp [tryEach]
  | cons x as ih =>
    cases hx : f x with
    | ok y => simp [tryEach_cons_ok hx, hx]
    | error e => simp [tryEach_cons_error hx, hx, ih]

/-- If none is found, the fault of each alternative is told, in order. -/
theorem failed_tryEach_of_found_eq_none {f : α → Except ε β} {as : List α}
    (h : (tryEach f as).found = none) :
    (tryEach f as).failed.map (fun p => (p.1, (.error p.2 : Except ε β))) =
      as.map fun a => (a, f a) := by
  induction as with
  | nil => rfl
  | cons x as ih =>
    cases hx : f x with
    | ok y =>
      rw [tryEach_cons_ok hx] at h
      cases h
    | error e =>
      rw [tryEach_cons_error hx] at h ⊢
      simp [ih h, hx]

/-- A fault that is told is that of an alternative. -/
theorem mem_failed_tryEach {f : α → Except ε β} {as : List α} {a : α} {e : ε}
    (h : (a, e) ∈ (tryEach f as).failed) : a ∈ as ∧ f a = .error e := by
  induction as with
  | nil => simp [tryEach] at h
  | cons x as ih =>
    cases hx : f x with
    | ok y => simp [tryEach_cons_ok hx] at h
    | error e' =>
      simp only [tryEach_cons_error hx, List.mem_cons, Prod.mk.injEq] at h
      rcases h with ⟨rfl, rfl⟩ | h
      · exact ⟨List.mem_cons_self, hx⟩
      · exact ⟨List.mem_cons_of_mem _ (ih h).1, (ih h).2⟩

/-- The last fault is that of an alternative. -/
theorem exists_of_lastFault?_tryEach {f : α → Except ε β} {as : List α} {e : ε}
    (h : (tryEach f as).lastFault? = some e) : ∃ a ∈ as, f a = .error e := by
  obtain ⟨⟨a, e'⟩, hlast, rfl⟩ := Option.map_eq_some_iff.1 h
  obtain ⟨ha, hf⟩ := mem_failed_tryEach (List.mem_of_getLast? hlast)
  exact ⟨a, ha, hf⟩

/-- If none is found, the last fault is that of the last alternative. -/
theorem lastFault?_tryEach_of_found_eq_none {f : α → Except ε β} {as : List α}
    (h : (tryEach f as).found = none) :
    (tryEach f as).lastFault?.map Except.error = as.getLast?.map f := by
  have hlast := congrArg (fun l => l.getLast?.map Prod.snd) (failed_tryEach_of_found_eq_none h)
  simpa only [List.getLast?_map, Option.map_map, lastFault?, Function.comp_def] using hlast

end Trial

end SignedPdf
