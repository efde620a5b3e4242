import Mathlib.Tactic.Common

/-! Computations that may raise an exception: where the result of a sequence of them comes from,
what a loop over them keeps, and how a result is read off. -/
namespace Exceptions

variable {ε α β : Type}

/-- A sequence has a result if both of its parts have one. -/
theorem bind_eq_ok_iff {x : Except ε α} {f : α → Except ε β} {b : β} :
    x >>= f = .ok b ↔ ∃ a, x = .ok a ∧ f a = .ok b := by
  cases x with
  | error e =>
      constructor
      · intro h
        cases h
      · rintro ⟨a, hError, -⟩
        cases hError
  | ok a =>
      constructor
      · exact fun h => ⟨a, rfl, h⟩
      · rintro ⟨a', hOk, h⟩
        cases hOk
        exact h

/-- It raises what its first part raises, or what its second part does after the first. -/
theorem bind_eq_error_iff {x : Except ε α} {f : α → Except ε β} {e : ε} :
    x >>= f = .error e ↔ x = .error e ∨ ∃ a, x = .ok a ∧ f a = .error e := by
  cases x with
  | error e' =>
      constructor
      · exact fun h => .inl (congrArg _ (Except.error.inj h))
      · rintro (hError | ⟨a, hOk, -⟩)
        · exact congrArg _ (Except.error.inj hError)
        · cases hOk
  | ok a =>
      constructor
      · exact fun h => .inr ⟨a, rfl, h⟩
      · rintro (hError | ⟨a', hOk, h⟩)
        · cases hError
        · cases hOk
          exact h

section Loops
variable {f : β → α → Except ε β} {items : List α} {b b' : β}

/-- Induction over a loop that has a result. The motive is about the items that are still to come
and the value so far. -/
theorem foldlM_ok_induction {motive : List α → β → Prop} (h : items.foldlM f b = .ok b')
    (start : motive items b)
    (step : ∀ item rest b b', motive (item :: rest) b → f b item = .ok b' → motive rest b') :
    motive [] b' := by
  induction items generalizing b with
  | nil =>
      rw [List.foldlM_nil] at h
      cases h
      exact start
  | cons item rest ih =>
      rw [List.foldlM_cons, bind_eq_ok_iff] at h
      obtain ⟨middle, hItem, hRest⟩ := h
      exact ih hRest (step item rest b middle start hItem)

/-- What each item keeps, a loop that has a result keeps too. -/
theorem foldlM_ok_invariant {motive : β → Prop} (h : items.foldlM f b = .ok b')
    (start : motive b)
    (step : ∀ item ∈ items, ∀ b b', motive b → f b item = .ok b' → motive b') :
    motive b' := by
  refine (foldlM_ok_induction (motive := fun rest b => rest ⊆ items ∧ motive b) h
    ⟨List.Subset.refl _, start⟩ ?_).2
  rintro item rest b b' ⟨hSub, hInv⟩ hItem
  exact ⟨fun x hx => hSub (List.mem_cons_of_mem _ hx),
    step item (hSub List.mem_cons_self) b b' hInv hItem⟩

end Loops

section Evaluation
variable {x : Except ε α} {P : α → Prop} [DecidablePred P]

/-- A decidable property of a result, established by evaluation. -/
theorem exists_ok_of_eval
    (h : (match x with
      | .ok a => decide (P a)
      | .error _ => false) = true) : ∃ a, x = .ok a ∧ P a := by
  cases x with
  | error reason => cases h
  | ok a => exact ⟨a, rfl, of_decide_eq_true h⟩

/-- From a test on the outcome to the outcome, for use in examples. -/
theorem exists_ok_of_any (h : x.toOption.any (fun a => P a) = true) : ∃ a, x = .ok a ∧ P a := by
  cases x with
  | error reason => cases h
  | ok a => exact ⟨a, rfl, of_decide_eq_true h⟩

end Evaluation

end Exceptions
