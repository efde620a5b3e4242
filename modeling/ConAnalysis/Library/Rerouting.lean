import Mathlib.Logic.Relation
import Mathlib.Tactic.Common

/-! Changes to a graph that keep which of the nodes of interest can be reached. -/
namespace Rerouting
open Relation

variable {α : Type} {r s : α → α → Prop} {x t : α}

/-- A path begins with an edge to its end, or to a node from which it goes on. -/
theorem transGen_head_iff : TransGen r x t ↔ ∃ y, r x y ∧ (y = t ∨ TransGen r y t) := by
  constructor
  · intro h
    obtain ⟨y, hStep, hRest⟩ := TransGen.head'_iff.mp h
    rcases reflTransGen_iff_eq_or_transGen.mp hRest with rfl | hRest
    · exact ⟨t, hStep, .inl rfl⟩
    · exact ⟨y, hStep, .inr hRest⟩
  · rintro ⟨y, hStep, rfl | hRest⟩
    · exact .single hStep
    · exact .head hStep hRest

/-- No path begins at a node without edges. -/
theorem not_transGen_of_isolated (h : ∀ y, ¬r x y) : ¬TransGen r x t := by
  intro hPath
  obtain ⟨y, hStep, -⟩ := transGen_head_iff.mp hPath
  exact h y hStep

/-- A node that no edge leads to can get any edges. -/
theorem transGen_of_new (new : α) (hNew : ∀ x, ¬r x new)
    (hSame : ∀ x, x ≠ new → ∀ y, s x y ↔ r x y) (hx : x ≠ new) : TransGen s x t ↔ TransGen r x t := by
  constructor
  · intro h
    induction h using TransGen.head_induction_on with
    | single hStep => exact .single ((hSame _ hx _).mp hStep)
    | head hStep _ ih =>
        have hOld := (hSame _ hx _).mp hStep
        exact .head hOld (ih fun hEq => hNew _ (hEq ▸ hOld))
  · intro h
    induction h using TransGen.head_induction_on with
    | single hStep => exact .single ((hSame _ hx _).mpr hStep)
    | head hStep _ ih =>
        exact .head ((hSame _ hx _).mpr hStep) (ih fun hEq => hNew _ (hEq ▸ hStep))

/-- Edges may be added to nodes that lead nowhere new, and taken away where there
is another path or a dead end. -/
theorem transGen_congr (target : α → Prop)
    (hForth : ∀ x y, s x y → r x y ∨ (¬target y ∧ ∀ t, target t → TransGen r y t → TransGen r x t))
    (hBack : ∀ x y, r x y → TransGen s x y ∨ (¬target y ∧ ∀ z, ¬r y z)) (ht : target t) :
    TransGen s x t ↔ TransGen r x t := by
  constructor
  · intro h
    induction h using TransGen.head_induction_on with
    | single hStep =>
        rcases hForth _ _ hStep with hOld | ⟨hNot, -⟩
        · exact .single hOld
        · exact absurd ht hNot
    | head hStep _ ih =>
        rcases hForth _ _ hStep with hOld | ⟨-, hDetour⟩
        · exact .head hOld ih
        · exact hDetour t ht ih
  · intro h
    induction h using TransGen.head_induction_on with
    | single hStep =>
        rcases hBack _ _ hStep with hPath | ⟨hNot, -⟩
        · exact hPath
        · exact absurd ht hNot
    | head hStep hRest ih =>
        rcases hBack _ _ hStep with hPath | ⟨-, hEnd⟩
        · exact hPath.trans ih
        · exact absurd hRest (not_transGen_of_isolated hEnd)

end Rerouting
