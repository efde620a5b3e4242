import Mathlib.Tactic.Common

/-! Loops over a list whose body may leave them early, with the states that they get to. -/
namespace BreakLoop
variable {State Item : Type}

/-- A round ends with `continue`, or with `break`. -/
inductive Round (State : Type) where
  | next (state : State)
  | leave (state : State)

variable (round : State → Item → Round State)

def loop : List Item → State → State
  | [], state => state
  | item :: items, state =>
      match round state item with
      | .next state => loop items state
      | .leave state => state

inductive Passes : State → List Item → State → Prop where
  | nil (state : State) : Passes state [] state
  | cons {item : Item} {items : List Item} {s s₁ s₂ : State} (first : round s item = .next s₁)
      (rest : Passes s₁ items s₂) : Passes s (item :: items) s₂

section Rules
variable {round} {items : List Item} {s : State}

/-- The invariant rule. -/
theorem loop_invariant {I : State → Prop} (hs : I s)
    (next : ∀ item ∈ items, ∀ {s s'}, I s → round s item = .next s' → I s')
    (leave : ∀ item ∈ items, ∀ {s s'}, I s → round s item = .leave s' → I s') :
    I (loop round items s) := by
  induction items generalizing s with
  | nil => exact hs
  | cons item items ih =>
      rw [List.forall_mem_cons] at next leave
      unfold loop
      split
      · next hRound => exact ih (next.1 hs hRound) next.2 leave.2
      · next hRound => exact leave.1 hs hRound

/-- Where only leaving changes a part of the state, this part stays unless the loop gets
to an item at which it is left with a change. -/
theorem loop_keeps_iff {Part : Type} (part : State → Part)
    (next : ∀ item ∈ items, ∀ {s s'}, round s item = .next s' → part s' = part s) :
    part (loop round items s) = part s ↔
      ∀ before item behind t t', items = before ++ item :: behind → Passes round s before t →
        round t item = .leave t' → part t' = part t := by
  induction items generalizing s with
  | nil =>
      refine iff_of_true rfl fun before item behind t t' hItems => ?_
      simp at hItems
  | cons item items ih =>
      rw [List.forall_mem_cons] at next
      unfold loop
      cases hRound : round s item with
      | leave s' =>
          constructor
          · intro hKeep before item' behind t t' hItems hPasses hLeave
            cases hPasses with
            | nil =>
                cases hItems
                cases hRound.symm.trans hLeave
                exact hKeep
            | cons first =>
                cases hItems
                cases hRound.symm.trans first
          · exact fun h => h [] item items s s' rfl (.nil s) hRound
      | next s' =>
          rw [← next.1 hRound, ih next.2]
          constructor
          · intro hKeep before item' behind t t' hItems hPasses hLeave
            cases hPasses with
            | nil =>
                cases hItems
                cases hRound.symm.trans hLeave
            | cons first rest =>
                cases hItems
                cases hRound.symm.trans first
                exact hKeep _ _ _ _ _ rfl rest hLeave
          · intro hKeep before item' behind t t' hItems hPasses hLeave
            exact hKeep (item :: before) item' behind t t' (by rw [hItems]; rfl)
              (.cons hRound hPasses) hLeave

end Rules
end BreakLoop
