import Mathlib.Data.List.Basic
import Mathlib.Logic.Function.Basic
import Mathlib.Logic.Relation
import Mathlib.Tactic.Common

/-! Solving equations with a worklist. A key is taken off the front, its value
is computed again, and when the value changes its dependents are queued behind
the others unless they are queued already. -/
namespace Worklist
variable {Key Value : Type} [DecidableEq Key] [DecidableEq Value]

structure Solver (Key Value : Type) where
  transfer : (Key → Value) → Key → Value
  dependents : Key → List Key

def pushNew (keys work : List Key) : List Key :=
  keys.foldl (fun work k => if k ∈ work then work else work ++ [k]) work

/-- Pushing what is not there yet gives the union. -/
theorem mem_pushNew {keys work : List Key} {k : Key} :
    k ∈ pushNew keys work ↔ k ∈ keys ∨ k ∈ work := by
  induction keys generalizing work with
  | nil => simp [pushNew]
  | cons first keys ih =>
      have hUnfold : pushNew (first :: keys) work =
          pushNew keys (if first ∈ work then work else work ++ [first]) := rfl
      rw [hUnfold, ih, List.mem_cons]
      split
      · next hMem =>
          constructor
          · rintro (h | h)
            · exact .inl (.inr h)
            · exact .inr h
          · rintro ((rfl | h) | h)
            · exact .inr hMem
            · exact .inl h
            · exact .inr h
      · rw [List.mem_append, List.mem_singleton]
        tauto

/-- It makes the worklist longer by no more than what is pushed. -/
theorem length_pushNew_le (keys work : List Key) :
    (pushNew keys work).length ≤ work.length + keys.length := by
  induction keys generalizing work with
  | nil => simp [pushNew]
  | cons first keys ih =>
      have hUnfold : pushNew (first :: keys) work =
          pushNew keys (if first ∈ work then work else work ++ [first]) := rfl
      rw [hUnfold]
      refine Nat.le_trans (ih _) ?_
      split
      · simp only [List.length_cons]
        omega
      · simp only [List.length_append, List.length_cons, List.length_nil]
        omega

namespace Solver
variable (S : Solver Key Value)

/-- The loop, with fuel for its rounds. It answers `none` when that runs out. -/
def run : Nat → List Key → (Key → Value) → Option (Key → Value)
  | _, [], store => some store
  | 0, _ :: _, _ => none
  | fuel + 1, k :: work, store =>
      if S.transfer store k = store k then run fuel work store
      else run fuel (pushNew (S.dependents k) work) (Function.update store k (S.transfer store k))

/-- One round, from the worklist and the store to those that the next loop test finds. -/
inductive Round : List Key × (Key → Value) → List Key × (Key → Value) → Prop where
  | same {k : Key} {work : List Key} {store : Key → Value} (hSame : S.transfer store k = store k) :
      Round (k :: work, store) (work, store)
  | change {k : Key} {work : List Key} {store : Key → Value}
      (hChange : S.transfer store k ≠ store k) : Round (k :: work, store)
        (pushNew (S.dependents k) work, Function.update store k (S.transfer store k))

/-- A run that ends is a sequence of rounds. -/
theorem rounds_of_run {fuel : Nat} {work : List Key} {store result : Key → Value}
    (h : S.run fuel work store = some result) :
    Relation.ReflTransGen S.Round (work, store) ([], result) := by
  induction fuel generalizing work store with
  | zero =>
      cases work with
      | nil =>
          cases h
          exact .refl
      | cons k work => cases h
  | succ fuel ih =>
      cases work with
      | nil =>
          cases h
          exact .refl
      | cons k work =>
          unfold run at h
          split at h
          · next hSame => exact .head (.same hSame) (ih h)
          · next hChange => exact .head (.change hChange) (ih h)

omit [DecidableEq Value] in
/-- What every round preserves holds after any number of rounds. -/
theorem rounds_invariant {I : List Key → (Key → Value) → Prop}
    (same : ∀ {k work store}, I (k :: work) store → S.transfer store k = store k → I work store)
    (change : ∀ {k work store}, I (k :: work) store → S.transfer store k ≠ store k →
      I (pushNew (S.dependents k) work) (Function.update store k (S.transfer store k)))
    {c c' : List Key × (Key → Value)} (hI : I c.1 c.2) (h : Relation.ReflTransGen S.Round c c') :
    I c'.1 c'.2 := by
  induction h with
  | refl => exact hI
  | tail _ last ih =>
      cases last with
      | same hSame => exact same ih hSame
      | change hChange => exact change ih hChange

/-- It holds at the end, with nothing left to do. -/
theorem run_invariant {I : List Key → (Key → Value) → Prop}
    (same : ∀ {k work store}, I (k :: work) store → S.transfer store k = store k → I work store)
    (change : ∀ {k work store}, I (k :: work) store → S.transfer store k ≠ store k →
      I (pushNew (S.dependents k) work) (Function.update store k (S.transfer store k)))
    {fuel : Nat} {work : List Key} {store result : Key → Value} (hI : I work store)
    (h : S.run fuel work store = some result) : I [] result :=
  S.rounds_invariant same change hI (S.rounds_of_run h)

/-- The loop ends if a change always costs some potential: that much times one
more than the number of dependents, and the worklist, bound the rounds. -/
theorem run_isSome {I : List Key → (Key → Value) → Prop} {potential : (Key → Value) → Nat}
    {width : Nat}
    (same : ∀ {k work store}, I (k :: work) store → S.transfer store k = store k → I work store)
    (change : ∀ {k work store}, I (k :: work) store → S.transfer store k ≠ store k →
      I (pushNew (S.dependents k) work) (Function.update store k (S.transfer store k)) ∧
        potential (Function.update store k (S.transfer store k)) < potential store)
    (hWidth : ∀ k, (S.dependents k).length ≤ width)
    {fuel : Nat} {work : List Key} {store : Key → Value} (hI : I work store)
    (hFuel : (width + 1) * potential store + work.length ≤ fuel) :
    (S.run fuel work store).isSome = true := by
  induction fuel generalizing work store with
  | zero =>
      cases work with
      | nil => rfl
      | cons k work =>
          rw [List.length_cons] at hFuel
          omega
  | succ fuel ih =>
      cases work with
      | nil => rfl
      | cons k work =>
          rw [List.length_cons] at hFuel
          unfold run
          split
          · next hSame => exact ih (same hI hSame) (by omega)
          · next hChange =>
              obtain ⟨hI', hLess⟩ := change hI hChange
              refine ih hI' ?_
              have hPush := Nat.le_trans (length_pushNew_le (S.dependents k) work)
                (Nat.add_le_add_left (hWidth k) _)
              have hPay : (width + 1) * (potential (Function.update store k (S.transfer store k)) + 1) ≤
                  (width + 1) * potential store := Nat.mul_le_mul_left _ hLess
              rw [Nat.mul_add, Nat.mul_one] at hPay
              omega

end Solver
end Worklist
