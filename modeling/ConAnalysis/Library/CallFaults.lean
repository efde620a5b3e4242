import ConAnalysis.Library.CallSweep

/-! Analyses that never raise a fault: where no start of a call and no visit of an item does,
a run with enough fuel has an answer. -/
namespace CallSweep.Analyzer
variable {Call Item Locals State Result Fault : Type}

/-- No fine call raises a fault at its start and no good item does when it is visited. Callees
are fine. -/
structure FaultFree (A : Analyzer Call Item Locals State Result Fault) (Fine : Call → Prop)
    (Good : Call → Item → Prop) : Prop where
  start : ∀ {call s reason}, Fine call → A.start call s ≠ .error reason
  visit : ∀ {call item l s reason}, Good call item → A.visit call item l s ≠ .error reason
  enter : ∀ {call item l s callee l' s'}, Good call item →
    A.visit call item l s = .ok (.enter callee l' s') → Fine callee

namespace FaultFree
variable {A : Analyzer Call Item Locals State Result Fault}
variable {Fine : Call → Prop} {Good : Call → Item → Prop}
variable (hGood : A.Supplies Good) (hFree : A.FaultFree Fine Good)
include hFree

/-- Sweep rule: if no item goes wrong and no callee does, the sweep does not. -/
theorem sweep_ne_fault {analyse : Call → State → Except (Stop Fault) (Result × State)} {call : Call}
    {items : List Item} {l : Locals} {s : State} {reason : Fault}
    (ih : ∀ {callee s reason}, Fine callee → analyse callee s ≠ .error (.fault reason))
    (hItems : ∀ item ∈ items, Good call item) :
    A.sweep analyse call items l s ≠ .error (.fault reason) := by
  induction items generalizing l s with
  | nil => exact fun h => by cases h
  | cons item items ihItems =>
      rw [List.forall_mem_cons] at hItems
      unfold sweep
      split
      · next hVisit => exact absurd hVisit (hFree.visit hItems.1)
      · exact ihItems hItems.2
      · next callee l₁ s₁ hVisit =>
          have hCallee : ∀ reason, analyse callee s₁ ≠ .error (.fault reason) :=
            fun _ => ih (hFree.enter hItems.1 hVisit)
          split
          · next stop hStop =>
              intro hEq
              rw [Except.error.inj hEq] at hStop
              exact hCallee reason hStop
          · exact ihItems hItems.2

include hGood

theorem run_ne_fault {fuel : Nat} {call : Call} {s : State} {reason : Fault} (hFine : Fine call) :
    A.run fuel call s ≠ .error (.fault reason) := by
  induction fuel generalizing call s reason with
  | zero => exact fun h => by cases h
  | succ fuel ih =>
      unfold run
      split
      · next hStart => exact absurd hStart (hFree.start hFine)
      · exact fun h => by cases h
      · next items l s₁ hStart =>
          have hSweep : ∀ reason, A.sweep (A.run fuel) call items l s₁ ≠ .error (.fault reason) :=
            fun _ => hFree.sweep_ne_fault ih (hGood hStart)
          split
          · next stop hStop =>
              intro hEq
              rw [Except.error.inj hEq] at hStop
              exact hSweep reason hStop
          · exact fun h => by cases h

/-- With fuel for the depth of the context there is an answer. -/
theorem exists_run {Context : Type} {context : State → Context} {depth : Context → Nat}
    (hB : A.Balanced context depth) {fuel : Nat} {call : Call} {s : State} (hFine : Fine call)
    (hDepth : depth (context s) < fuel) : ∃ answer, A.run fuel call s = .ok answer := by
  cases hRun : A.run fuel call s with
  | ok answer => exact ⟨answer, rfl⟩
  | error stop =>
      cases stop with
      | fault reason => exact absurd hRun (hFree.run_ne_fault hGood hFine)
      | outOfFuel => exact absurd hRun (hB.run_ne_outOfFuel hDepth)

end FaultFree
end CallSweep.Analyzer
