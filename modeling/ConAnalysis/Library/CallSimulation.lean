import ConAnalysis.Library.CallSweep

/-! Two analyses that differ in which callees they enter. If the second one
enters a callee that the first one leaves out, its run there must be inert:
it ends where the first one already is. -/
namespace CallSweep
namespace Analyzer
variable {Call Item Locals Result Fault StateA StateB Context : Type}

inductive SameAnswer {α : Type} (R : StateA → StateB → Prop) :
    Except (Stop Fault) (α × StateA) → Except (Stop Fault) (α × StateB) → Prop where
  | error (stop : Stop Fault) : SameAnswer R (.error stop) (.error stop)
  | ok {answer : α} {s : StateA} {t : StateB} (related : R s t) :
      SameAnswer R (.ok (answer, s)) (.ok (answer, t))

inductive SameEntry (R : StateA → StateB → Prop) :
    Except Fault (Entry Item Locals StateA Result) →
    Except Fault (Entry Item Locals StateB Result) → Prop where
  | error (reason : Fault) : SameEntry R (.error reason) (.error reason)
  | returned {result : Result} {s : StateA} {t : StateB} (related : R s t) :
      SameEntry R (.ok (.returned result s)) (.ok (.returned result t))
  | body {items : List Item} {locals : Locals} {s : StateA} {t : StateB} (related : R s t) :
      SameEntry R (.ok (.body items locals s)) (.ok (.body items locals t))

/-- Visits of one item that do the same, or of which the second one enters a
callee for which `Inert` holds. -/
inductive SameVisit (R : StateA → StateB → Prop) (Inert : Call → StateA → StateB → Prop) :
    Except Fault (Outcome Call Locals StateA) → Except Fault (Outcome Call Locals StateB) →
    Prop where
  | error (reason : Fault) : SameVisit R Inert (.error reason) (.error reason)
  | done {locals : Locals} {s : StateA} {t : StateB} (related : R s t) :
      SameVisit R Inert (.ok (.done locals s)) (.ok (.done locals t))
  | enter {callee : Call} {locals : Locals} {s : StateA} {t : StateB} (related : R s t) :
      SameVisit R Inert (.ok (.enter callee locals s)) (.ok (.enter callee locals t))
  | skip {callee : Call} {locals : Locals} {s : StateA} {t : StateB} (inert : Inert callee s t) :
      SameVisit R Inert (.ok (.done locals s)) (.ok (.enter callee locals t))

variable (A : Analyzer Call Item Locals StateA Result Fault)
variable (B : Analyzer Call Item Locals StateB Result Fault)

/-- With enough fuel the callee's run ends in a state related to `s`. -/
def InertFrom (context : StateB → Context) (depth : Context → Nat) (R : StateA → StateB → Prop)
    (item : Item) (callee : Call) (s : StateA) (t : StateB) : Prop :=
  ∀ fuel, depth (context t) < fuel →
    ∃ result t', B.run fuel callee t = .ok (result, t') ∧ R s (B.leave callee item result t')

/-- Single steps from related states lead to related states, as long as the
points of the first analysis have the property `P`. -/
structure Simulates (P : Point Call Item Locals StateA → Prop) (context : StateB → Context)
    (depth : Context → Nat) (R : StateA → StateB → Prop) : Prop where
  start : ∀ {call s t}, R s t → SameEntry R (A.start call s) (B.start call t)
  visit : ∀ {call item items l s t}, P ⟨call, item :: items, l, s⟩ → R s t →
    SameVisit R (B.InertFrom context depth R item) (A.visit call item l s) (B.visit call item l t)
  leave : ∀ {callee item result s t}, R s t →
    R (A.leave callee item result s) (B.leave callee item result t)
  result : ∀ locals, A.result locals = B.result locals

namespace Simulates
variable {A B} {P : Point Call Item Locals StateA → Prop} {context : StateB → Context}
variable {depth : Context → Nat} {R : StateA → StateB → Prop}
variable (hB : B.Balanced context depth) (hSim : A.Simulates B P context depth R)
include hB hSim

/-- Sweep rule of the simulation. The depth of the context bounds the calls below, so that equal
fuel is enough for both. -/
theorem sweep {fuel : Nat}
    (hRun : ∀ {callee s t}, R s t → depth (context t) < fuel → (∀ p, A.Visits callee s p → P p) →
      SameAnswer R (A.run fuel callee s) (B.run fuel callee t))
    {call : Call} {items : List Item} {l : Locals} {s : StateA} {t : StateB} (hR : R s t)
    (hDepth : depth (context t) ≤ fuel) (hP : ∀ p, A.Reaches ⟨call, items, l, s⟩ p → P p) :
    SameAnswer R (A.sweep (A.run fuel) call items l s) (B.sweep (B.run fuel) call items l t) := by
  induction items generalizing l s t with
  | nil => exact .ok hR
  | cons item items ih =>
      have hVisit := hSim.visit (hP _ .refl) hR
      unfold Analyzer.sweep
      generalize hVisitA : A.visit call item l s = first at hVisit
      generalize hVisitB : B.visit call item l t = second at hVisit
      cases hVisit with
      | error reason => exact .error _
      | done related =>
          exact ih related (by rwa [hB.done hVisitB])
            fun p hReach => hP p (.head (.inl (.done hVisitA)) hReach)
      | @enter callee l₁ s₁ t₁ related =>
          have hLower := hB.enter hVisitB
          have hCallee := hRun related (by omega) fun p hVisits => hP p (hVisits.of_enter hVisitA)
          simp only
          generalize hRunA : A.run fuel callee s₁ = answerA at hCallee
          generalize hRunB : B.run fuel callee t₁ = answerB at hCallee
          cases hCallee with
          | error stop => exact .error stop
          | @ok result s₂ t₂ related =>
              have hBack : context (B.leave callee item result t₂) = context t :=
                hB.leave hVisitB (hB.runs (B.runs_of_run hRunB))
              exact ih (hSim.leave related) (by rwa [hBack]) fun p hReach =>
                hP p (.head (.inl (.called hVisitA (A.runs_of_run hRunA))) hReach)
      | @skip callee l₁ s₁ t₁ inert =>
          have hLower := hB.enter hVisitB
          obtain ⟨result, t₂, hRunB, related⟩ := inert fuel (by omega)
          have hBack : context (B.leave callee item result t₂) = context t :=
            hB.leave hVisitB (hB.runs (B.runs_of_run hRunB))
          simp only [hRunB]
          exact ih related (by rwa [hBack])
            fun p hReach => hP p (.head (.inl (.done hVisitA)) hReach)

/-- Fuel beyond the depth of the context makes the two runs agree. -/
theorem run {fuel : Nat} {call : Call} {s : StateA} {t : StateB} (hR : R s t)
    (hDepth : depth (context t) < fuel) (hP : ∀ p, A.Visits call s p → P p) :
    SameAnswer R (A.run fuel call s) (B.run fuel call t) := by
  induction fuel generalizing call s t with
  | zero => omega
  | succ fuel ih =>
      have hStart : SameEntry R (A.start call s) (B.start call t) := hSim.start hR
      unfold Analyzer.run
      generalize hStartA : A.start call s = first at hStart
      generalize hStartB : B.start call t = second at hStart
      cases hStart with
      | error reason => exact .error _
      | returned related => exact .ok related
      | @body items l s₁ t₁ related =>
          have hSame := hB.body hStartB
          have hSweep : SameAnswer R (A.sweep (A.run fuel) call items l s₁)
              (B.sweep (B.run fuel) call items l t₁) :=
            sweep hB hSim ih related (by rw [hSame]; omega)
              fun p hReach => hP p ⟨_, _, _, hStartA, hReach⟩
          simp only
          generalize A.sweep (A.run fuel) call items l s₁ = answerA at hSweep
          generalize B.sweep (B.run fuel) call items l t₁ = answerB at hSweep
          cases hSweep with
          | error stop => exact .error stop
          | ok related =>
              simp only [hSim.result]
              exact .ok related

end Simulates
end Analyzer
end CallSweep
