import ConAnalysis.Dataflow.Replay

/-! Termination of the recursion and balance of the call stack. The depth that
is left is the number of functions whose names are not on the stack. -/
namespace ConAnalysis
open IR CallSweep

namespace Env
variable {env : Env}

/-- The functions that may still be entered. One index stands for all
functions outside the module. -/
def enterable (env : Env) (stack : List FuncInst) : Finset FuncRef :=
  (Finset.range (env.module.functions.length + 1)).filter fun f =>
    ∀ layer ∈ stack, (env.func layer.1).name ≠ (env.func f).name

/-- An index outside the module means the same empty declaration as any other. -/
theorem exists_mem_range_name_eq (env : Env) (f : FuncRef) :
    ∃ g ∈ Finset.range (env.module.functions.length + 1),
      (env.func g).name = (env.func f).name := by
  by_cases hf : f < env.module.functions.length
  · exact ⟨f, Finset.mem_range.mpr (Nat.lt_succ_of_lt hf), rfl⟩
  · refine ⟨env.module.functions.length, Finset.mem_range.mpr (Nat.lt_succ_self _), ?_⟩
    simp [func, Module.func, List.getElem?_eq_none (Nat.le_of_not_lt hf)]

/-- Each callee on the stack is one function fewer that can be entered. -/
theorem enterable_push_card_lt {callee : FuncRef} {s : State}
    (h : env.onCallStack callee s = false) :
    (env.enterable ((callee, none) :: s.callStack)).card < (env.enterable s.callStack).card := by
  obtain ⟨g, hRange, hName⟩ := exists_mem_range_name_eq env callee
  apply Finset.card_lt_card
  rw [Finset.ssubset_iff_of_subset]
  · refine ⟨g, ?_, ?_⟩
    · simp only [onCallStack, List.any_eq_false, decide_eq_true_eq] at h
      simp only [enterable, Finset.mem_filter, hRange, true_and, hName]
      exact h
    · simp [enterable, hName]
  · intro f hf
    simp only [enterable, Finset.mem_filter, List.forall_mem_cons] at hf ⊢
    exact ⟨hf.1, hf.2.2⟩

/-- Every completed step restores the call stack, and every callee is entered
with fewer functions left. -/
theorem analyzer_balanced :
    env.analyzer.Balanced State.callStack fun stack => (env.enterable stack).card where
  returned h := by
    obtain ⟨-, rv, hSeed⟩ := start_returned h
    exact hSeed.callStack
  body h := by
    obtain ⟨s₁, hSeed, -, hParams⟩ := start_body h
    exact (handleParams_callStack hParams).trans hSeed.callStack
  done h := by cases visit_done h <;> simp [checkedState]
  enter h := by
    have hEnter := visit_enter h
    rw [hEnter.state_eq]
    simpa [checkedState] using enterable_push_card_lt hEnter.notOnCallStack
  leave {call item l s callee l' s' result s''} h hContext := by
    rw [(visit_enter h).state_eq] at hContext
    cases result <;> simp [analyzer, Env.leave, hContext, checkedState]

/-- Hence calls nest no deeper than there are functions. -/
theorem enterable_card_lt_recursionFuel (env : Env) (stack : List FuncInst) :
    (env.enterable stack).card < env.recursionFuel := by
  calc (env.enterable stack).card
      ≤ (Finset.range (env.module.functions.length + 1)).card := Finset.card_filter_le _ _
    _ < env.recursionFuel := by simp [recursionFuel]

/-- The recursion ends within its fuel from every state, whatever the call
graph and the call stack. -/
theorem intraDataflowAnalysis_ne_outOfFuel {fuel : Nat} (hFuel : env.recursionFuel ≤ fuel)
    (call : Call) (s : State) : env.intraDataflowAnalysis fuel call s ≠ .error .outOfFuel :=
  analyzer_balanced.run_ne_outOfFuel
    ((enterable_card_lt_recursionFuel env s.callStack).trans_le hFuel)

/-- More fuel than that changes nothing. -/
theorem intraDataflowAnalysis_of_le {fuel : Nat} (hFuel : env.recursionFuel ≤ fuel)
    (call : Call) (s : State) : env.intraDataflowAnalysis fuel call s =
      env.intraDataflowAnalysis env.recursionFuel call s :=
  env.analyzer.run_of_le hFuel (intraDataflowAnalysis_ne_outOfFuel (Nat.le_refl _) call s)

theorem intraDataflowAnalysis_callStack {fuel : Nat} {call : Call} {s s' : State} {rv : Bool}
    (h : env.intraDataflowAnalysis fuel call s = .ok (rv, s')) : s'.callStack = s.callStack :=
  analyzer_balanced.runs (env.analyzer.runs_of_run h)

@[simp] theorem resumeCaller_callStack (addFuncRet : Bool) (s : State) :
    (resumeCaller addFuncRet s).callStack = s.callStack := by
  unfold resumeCaller
  split <;> simp

/-- The loop pops one layer per round, so it works off the stack it is given. -/
theorem popLoop_eq_replayFrames {rounds : Nat} {s : State} (h : s.callStack.length < rounds) :
    env.popLoop rounds s = env.replayFrames s.callStack s := by
  induction rounds generalizing s with
  | zero => omega
  | succ rounds ih =>
      unfold popLoop
      cases hStack : s.callStack with
      | nil => rfl
      | cons loc below =>
          simp only [replayFrames]
          cases hFrame : env.analyseFrame loc s with
          | error stop => rfl
          | ok answer =>
              obtain ⟨addFuncRet, t⟩ := answer
              have hBelow : (resumeCaller addFuncRet t.popFrame).callStack = below := by
                simp [intraDataflowAnalysis_callStack hFrame, hStack]
              rw [hStack, List.length_cons] at h
              simp only
              rw [ih (by rw [hBelow]; omega), hBelow]

/-- No frame of a replay needs more than that. -/
theorem replayFrames_ne_outOfFuel (layers : List FuncInst) (s : State) :
    env.replayFrames layers s ≠ .error .outOfFuel := by
  induction layers generalizing s with
  | nil => simp [replayFrames]
  | cons loc below ih =>
      unfold replayFrames
      have hFrame : env.intraDataflowAnalysis env.recursionFuel (frameCall loc) s ≠
          .error .outOfFuel := intraDataflowAnalysis_ne_outOfFuel (Nat.le_refl _) _ s
      cases hAnswer : env.analyseFrame loc s with
      | error stop =>
          rw [analyseFrame] at hAnswer
          rw [hAnswer] at hFrame
          simpa using hFrame
      | ok answer => exact ih _

/-- The recursion ends, every callee that is pushed differs from all functions
on the stack, every return finds the stack as it was, and the pop loop handles
the layers of its stack once each, in order. -/
theorem intraDataflowAnalysis_terminates_balanced (env : Env) :
    (∀ call s, ∃ outcome, outcome ≠ .error .outOfFuel ∧
      ∀ fuel, env.recursionFuel ≤ fuel → env.intraDataflowAnalysis fuel call s = outcome) ∧
    (∀ call s q item items callee l' s', env.analyzer.Visits call s q → q.items = item :: items →
      env.visit q.call item q.locals q.state = .ok (.enter callee l' s') →
        s'.callStack = (callee.func, none) :: q.state.callStack ∧
        ∀ layer ∈ q.state.callStack, layer.1 ≠ callee.func) ∧
    (∀ fuel call s rv s', env.intraDataflowAnalysis fuel call s = .ok (rv, s') →
      s'.callStack = s.callStack) ∧
    (∀ s rounds, s.callStack.length < rounds →
      env.popLoop rounds s = env.replayFrames s.callStack s ∧
      env.popLoop rounds s ≠ .error .outOfFuel) := by
  refine ⟨?_, ?_, ?_, ?_⟩
  · intro call s
    exact ⟨_, intraDataflowAnalysis_ne_outOfFuel (Nat.le_refl _) call s,
      fun fuel hFuel => intraDataflowAnalysis_of_le hFuel call s⟩
  · intro call s q item items callee l' s' _ _ h
    have hEnter := visit_enter h
    refine ⟨by simp [hEnter.state_eq, checkedState], ?_⟩
    exact fun layer hLayer => hEnter.func_ne hLayer rfl
  · intro fuel call s rv s' h
    exact intraDataflowAnalysis_callStack h
  · intro s rounds hRounds
    have hLoop : env.popLoop rounds s = env.replayFrames s.callStack s :=
      popLoop_eq_replayFrames hRounds
    exact ⟨hLoop, by rw [hLoop]; exact replayFrames_ne_outOfFuel _ _⟩

end Env
end ConAnalysis
