import ConAnalysis.Dataflow.Arguments

/-! When a call takes over the corruption of what its callee returns. -/
namespace ConAnalysis
open IR CallSweep

namespace Env
variable {env : Env}

/-- A return instruction of `g`. -/
def IsReturn (env : Env) (g : FuncRef) (r : InstRef) : Prop :=
  r.func = g ∧ ∃ i, env.module.inst? r = some i ∧ i.opcode = .ret

/-- A visit enters a return instruction only when it visits it, and then it
reports new corruption. -/
theorem Effect.isReturn {item : InstRef × Instruction} {l l' : Locals} {s s' : State} {g : FuncRef}
    {r : InstRef} (hItem : env.module.inst? item.1 = some item.2) (hReturn : IsReturn env g r)
    (h : Effect env item l s l' s') (hMem : .instruction r ∈ s'.corruptedIR) :
    .instruction r ∈ s.corruptedIR ∨ r = item.1 ∧ l'.rv = true := by
  obtain ⟨-, i, hInst, isRet⟩ := hReturn
  rcases h.mem hMem with hMem | ⟨hEq, hOpcode⟩ | hOperand
  · exact .inl hMem
  · cases hEq
    rw [hItem, Option.some.injEq] at hInst
    rw [hInst, isRet] at hOpcode
    exact .inr ⟨rfl, by simpa using hOpcode⟩
  · -- operands produce a value, a return does not
    have hVoid := Module.operand_not_void hItem hOperand hInst
    simp [isRet, Opcode.isVoid] at hVoid

/-- An answer once true stays so to the end of the sweep. -/
theorem Effect.rv_mono {item : InstRef × Instruction} {l l' : Locals} {s s' : State}
    (h : Effect env item l s l' s') (hRv : l.rv = true) : l'.rv = true := by
  cases h <;> first | exact hRv | rfl

/-- No return instruction of `g` gets corrupted. -/
def KeepsReturns (env : Env) (g : FuncRef) (s t : State) : Prop :=
  ∀ r, IsReturn env g r → .instruction r ∈ t.corruptedIR → .instruction r ∈ s.corruptedIR

/-- A callee starts without an instruction and so with the answer false. -/
theorem keepsReturns_start {call : Call} {g : FuncRef} {s s' : State}
    {items : List (InstRef × Instruction)} {l : Locals} (noStart : call.ins = none)
    (h : env.start call s = .ok (.body items l s')) : KeepsReturns env g s s' ∧ l.rv = false := by
  obtain ⟨s₁, hSeed, -, hParams⟩ := start_body h
  rw [noStart] at hSeed
  obtain ⟨hRv, -, rfl⟩ := hSeed.of_none
  exact ⟨fun r _ => (handleParams_of_ne (fun _ _ => by simp) hParams).1.mp, hRv⟩

/-- What comes back from a callee is a call instruction, never a return. -/
theorem keepsReturns_leave {g : FuncRef} {callee : Call} {item : InstRef × Instruction}
    (hItem : env.module.inst? item.1 = some item.2) (isCall : item.2.opcode = .call)
    (addFuncRet : Bool) (s : State) : KeepsReturns env g s (leave callee item addFuncRet s) := by
  rintro r ⟨-, i, hInst, isRet⟩ hMem
  cases addFuncRet with
  | false => exact hMem
  | true =>
      simp only [leave, ↓reduceIte, State.setExitVal, State.popFrame,
        State.add2CrptList_corruptedIR, Finset.mem_insert, Value.instruction.injEq] at hMem
      rcases hMem with rfl | hMem
      · exfalso
        rw [hItem, Option.some.injEq] at hInst
        rw [hInst, isRet] at isCall
        cases isCall
      · exact hMem

/-- While `g` is on the call stack, only its own frame visits its returns. -/
theorem analyzer_keepsReturns (g : FuncRef) :
    env.analyzer.RespectsUnder (fun call item => item ∈ env.module.instructions call.func)
      State.callStack (fun call stack => g ≠ call.func ∧ ∃ layer ∈ stack, layer.1 = g)
      (KeepsReturns env g) where
  refl _ _ _ := id
  trans h₁ h₂ r hReturn := h₁ r hReturn ∘ h₂ r hReturn
  safe hSafe visited := by
    obtain ⟨-, layer, hLayer, hFunc⟩ := hSafe
    refine ⟨(visit_enter visited).func_ne hLayer hFunc, layer, ?_, hFunc⟩
    rw [(visit_enter visited).state_eq]
    simp [checkedState, hLayer]
  done hItem hSafe visited r hReturn hMem := by
    obtain ⟨hFunc, hInst⟩ := Module.mem_instructions.mp hItem
    rcases (visit_done visited).isReturn hInst hReturn hMem with hMem | ⟨rfl, -⟩
    · simpa [checkedState] using hMem
    · exact absurd (hReturn.1.symm.trans hFunc) hSafe.1
  returned _ _ visited started r hReturn hMem := by
    have hEnter := visit_enter visited
    obtain ⟨-, rv, hSeed⟩ := start_returned started
    rw [hEnter.noStart] at hSeed
    obtain ⟨-, -, rfl⟩ := hSeed.of_none
    simpa [hEnter.state_eq, checkedState] using hMem
  body _ _ visited started r hReturn hMem := by
    have hEnter := visit_enter visited
    have hMem := (keepsReturns_start hEnter.noStart started).1 r hReturn hMem
    simpa [hEnter.state_eq, checkedState] using hMem
  leave result s'' hItem _ visited :=
    keepsReturns_leave (Module.mem_instructions.mp hItem).2 (visit_enter visited).isCall result s''

/-- In the frame of `g` a return instruction is corrupted from the beginning or
new corruption has been reported. -/
theorem Handles.isReturn {p q : Point} {g : FuncRef} (hFunc : p.call.func = g)
    (hItems : ∀ item ∈ p.items, item ∈ env.module.instructions p.call.func)
    (hStack : ∃ layer ∈ p.state.callStack, layer.1 = g) (h : env.analyzer.Handles p q) :
    (p.locals.rv = true → q.locals.rv = true) ∧
      ∀ r, IsReturn env g r → .instruction r ∈ q.state.corruptedIR →
        .instruction r ∈ p.state.corruptedIR ∨ q.locals.rv = true := by
  cases h with
  | done visited =>
      have hInst := (Module.mem_instructions.mp (hItems _ List.mem_cons_self)).2
      refine ⟨fun hRv => (visit_done visited).rv_mono hRv, ?_⟩
      intro r hReturn hMem
      rcases (visit_done visited).isReturn hInst hReturn hMem with hMem | ⟨-, hRv⟩
      · exact .inl (by simpa [checkedState] using hMem)
      · exact .inr hRv
  | @called call callee item items l l₁ s s₁ s₂ result visited analysed =>
      have hEnter := visit_enter visited
      have hInst := (Module.mem_instructions.mp (hItems _ List.mem_cons_self)).2
      obtain ⟨layer, hLayer, hLayerFunc⟩ := hStack
      have hNe : g ≠ callee.func := hEnter.func_ne hLayer hLayerFunc
      refine ⟨fun hRv => by rw [hEnter.locals_eq]; exact hRv, ?_⟩
      intro r hReturn hMem
      have hRun : KeepsReturns env g s₁ s₂ := by
        refine analyzer_balanced.runs_under analyzer_supplies (analyzer_keepsReturns g) ?_ ?_ ?_
          analysed
        · intro result s' started
          obtain ⟨-, rv, hSeed⟩ := start_returned started
          rw [hEnter.noStart] at hSeed
          obtain ⟨-, -, rfl⟩ := hSeed.of_none
          exact fun _ _ => id
        · intro body lb s' started
          exact (keepsReturns_start hEnter.noStart started).1
        · refine ⟨hNe, layer, ?_, hLayerFunc⟩
          rw [hEnter.state_eq]
          simp [checkedState, hLayer]
      have hBefore := hRun r hReturn
        (keepsReturns_leave hInst hEnter.isCall result s₂ r hReturn hMem)
      exact .inl (by simpa [hEnter.state_eq, checkedState] using hBefore)

/-- A whole run of `g` that reports no new corruption corrupted no return. -/
theorem runs_keepsReturns {call : Call} {s s' : State} (noStart : call.ins = none)
    (hStack : ∃ layer ∈ s.callStack, layer.1 = call.func)
    (h : env.analyzer.Runs call s false s') : KeepsReturns env call.func s s' := by
  generalize hRv : false = rv at h
  cases h with
  | returned started =>
      have hTrue := (start_returned started).1
      rw [← hRv] at hTrue
      cases hTrue
  | @swept items l l' _ s₁ _ started sweeps =>
      have hFrame : ∀ q, env.analyzer.SameFrame ⟨call, items, l, s₁⟩ q →
          q.call = call ∧ (∀ item ∈ q.items, item ∈ env.module.instructions call.func) ∧
          q.state.callStack = s₁.callStack ∧
          ∀ r, IsReturn env call.func r → .instruction r ∈ q.state.corruptedIR →
            .instruction r ∈ s₁.corruptedIR ∨ q.locals.rv = true := by
        intro q hReach
        induction hReach with
        | refl => exact ⟨rfl, analyzer_supplies started, rfl, fun _ _ => .inl⟩
        | @tail q t _ last ih =>
            obtain ⟨hCall, hItems, hSameStack, hReturns⟩ := ih
            have hSame := analyzer_balanced.handles last
            have hStep := Handles.isReturn (g := call.func) (by rw [hCall]) (by rwa [hCall])
              (by rwa [hSameStack, analyzer_balanced.body started]) last
            refine ⟨by rw [← hCall]; cases last <;> rfl, ?_, hSame.trans hSameStack, ?_⟩
            · cases last <;> exact fun item hItem => hItems item (List.mem_cons_of_mem _ hItem)
            · intro r hReturn hMem
              rcases hStep.2 r hReturn hMem with hMem | hRv
              · exact (hReturns r hReturn hMem).imp_right hStep.1
              · exact .inr hRv
      intro r hReturn hMem
      rcases (hFrame _ sweeps.sameFrame).2.2.2 r hReturn hMem with hMem | hTrue
      · exact (keepsReturns_start noStart started).1 r hReturn hMem
      · exact absurd (hRv.trans hTrue) (by simp)

/-- In every run: once a call has been handled, it is corrupted if a return
instruction of its callee is, provided that no return instruction was corrupted
before, or that the call already was. -/
theorem call_corrupted_of_return {call : Call} {s : State} {p q : Point}
    {item : InstRef × Instruction} {items : List (InstRef × Instruction)} {g : FuncRef}
    (hVisits : env.analyzer.Visits call s p) (hHandles : env.analyzer.Handles p q)
    (hItems : p.items = item :: items) (isCall : item.2.opcode = .call)
    (direct : item.2.calledFunction = some g)
    (hBefore : (∀ r, IsReturn env g r → .instruction r ∉ p.state.corruptedIR) ∨
      .instruction item.1 ∈ p.state.corruptedIR) :
    ∀ r, IsReturn env g r → .instruction r ∈ q.state.corruptedIR →
      .instruction item.1 ∈ q.state.corruptedIR := by
  intro r hReturn hMem
  have hGood := hVisits.good analyzer_supplies
  have hGrow : p.state.corruptedIR ⊆ q.state.corruptedIR :=
    ((analyzer_extends fun _ _ => True).handles (fun _ _ _ => trivial) (fun _ _ => trivial)
      hHandles).subset
  rcases hBefore with hNone | hMemCall
  · cases hHandles with
    | done visited =>
        -- the callee was jumped over, so nothing has changed
        cases hItems
        exfalso
        have hInst := (Module.mem_instructions.mp (hGood _ List.mem_cons_self)).2
        have hSame := (visit_done visited).isReturn hInst hReturn hMem
        rcases hSame with hMem | ⟨rfl, -⟩
        · exact hNone r hReturn (by simpa [checkedState] using hMem)
        · obtain ⟨-, i, hRet, isRet⟩ := hReturn
          rw [hInst, Option.some.injEq] at hRet
          rw [hRet, isRet] at isCall
          cases isCall
    | @called _ callee _ _ _ l₁ _ s₁ s₂ rv visited analysed =>
        cases hItems
        have hEnter := visit_enter visited
        have hFunc : callee.func = g := by
          have hDirect := hEnter.direct
          rw [direct] at hDirect
          exact (Option.some.inj hDirect).symm
        cases rv with
        | true => simp [analyzer, leave]
        | false =>
            exfalso
            have hStack : ∃ layer ∈ s₁.callStack, layer.1 = callee.func :=
              ⟨(callee.func, none), by simp [hEnter.state_eq], rfl⟩
            have hRun := runs_keepsReturns hEnter.noStart hStack analysed
            rw [hFunc] at hRun
            refine hNone r hReturn ?_
            simpa [hEnter.state_eq, checkedState] using hRun r hReturn hMem
  · exact hGrow hMemCall

/-- `main` calls `g` twice, which returns what it loads from a global variable
that `main` has corrupted. -/
def twiceEnv : Env where
  module := {
    functions := [
      { name := "main"
        blocks := [{
          body := [⟨.load, [.globalVariable 0], none⟩,
            ⟨.store, [.instruction ⟨0, 0, 0⟩, .globalVariable 1], none⟩,
            ⟨.call, [.function 1], none⟩, ⟨.call, [.function 1], none⟩]
          terminator := ⟨.ret, [], none⟩
          successors := [] }] },
      { name := "g"
        blocks := [{
          body := [⟨.load, [.globalVariable 1], none⟩]
          terminator := ⟨.ret, [.instruction ⟨1, 0, 0⟩], none⟩
          successors := [] }] }] }

/-- The first call is corrupted. -/
theorem call_corrupted_of_return_first :
    ∃ p q : Point, twiceEnv.analyzer.Visits { func := 0, ins := some ⟨0, 0, 0⟩ }
        { callStack := [(0, some ⟨0, 0, 0⟩)] } p ∧ twiceEnv.analyzer.Handles p q ∧
      .instruction ⟨0, 0, 2⟩ ∈ q.state.corruptedIR := by
  have hEval : ∃ p : Point, twiceEnv.analyzer.Visits { func := 0, ins := some ⟨0, 0, 0⟩ }
      { callStack := [(0, some ⟨0, 0, 0⟩)] } p ∧
      (∃ item ∈ p.items.head?, item.1 = ⟨0, 0, 2⟩ ∧ item.2.opcode = .call ∧
        item.2.calledFunction = some 1) ∧
      p.state.corruptedIR =
        {.instruction ⟨0, 0, 0⟩, .instruction ⟨0, 0, 1⟩, .globalVariable 1} ∧
      ∃ q ∈ twiceEnv.analyzer.handled 3 p, .instruction ⟨1, 0, 1⟩ ∈ q.state.corruptedIR :=
    twiceEnv.analyzer.exists_visits_of_eval 3 3 (by decide)
  obtain ⟨p, hVisits, ⟨item, hItem, hRef, isCall, direct⟩, hSet, q, hHandled, hReturned⟩ := hEval
  have hHandles := twiceEnv.analyzer.handles_of_handled hHandled
  refine ⟨p, q, hVisits, hHandles, ?_⟩
  have hNone : ∀ r, IsReturn twiceEnv 1 r → .instruction r ∉ p.state.corruptedIR := by
    rintro r ⟨hFunc, -⟩ hMem
    rw [hSet] at hMem
    simp only [Finset.mem_insert, Finset.mem_singleton, Value.instruction.injEq, reduceCtorEq,
      or_false] at hMem
    rcases hMem with rfl | rfl <;> cases hFunc
  rw [← hRef]
  exact call_corrupted_of_return hVisits hHandles (List.eq_cons_of_mem_head? hItem) isCall direct
    (.inl hNone) ⟨1, 0, 1⟩ ⟨rfl, _, rfl, rfl⟩ hReturned

/-- The second call is not, although `g` has a corrupted return instruction: the
second analysis of `g` finds nothing new. -/
theorem second_call_not_corrupted :
    ∃ p q : Point, twiceEnv.analyzer.Visits { func := 0, ins := some ⟨0, 0, 0⟩ }
        { callStack := [(0, some ⟨0, 0, 0⟩)] } p ∧ twiceEnv.analyzer.Handles p q ∧
      (∃ item items, p.items = item :: items ∧ item.1 = ⟨0, 0, 3⟩ ∧ item.2.opcode = .call ∧
        item.2.calledFunction = some 1) ∧
      (twiceEnv.func 1).isDeclaration = false ∧ (twiceEnv.func 1).isIntrinsic = false ∧
      twiceEnv.onCallStack 1 p.state = false ∧ IsReturn twiceEnv 1 ⟨1, 0, 1⟩ ∧
      .instruction ⟨1, 0, 1⟩ ∈ q.state.corruptedIR ∧
      .instruction ⟨0, 0, 3⟩ ∉ q.state.corruptedIR := by
  have hEval : ∃ p : Point, twiceEnv.analyzer.Visits { func := 0, ins := some ⟨0, 0, 0⟩ }
      { callStack := [(0, some ⟨0, 0, 0⟩)] } p ∧
      (∃ item ∈ p.items.head?, item.1 = ⟨0, 0, 3⟩ ∧ item.2.opcode = .call ∧
        item.2.calledFunction = some 1) ∧ twiceEnv.onCallStack 1 p.state = false ∧
      ∃ q ∈ twiceEnv.analyzer.handled 3 p, .instruction ⟨1, 0, 1⟩ ∈ q.state.corruptedIR ∧
        .instruction ⟨0, 0, 3⟩ ∉ q.state.corruptedIR :=
    twiceEnv.analyzer.exists_visits_of_eval 3 4 (by decide)
  obtain ⟨p, hVisits, ⟨item, hItem, hCall⟩, hStack, q, hHandled, hReturned, hMissed⟩ := hEval
  exact ⟨p, q, hVisits, twiceEnv.analyzer.handles_of_handled hHandled,
    ⟨item, _, List.eq_cons_of_mem_head? hItem, hCall⟩, rfl, rfl, hStack, ⟨rfl, _, rfl, rfl⟩,
    hReturned, hMissed⟩

end Env
end ConAnalysis
