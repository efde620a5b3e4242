import ConAnalysis.Dataflow.Growth
import ConAnalysis.IR.Layout

/-! Taint along control flow against the single sweep in layout order, for
functions without calls. -/
namespace ConAnalysis
open IR CallSweep Exceptions

/-- The rule of the pass for one instruction: one that is not tainted yet and
has a tainted operand becomes tainted, and a store passes the taint on. -/
def propagate (M : Module) (tainted : Finset Value) (r : InstRef) : Finset Value :=
  match M.inst? r with
  | none => tainted
  | some i =>
      if (∃ v ∈ i.operands, v ∈ tainted) ∧ .instruction r ∉ tainted then
        match i.opcode, i.operands[1]? with
        | .store, some pointer => insert pointer (insert (.instruction r) tainted)
        | _, _ => insert (.instruction r) tainted
      else tainted

theorem subset_propagate (M : Module) (tainted : Finset Value) (r : InstRef) :
    tainted ⊆ propagate M tainted r := by
  unfold propagate
  split
  · exact Finset.Subset.refl _
  · split
    · split
      · exact (Finset.subset_insert _ _).trans (Finset.subset_insert _ _)
      · exact Finset.subset_insert _ _
    · exact Finset.Subset.refl _

/-- Taint after the instructions of a path have been executed in its order. -/
def taintAlong (M : Module) (tainted : Finset Value) (path : List InstRef) : Finset Value :=
  path.foldl (propagate M) tainted

theorem taintAlong_cons (M : Module) (tainted : Finset Value) (r : InstRef) (path : List InstRef) :
    taintAlong M tainted (r :: path) = taintAlong M (propagate M tainted r) path := rfl

namespace Env
variable {env : Env}

/-- A GEP with a corrupted operand is corrupted after its visit. -/
theorem visitGetElementPtr_enters (env : Env) {r : InstRef} {i : Instruction} {s t : State}
    (isGep : i.opcode = .getElementPtr) (h : visitGetElementPtr r i s = .ok t) (hOperand : ∃ v ∈ i.operands, v ∈ s.corruptedIR) :
    .instruction r ∈ t.corruptedIR := by
  by_cases hNew : .instruction r ∈ s.corruptedIR
  · have hEffect : Effect env (r, i) {} s {} t := visitGetElementPtr_ok isGep h
    exact hEffect.extends.subset hNew
  · unfold visitGetElementPtr at h
    cases hIdx : gepIdx i with
    | none => simp [hIdx, hOperand, hNew] at h
    | some idx =>
        simp only [hIdx] at h
        split at h
        · simp only [State.add2CrptList_corruptedIR, Finset.mem_insert_self, not_true_eq_false,
            and_false, ↓reduceIte, Except.ok.injEq] at h
          simp [← h]
        · rw [if_pos ⟨hOperand, hNew⟩] at h
          split at h
          · cases h
            simp
          · cases h

/-- Outside calls a visit enters every instruction with a corrupted operand,
and a store that is entered takes its pointer operand along. -/
theorem visit_enters_operand {call : Call} {item : InstRef × Instruction} {l l' : Locals}
    {s s' : State} {v : Value} (notCall : item.2.opcode ≠ .call)
    (h : env.visit call item l s = .ok (.done l' s')) (operand : v ∈ item.2.operands)
    (corrupted : v ∈ s.corruptedIR) :
    .instruction item.1 ∈ s'.corruptedIR ∧
      ∀ pointer, item.2.opcode = .store → item.2.operands[1]? = some pointer →
        .instruction item.1 ∉ s.corruptedIR → pointer ∈ s'.corruptedIR := by
  have hOperand : ∃ v ∈ item.2.operands, v ∈ (env.checkedState call item l s).corruptedIR :=
    ⟨v, operand, by simpa [checkedState] using corrupted⟩
  by_cases hMem : .instruction item.1 ∈ s.corruptedIR
  · have hGrow := (visit_done h).extends.subset
    exact ⟨hGrow (by simpa [checkedState] using hMem), fun _ _ _ hNew => absurd hMem hNew⟩
  · unfold visit at h
    split at h
    · next isCall => exact absurd isCall notCall
    · next isGep =>
        refine ⟨?_, by simp [isGep]⟩
        cases hGep : visitGetElementPtr item.1 item.2 (env.checkedState call item l s) with
        | error reason =>
            rw [checkedState] at hGep
            simp [hGep, Except.map] at h
        | ok t =>
            have hEnters := env.visitGetElementPtr_enters isGep hGep hOperand
            rw [checkedState] at hGep
            simp only [hGep, Except.map, Except.ok.injEq, Outcome.done.injEq] at h
            rwa [← h.2]
    · next notGep =>
        simp only [Except.ok.injEq, Outcome.done.injEq] at h
        obtain ⟨-, rfl⟩ := h
        unfold visitOther
        rw [checkedState] at hOperand
        rw [if_pos ⟨hOperand, by simpa using hMem⟩]
        split
        · next isStore =>
            refine ⟨?_, ?_⟩
            · split <;> simp
            · intro pointer _ hPointer _
              simp [hPointer]
        · next isBr => simp [isBr]
        · next notStore notBr => exact ⟨by simp, fun _ isStore => absurd isStore notStore⟩

/-- The sweep keeps up with the taint along any selection of the swept items.
An instruction of void type that is still to come is corrupted only if it is
tainted already, because it is nobody's operand. -/
theorem taintAlong_subset_of_sweeps {call : Call} {items : List (InstRef × Instruction)}
    {l l' : Locals} {s s' : State} {path : List InstRef} {tainted : Finset Value}
    (noCalls : ∀ item ∈ items, item.2.opcode ≠ .call)
    (hItems : ∀ item ∈ items, env.module.inst? item.1 = some item.2)
    (hSorted : items.Pairwise fun a b => LayoutLt a.1 b.1)
    (hVoid : ∀ item ∈ items, item.2.opcode.isVoid = true →
      .instruction item.1 ∈ s.corruptedIR → .instruction item.1 ∈ tainted)
    (hTainted : tainted ⊆ s.corruptedIR) (hPath : path.Sublist (items.map Prod.fst))
    (h : env.analyzer.Sweeps call items l s l' s') :
    taintAlong env.module tainted path ⊆ s'.corruptedIR := by
  induction h generalizing path tainted with
  | nil =>
      have hNil : path = [] := by simpa using hPath
      simpa [hNil, taintAlong] using hTainted
  | returned visited => exact absurd (visit_enter visited).isCall (noCalls _ List.mem_cons_self)
  | entered visited => exact absurd (visit_enter visited).isCall (noCalls _ List.mem_cons_self)
  | @done call item items l l₁ l₂ s s₁ s₂ visited rest ih =>
      rw [List.forall_mem_cons] at noCalls hItems hVoid
      rw [List.pairwise_cons] at hSorted
      have hEffect := visit_done visited
      have hGrow : s.corruptedIR ⊆ s₁.corruptedIR := by
        simpa [checkedState] using hEffect.extends.subset
      -- what the visit corrupts is this instruction or an operand, so no void instruction to come
      have hVoidNext : ∀ next ∈ items, next.2.opcode.isVoid = true →
          .instruction next.1 ∈ s₁.corruptedIR → .instruction next.1 ∈ s.corruptedIR := by
        intro next hNext isVoid hMem
        have hNe : next.1 ≠ item.1 := by
          intro hEq
          have hLt := hSorted.1 next hNext
          rw [hEq] at hLt
          exact LayoutLt.irrefl _ hLt
        rcases hEffect.mem hMem with hMem | ⟨hEq, -⟩ | hOperand
        · simpa [checkedState] using hMem
        · exact absurd (Value.instruction.inj hEq) hNe
        · have hVoid := Module.operand_not_void hItems.1 hOperand (hItems.2 _ hNext)
          simp [hVoid] at isVoid
      cases hPath with
      | cons _ hPath =>
          refine ih noCalls.2 hItems.2 hSorted.2 ?_ (hTainted.trans hGrow) hPath
          exact fun next hNext isVoid hMem =>
            hVoid.2 next hNext isVoid (hVoidNext next hNext isVoid hMem)
      | @cons_cons path _ _ hPath =>
          have hStep : propagate env.module tainted item.1 ⊆ s₁.corruptedIR := by
            unfold propagate
            rw [hItems.1]
            simp only
            split
            · next hCond =>
                obtain ⟨⟨v, operand, hv⟩, hNew⟩ := hCond
                obtain ⟨hEntered, hPointer⟩ :=
                  visit_enters_operand noCalls.1 visited operand (hTainted hv)
                split
                · next pointer isStore hOperand =>
                    have hFresh : .instruction item.1 ∉ s.corruptedIR :=
                      fun hMem => hNew (hVoid.1 (by simp [isStore, Opcode.isVoid]) hMem)
                    have := hPointer pointer isStore hOperand hFresh
                    grind
                · grind
            · exact hTainted.trans hGrow
          have hKeep : tainted ⊆ propagate env.module tainted item.1 := subset_propagate ..
          rw [taintAlong_cons]
          exact ih noCalls.2 hItems.2 hSorted.2 (fun next hNext isVoid hMem =>
            hKeep (hVoid.2 next hNext isVoid (hVoidNext next hNext isVoid hMem))) hStep hPath

/-- Binding the parameters enters formal arguments only. -/
theorem handleParams_instruction {f : FuncRef} {corruptedparams : CorruptedArgs} {atEnd : Bool}
    {ks : List Nat} {s s' : State} (h : handleParams f corruptedparams atEnd ks s = some s')
    (r : InstRef) : .instruction r ∈ s'.corruptedIR → .instruction r ∈ s.corruptedIR := by
  refine handleParams_rel
    (R := fun s s' => .instruction r ∈ s'.corruptedIR → .instruction r ∈ s.corruptedIR)
    (fun _ => id) (fun h₁ h₂ => h₁ ∘ h₂) ?_ h
  intro k _ actual _ s hMem
  unfold bindArg at hMem
  split at hMem
  · simpa using hMem
  · simpa using hMem

/-- A start instruction that is no call is corrupted when the sweep begins, and
the seed adds nothing else to the set. -/
theorem Seed.corruptedIR_some {f : FuncRef} {start : InstRef} {s s' : State} {rv : Bool}
    {items : List (InstRef × Instruction)} (h : Seed env f s (some start) rv items s')
    (notCall : ∀ item ∈ env.module.instructions f, item.2.opcode ≠ .call) :
    s'.corruptedIR = insert (.instruction start) s.corruptedIR ∧
      ∃ i rest, items = (start, i) :: rest := by
  cases h with
  | resume suffix isCall => exact absurd isCall (notCall _ (suffix.subset List.mem_cons_self))
  | known _ _ mem => exact ⟨(Finset.insert_eq_self.mpr mem).symm, _, _, rfl⟩
  | gep => exact ⟨by simp, _, _, rfl⟩
  | plain => exact ⟨by simp, _, _, rfl⟩

/-- In a function without calls, the sweep finds all taint that is carried
along a control-flow path by steps in layout order. The path itself may go
back, and round loops, any number of times. -/
theorem flow_sound_in_layout_order {fuel : Nat} {f : FuncRef} {start : InstRef}
    {corruptedparams : CorruptedArgs} {ctrlDep rv : Bool} {s s' : State} {path steps : List InstRef}
    (noCalls : ∀ item ∈ env.module.instructions f, item.2.opcode ≠ .call)
    (h : env.intraDataflowAnalysis fuel ⟨f, some start, corruptedparams, ctrlDep⟩ s = .ok (rv, s'))
    (hPath : (start :: path).IsChain (FlowsTo env.module)) (hSteps : steps.Sublist path)
    (hForward : (start :: steps).Pairwise LayoutLt) :
    taintAlong env.module (insert (.instruction start) s.corruptedIR) (start :: steps) ⊆
      s'.corruptedIR := by
  cases env.analyzer.runs_of_run h with
  | returned started =>
      obtain ⟨-, seed, hSeed⟩ := start_returned started
      obtain ⟨-, i, rest, hItems⟩ := hSeed.corruptedIR_some noCalls
      cases hItems
  | swept started sweeps =>
      obtain ⟨s₁, hSeed, -, hParams⟩ := start_body started
      obtain ⟨hSet, i, rest, rfl⟩ := hSeed.corruptedIR_some noCalls
      have hSuffix := hSeed.suffix
      have hItems : ∀ item ∈ (start, i) :: rest,
          item.1.func = f ∧ env.module.inst? item.1 = some item.2 :=
        fun item hItem => Module.mem_instructions.mp (hSuffix.subset hItem)
      have hSorted : ((start, i) :: rest).Pairwise fun a b => LayoutLt a.1 b.1 :=
        ((env.module.func f).pairwise_instructions f).sublist hSuffix.sublist
      refine taintAlong_subset_of_sweeps (fun item hItem => noCalls item (hSuffix.subset hItem))
        (fun item hItem => (hItems item hItem).2) hSorted ?_ ?_ ?_ sweeps
      · intro item _ _ hMem
        rw [← hSet]
        exact handleParams_instruction hParams item.1 hMem
      · rw [← hSet]
        exact (handleParams_extends hParams).subset
      · refine sublist_of_layoutLt hSorted hForward ?_
        intro t ht
        rcases List.mem_cons.mp ht with rfl | ht
        · simp
        · obtain ⟨j, hj⟩ := exists_inst_of_isChain hPath (hSteps.subset ht)
          rw [(hItems _ List.mem_cons_self).1] at hj
          rw [List.pairwise_cons] at hForward
          have hMem := mem_suffix_of_layoutLt hSuffix hj (hForward.1 t ht)
          exact List.mem_map.mpr ⟨_, List.mem_cons_of_mem _ hMem, rfl⟩

/-- A loop whose header reads, on every later round, what its body has loaded:
`for (x = 0; c; x = *p) { *q = *p; }`. -/
def loopEnv : Env where
  module := {
    functions := [{
      name := "f"
      blocks := [
        { body := []
          terminator := ⟨.br, [.basicBlock ⟨0, 1⟩], none⟩
          successors := [1] },
        { body := [⟨.phi, [.constant 0, .instruction ⟨0, 1, 1⟩], none⟩,
            ⟨.load, [.globalVariable 0], none⟩,
            ⟨.store, [.instruction ⟨0, 1, 1⟩, .globalVariable 1], none⟩]
          terminator := ⟨.br, [.globalVariable 2, .basicBlock ⟨0, 1⟩, .basicBlock ⟨0, 2⟩], none⟩
          successors := [1, 2] },
        { body := []
          terminator := ⟨.ret, [], none⟩
          successors := [] }] }] }

/-- The path goes on round the loop to the phi node. -/
theorem flow_sound_in_layout_order_loop :
    ∃ a, loopEnv.intraDataflowAnalysis 3 ⟨0, some ⟨0, 1, 1⟩, fun _ => none, false⟩ {} = .ok a ∧
      taintAlong loopEnv.module (insert (.instruction ⟨0, 1, 1⟩) ∅) [⟨0, 1, 1⟩, ⟨0, 1, 2⟩] ⊆
        a.2.corruptedIR := by
  have noCalls : ∀ item ∈ loopEnv.module.instructions 0, item.2.opcode ≠ .call := by decide
  have hPath : [⟨0, 1, 1⟩, ⟨0, 1, 2⟩, ⟨0, 1, 3⟩, ⟨0, 1, 0⟩].IsChain (FlowsTo loopEnv.module) := by
    decide
  have hForward : [⟨0, 1, 1⟩, ⟨0, 1, 2⟩].Pairwise LayoutLt := by decide
  have hRun : ∃ a, loopEnv.intraDataflowAnalysis 3 ⟨0, some ⟨0, 1, 1⟩, fun _ => none, false⟩ {} =
      .ok a ∧ True := exists_ok_of_eval (by decide)
  obtain ⟨⟨rv, s'⟩, hRun, -⟩ := hRun
  exact ⟨_, hRun, flow_sound_in_layout_order noCalls hRun hPath (by decide) hForward⟩

/-- The taint that the back edge carries to the phi node is not found. -/
theorem flow_sound_fails_on_back_edge :
    ∃ a, loopEnv.intraDataflowAnalysis 3 ⟨0, some ⟨0, 1, 1⟩, fun _ => none, false⟩ {} = .ok a ∧
      [⟨0, 1, 1⟩, ⟨0, 1, 2⟩, ⟨0, 1, 3⟩, ⟨0, 1, 0⟩].IsChain (FlowsTo loopEnv.module) ∧
      .instruction ⟨0, 1, 0⟩ ∈ taintAlong loopEnv.module (insert (.instruction ⟨0, 1, 1⟩) ∅)
        [⟨0, 1, 1⟩, ⟨0, 1, 2⟩, ⟨0, 1, 3⟩, ⟨0, 1, 0⟩] ∧
      .instruction ⟨0, 1, 0⟩ ∉ a.2.corruptedIR :=
  exists_ok_of_eval (by decide)

end Env
end ConAnalysis
