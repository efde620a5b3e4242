import ConAnalysis.Dataflow.Termination
import ConAnalysis.IR.Layout
import ConAnalysis.Labels.Inst2Int
import ConAnalysis.Library.CallFaults
import Mathlib.Data.List.TakeWhile

/-! The dataflow analysis does not end the process, as long as all GEPs have two or three
operands and the layers continue at instructions of their functions. -/
namespace ConAnalysis
open IR CallSweep

/-- An index record can be made for every GEP. -/
def IR.Module.ParsesGeps (M : Module) : Prop :=
  ∀ item ∈ M.allInstructions, item.2.opcode = .getElementPtr → (gepIdx item.2).isSome = true

instance (M : IR.Module) : Decidable M.ParsesGeps :=
  inferInstanceAs (Decidable (∀ item ∈ M.allInstructions, _))

/-- The operands that a record is made of are there. -/
theorem exists_operands_of_gepIdx {i : Instruction} (h : (gepIdx i).isSome = true) :
    ∃ base key idx, i.operands[0]? = some base ∧ i.operands[1]? = some key ∧ gepIdx i = some idx := by
  obtain ⟨idx, hIdx⟩ := Option.isSome_iff_exists.mp h
  unfold gepIdx at hIdx
  split at hIdx
  · next base key hOperands => exact ⟨base, key, idx, by simp [hOperands], by simp [hOperands],
      by simp only [gepIdx, hOperands, hIdx]⟩
  · next base key second hOperands => exact ⟨base, key, idx, by simp [hOperands],
      by simp [hOperands], by simp only [gepIdx, hOperands, hIdx]⟩
  · cases hIdx

/-- No function ends with a call. -/
theorem IR.Module.ne_nil_of_suffix {M : Module} {f : FuncRef} {r : InstRef} {i : Instruction}
    {items : List (InstRef × Instruction)} (hSuffix : (r, i) :: items <:+ M.instructions f)
    (hTerm : i.opcode.isTerminator = false) : items ≠ [] := by
  obtain ⟨hFunc, hInst⟩ := mem_instructions.mp (hSuffix.subset List.mem_cons_self)
  obtain ⟨B, hBlock, hIndex⟩ := Option.bind_eq_some_iff.mp hInst
  have hLt : r.index < B.body.length := by
    have hBound : r.index < B.insts.length := (List.getElem?_eq_some_iff.mp hIndex).1
    rw [BasicBlock.insts, List.length_append, List.length_singleton] at hBound
    by_contra hNot
    obtain hEq : r.index = B.body.length := by omega
    rw [hEq, BasicBlock.insts, List.getElem?_concat_length] at hIndex
    rw [← Option.some.inj hIndex, B.terminator_ends] at hTerm
    cases hTerm
  have hEnd : (⟨f, r.block, B.body.length⟩, B.terminator) ∈ M.instructions f := by
    refine mem_instructions.mpr ⟨rfl, Option.bind_eq_some_iff.mpr ⟨B, ?_, ?_⟩⟩
    · rw [← hBlock, hFunc]
    · rw [BasicBlock.insts, List.getElem?_concat_length]
  exact List.ne_nil_of_mem (mem_suffix_of_layoutLt hSuffix hEnd (.inr ⟨rfl, hLt⟩))

namespace Env
variable {env : Env}

/-- The analysis starts at the entry of its function or at one of its instructions. -/
def StartsInside (env : Env) (call : Call) : Prop :=
  ∀ r ∈ call.ins, ∃ i, (r, i) ∈ env.module.instructions call.func

/-- A frame that names an instruction of its function can be started. -/
theorem startAt_ne_error (hGeps : env.module.ParsesGeps) {call : Call} (h : env.StartsInside call)
    {s : State} {reason : Fault} : env.startAt call.func call.ins s ≠ .error reason := by
  unfold startAt
  split
  · exact fun hEq => by cases hEq
  · next start hStart =>
      obtain ⟨i, hMem⟩ := h start hStart
      have hSuffix := List.dropWhile_suffix (fun item : InstRef × Instruction => decide (item.1 ≠ start))
        (l := env.module.instructions call.func)
      split
      · next hNil =>
          rw [List.dropWhile_eq_nil_iff] at hNil
          simpa using hNil _ hMem
      · next r j items hDrop =>
          rw [hDrop] at hSuffix
          split
          · next isCall =>
              have hNe : items ≠ [] := Module.ne_nil_of_suffix hSuffix (by rw [isCall]; rfl)
              rw [if_neg (by simpa using hNe)]
              exact fun hEq => by cases hEq
          · split
            · exact fun hEq => by cases hEq
            · dsimp only
              split
              · next isGep =>
                  have hInst : (r, j) ∈ env.module.allInstructions :=
                    Module.mem_allInstructions.mpr (Module.mem_instructions.mp
                      (hSuffix.subset List.mem_cons_self)).2
                  obtain ⟨base, key, idx, hBase, -, hIdx⟩ :=
                    exists_operands_of_gepIdx (hGeps _ hInst isGep)
                  rw [hBase, hIdx]
                  exact fun hEq => by cases hEq
              · exact fun hEq => by cases hEq

/-- An access that parses is no fault, corrupted or not. -/
theorem visitGetElementPtr_ne_error {r : InstRef} {i : Instruction} {s : State} {reason : Fault}
    (h : (gepIdx i).isSome = true) : visitGetElementPtr r i s ≠ .error reason := by
  obtain ⟨base, key, idx, -, hKey, hIdx⟩ := exists_operands_of_gepIdx h
  unfold visitGetElementPtr
  rw [hKey, hIdx]
  dsimp only
  by_cases hRecord : idx ∈ (i.operands[0]?.bind s.corruptedPtr).getD []
  · simp only [if_pos hRecord]
    split <;> exact fun hEq => by cases hEq
  · simp only [if_neg hRecord]
    split <;> exact fun hEq => by cases hEq

/-- If all accesses of the module parse, no visit goes wrong. -/
theorem analyzer_faultFree (hGeps : env.module.ParsesGeps) :
    env.analyzer.FaultFree env.StartsInside
      fun call item => item ∈ env.module.instructions call.func where
  start {call s reason} hStarts hError := by
    have hStart : env.start call s = .error reason := hError
    unfold start at hStart
    split at hStart
    · next hAt => exact startAt_ne_error hGeps hStarts hAt
    · split at hStart <;> cases hStart
  visit {call item l s reason} hItem hError := by
    have hVisit : env.visit call item l s = .error reason := hError
    by_cases isCall : item.2.opcode = .call
    · rw [visit_of_call isCall] at hVisit
      cases hVisit
    · by_cases isGep : item.2.opcode = .getElementPtr
      · rw [visit_of_getElementPtr isGep] at hVisit
        have hInst : item ∈ env.module.allInstructions :=
          Module.mem_allInstructions.mpr (Module.mem_instructions.mp hItem).2
        cases hGep : visitGetElementPtr item.1 item.2 (env.checkedState call item l s) with
        | error reason' => exact visitGetElementPtr_ne_error (hGeps _ hInst isGep) hGep
        | ok t =>
            rw [hGep] at hVisit
            cases hVisit
      · rw [visit_of_other isCall isGep] at hVisit
        cases hVisit
  enter {call item l s callee l' s'} _ hEnter := by
    intro r hr
    have hNone : callee.ins = none := (visit_enter hEnter).noStart
    rw [hNone] at hr
    cases hr

end Env
end ConAnalysis
