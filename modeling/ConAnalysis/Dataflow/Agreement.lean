import ConAnalysis.Dataflow.Derivation
import ConAnalysis.Library.CallSimulation

/-! States that the analysis cannot tell apart, up to what it files about them:
from such states it takes the same steps. -/
namespace ConAnalysis
open IR CallSweep

/-- The states differ at most in the memo, in the calls filed for control
dependence and in the branches filed for a dangerous operation. -/
structure State.Agrees (s t : State) : Prop where
  corruptedIR : t.corruptedIR = s.corruptedIR
  orderedcorruptedIR : t.orderedcorruptedIR = s.orderedcorruptedIR
  corruptedPtr : t.corruptedPtr = s.corruptedPtr
  callStack : t.callStack = s.callStack
  corruptedBr : t.corruptedBr = s.corruptedBr
  ptrKeys : t.interCtrlDepPtr.keys = s.interCtrlDepPtr.keys
  funcKeys : t.interCtrlDepFunc.keys = s.interCtrlDepFunc.keys

namespace State.Agrees
variable {s t u : State}

/-- Agreement is an equivalence, so that simulations can be put together. -/
theorem refl (s : State) : s.Agrees s := ⟨rfl, rfl, rfl, rfl, rfl, rfl, rfl⟩

theorem symm (h : s.Agrees t) : t.Agrees s :=
  ⟨h.1.symm, h.2.symm, h.3.symm, h.4.symm, h.5.symm, h.6.symm, h.7.symm⟩

theorem trans (h₁ : s.Agrees t) (h₂ : t.Agrees u) : s.Agrees u :=
  ⟨h₂.1.trans h₁.1, h₂.2.trans h₁.2, h₂.3.trans h₁.3, h₂.4.trans h₁.4, h₂.5.trans h₁.5,
    h₂.6.trans h₁.6, h₂.7.trans h₁.7⟩

/-- Every operation below takes states that agree to states that agree: none of them reads the
members that may differ to decide what it corrupts. -/
theorem add2CrptList (h : s.Agrees t) (v : Value) :
    (s.add2CrptList v).Agrees (t.add2CrptList v) := by
  unfold State.add2CrptList
  rw [h.corruptedIR, h.orderedcorruptedIR]
  split
  · exact h
  · exact ⟨rfl, rfl, h.3, h.4, h.5, h.6, h.7⟩

theorem recordGepIdx (h : s.Agrees t) (key : Value) (idx : GepIdx) :
    (s.recordGepIdx key idx).Agrees (t.recordGepIdx key idx) :=
  ⟨h.1, h.2, by simp [h.corruptedPtr], h.4, h.5, h.6, h.7⟩

/-- Copying field entries reads only the table on which the states agree. -/
theorem copyGepIdx (h : s.Agrees t) (calleeArgs callerArgs : Value) :
    (s.copyGepIdx calleeArgs callerArgs).Agrees (t.copyGepIdx calleeArgs callerArgs) := by
  unfold State.copyGepIdx
  rw [h.corruptedPtr]
  split
  · exact ⟨h.1, h.2, rfl, h.4, h.5, h.6, h.7⟩
  · exact h

/-- Filing a call for control dependence is not compared. -/
theorem enterCallee (h : s.Agrees t) (r : InstRef) (callee : FuncRef) (flag : Bool) :
    (Env.enterCallee r callee flag s).Agrees (t.pushFrame (callee, none)) :=
  ⟨by simp [h.1], by simp [h.2], by simp [h.3], by simp [h.4], by simp [h.5], by simp [h.6],
    by simp [h.7]⟩

/-- The question whether a callee can be skipped leaves a state that agrees with the one before. -/
theorem checkMemo (env : Env) (callee : FuncRef) (s : State) :
    s.Agrees (env.checkMemo callee s).2 := by
  constructor <;> simp

/-- Coming back from a callee writes the memo table and otherwise reads what agrees. -/
theorem leave (h : s.Agrees t) (callee : Call) (item : InstRef × Instruction) (addFuncRet : Bool) :
    (Env.leave callee item addFuncRet s).Agrees (Env.leave callee item addFuncRet t) := by
  unfold Env.leave
  have hAdded : (if addFuncRet then s.add2CrptList (.instruction item.1) else s).Agrees
      (if addFuncRet then t.add2CrptList (.instruction item.1) else t) := by
    split
    · exact h.add2CrptList _
    · exact h
  exact ⟨hAdded.1, hAdded.2, hAdded.3, by simp [hAdded.4], hAdded.5, hAdded.6, hAdded.7⟩

/-- A callee that reports nothing is left as if it had not been entered. -/
theorem leave_of_pushFrame {frame : FuncInst} (h : (s.pushFrame frame).Agrees t) (callee : Call)
    (item : InstRef × Instruction) : s.Agrees (Env.leave callee item false t) :=
  ⟨h.1, h.2, h.3, by simp [Env.leave, h.4], h.5, h.6, h.7⟩

theorem bindArg (h : s.Agrees t) (f : FuncRef) (k : Nat) (actual : Value) :
    (Env.bindArg f k actual s).Agrees (Env.bindArg f k actual t) := by
  unfold Env.bindArg
  rw [h.corruptedIR]
  refine copyGepIdx ?_ _ _
  split
  · exact h.add2CrptList _
  · exact h

end State.Agrees

namespace Env
variable {env : Env}

/-- Reports with the same keys keep them when both get an entry at one place, whatever the
branches that are named there. -/
theorem keys_insert_eq {α : Type} {β : Type} [DecidableEq α] {m n : Finmap fun _ : α => β} (a : α)
    (b c : β) (h : n.keys = m.keys) : (n.insert a b).keys = (m.insert a c).keys := by
  ext x
  simp only [Finmap.mem_keys, Finmap.mem_insert]
  rw [← Finmap.mem_keys, h, Finmap.mem_keys]

/-- The branches in an entry may differ, its key does not. -/
theorem checkDangerousOp_agrees {s t : State} (h : s.Agrees t) (ctrlDep within : Bool)
    (i : Instruction) :
    (env.checkDangerousOp ctrlDep within i s).Agrees (env.checkDangerousOp ctrlDep within i t) := by
  unfold checkDangerousOp
  split
  · exact h
  · split
    · simp only
      split
      · exact ⟨h.1, h.2, h.3, h.4, h.5, keys_insert_eq _ _ _ h.6, h.7⟩
      · split
        · exact ⟨h.1, h.2, h.3, h.4, h.5, h.6, keys_insert_eq _ _ _ h.7⟩
        · exact h
    · exact h

/-- The loop over the parameters runs off the end in both states or in neither. -/
theorem handleParams_agrees {s t : State} (h : s.Agrees t) (f : FuncRef)
    (corruptedparams : CorruptedArgs) (atEnd : Bool) (ks : List Nat) :
    Option.Rel State.Agrees (handleParams f corruptedparams atEnd ks s)
      (handleParams f corruptedparams atEnd ks t) := by
  induction ks generalizing s t with
  | nil => exact .some h
  | cons k ks ih =>
      unfold handleParams
      split
      · exact ih h
      · split
        · exact .none
        · exact ih (h.bindArg ..)

/-- The starting instruction gives the same fault or the same items to sweep. -/
theorem startAt_agrees (env : Env) {s t : State} (h : s.Agrees t) (f : FuncRef) (ins : Option InstRef) :
    (∃ reason, env.startAt f ins s = .error reason ∧ env.startAt f ins t = .error reason) ∨
      ∃ rv items s' t', env.startAt f ins s = .ok (rv, items, s') ∧
        env.startAt f ins t = .ok (rv, items, t') ∧ s'.Agrees t' := by
  cases ins with
  | none => exact .inr ⟨_, _, _, _, rfl, rfl, h⟩
  | some start =>
      unfold startAt
      rw [h.corruptedIR]
      cases hDrop : (env.module.instructions f).dropWhile (fun item => item.1 ≠ start) with
      | nil =>
          exact .inl ⟨.couldntFindCallstackInstruction, by simp only [hDrop], by simp only [hDrop]⟩
      | cons item items =>
          obtain ⟨r, i⟩ := item
          simp only [hDrop]
          by_cases hCall : i.opcode = .call
          · by_cases hMore : items.isEmpty
            · exact .inl ⟨_, by rw [if_pos hCall, if_pos hMore], by rw [if_pos hCall, if_pos hMore]⟩
            · exact .inr ⟨_, _, _, _, by rw [if_pos hCall, if_neg hMore],
                by rw [if_pos hCall, if_neg hMore], h⟩
          · rw [if_neg hCall, if_neg hCall]
            by_cases hMem : .instruction r ∈ s.corruptedIR
            · rw [if_pos hMem, if_pos hMem]
              exact .inr ⟨_, _, _, _, rfl, rfl, h⟩
            · rw [if_neg hMem, if_neg hMem]
              have hAdded := h.add2CrptList (.instruction r)
              by_cases hGep : i.opcode = .getElementPtr
              · rw [if_pos hGep, if_pos hGep]
                cases hBase : i.operands[0]? with
                | none => exact .inl ⟨_, rfl, rfl⟩
                | some base =>
                    cases hIdx : gepIdx i with
                    | none => exact .inl ⟨_, rfl, rfl⟩
                    | some idx => exact .inr ⟨_, _, _, _, rfl, rfl, hAdded.recordGepIdx base idx⟩
              · rw [if_neg hGep, if_neg hGep]
                exact .inr ⟨_, _, _, _, rfl, rfl, hAdded⟩

/-- A call is entered alike in states that agree. -/
theorem start_agrees {s t : State} (h : s.Agrees t) (call : Call) :
    Analyzer.SameEntry State.Agrees (env.start call s) (env.start call t) := by
  unfold start
  rcases startAt_agrees env h call.func call.ins with
    ⟨reason, hFirst, hSecond⟩ | ⟨rv, items, s', t', hFirst, hSecond, hAgrees⟩
  · rw [hFirst, hSecond]
    exact .error reason
  · rw [hFirst, hSecond]
    have hParams := handleParams_agrees hAgrees call.func call.corruptedparams items.isEmpty
      (List.range (env.func call.func).params)
    simp only
    generalize handleParams call.func call.corruptedparams items.isEmpty
      (List.range (env.func call.func).params) s' = first at hParams
    generalize handleParams call.func call.corruptedparams items.isEmpty
      (List.range (env.func call.func).params) t' = second at hParams
    cases hParams with
    | none => exact .returned hAgrees
    | some hBound => exact .body hBound

/-- The two runs stop at the same unparsable instruction. -/
theorem visitGetElementPtr_agrees {s t : State} (h : s.Agrees t) (r : InstRef) (i : Instruction) :
    (∃ reason, visitGetElementPtr r i s = .error reason ∧ visitGetElementPtr r i t = .error reason) ∨
      ∃ s' t', visitGetElementPtr r i s = .ok s' ∧ visitGetElementPtr r i t = .ok t' ∧
        s'.Agrees t' := by
  have hAdded := h.add2CrptList (.instruction r)
  unfold visitGetElementPtr
  rw [h.corruptedPtr]
  cases hIdx : gepIdx i with
  | none =>
      simp only
      rw [h.corruptedIR]
      split
      · exact .inl ⟨.cannotParseGetElementPtrInst, by simp, by simp⟩
      · exact .inr ⟨s, t, rfl, rfl, h⟩
  | some idx =>
      simp only
      by_cases hRecord : idx ∈ (i.operands[0]?.bind s.corruptedPtr).getD []
      · rw [if_pos hRecord, if_pos hRecord]
        simp only [State.add2CrptList_corruptedIR, Finset.mem_insert_self, not_true_eq_false,
          and_false, ↓reduceIte]
        exact .inr ⟨_, _, rfl, rfl, hAdded⟩
      · rw [if_neg hRecord, if_neg hRecord, h.corruptedIR]
        split
        · cases hKey : i.operands[1]? with
          | none => exact .inl ⟨_, rfl, rfl⟩
          | some key => exact .inr ⟨_, _, rfl, rfl, hAdded.recordGepIdx key idx⟩
        · exact .inr ⟨s, t, rfl, rfl, h⟩

theorem visitOther_agrees {s t : State} (h : s.Agrees t) (r : InstRef) (i : Instruction)
    (l : Locals) : (visitOther r i l t).1 = (visitOther r i l s).1 ∧
      (visitOther r i l s).2.Agrees (visitOther r i l t).2 := by
  unfold visitOther
  rw [h.corruptedIR]
  have hAdded := h.add2CrptList (.instruction r)
  split
  · simp only
    split
    · refine ⟨rfl, ?_⟩
      split
      · exact hAdded.add2CrptList _
      · exact hAdded
    · refine ⟨rfl, hAdded.1, hAdded.2, hAdded.3, hAdded.4, ?_, hAdded.6, hAdded.7⟩
      simp [h.corruptedBr]
    · exact ⟨rfl, hAdded⟩
  · exact ⟨rfl, h⟩

end Env
end ConAnalysis
