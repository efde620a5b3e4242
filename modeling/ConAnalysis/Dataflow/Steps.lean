import ConAnalysis.Dataflow.Analysis

/-! What a single step of the dataflow analysis can do. Every invariant of
the analysis is proved from these inversions; later proofs do not unfold the
visit again. -/
namespace ConAnalysis
open IR CallSweep

namespace Env
variable {env : Env}

section Fields
variable (ctrlDep within : Bool) (i : Instruction) (s : State)

@[simp] theorem checkDangerousOp_corruptedIR :
    (env.checkDangerousOp ctrlDep within i s).corruptedIR = s.corruptedIR := by
  unfold checkDangerousOp
  grind

@[simp] theorem checkDangerousOp_orderedcorruptedIR :
    (env.checkDangerousOp ctrlDep within i s).orderedcorruptedIR = s.orderedcorruptedIR := by
  unfold checkDangerousOp
  grind

@[simp] theorem checkDangerousOp_corruptedPtr :
    (env.checkDangerousOp ctrlDep within i s).corruptedPtr = s.corruptedPtr := by
  unfold checkDangerousOp
  grind

@[simp] theorem checkDangerousOp_funcEnterExitValMap :
    (env.checkDangerousOp ctrlDep within i s).funcEnterExitValMap = s.funcEnterExitValMap := by
  unfold checkDangerousOp
  grind

@[simp] theorem checkDangerousOp_callStack :
    (env.checkDangerousOp ctrlDep within i s).callStack = s.callStack := by
  unfold checkDangerousOp
  grind

@[simp] theorem checkDangerousOp_corruptedBr :
    (env.checkDangerousOp ctrlDep within i s).corruptedBr = s.corruptedBr := by
  unfold checkDangerousOp
  grind

@[simp] theorem checkDangerousOp_corruptedCallIns :
    (env.checkDangerousOp ctrlDep within i s).corruptedCallIns = s.corruptedCallIns := by
  unfold checkDangerousOp
  grind

end Fields

/-- The memo is the only member that the look-up may change. -/
theorem checkMemo_snd (callee : FuncRef) (s : State) :
    ∃ memo, (env.checkMemo callee s).2 = { s with funcEnterExitValMap := memo } := by
  unfold checkMemo
  split
  · exact ⟨_, rfl⟩
  · split
    · split <;> exact ⟨_, rfl⟩
    · exact ⟨_, rfl⟩

section Fields
variable (callee : FuncRef) (s : State)

@[simp] theorem checkMemo_corruptedIR :
    (env.checkMemo callee s).2.corruptedIR = s.corruptedIR := by
  obtain ⟨memo, h⟩ := env.checkMemo_snd callee s
  rw [h]

@[simp] theorem checkMemo_orderedcorruptedIR :
    (env.checkMemo callee s).2.orderedcorruptedIR = s.orderedcorruptedIR := by
  obtain ⟨memo, h⟩ := env.checkMemo_snd callee s
  rw [h]

@[simp] theorem checkMemo_corruptedPtr :
    (env.checkMemo callee s).2.corruptedPtr = s.corruptedPtr := by
  obtain ⟨memo, h⟩ := env.checkMemo_snd callee s
  rw [h]

@[simp] theorem checkMemo_callStack : (env.checkMemo callee s).2.callStack = s.callStack := by
  obtain ⟨memo, h⟩ := env.checkMemo_snd callee s
  rw [h]

@[simp] theorem checkMemo_corruptedBr : (env.checkMemo callee s).2.corruptedBr = s.corruptedBr := by
  obtain ⟨memo, h⟩ := env.checkMemo_snd callee s
  rw [h]

@[simp] theorem checkMemo_corruptedCallIns :
    (env.checkMemo callee s).2.corruptedCallIns = s.corruptedCallIns := by
  obtain ⟨memo, h⟩ := env.checkMemo_snd callee s
  rw [h]

@[simp] theorem checkMemo_interCtrlDepPtr :
    (env.checkMemo callee s).2.interCtrlDepPtr = s.interCtrlDepPtr := by
  obtain ⟨memo, h⟩ := env.checkMemo_snd callee s
  rw [h]

@[simp] theorem checkMemo_interCtrlDepFunc :
    (env.checkMemo callee s).2.interCtrlDepFunc = s.interCtrlDepFunc := by
  obtain ⟨memo, h⟩ := env.checkMemo_snd callee s
  rw [h]

/-- Jumping over the callee leaves the whole state alone. -/
theorem checkMemo_skip (h : (env.checkMemo callee s).1 = true) :
    (env.checkMemo callee s).2 = s := by
  unfold checkMemo at h ⊢
  grind

end Fields

section Fields
variable (r : InstRef) (callee : FuncRef) (flag : Bool) (s : State)

@[simp] theorem enterCallee_corruptedIR :
    (enterCallee r callee flag s).corruptedIR = s.corruptedIR := by
  cases flag <;> rfl

@[simp] theorem enterCallee_orderedcorruptedIR :
    (enterCallee r callee flag s).orderedcorruptedIR = s.orderedcorruptedIR := by
  cases flag <;> rfl

@[simp] theorem enterCallee_corruptedPtr :
    (enterCallee r callee flag s).corruptedPtr = s.corruptedPtr := by
  cases flag <;> rfl

@[simp] theorem enterCallee_callStack :
    (enterCallee r callee flag s).callStack = (callee, none) :: s.callStack := by
  cases flag <;> rfl

@[simp] theorem enterCallee_corruptedBr :
    (enterCallee r callee flag s).corruptedBr = s.corruptedBr := by
  cases flag <;> rfl

@[simp] theorem enterCallee_interCtrlDepPtr :
    (enterCallee r callee flag s).interCtrlDepPtr = s.interCtrlDepPtr := by
  cases flag <;> rfl

@[simp] theorem enterCallee_interCtrlDepFunc :
    (enterCallee r callee flag s).interCtrlDepFunc = s.interCtrlDepFunc := by
  cases flag <;> rfl

end Fields

/-- The local variables and the state with which the instruction itself is
handled, after the checks for control dependence. -/
def checkedLocals (env : Env) (call : Call) (item : InstRef × Instruction) (l : Locals) : Locals :=
  { l with ctrlDepWithinCurFunc := env.influenced call.func item.1 l }

def checkedState (env : Env) (call : Call) (item : InstRef × Instruction) (l : Locals)
    (s : State) : State :=
  env.checkDangerousOp call.ctrlDep (env.influenced call.func item.1 l) item.2 s

/-- Before the opcode is looked at, the operation is checked and the influence of the corrupted
branches is taken in. -/
theorem visit_of_call {call : Call} {item : InstRef × Instruction} {l : Locals} {s : State}
    (isCall : item.2.opcode = .call) : env.visit call item l s = .ok (env.visitCall call item.1
      item.2 (env.checkedLocals call item l) (env.checkedState call item l s)) := by
  unfold visit
  rw [isCall]
  rfl

/-- An access may end the process, if it does not parse. -/
theorem visit_of_getElementPtr {call : Call} {item : InstRef × Instruction} {l : Locals} {s : State}
    (isGep : item.2.opcode = .getElementPtr) : env.visit call item l s =
      (visitGetElementPtr item.1 item.2 (env.checkedState call item l s)).map
        (.done (env.checkedLocals call item l)) := by
  unfold visit
  rw [isGep]
  rfl

/-- All other opcodes are done in one step and cannot fail. -/
theorem visit_of_other {call : Call} {item : InstRef × Instruction} {l : Locals} {s : State}
    (notCall : item.2.opcode ≠ .call) (notGep : item.2.opcode ≠ .getElementPtr) :
    env.visit call item l s = .ok (.done
      (visitOther item.1 item.2 (env.checkedLocals call item l) (env.checkedState call item l s)).1
      (visitOther item.1 item.2 (env.checkedLocals call item l)
        (env.checkedState call item l s)).2) := by
  unfold visit
  split
  · next isCall => exact absurd isCall notCall
  · next isGep => exact absurd isGep notGep
  · rfl

/-- Why and how a visit asks for the analysis of a callee. -/
structure EntersCallee (env : Env) (call : Call) (item : InstRef × Instruction) (l : Locals)
    (s : State) (callee : Call) (l' : Locals) (s' : State) : Prop where
  isCall : item.2.opcode = .call
  direct : item.2.calledFunction = some callee.func
  notIntrinsic : (env.func callee.func).isIntrinsic = false
  notOnCallStack : env.onCallStack callee.func s = false
  notExternal : ((env.func callee.func).isDeclaration && paramsCorrupted item.2 s) = false
  notSkipped : (env.checkMemo callee.func (env.checkedState call item l s)).1 = false
  params : callee.corruptedparams = coparams item.2 s
  flag : callee.ctrlDep = (call.ctrlDep || env.influenced call.func item.1 l)
  noStart : callee.ins = none
  locals_eq : l' = env.checkedLocals call item l
  state_eq : s' = enterCallee item.1 callee.func callee.ctrlDep
    (env.checkMemo callee.func (env.checkedState call item l s)).2

/-- A function that is entered differs from all functions on the call stack. -/
theorem EntersCallee.func_ne {call callee : Call} {item : InstRef × Instruction} {l l' : Locals}
    {s s' : State} (h : EntersCallee env call item l s callee l' s') {layer : FuncInst} {g : FuncRef}
    (hLayer : layer ∈ s.callStack) (hFunc : layer.1 = g) : g ≠ callee.func := by
  intro hEq
  have hStack := h.notOnCallStack
  simp only [onCallStack, List.any_eq_false, decide_eq_true_eq] at hStack
  exact hStack layer hLayer (by rw [hFunc, hEq])

/-- Everything a visit that does not ask for a callee may do to the locals
and the state. Where the instruction is entered, it is new. -/
inductive Effect (env : Env) (item : InstRef × Instruction) (l : Locals) (s : State) :
    Locals → State → Prop where
  | unchanged : Effect env item l s l s
  | external {callee : FuncRef} (isCall : item.2.opcode = .call)
      (direct : item.2.calledFunction = some callee)
      (declared : (env.func callee).isDeclaration = true)
      (corrupted : paramsCorrupted item.2 s = true) :
      Effect env item l s l (s.add2CrptList (.instruction item.1))
  | gepRecord {base : Value} {idx : GepIdx} {entries : List GepIdx}
      (isGep : item.2.opcode = .getElementPtr) (hBase : item.2.operands[0]? = some base)
      (hEntries : s.corruptedPtr base = some entries) (hIdx : gepIdx item.2 = some idx)
      (hMem : idx ∈ entries) (new : .instruction item.1 ∉ s.corruptedIR) :
      Effect env item l s l (s.add2CrptList (.instruction item.1))
  | gepOperand {v key : Value} {idx : GepIdx} (isGep : item.2.opcode = .getElementPtr)
      (operand : v ∈ item.2.operands) (corrupted : v ∈ s.corruptedIR)
      (new : .instruction item.1 ∉ s.corruptedIR) (hKey : item.2.operands[1]? = some key)
      (hIdx : gepIdx item.2 = some idx) :
      Effect env item l s l ((s.add2CrptList (.instruction item.1)).recordGepIdx key idx)
  | store {v pointer : Value} (isStore : item.2.opcode = .store) (operand : v ∈ item.2.operands)
      (corrupted : v ∈ s.corruptedIR) (new : .instruction item.1 ∉ s.corruptedIR)
      (hPointer : item.2.operands[1]? = some pointer) :
      Effect env item l s { l with rv := true }
        ((s.add2CrptList (.instruction item.1)).add2CrptList pointer)
  | branch {v : Value} (isBr : item.2.opcode = .br) (operand : v ∈ item.2.operands)
      (corrupted : v ∈ s.corruptedIR) (new : .instruction item.1 ∉ s.corruptedIR) :
      Effect env item l s
        { l with rv := true, localCorruptedBr := l.localCorruptedBr ++ [item.1] }
        { s.add2CrptList (.instruction item.1) with
          corruptedBr := State.pushIfNew item.1 s.corruptedBr }
  | plain {v : Value} (notCall : item.2.opcode ≠ .call) (notGep : item.2.opcode ≠ .getElementPtr)
      (notBr : item.2.opcode ≠ .br)
      (noPointer : item.2.opcode = .store → item.2.operands[1]? = none)
      (operand : v ∈ item.2.operands) (corrupted : v ∈ s.corruptedIR)
      (new : .instruction item.1 ∉ s.corruptedIR) :
      Effect env item l s { l with rv := true } (s.add2CrptList (.instruction item.1))

/-- What a call passes depends on the two containers only. -/
theorem coparams_congr {i : Instruction} {s t : State} (hSet : s.corruptedIR = t.corruptedIR)
    (hPtr : s.corruptedPtr = t.corruptedPtr) : coparams i s = coparams i t := by
  unfold coparams corruptedOperand
  rw [hSet, hPtr]

/-- Whether it passes anything depends on the same two. -/
theorem paramsCorrupted_congr {i : Instruction} {s t : State}
    (hSet : s.corruptedIR = t.corruptedIR) (hPtr : s.corruptedPtr = t.corruptedPtr) :
    paramsCorrupted i s = paramsCorrupted i t := by
  unfold paramsCorrupted corruptedOperand
  rw [hSet, hPtr]

/-- A call that is passed over changes nothing, unless it is to a declaration and passes something
corrupted: then it is corrupted itself. -/
theorem visitCall_done {call : Call} {item : InstRef × Instruction} {l l' : Locals} {s s' : State}
    (isCall : item.2.opcode = .call)
    (h : env.visitCall call item.1 item.2 l s = .done l' s') : Effect env item l s l' s' := by
  unfold visitCall at h
  split at h
  · cases h
    exact .unchanged
  · next callee direct =>
      split at h
      · cases h
        exact .unchanged
      · split at h
        · cases h
          exact .unchanged
        · split at h
          · next hExternal =>
              cases h
              rw [Bool.and_eq_true] at hExternal
              exact .external isCall direct hExternal.1 hExternal.2
          · split at h
            · next hMemo =>
                cases h
                have hSame := env.checkMemo_skip callee s (by rw [hMemo])
                rw [hMemo] at hSame
                simp only at hSame
                rw [hSame]
                exact .unchanged
            · cases h

/-- An access that parses has the effect of its operands, its field or neither. -/
theorem visitGetElementPtr_ok {item : InstRef × Instruction} {l : Locals} {s s' : State}
    (isGep : item.2.opcode = .getElementPtr)
    (h : visitGetElementPtr item.1 item.2 s = .ok s') : Effect env item l s l s' := by
  by_cases hMem : .instruction item.1 ∈ s.corruptedIR
  · -- already corrupted: neither part changes anything
    have hAdd : s.add2CrptList (.instruction item.1) = s := State.add2CrptList_of_mem hMem
    have hSame : s' = s := by
      unfold visitGetElementPtr at h
      simp only [hAdd] at h
      grind
    rw [hSame]
    exact .unchanged
  · unfold visitGetElementPtr at h
    cases hIdx : gepIdx item.2 with
    | none =>
        simp only [hIdx] at h
        split at h
        · split at h <;> simp_all
        · cases h
          exact .unchanged
    | some idx =>
        by_cases hRecord : idx ∈ (item.2.operands[0]?.bind s.corruptedPtr).getD []
        · simp only [hIdx, hRecord, ↓reduceIte, State.add2CrptList_corruptedIR,
            Finset.mem_insert_self, not_true_eq_false, and_false, Except.ok.injEq] at h
          subst s'
          cases hBase : item.2.operands[0]? with
          | none => simp [hBase] at hRecord
          | some base =>
              cases hEntries : s.corruptedPtr base with
              | none => simp [hBase, hEntries] at hRecord
              | some entries =>
                  simp only [hBase, hEntries, Option.bind_some, Option.getD_some] at hRecord
                  exact .gepRecord isGep hBase hEntries hIdx hRecord hMem
        · simp only [hIdx, hRecord, ↓reduceIte] at h
          split at h
          · next hOperand =>
              obtain ⟨⟨v, operand, corrupted⟩, new⟩ := hOperand
              split at h
              · next key hKey hSome =>
                  cases hSome
                  cases h
                  exact .gepOperand isGep operand corrupted new hKey hIdx
              · cases h
          · cases h
            exact .unchanged

/-- The other opcodes, by whether they are a store, a branch, a return or none of these. -/
theorem visitOther_effect {item : InstRef × Instruction} {l : Locals} {s : State}
    (notCall : item.2.opcode ≠ .call) (notGep : item.2.opcode ≠ .getElementPtr) :
    Effect env item l s (visitOther item.1 item.2 l s).1 (visitOther item.1 item.2 l s).2 := by
  unfold visitOther
  split
  · next hOperand =>
      obtain ⟨⟨v, operand, corrupted⟩, new⟩ := hOperand
      split
      · next isStore =>
          cases hPointer : item.2.operands[1]? with
          | some pointer => exact .store isStore operand corrupted new hPointer
          | none =>
              exact .plain notCall notGep (by simp [isStore]) (fun _ => hPointer) operand
                corrupted new
      · next isBr =>
          simp only [State.add2CrptList_corruptedBr]
          exact .branch isBr operand corrupted new
      · next notStore notBr =>
          exact .plain notCall notGep notBr (fun h => absurd h notStore) operand corrupted new
  · exact .unchanged

/-- The effect of a visit that is complete by itself. -/
theorem visit_done {call : Call} {item : InstRef × Instruction} {l l' : Locals} {s s' : State}
    (h : env.visit call item l s = .ok (.done l' s')) :
    Effect env item (env.checkedLocals call item l) (env.checkedState call item l s) l' s' := by
  unfold visit at h
  split at h
  · next isCall =>
      simp only [Except.ok.injEq] at h
      exact visitCall_done isCall h
  · next isGep =>
      cases hGep : visitGetElementPtr item.1 item.2 (env.checkedState call item l s) with
      | error reason =>
          rw [checkedState] at hGep
          simp [hGep, Except.map] at h
      | ok t =>
          have hVisit := hGep
          rw [checkedState] at hGep
          simp only [hGep, Except.map, Except.ok.injEq, Outcome.done.injEq] at h
          obtain ⟨rfl, rfl⟩ := h
          exact visitGetElementPtr_ok isGep hVisit
  · next notCall notGep =>
      simp only [Except.ok.injEq, Outcome.done.injEq] at h
      obtain ⟨rfl, rfl⟩ := h
      exact visitOther_effect notCall notGep

/-- Only a followed call asks for the analysis of a callee. -/
theorem visit_enter {call callee : Call} {item : InstRef × Instruction} {l l' : Locals}
    {s s' : State} (h : env.visit call item l s = .ok (.enter callee l' s')) :
    EntersCallee env call item l s callee l' s' := by
  unfold visit at h
  split at h
  · next isCall =>
      simp only [Except.ok.injEq] at h
      unfold visitCall at h
      split at h
      · cases h
      · next g direct =>
          split at h
          · cases h
          · next hIntrinsic =>
              split at h
              · cases h
              · next hStack =>
                  split at h
                  · cases h
                  · next hExternal =>
                      split at h
                      · cases h
                      · next hMemo =>
                          simp only [Outcome.enter.injEq] at h
                          obtain ⟨rfl, rfl, rfl⟩ := h
                          exact {
                            isCall := isCall
                            direct := direct
                            notIntrinsic := by simpa using hIntrinsic
                            notOnCallStack := by simpa [onCallStack] using hStack
                            notExternal := by
                              rw [paramsCorrupted_congr (t := s) (by simp) (by simp)] at hExternal
                              simpa only [Bool.not_eq_true] using hExternal
                            notSkipped := by rw [checkedState, hMemo]
                            params := coparams_congr (by simp) (by simp)
                            flag := rfl
                            noStart := rfl
                            locals_eq := rfl
                            state_eq := by rw [checkedState, hMemo] }
  · next isGep =>
      cases hGep : visitGetElementPtr item.1 item.2 (env.checkDangerousOp call.ctrlDep
          (env.influenced call.func item.1 l) item.2 s) <;> simp [hGep, Except.map] at h
  · simp at h

/-- How a sweep begins: with the whole body, behind a call at which a frame
continues, or at a start instruction that is entered unless it is known. -/
inductive Seed (env : Env) (f : FuncRef) (s : State) :
    Option InstRef → Bool → List (InstRef × Instruction) → State → Prop where
  | whole : Seed env f s none false (env.module.instructions f) s
  | resume {r : InstRef} {i : Instruction} {items : List (InstRef × Instruction)}
      (suffix : (r, i) :: items <:+ env.module.instructions f) (isCall : i.opcode = .call)
      (more : items ≠ []) : Seed env f s (some r) false items s
  | known {r : InstRef} {i : Instruction} {items : List (InstRef × Instruction)}
      (suffix : (r, i) :: items <:+ env.module.instructions f) (notCall : i.opcode ≠ .call)
      (mem : .instruction r ∈ s.corruptedIR) : Seed env f s (some r) false ((r, i) :: items) s
  | gep {r : InstRef} {i : Instruction} {items : List (InstRef × Instruction)} {base : Value}
      {idx : GepIdx} (suffix : (r, i) :: items <:+ env.module.instructions f)
      (isGep : i.opcode = .getElementPtr) (new : .instruction r ∉ s.corruptedIR)
      (hBase : i.operands[0]? = some base) (hIdx : gepIdx i = some idx) :
      Seed env f s (some r) true ((r, i) :: items)
        ((s.add2CrptList (.instruction r)).recordGepIdx base idx)
  | plain {r : InstRef} {i : Instruction} {items : List (InstRef × Instruction)}
      (suffix : (r, i) :: items <:+ env.module.instructions f) (notCall : i.opcode ≠ .call)
      (notGep : i.opcode ≠ .getElementPtr) (new : .instruction r ∉ s.corruptedIR) :
      Seed env f s (some r) true ((r, i) :: items) (s.add2CrptList (.instruction r))

/-- A start that does not fail either sweeps the whole function or from an instruction of it on. -/
theorem startAt_ok {f : FuncRef} {ins : Option InstRef} {s s' : State} {rv : Bool}
    {items : List (InstRef × Instruction)} (h : env.startAt f ins s = .ok (rv, items, s')) :
    Seed env f s ins rv items s' := by
  cases ins with
  | none =>
      cases h
      exact .whole
  | some start =>
      unfold startAt at h
      have hSuffix := List.dropWhile_suffix
        (fun item : InstRef × Instruction => decide (item.1 ≠ start)) (l := env.module.instructions f)
      cases hDrop : (env.module.instructions f).dropWhile (fun item => item.1 ≠ start) with
      | nil =>
          simp only [hDrop] at h
          cases h
      | cons item rest =>
          obtain ⟨r, i⟩ := item
          have hStart : r = start := by
            have hHead := List.head?_dropWhile_not
              (fun item : InstRef × Instruction => decide (item.1 ≠ start))
              (env.module.instructions f)
            rw [hDrop] at hHead
            simpa using hHead
          subst start
          rw [hDrop] at hSuffix
          simp only [hDrop] at h
          by_cases hCall : i.opcode = .call
          · cases rest with
            | nil => simp [hCall] at h
            | cons next rest =>
                simp only [hCall, List.isEmpty_cons, ↓reduceIte, Bool.false_eq_true,
                  Except.ok.injEq, Prod.mk.injEq] at h
                obtain ⟨rfl, rfl, rfl⟩ := h
                exact .resume hSuffix hCall (by simp)
          · by_cases hMem : Value.instruction r ∈ s.corruptedIR
            · simp only [hCall, hMem, ↓reduceIte, Except.ok.injEq, Prod.mk.injEq] at h
              obtain ⟨rfl, rfl, rfl⟩ := h
              exact .known hSuffix hCall hMem
            · by_cases hGep : i.opcode = .getElementPtr
              · rw [if_neg hCall, if_neg hMem, if_pos hGep] at h
                split at h
                · next base idx hBase hIdx =>
                    cases h
                    exact .gep hSuffix hGep hMem hBase hIdx
                · cases h
              · simp only [hCall, hMem, hGep, ↓reduceIte, Except.ok.injEq, Prod.mk.injEq] at h
                obtain ⟨rfl, rfl, rfl⟩ := h
                exact .plain hSuffix hCall hGep hMem

/-- What is swept from a start is the end of the function. -/
theorem Seed.suffix {f : FuncRef} {ins : Option InstRef} {s s' : State} {rv : Bool}
    {items : List (InstRef × Instruction)} (h : Seed env f s ins rv items s') :
    items <:+ env.module.instructions f := by
  cases h with
  | whole => exact List.suffix_refl _
  | resume suffix => exact (List.suffix_cons _ _).trans suffix
  | known suffix => exact suffix
  | gep suffix => exact suffix
  | plain suffix => exact suffix

/-- Without a start instruction the seed does nothing. -/
theorem Seed.of_none {f : FuncRef} {s s' : State} {rv : Bool} {items : List (InstRef × Instruction)}
    (h : Seed env f s none rv items s') :
    rv = false ∧ items = env.module.instructions f ∧ s' = s := by
  cases h
  exact ⟨rfl, rfl, rfl⟩

theorem Seed.callStack {f : FuncRef} {ins : Option InstRef} {s s' : State} {rv : Bool}
    {items : List (InstRef × Instruction)} (h : Seed env f s ins rv items s') :
    s'.callStack = s.callStack := by
  cases h <;> simp

/-- Binding the parameters is a sequence of single bindings. -/
theorem handleParams_rel {R : State → State → Prop} {f : FuncRef} {corruptedparams : CorruptedArgs}
    {atEnd : Bool} {ks : List Nat} {s s' : State} (refl : ∀ s, R s s)
    (trans : ∀ {s₁ s₂ s₃}, R s₁ s₂ → R s₂ s₃ → R s₁ s₃)
    (bind : ∀ k ∈ ks, ∀ actual, corruptedparams k = some actual → ∀ s, R s (bindArg f k actual s))
    (h : handleParams f corruptedparams atEnd ks s = some s') : R s s' := by
  induction ks generalizing s with
  | nil =>
      cases h
      exact refl _
  | cons k ks ih =>
      rw [List.forall_mem_cons] at bind
      unfold handleParams at h
      split at h
      · exact ih bind.2 h
      · next actual hActual =>
          split at h
          · cases h
          · exact trans (bind.1 actual hActual s) (ih bind.2 h)

/-- The loop over the parameters comes to its end where there are instructions to analyse. -/
theorem handleParams_ne_none (f : FuncRef) (corruptedparams : CorruptedArgs) (ks : List Nat)
    (s : State) : handleParams f corruptedparams false ks s ≠ none := by
  induction ks generalizing s with
  | nil => simp [handleParams]
  | cons k ks ih =>
      unfold handleParams
      split
      · exact ih s
      · exact ih _

theorem handleParams_of_none {f : FuncRef} {corruptedparams : CorruptedArgs} {atEnd : Bool}
    {ks : List Nat} {s : State} (h : ∀ k, corruptedparams k = none) :
    handleParams f corruptedparams atEnd ks s = some s := by
  induction ks with
  | nil => rfl
  | cons k ks ih => simp [handleParams, h k, ih]

@[simp] theorem bindArg_callStack (f : FuncRef) (k : Nat) (actual : Value) (s : State) :
    (bindArg f k actual s).callStack = s.callStack := by
  unfold bindArg
  split <;> simp

theorem handleParams_callStack {f : FuncRef} {corruptedparams : CorruptedArgs} {atEnd : Bool}
    {ks : List Nat} {s s' : State} (h : handleParams f corruptedparams atEnd ks s = some s') :
    s'.callStack = s.callStack :=
  handleParams_rel (R := fun s s' => s'.callStack = s.callStack) (fun _ => rfl)
    (fun h₁ h₂ => h₂.trans h₁) (fun _ _ _ _ _ => bindArg_callStack ..) h

/-- A sweep starts from its seed once the parameters are bound. -/
theorem start_body {call : Call} {s s' : State} {items : List (InstRef × Instruction)} {l : Locals}
    (h : env.start call s = .ok (.body items l s')) :
    ∃ s₁, Seed env call.func s call.ins l.rv items s₁ ∧ l = { rv := l.rv } ∧
      handleParams call.func call.corruptedparams items.isEmpty
        (List.range (env.func call.func).params) s₁ = some s' := by
  unfold start at h
  split at h
  · cases h
  · next rv items₁ s₁ hStart =>
      split at h
      · cases h
      · next s₂ hParams =>
          cases h
          exact ⟨s₁, startAt_ok hStart, rfl, hParams⟩

/-- The early return needs a body without instructions to sweep. -/
theorem start_returned {call : Call} {s s' : State} {result : Bool}
    (h : env.start call s = .ok (.returned result s')) :
    result = true ∧ ∃ rv, Seed env call.func s call.ins rv [] s' := by
  unfold start at h
  split at h
  · cases h
  · next rv items s₁ hStart =>
      split at h
      · next hParams =>
          cases h
          refine ⟨rfl, rv, ?_⟩
          have hEmpty : items = [] := by
            cases items with
            | nil => rfl
            | cons item items => exact absurd hParams (handleParams_ne_none _ _ _ _)
          rw [← hEmpty]
          exact startAt_ok hStart
      · cases h

/-- Every swept item is an instruction of the function at hand. -/
theorem analyzer_supplies :
    env.analyzer.Supplies fun call item => item ∈ env.module.instructions call.func := by
  intro call s items l s' h item hItem
  obtain ⟨s₁, hSeed, -⟩ := start_body h
  exact hSeed.suffix.subset hItem

end Env
end ConAnalysis
