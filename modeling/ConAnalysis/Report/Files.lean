import ConAnalysis.Report.GetCorruptedIRs

/-! The four containers that are not emptied between heads. They are written
during the analysis, but the flow of the corruption never looks at them. -/
namespace ConAnalysis
open IR CallSweep

/-- The members that `getCorruptedIRs` does not empty for a new head. -/
structure Files where
  corruptedBr : List InstRef := []
  corruptedCallIns : List InstRef := []
  interCtrlDepPtr : Finmap fun _ : FileLine => List InstRef := ∅
  interCtrlDepFunc : Finmap fun _ : FileLine => List InstRef := ∅

namespace State

def files (s : State) : Files :=
  ⟨s.corruptedBr, s.corruptedCallIns, s.interCtrlDepPtr, s.interCtrlDepFunc⟩

def refile (s : State) (F : Files) : State :=
  { s with
    corruptedBr := F.corruptedBr
    corruptedCallIns := F.corruptedCallIns
    interCtrlDepPtr := F.interCtrlDepPtr
    interCtrlDepFunc := F.interCtrlDepFunc }

section Refile
variable (s : State) (F : Files)

@[simp] theorem refile_corruptedIR : (s.refile F).corruptedIR = s.corruptedIR := rfl
@[simp] theorem refile_corruptedPtr : (s.refile F).corruptedPtr = s.corruptedPtr := rfl
@[simp] theorem refile_funcEnterExitValMap :
    (s.refile F).funcEnterExitValMap = s.funcEnterExitValMap := rfl

/-- Corrupting a value does not look at the files: it can be done before or after they are
replaced. The same holds of every step below, up to what the step itself files. -/
theorem add2CrptList_refile (v : Value) :
    (s.refile F).add2CrptList v = (s.add2CrptList v).refile F := by
  unfold add2CrptList
  rw [refile_corruptedIR]
  split <;> rfl

theorem copyGepIdx_refile (calleeArgs callerArgs : Value) :
    (s.refile F).copyGepIdx calleeArgs callerArgs =
      (s.copyGepIdx calleeArgs callerArgs).refile F := by
  unfold copyGepIdx
  rw [refile_corruptedPtr]
  split <;> rfl

theorem recordGepIdx_refile (key : Value) (idx : GepIdx) :
    (s.refile F).recordGepIdx key idx = (s.recordGepIdx key idx).refile F := rfl

end Refile
end State

namespace Env
variable {env : Env} (s : State) (F : Files)

theorem bindArg_refile (f : FuncRef) (k : Nat) (actual : Value) :
    bindArg f k actual (s.refile F) = (bindArg f k actual s).refile F := by
  unfold bindArg
  rw [State.refile_corruptedIR]
  split
  · rw [State.add2CrptList_refile, State.copyGepIdx_refile]
  · rw [State.copyGepIdx_refile]

/-- The loop over the parameters commutes with the replacement as well. -/
theorem handleParams_refile (f : FuncRef) (corruptedparams : CorruptedArgs) (atEnd : Bool)
    (ks : List Nat) : handleParams f corruptedparams atEnd ks (s.refile F) =
      (handleParams f corruptedparams atEnd ks s).map (·.refile F) := by
  induction ks generalizing s with
  | nil => rfl
  | cons k ks ih =>
      unfold handleParams
      split
      · exact ih s
      · split
        · rfl
        · rw [bindArg_refile, ih]

/-- And the start of a frame, whether it fails or not. -/
theorem startAt_refile (f : FuncRef) (ins : Option InstRef) :
    env.startAt f ins (s.refile F) =
      (env.startAt f ins s).map fun (rv, items, s) => (rv, items, s.refile F) := by
  cases ins with
  | none => rfl
  | some start =>
      unfold startAt
      simp only [State.refile_corruptedIR, State.add2CrptList_refile, State.recordGepIdx_refile]
      cases (env.module.instructions f).dropWhile (fun item => item.1 ≠ start) with
      | nil => rfl
      | cons item items =>
          simp only
          split
          · split <;> rfl
          · split
            · rfl
            · split
              · split <;> rfl
              · rfl

/-- The look-up reads the memo table, which is not one of the files. -/
theorem checkMemo_refile (callee : FuncRef) :
    env.checkMemo callee (s.refile F) =
      ((env.checkMemo callee s).1, (env.checkMemo callee s).2.refile F) := by
  unfold checkMemo
  rw [State.refile_funcEnterExitValMap]
  cases s.funcEnterExitValMap callee with
  | none => rfl
  | some funcVal =>
      simp only
      by_cases hEq : funcVal.enterVal = funcVal.exitVal
      · rw [if_pos hEq, if_pos hEq]
        by_cases hLt : funcVal.enterVal < s.corruptedIR.card
        · rw [if_pos hLt]
          exact if_pos hLt
        · rw [if_neg hLt]
          exact if_neg hLt
      · rw [if_neg hEq, if_neg hEq]

/-- The branch of a visit in which an operand of an access is corrupted. -/
theorem gepOperand_refile (r : InstRef) (i : Instruction) (idx : Option GepIdx) :
    (if (∃ v ∈ i.operands, v ∈ (s.refile F).corruptedIR) ∧
        .instruction r ∉ (s.refile F).corruptedIR then
      match i.operands[1]?, idx with
      | some key, some idx =>
          .ok (((s.refile F).add2CrptList (.instruction r)).recordGepIdx key idx)
      | _, _ => .error Fault.cannotParseGetElementPtrInst
    else .ok (s.refile F) : Except Fault State) =
      (if (∃ v ∈ i.operands, v ∈ s.corruptedIR) ∧ .instruction r ∉ s.corruptedIR then
        match i.operands[1]?, idx with
        | some key, some idx => .ok ((s.add2CrptList (.instruction r)).recordGepIdx key idx)
        | _, _ => .error Fault.cannotParseGetElementPtrInst
      else .ok s : Except Fault State).map (·.refile F) := by
  by_cases hCond : (∃ v ∈ i.operands, v ∈ s.corruptedIR) ∧ .instruction r ∉ s.corruptedIR
  · rw [if_pos hCond, State.add2CrptList_refile]
    refine (if_pos hCond).trans ?_
    cases i.operands[1]? <;> cases idx <;> rfl
  · rw [if_neg hCond]
    exact if_neg hCond

/-- An access files nothing. -/
theorem visitGetElementPtr_refile (r : InstRef) (i : Instruction) :
    visitGetElementPtr r i (s.refile F) = (visitGetElementPtr r i s).map (·.refile F) := by
  unfold visitGetElementPtr
  rw [State.refile_corruptedPtr, State.add2CrptList_refile]
  cases gepIdx i with
  | none => exact gepOperand_refile s F r i none
  | some idx =>
      simp only
      by_cases hRecord : idx ∈ (i.operands[0]?.bind s.corruptedPtr).getD []
      · rw [if_pos hRecord, if_pos hRecord]
        exact gepOperand_refile (s.add2CrptList (.instruction r)) F r i (some idx)
      · rw [if_neg hRecord, if_neg hRecord]
        exact gepOperand_refile s F r i (some idx)

end Env

namespace Files

/-- `checkDangerousOp` on the files alone. -/
def checkDangerousOp (env : Env) (ctrlDep within : Bool) (i : Instruction) (F : Files) : Files :=
  (env.checkDangerousOp ctrlDep within i (({} : State).refile F)).files

/-- A call that is followed is filed when a control dependence is passed on. -/
def enterCallee (r : InstRef) (flag : Bool) (F : Files) : Files :=
  if flag then { F with corruptedCallIns := State.pushIfNew r F.corruptedCallIns } else F

def visitOther (r : InstRef) (i : Instruction) (s : State) (F : Files) : Files :=
  if (∃ v ∈ i.operands, v ∈ s.corruptedIR) ∧ .instruction r ∉ s.corruptedIR then
    match i.opcode with
    | .br => { F with corruptedBr := State.pushIfNew r F.corruptedBr }
    | _ => F
  else F

end Files

namespace Env
variable {env : Env} (s : State) (F : Files)

/-- The check only writes files, from files. -/
theorem checkDangerousOp_refile (ctrlDep within : Bool) (i : Instruction) :
    env.checkDangerousOp ctrlDep within i (s.refile F) =
      s.refile (F.checkDangerousOp env ctrlDep within i) := by
  unfold Files.checkDangerousOp Env.checkDangerousOp
  split
  · rfl
  · split
    · simp only
      split
      · rfl
      · split <;> rfl
    · rfl

/-- The call is filed if the flag is set. -/
theorem enterCallee_refile (r : InstRef) (callee : FuncRef) (flag : Bool) :
    enterCallee r callee flag (s.refile F) =
      (enterCallee r callee flag s).refile (F.enterCallee r flag) := by
  cases flag <;> rfl

/-- A corrupted branch is filed. Everything else that the visit does is the same for all files. -/
theorem visitOther_refile (r : InstRef) (i : Instruction) (l : Locals) :
    visitOther r i l (s.refile F) =
      ((visitOther r i l s).1, (visitOther r i l s).2.refile (F.visitOther r i s)) := by
  unfold visitOther Files.visitOther
  rw [State.add2CrptList_refile]
  by_cases hCond : (∃ v ∈ i.operands, v ∈ s.corruptedIR) ∧ .instruction r ∉ s.corruptedIR
  · rw [if_pos hCond, if_pos hCond]
    refine (if_pos hCond).trans ?_
    cases i.opcode with
    | store =>
        cases i.operands[1]? with
        | none => rfl
        | some pointer => exact congrArg (Prod.mk _) (State.add2CrptList_refile _ F pointer)
    | _ => rfl
  · rw [if_neg hCond, if_neg hCond]
    exact if_neg hCond

def refileOutcome (F G : Files) : Outcome Call Locals State → Outcome Call Locals State
  | .done l s => .done l (s.refile F)
  | .enter callee l s => .enter callee l (s.refile G)

/-- Whether a callee is entered does not depend on the files. -/
theorem visitCall_refile (call : Call) (r : InstRef) (i : Instruction) (l : Locals) :
    env.visitCall call r i l (s.refile F) = refileOutcome F
      (F.enterCallee r (call.ctrlDep || l.ctrlDepWithinCurFunc)) (env.visitCall call r i l s) := by
  have hParams : paramsCorrupted i (s.refile F) = paramsCorrupted i s := rfl
  have hCoparams : coparams i (s.refile F) = coparams i s := rfl
  unfold visitCall
  cases i.calledFunction with
  | none => rfl
  | some callee =>
      have hStack : env.onCallStack callee (s.refile F) = env.onCallStack callee s := rfl
      simp only [hParams, hCoparams, hStack, checkMemo_refile, State.add2CrptList_refile]
      split
      · rfl
      · split
        · rfl
        · split
          · rfl
          · cases env.checkMemo callee s with
            | mk skip s' =>
                cases skip with
                | true => rfl
                | false =>
                    simp only [refileOutcome]
                    rw [enterCallee_refile]

end Env

section LeftOver
variable (env : Env)

/-- The pairs of a call and a branch that `ctrlDepBrs` lists. -/
def Env.InfluencedCall (call br : InstRef) : Prop :=
  call.func = br.func ∧ env.hasGraph call.func = true ∧ env.influences br.parent call.parent = true

def Env.HasOpcode (opcode : Opcode) (r : InstRef) : Prop :=
  ∃ i, env.module.inst? r = some i ∧ i.opcode = opcode

/-- The filed calls and branches make no pair, neither with one another nor
with the calls and branches of the module. -/
def Files.MakesNoPair (L : Files) : Prop :=
  ∀ call br, call ∈ L.corruptedCallIns ∨ env.HasOpcode .call call →
    br ∈ L.corruptedBr ∨ env.HasOpcode .br br →
    call ∈ L.corruptedCallIns ∨ br ∈ L.corruptedBr → ¬env.InfluencedCall call br

/-- The files are the same apart from the calls and branches left over, and
from entries that are not reported. -/
structure SameFiles (options : Options) (L F G : Files) : Prop where
  br : G.corruptedBr.filter (· ∉ L.corruptedBr) = F.corruptedBr.filter (· ∉ L.corruptedBr)
  callIns : G.corruptedCallIns.filter (· ∉ L.corruptedCallIns) =
    F.corruptedCallIns.filter (· ∉ L.corruptedCallIns)
  isBr : ∀ r, r ∈ F.corruptedBr ∨ r ∈ G.corruptedBr → r ∈ L.corruptedBr ∨ env.HasOpcode .br r
  isCall : ∀ r, r ∈ F.corruptedCallIns ∨ r ∈ G.corruptedCallIns →
    r ∈ L.corruptedCallIns ∨ env.HasOpcode .call r
  interCtrlDepPtr : options.ptrDerefCheck = true → G.interCtrlDepPtr = F.interCtrlDepPtr
  interCtrlDepFunc : options.danFuncCheck = true → G.interCtrlDepFunc = F.interCtrlDepFunc

variable {env}

/-- Elements that do nothing can be filtered out. -/
theorem foldl_filter_of_idle {α β : Type} {f : β → α → β} {p : α → Bool} {list : List α}
    (h : ∀ a ∈ list, p a = false → ∀ b, f b a = b) (b : β) :
    (list.filter p).foldl f b = list.foldl f b := by
  induction list generalizing b with
  | nil => rfl
  | cons a list ih =>
      rw [List.forall_mem_cons] at h
      rw [List.filter_cons, List.foldl_cons]
      by_cases hp : p a = true
      · rw [if_pos hp, List.foldl_cons, ih h.2]
      · rw [if_neg hp, h.1 (by simpa using hp), ih h.2]

/-- A loop over such elements does nothing. -/
theorem foldl_of_idle {α β : Type} {f : β → α → β} {list : List α}
    (h : ∀ a ∈ list, ∀ b, f b a = b) (b : β) : list.foldl f b = b := by
  have hNone : list.filter (fun _ => false) = [] := by simp
  rw [← foldl_filter_of_idle (p := fun _ => false) (fun a ha _ => h a ha), hNone]
  rfl

/-- Left-over calls and branches that make no pair do not show. -/
theorem ctrlDepBrs_filter {L : Files} (hNoPair : L.MakesNoPair env) {calls brs : List InstRef}
    (isCall : ∀ r ∈ calls, r ∈ L.corruptedCallIns ∨ env.HasOpcode .call r)
    (isBr : ∀ r ∈ brs, r ∈ L.corruptedBr ∨ env.HasOpcode .br r) :
    env.ctrlDepBrs (calls.filter (· ∉ L.corruptedCallIns)) (brs.filter (· ∉ L.corruptedBr)) =
      env.ctrlDepBrs calls brs := by
  calc env.ctrlDepBrs (calls.filter (· ∉ L.corruptedCallIns)) (brs.filter (· ∉ L.corruptedBr))
      = env.ctrlDepBrs (calls.filter (· ∉ L.corruptedCallIns)) brs := by
        refine List.foldl_ext _ _ _ fun found call hCall => foldl_filter_of_idle ?_ found
        intro br hBr hLeft found
        exact if_neg (hNoPair call br (isCall call (List.mem_of_mem_filter hCall)) (isBr br hBr)
          (.inr (by simpa using hLeft)))
    _ = env.ctrlDepBrs calls brs := by
        refine foldl_filter_of_idle ?_ _
        intro call hCall hLeft found
        refine foldl_of_idle (fun br hBr found => ?_) found
        exact if_neg (hNoPair call br (isCall call hCall) (isBr br hBr)
          (.inl (by simpa using hLeft)))

/-- A member is added, none is taken away. -/
theorem mem_pushIfNew {r t : InstRef} {list : List InstRef} :
    t ∈ State.pushIfNew r list ↔ t = r ∨ t ∈ list := by
  unfold State.pushIfNew
  split
  · next hMem =>
      refine ⟨.inr, ?_⟩
      rintro (rfl | h)
      · exact hMem
      · exact h
  · rw [List.mem_append, List.mem_singleton, or_comm]

/-- Lists that agree where it counts do so when both get one more member. -/
theorem filter_pushIfNew {p : InstRef → Bool} {r : InstRef} {list list' : List InstRef}
    (h : list.filter p = list'.filter p) :
    (State.pushIfNew r list).filter p = (State.pushIfNew r list').filter p := by
  have hPush : ∀ l : List InstRef, (State.pushIfNew r l).filter p =
      if p r then State.pushIfNew r (l.filter p) else l.filter p := by
    intro l
    unfold State.pushIfNew
    by_cases hp : p r = true
    · by_cases hMem : r ∈ l
      · rw [if_pos hMem, if_pos hp, if_pos (List.mem_filter.mpr ⟨hMem, hp⟩)]
      · rw [if_neg hMem, if_pos hp, if_neg fun hFilter => hMem (List.mem_of_mem_filter hFilter)]
        simp [hp]
    · rw [if_neg hp]
      split <;> simp [hp]
  rw [hPush, hPush, h]

namespace SameFiles
variable {options : Options} {L F G : Files}

/-- What is left over makes no pair, so the branches named are the same. -/
theorem ctrlDepBrs (h : SameFiles env options L F G) (hNoPair : L.MakesNoPair env) :
    env.ctrlDepBrs G.corruptedCallIns G.corruptedBr =
      env.ctrlDepBrs F.corruptedCallIns F.corruptedBr := by
  rw [← ctrlDepBrs_filter hNoPair (fun r hr => h.isCall r (.inr hr)) fun r hr => h.isBr r (.inr hr),
    ← ctrlDepBrs_filter hNoPair (fun r hr => h.isCall r (.inl hr)) fun r hr => h.isBr r (.inl hr),
    h.br, h.callIns]

/-- Step lemma for the entries. Only those of the sections that are printed have to agree. -/
theorem checkDangerousOp (h : SameFiles env options L F G)
    (hNoPair : options.ptrDerefCheck = true ∨ options.danFuncCheck = true → L.MakesNoPair env)
    (ctrlDep within : Bool) (i : Instruction) :
    SameFiles env options L (F.checkDangerousOp env ctrlDep within i)
      (G.checkDangerousOp env ctrlDep within i) := by
  unfold Files.checkDangerousOp Env.checkDangerousOp
  split
  · exact h
  · next loc hLoc =>
      split
      · simp only
        split
        · refine ⟨h.br, h.callIns, h.isBr, h.isCall, fun hCheck => ?_, h.interCtrlDepFunc⟩
          simp only [State.files, State.refile, h.ctrlDepBrs (hNoPair (.inl hCheck)),
            h.interCtrlDepPtr hCheck]
        · split
          · refine ⟨h.br, h.callIns, h.isBr, h.isCall, h.interCtrlDepPtr, fun hCheck => ?_⟩
            simp only [State.files, State.refile, h.ctrlDepBrs (hNoPair (.inr hCheck)),
              h.interCtrlDepFunc hCheck]
          · exact h
      · exact h

/-- Step lemma for the calls filed. A call that is left over is not filed again, and is filtered
out. -/
theorem enterCallee (h : SameFiles env options L F G) {r : InstRef} (hCall : env.HasOpcode .call r)
    (flag : Bool) : SameFiles env options L (F.enterCallee r flag) (G.enterCallee r flag) := by
  cases flag with
  | false => exact h
  | true =>
      refine ⟨h.br, filter_pushIfNew h.callIns, h.isBr, ?_, h.interCtrlDepPtr, h.interCtrlDepFunc⟩
      intro t ht
      simp only [Files.enterCallee, ↓reduceIte, mem_pushIfNew] at ht
      rcases ht with (rfl | ht) | rfl | ht
      · exact .inr hCall
      · exact h.isCall t (.inl ht)
      · exact .inr hCall
      · exact h.isCall t (.inr ht)

/-- Step lemma for the branches filed. -/
theorem visitOther (h : SameFiles env options L F G) {r : InstRef} {i : Instruction}
    (hInst : env.module.inst? r = some i) (s : State) :
    SameFiles env options L (F.visitOther r i s) (G.visitOther r i s) := by
  unfold Files.visitOther
  split
  · split
    · next hBr =>
        refine ⟨filter_pushIfNew h.br, h.callIns, ?_, h.isCall, h.interCtrlDepPtr,
          h.interCtrlDepFunc⟩
        intro t ht
        simp only [mem_pushIfNew] at ht
        rcases ht with (rfl | ht) | rfl | ht
        · exact .inr ⟨i, hInst, hBr⟩
        · exact h.isBr t (.inl ht)
        · exact .inr ⟨i, hInst, hBr⟩
        · exact h.isBr t (.inr ht)
    · exact h
  · exact h

end SameFiles

end LeftOver
end ConAnalysis
