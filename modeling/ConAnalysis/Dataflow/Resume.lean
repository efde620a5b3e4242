import ConAnalysis.Dataflow.Termination
import ConAnalysis.IR.Layout
import Mathlib.Data.List.TakeWhile

/-! How the replay of the call stack continues with the caller of a function that
has been analysed. The caller is started at its call site by the code that also
starts the first layer at the racing instruction. -/
namespace ConAnalysis
open IR CallSweep Exceptions

namespace IR

/-- Behind an instruction that ends no block stands another one. -/
theorem exists_next_of_not_terminator {M : Module} {f : FuncRef} {r : InstRef} {i : Instruction}
    (h : (r, i) ∈ M.instructions f) (hPlain : i.opcode.isTerminator = false) :
    ∃ j, (⟨r.func, r.block, r.index + 1⟩, j) ∈ M.instructions f := by
  obtain ⟨hFunc, hInst⟩ := Module.mem_instructions.mp h
  obtain ⟨B, hBlock, hAt⟩ := Option.bind_eq_some_iff.mp hInst
  have hLt : r.index + 1 < B.insts.length := by
    have hIndex := (List.getElem?_eq_some_iff.mp hAt).1
    have hLength : B.insts.length = B.body.length + 1 := by simp [BasicBlock.insts]
    have hBody : r.index ≠ B.body.length := by
      intro hEnd
      have hLast : B.insts[r.index]? = some B.terminator := by simp [BasicBlock.insts, hEnd]
      rw [Option.some.inj (hAt.symm.trans hLast), B.terminator_ends] at hPlain
      cases hPlain
    omega
  refine ⟨B.insts[r.index + 1], Module.mem_instructions.mpr ⟨hFunc, ?_⟩⟩
  simp [Module.inst?, Function.instAt, hBlock, hLt]

/-- Behind an instruction that does not end its block something is left to sweep. -/
theorem suffix_ne_nil_of_not_terminator {M : Module} {f : FuncRef} {r : InstRef} {i : Instruction}
    {items : List (InstRef × Instruction)} (h : (r, i) :: items <:+ M.instructions f)
    (hPlain : i.opcode.isTerminator = false) : items ≠ [] := by
  obtain ⟨j, hNext⟩ := exists_next_of_not_terminator (h.subset List.mem_cons_self) hPlain
  exact List.ne_nil_of_mem (mem_suffix_of_layoutLt h hNext (.inr ⟨rfl, Nat.lt_succ_self _⟩))

/-- The search for an instruction finds it. -/
theorem exists_dropWhile_eq {M : Module} {f : FuncRef} {r : InstRef} {i : Instruction}
    (h : (r, i) ∈ M.instructions f) :
    ∃ items, (M.instructions f).dropWhile (fun item => item.1 ≠ r) = (r, i) :: items := by
  cases hDrop : (M.instructions f).dropWhile (fun item => item.1 ≠ r) with
  | nil =>
      rw [List.dropWhile_eq_nil_iff] at hDrop
      simpa using hDrop (r, i) h
  | cons item items =>
      obtain ⟨r', j⟩ := item
      have hHead := List.head?_dropWhile_not (fun item : InstRef × Instruction =>
        decide (item.1 ≠ r)) (M.instructions f)
      have hSuffix := List.dropWhile_suffix (fun item : InstRef × Instruction =>
        decide (item.1 ≠ r)) (l := M.instructions f)
      rw [hDrop] at hHead hSuffix
      obtain rfl : r' = r := by simpa using hHead
      have hInst := (Module.mem_instructions.mp (hSuffix.subset List.mem_cons_self)).2
      rw [(Module.mem_instructions.mp h).2] at hInst
      cases hInst
      exact ⟨items, rfl⟩

end IR

namespace Env
variable {env : Env}

/-- An element of `callStackBody_`: a call or an invoke of its function. -/
structure CallSite (env : Env) (site : Site) (i : Instruction) : Prop where
  mem : (site.2, i) ∈ env.module.instructions site.1
  isCall : i.opcode = .call ∨ i.opcode = .invoke

/-- The caller is started at its call site from the state `s` in which its callee has
been popped: the call site becomes corrupted only for the callee's return value, and
without that, nothing is added and the sweep begins behind the call site. -/
def ResumesForCause (env : Env) (site : Site) (i : Instruction) (addFuncRet : Bool) (s : State) :
    Prop :=
  ∃ rv items s', env.start (frameCall site.layer) (resumeCaller addFuncRet s) =
      .ok (.body items { rv := rv } s') ∧
    (.instruction site.2 ∈ s'.corruptedIR →
      .instruction site.2 ∈ s.corruptedIR ∨ addFuncRet = true) ∧
    (addFuncRet = false → s' = s ∧ (site.2, i) :: items <:+ env.module.instructions site.1)

/-- The stack of a replay is the layers that are left. -/
theorem ReplayReaches.callStack {layers rest : List FuncInst} {s₀ s : State}
    (hStack : s₀.callStack = layers) (h : env.ReplayReaches (layers, s₀) (rest, s)) :
    s.callStack = rest := by
  generalize hConfig : (rest, s) = config at h
  induction h generalizing rest s with
  | refl =>
      cases hConfig
      exact hStack
  | tail _ last ih =>
      cases last with
      | frame analysed =>
          cases hConfig
          have hPop := intraDataflowAnalysis_callStack analysed
          simp [hPop, ih rfl]

/-- The call of a frame has no parameters to bind, so it starts where its instruction says. -/
theorem start_frameCall {loc : FuncInst} {s s' : State} {rv : Bool}
    {items : List (InstRef × Instruction)} (h : env.startAt loc.1 loc.2 s = .ok (rv, items, s')) :
    env.start (frameCall loc) s = .ok (.body items { rv := rv } s') := by
  have hNoParams : ∀ k, (frameCall loc).corruptedparams k = none := by simp [frameCall]
  have hStart : env.startAt (frameCall loc).func (frameCall loc).ins s = .ok (rv, items, s') := h
  unfold start
  rw [hStart]
  simp only [handleParams_of_none hNoParams]

/-- A plain call is stepped over. -/
theorem start_at_call {site : Site} {i : Instruction}
    (hMem : (site.2, i) ∈ env.module.instructions site.1) (isCall : i.opcode = .call) (s : State) :
    ∃ items, (site.2, i) :: items <:+ env.module.instructions site.1 ∧
      env.start (frameCall site.layer) s = .ok (.body items {} s) := by
  obtain ⟨items, hDrop⟩ := exists_dropWhile_eq hMem
  have hSuffix : (site.2, i) :: items <:+ env.module.instructions site.1 := by
    rw [← hDrop]
    exact List.dropWhile_suffix _
  have hMore : items ≠ [] := suffix_ne_nil_of_not_terminator hSuffix (by rw [isCall]; rfl)
  refine ⟨items, hSuffix, start_frameCall ?_⟩
  simp only [Site.layer, startAt, hDrop]
  simp [isCall, hMore]

/-- An invoke is entered like the racing instruction, and the sweep begins at it. -/
theorem start_at_invoke {site : Site} {i : Instruction}
    (hMem : (site.2, i) ∈ env.module.instructions site.1) (isInvoke : i.opcode = .invoke)
    (s : State) : ∃ items, (site.2, i) :: items <:+ env.module.instructions site.1 ∧
      env.start (frameCall site.layer) s =
        .ok (.body ((site.2, i) :: items) { rv := decide (.instruction site.2 ∉ s.corruptedIR) }
          (s.add2CrptList (.instruction site.2))) := by
  obtain ⟨items, hDrop⟩ := exists_dropWhile_eq hMem
  refine ⟨items, by rw [← hDrop]; exact List.dropWhile_suffix _, start_frameCall ?_⟩
  simp only [Site.layer, startAt, hDrop]
  by_cases hKnown : .instruction site.2 ∈ s.corruptedIR
  · simp [isInvoke, hKnown, State.add2CrptList_of_mem]
  · simp [isInvoke, hKnown]

/-- Whatever the call stack, when a layer has been popped, the analysis of its caller
goes on for cause exactly if the call site is a plain call or the analysis of the
popped layer has returned `true`. -/
theorem resumes_for_cause_iff {body : List Site} {head site : Site} {loc : FuncInst}
    {below : List FuncInst} {s₀ s s' : State} {addFuncRet : Bool} {i : Instruction}
    (hReach : env.ReplayReaches ((head :: body).map Site.layer, beginHead body head s₀)
      (loc :: site.layer :: below, s))
    (analysed : env.analyseFrame loc s = .ok (addFuncRet, s')) (hSite : CallSite env site i) :
    ResumesForCause env site i addFuncRet s'.popFrame ↔ i.opcode = .call ∨ addFuncRet = true := by
  have hStack : s'.popFrame.callStack = site.layer :: below := by
    have hPop := intraDataflowAnalysis_callStack analysed
    have hBegin : (beginHead body head s₀).callStack = (head :: body).map Site.layer := rfl
    have hLayers := ReplayReaches.callStack hBegin hReach
    simp [hPop, hLayers]
  have hResume : resumeCaller true s'.popFrame =
      s'.popFrame.add2CrptList (.instruction site.2) := by
    simp only [resumeCaller, hStack]
    rfl
  rcases hSite.isCall with isCall | isInvoke
  · refine iff_of_true ?_ (.inl isCall)
    obtain ⟨items, hSuffix, hStart⟩ := start_at_call hSite.mem isCall
      (resumeCaller addFuncRet s'.popFrame)
    refine ⟨false, items, _, hStart, fun hMem => ?_, fun hFalse => ?_⟩
    · cases addFuncRet with
      | true => exact .inr rfl
      | false => exact .inl hMem
    · subst hFalse
      exact ⟨rfl, hSuffix⟩
  · have notCall : i.opcode ≠ .call := by simp [isInvoke]
    rw [or_iff_right notCall]
    obtain ⟨items, hSuffix, hStart⟩ := start_at_invoke hSite.mem isInvoke
      (resumeCaller addFuncRet s'.popFrame)
    constructor
    · rintro ⟨rv, items', s'', hStart', -, hBehind⟩
      cases addFuncRet with
      | true => rfl
      | false =>
          cases hStart.symm.trans hStart'
          have hSorted := ((env.module.func site.1).pairwise_instructions site.1).sublist
            (hBehind rfl).2.sublist
          exact (LayoutLt.irrefl _ (List.rel_of_pairwise_cons hSorted List.mem_cons_self)).elim
    · rintro rfl
      exact ⟨_, _, _, hStart, fun _ => .inr rfl, by simp⟩

/-- `main` invokes `middle`, which calls `leaf` and does nothing with its result. -/
def invokeModule : Module where
  functions := [
    { name := "main"
      blocks := [
        { body := []
          terminator := ⟨.invoke, [.function 1, .basicBlock ⟨0, 1⟩, .basicBlock ⟨0, 2⟩],
            some ⟨"d.cc", 3⟩⟩
          successors := [1, 2] },
        { body := []
          terminator := ⟨.ret, [], some ⟨"d.cc", 4⟩⟩
          successors := [] },
        { body := []
          terminator := ⟨.ret, [], some ⟨"d.cc", 5⟩⟩
          successors := [] }] },
    { name := "middle"
      blocks := [{
        body := [⟨.call, [.function 2], some ⟨"d.cc", 9⟩⟩]
        terminator := ⟨.ret, [], some ⟨"d.cc", 10⟩⟩
        successors := [] }] },
    { name := "leaf"
      blocks := [{
        body := [⟨.load, [.globalVariable 0], some ⟨"d.cc", 14⟩⟩]
        terminator := ⟨.ret, [.instruction ⟨2, 0, 0⟩], some ⟨"d.cc", 14⟩⟩
        successors := [] }] }]

def invokeEnv : Env where
  module := invokeModule

def invokeInst : Instruction :=
  ⟨.invoke, [.function 1, .basicBlock ⟨0, 1⟩, .basicBlock ⟨0, 2⟩], some ⟨"d.cc", 3⟩⟩

theorem callSite_invoke : CallSite invokeEnv (0, ⟨0, 0, 0⟩) invokeInst :=
  ⟨by decide, .inr rfl⟩

/-- The analysis of `middle` returns `false` to the invoke. -/
theorem invoke_run : ∃ s s',
    invokeEnv.ReplayReaches ([(2, ⟨2, 0, 0⟩), (1, ⟨1, 0, 0⟩), (0, ⟨0, 0, 0⟩)].map Site.layer,
        beginHead [(1, ⟨1, 0, 0⟩), (0, ⟨0, 0, 0⟩)] (2, ⟨2, 0, 0⟩) {})
        ([(1, ⟨1, 0, 0⟩), (0, ⟨0, 0, 0⟩)].map Site.layer, s) ∧
      invokeEnv.analyseFrame (1, some ⟨1, 0, 0⟩) s = .ok (false, s') ∧
      .instruction ⟨0, 0, 0⟩ ∉ s'.corruptedIR := by
  have hLeaf : ∃ answer, invokeEnv.analyseFrame (2, some ⟨2, 0, 0⟩)
      (beginHead [(1, ⟨1, 0, 0⟩), (0, ⟨0, 0, 0⟩)] (2, ⟨2, 0, 0⟩) {}) = .ok answer ∧
        ((invokeEnv.analyseFrame (1, some ⟨1, 0, 0⟩)
          (resumeCaller answer.1 answer.2.popFrame)).toOption.any fun answer =>
            answer.1 = false ∧ .instruction ⟨0, 0, 0⟩ ∉ answer.2.corruptedIR) = true :=
    exists_ok_of_eval (by decide)
  obtain ⟨⟨addFuncRet, t⟩, hLeaf, hMiddle⟩ := hLeaf
  obtain ⟨⟨rv, s'⟩, hMiddle, rfl, hNew⟩ := exists_ok_of_any hMiddle
  exact ⟨_, s', .single (.frame hLeaf), hMiddle, hNew⟩

theorem resumes_for_cause_iff_invoke : ∃ s',
    ResumesForCause invokeEnv (0, ⟨0, 0, 0⟩) invokeInst false s' ↔
      invokeInst.opcode = .call ∨ false = true := by
  obtain ⟨s, s', hReach, analysed, -⟩ := invoke_run
  exact ⟨s'.popFrame, resumes_for_cause_iff hReach analysed callSite_invoke⟩

/-- The invoke becomes corrupted although `middle` has returned `false`. -/
theorem invoke_corrupted_without_cause : ∃ s s',
    invokeEnv.ReplayReaches ([(2, ⟨2, 0, 0⟩), (1, ⟨1, 0, 0⟩), (0, ⟨0, 0, 0⟩)].map Site.layer,
        beginHead [(1, ⟨1, 0, 0⟩), (0, ⟨0, 0, 0⟩)] (2, ⟨2, 0, 0⟩) {})
        ([(1, ⟨1, 0, 0⟩), (0, ⟨0, 0, 0⟩)].map Site.layer, s) ∧
      invokeEnv.analyseFrame (1, some ⟨1, 0, 0⟩) s = .ok (false, s') ∧
      CallSite invokeEnv (0, ⟨0, 0, 0⟩) invokeInst ∧
      ¬ResumesForCause invokeEnv (0, ⟨0, 0, 0⟩) invokeInst false s'.popFrame := by
  obtain ⟨s, s', hReach, analysed, hNew⟩ := invoke_run
  refine ⟨s, s', hReach, analysed, callSite_invoke, ?_⟩
  rintro ⟨rv, items, s'', hStart, hCause, -⟩
  obtain ⟨items', -, hInvoke⟩ := start_at_invoke callSite_invoke.mem rfl
    (resumeCaller false s'.popFrame)
  cases hInvoke.symm.trans hStart
  rcases hCause (by simp) with hOld | hTrue
  · exact hNew hOld
  · cases hTrue

end Env
end ConAnalysis
