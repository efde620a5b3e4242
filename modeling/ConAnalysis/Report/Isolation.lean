import ConAnalysis.Report.Files
import ConAnalysis.Dataflow.Growth
import ConAnalysis.Dataflow.Termination
import ConAnalysis.Library.CallSimulation

/-! How far the report for one head depends on the heads before it. -/
namespace ConAnalysis
open IR CallSweep Exceptions

/-- One of the sections that look at the files is made. -/
abbrev Reported (options : Options) : Prop :=
  options.ptrDerefCheck = true ∨ options.danFuncCheck = true

/-- States that differ in what is left over in their files only. -/
def Alike (env : Env) (options : Options) (L : Files) (s t : State) : Prop :=
  ∃ (core : State) (F G : Files), s = core.refile F ∧ t = core.refile G ∧ SameFiles env options L F G

namespace Alike
variable {env : Env} {options : Options} {L : Files} {s t : State}

/-- Alike states stand at the same place of the replay. -/
theorem callStack (h : Alike env options L s t) : t.callStack = s.callStack := by
  obtain ⟨core, F, G, rfl, rfl, -⟩ := h
  rfl

/-- Every operation takes alike states to alike states. It is done on the common core, and the
files follow. -/
theorem add2CrptList (h : Alike env options L s t) (v : Value) :
    Alike env options L (s.add2CrptList v) (t.add2CrptList v) := by
  obtain ⟨core, F, G, rfl, rfl, hFiles⟩ := h
  rw [State.add2CrptList_refile, State.add2CrptList_refile]
  exact ⟨_, F, G, rfl, rfl, hFiles⟩

theorem popFrame (h : Alike env options L s t) : Alike env options L s.popFrame t.popFrame := by
  obtain ⟨core, F, G, rfl, rfl, hFiles⟩ := h
  exact ⟨core.popFrame, F, G, rfl, rfl, hFiles⟩

/-- Coming back from a callee decides by the core alone. -/
theorem leave (h : Alike env options L s t) (callee : Call) (item : InstRef × Instruction)
    (addFuncRet : Bool) :
    Alike env options L (Env.leave callee item addFuncRet s) (Env.leave callee item addFuncRet t) := by
  have hAdded : Alike env options L (if addFuncRet then s.add2CrptList (.instruction item.1) else s)
      (if addFuncRet then t.add2CrptList (.instruction item.1) else t) := by
    split
    · exact h.add2CrptList _
    · exact h
  unfold Env.leave
  obtain ⟨core, F, G, hS, hT, hFiles⟩ := hAdded
  rw [hS, hT]
  exact ⟨(core.setExitVal callee.func core.corruptedIR.card).popFrame, F, G, rfl, rfl, hFiles⟩

theorem resumeCaller (h : Alike env options L s t) (addFuncRet : Bool) :
    Alike env options L (Env.resumeCaller addFuncRet s) (Env.resumeCaller addFuncRet t) := by
  unfold Env.resumeCaller
  rw [h.callStack]
  split
  · exact h.add2CrptList _
  · exact h

/-- A call starts with the same items, or fails in the same way. -/
theorem start (h : Alike env options L s t) (call : Call) :
    Analyzer.SameEntry (Alike env options L) (env.start call s) (env.start call t) := by
  obtain ⟨core, F, G, rfl, rfl, hFiles⟩ := h
  unfold Env.start
  rw [Env.startAt_refile, Env.startAt_refile]
  cases env.startAt call.func call.ins core with
  | error reason => exact .error reason
  | ok entry =>
      obtain ⟨rv, items, s⟩ := entry
      simp only [Except.map, Env.handleParams_refile]
      cases Env.handleParams call.func call.corruptedparams items.isEmpty
          (List.range (env.func call.func).params) s with
      | none => exact .returned ⟨s, F, G, rfl, rfl, hFiles⟩
      | some s => exact .body ⟨s, F, G, rfl, rfl, hFiles⟩

/-- The one place where what is left over could matter, since entries name branches that were
filed. -/
theorem checkedState (h : Alike env options L s t) (hNoPair : Reported options → L.MakesNoPair env) (call : Call)
    (item : InstRef × Instruction) (l : Locals) :
    Alike env options L (env.checkedState call item l s) (env.checkedState call item l t) := by
  obtain ⟨core, F, G, rfl, rfl, hFiles⟩ := h
  unfold Env.checkedState
  rw [Env.checkDangerousOp_refile, Env.checkDangerousOp_refile]
  exact ⟨core, _, _, rfl, rfl, hFiles.checkDangerousOp hNoPair _ _ _⟩

/-- One instruction, by the operation that it asks for. -/
theorem visit (h : Alike env options L s t) (hNoPair : Reported options → L.MakesNoPair env) {call : Call}
    {item : InstRef × Instruction} {l : Locals} (hInst : env.module.inst? item.1 = some item.2)
    (Inert : Call → State → State → Prop) :
    Analyzer.SameVisit (Alike env options L) Inert (env.visit call item l s) (env.visit call item l t) := by
  obtain ⟨core, F, G, hS, hT, hFiles⟩ := h.checkedState hNoPair call item l
  by_cases isCall : item.2.opcode = .call
  · rw [Env.visit_of_call isCall, Env.visit_of_call isCall, hS, hT, Env.visitCall_refile,
      Env.visitCall_refile]
    cases env.visitCall call item.1 item.2 (env.checkedLocals call item l) core with
    | done l s => exact .done ⟨s, F, G, rfl, rfl, hFiles⟩
    | enter callee l s =>
        exact .enter ⟨s, _, _, rfl, rfl, hFiles.enterCallee ⟨item.2, hInst, isCall⟩ _⟩
  · by_cases isGep : item.2.opcode = .getElementPtr
    · rw [Env.visit_of_getElementPtr isGep, Env.visit_of_getElementPtr isGep, hS, hT,
        Env.visitGetElementPtr_refile, Env.visitGetElementPtr_refile]
      cases Env.visitGetElementPtr item.1 item.2 core with
      | error reason => exact .error reason
      | ok s => exact .done ⟨s, F, G, rfl, rfl, hFiles⟩
    · rw [Env.visit_of_other isCall isGep, Env.visit_of_other isCall isGep, hS, hT,
        Env.visitOther_refile, Env.visitOther_refile]
      exact .done ⟨_, _, _, rfl, rfl, hFiles.visitOther hInst core⟩

end Alike

namespace Env
variable {env : Env} {options : Options} {L : Files}

def NextIsReal (env : Env) (p : Point) : Prop :=
  ∀ item ∈ p.items, env.module.inst? item.1 = some item.2

/-- The instructions that are visited are those of the module. -/
theorem nextIsReal_of_visits {call : Call} {s : State} {p : Point}
    (h : env.analyzer.Visits call s p) : env.NextIsReal p :=
  fun item hItem => (Module.mem_instructions.mp (h.good analyzer_supplies item hItem)).2

theorem simulates_alike (hNoPair : Reported options → L.MakesNoPair env) :
    env.analyzer.Simulates env.analyzer env.NextIsReal State.callStack
      (fun stack => (env.enterable stack).card) (Alike env options L) where
  start h := h.start _
  visit hReal h := h.visit hNoPair (hReal _ List.mem_cons_self) _
  leave h := h.leave ..
  result _ := rfl

theorem analyseFrame_alike (hNoPair : Reported options → L.MakesNoPair env) {s t : State} (h : Alike env options L s t)
    (loc : FuncInst) :
    Analyzer.SameAnswer (Alike env options L) (env.analyseFrame loc s) (env.analyseFrame loc t) :=
  (simulates_alike hNoPair).run analyzer_balanced h
    (enterable_card_lt_recursionFuel env t.callStack) fun _ hVisits => nextIsReal_of_visits hVisits

/-- Both replays end the process in the same way, or in states alike. -/
inductive SameEnd (R : State → State → Prop) :
    Except (Stop Fault) State → Except (Stop Fault) State → Prop where
  | error (stop : Stop Fault) : SameEnd R (.error stop) (.error stop)
  | ok {s t : State} (related : R s t) : SameEnd R (.ok s) (.ok t)

/-- The loop over the frames ends in alike states, or with the same fault. -/
theorem popLoop_alike (hNoPair : Reported options → L.MakesNoPair env) {rounds : Nat} {s t : State}
    (h : Alike env options L s t) : SameEnd (Alike env options L) (env.popLoop rounds s) (env.popLoop rounds t) := by
  induction rounds generalizing s t with
  | zero => exact .error _
  | succ rounds ih =>
      unfold popLoop
      rw [h.callStack]
      cases s.callStack with
      | nil => exact .ok h
      | cons loc below =>
          have hFrame := analyseFrame_alike hNoPair h loc
          simp only
          generalize env.analyseFrame loc s = first at hFrame
          generalize env.analyseFrame loc t = second at hFrame
          cases hFrame with
          | error stop => exact .error stop
          | ok related => exact ih (related.popFrame.resumeCaller _)

theorem filter_not_mem_self {α : Type} [DecidableEq α] (list : List α) :
    list.filter (· ∉ list) = [] := by
  rw [List.filter_eq_nil_iff]
  exact fun a ha hNot => of_decide_eq_true hNot ha

/-- A new head starts alike to a fresh session, if the entries of the printed sections are gone. -/
theorem beginHead_alike {t : State} (hPtr : options.ptrDerefCheck = true → t.interCtrlDepPtr = ∅)
    (hFunc : options.danFuncCheck = true → t.interCtrlDepFunc = ∅) (body : List Site) (head : Site) :
    Alike env options t.files (beginHead body head {}) (beginHead body head t) := by
  refine ⟨beginHead body head {}, {}, t.files, rfl, rfl, ?_, ?_, ?_, ?_, hPtr, hFunc⟩
  · exact filter_not_mem_self t.corruptedBr
  · exact filter_not_mem_self t.corruptedCallIns
  · exact fun r hr => .inl (hr.resolve_left List.not_mem_nil)
  · exact fun r hr => .inl (hr.resolve_left List.not_mem_nil)

structure SameFindings (options : Options) (s t : State) : Prop where
  corruptedIR : t.corruptedIR = s.corruptedIR
  orderedcorruptedIR : t.orderedcorruptedIR = s.orderedcorruptedIR
  interCtrlDepPtr : options.ptrDerefCheck = true → t.interCtrlDepPtr = s.interCtrlDepPtr
  interCtrlDepFunc : options.danFuncCheck = true → t.interCtrlDepFunc = s.interCtrlDepFunc

/-- What the report is made from is the same. -/
theorem sameFindings_of_alike {s t : State} (h : Alike env options L s t) :
    SameFindings options s t := by
  obtain ⟨core, F, G, rfl, rfl, hFiles⟩ := h
  exact ⟨rfl, rfl, hFiles.interCtrlDepPtr, hFiles.interCtrlDepFunc⟩

/-- Scans that have found the same; what they have cached does not matter. -/
def SameScan {M : Module} (scan scan' : DominatorScan M) : Prop :=
  scan'.rv = scan.rv ∧ scan'.printed = scan.printed

/-- The look at one operation reads the corruption only. The maps of dominators that are kept
from head to head make no difference. -/
theorem examineOp_sameScan {M : Module} (maps : Inst2Int) {s t : State}
    (hSet : t.corruptedIR = s.corruptedIR) (hList : t.orderedcorruptedIR = s.orderedcorruptedIR)
    {scan scan' : DominatorScan M} (hScan : SameScan scan scan') (op : FuncFileLine) :
    Option.Rel SameScan (examineOp maps s op scan) (examineOp maps t op scan') := by
  have hFuncSet : corruptedIRFuncSet t = corruptedIRFuncSet s := by
    unfold corruptedIRFuncSet
    rw [hSet]
  have hFlag : ∀ subset, corruptBranchFlag t subset = corruptBranchFlag s subset := by
    intro subset
    unfold corruptBranchFlag isCorruptedBranch
    rw [hSet]
  have hPath : ∀ subset, getFeasiblePath t subset = getFeasiblePath s subset := by
    intro subset
    unfold getFeasiblePath
    rw [hList]
  unfold examineOp
  simp only [DominatorMap.dominators_fst, hFuncSet, hFlag, hPath]
  split
  · exact .none
  · split
    · exact .some hScan
    · split
      · split
        · split
          · exact .some hScan
          · exact .some ⟨by rw [hScan.1], by rw [hScan.2]⟩
        · exact .some hScan
      · exact .some hScan

theorem getDominators_sameScan {M : Module} (maps : Inst2Int) {s t : State}
    (hSet : t.corruptedIR = s.corruptedIR) (hList : t.orderedcorruptedIR = s.orderedcorruptedIR)
    {scan scan' : DominatorScan M} (hScan : SameScan scan scan') (danOps : List FuncFileLine) :
    Option.Rel SameScan (getDominators maps s danOps scan) (getDominators maps t danOps scan') := by
  induction danOps generalizing scan scan' with
  | nil => exact .some hScan
  | cons op danOps ih =>
      have hOne := examineOp_sameScan maps hSet hList hScan op
      unfold getDominators
      generalize examineOp maps s op scan = first at hOne
      generalize examineOp maps t op scan' = second at hOne
      cases hOne with
      | none => exact .none
      | some hNext => exact ih hNext

/-- A section depends on the entries and on the corruption only. -/
theorem vulReport_fst {s t : State} (hSet : t.corruptedIR = s.corruptedIR)
    (hList : t.orderedcorruptedIR = s.orderedcorruptedIR) (statements : Nat)
    (resultMap : Finmap fun _ : FileLine => List InstRef) (danOps : List FuncFileLine)
    (dominatorMap dominatorMap' : DominatorMap env.module) :
    (env.vulReport statements resultMap danOps t dominatorMap').map Prod.fst =
      (env.vulReport statements resultMap danOps s dominatorMap).map Prod.fst := by
  have hSame : SameScan { dominatorMap := dominatorMap : DominatorScan env.module }
      { dominatorMap := dominatorMap' } := ⟨rfl, rfl⟩
  have hScan := getDominators_sameScan (Inst2Int.createMaps env.module).2 hSet hList hSame danOps
  unfold vulReport
  generalize getDominators (Inst2Int.createMaps env.module).2 s danOps
    { dominatorMap := dominatorMap } = first at hScan
  generalize getDominators (Inst2Int.createMaps env.module).2 t danOps
    { dominatorMap := dominatorMap' } = second at hScan
  cases hScan with
  | none => rfl
  | some hSame => simp [hSame.1, hSame.2]

/-- A section that is switched off is not printed, whatever its report would be. -/
theorem section?_fst {enabled : Bool}
    {report report' : DominatorMap env.module → Option (VulReport × DominatorMap env.module)}
    (h : enabled = true → ∀ map map', (report' map').map Prod.fst = (report map).map Prod.fst)
    (map map' : DominatorMap env.module) :
    (env.section? enabled report' map').map Prod.fst =
      (env.section? enabled report map).map Prod.fst := by
  unfold section?
  split
  · next hEnabled =>
      have hSame := congrArg (Option.map some) (h hEnabled map map')
      simpa [Option.map_map, Function.comp_def] using hSame
  · rfl

/-- Reports are put together without a look at the maps handed on. -/
theorem bind_fst {α β γ δ : Type} {x y : Option (α × β)} (h : y.map Prod.fst = x.map Prod.fst)
    {f g : α × β → Option (γ × δ)}
    (hBind : ∀ a b b', (g (a, b')).map Prod.fst = (f (a, b)).map Prod.fst) :
    (y.bind g).map Prod.fst = (x.bind f).map Prod.fst := by
  rcases x with - | ⟨a, b⟩ <;> rcases y with - | ⟨a', b'⟩
  · rfl
  · cases h
  · cases h
  · obtain rfl : a' = a := by simpa using h
    exact hBind a' b b'

/-- The report of a head with everything that it is made from. -/
theorem headReport_fst {s t : State} (h : SameFindings options s t)
    (map map' : DominatorMap env.module) :
    (env.headReport options t map').map Prod.fst = (env.headReport options s map).map Prod.fst := by
  unfold headReport
  refine bind_fst (section?_fst ?_ map map') fun ptrDeref map map' => ?_
  · intro hCheck map map'
    rw [h.interCtrlDepPtr hCheck]
    exact vulReport_fst h.corruptedIR h.orderedcorruptedIR _ _ _ map map'
  · have hSection : (env.section? options.danFuncCheck (env.vulReport env.labels.danFuncs.card
          t.interCtrlDepFunc env.labels.danFuncOps t) map').map Prod.fst =
        (env.section? options.danFuncCheck (env.vulReport env.labels.danFuncs.card
          s.interCtrlDepFunc env.labels.danFuncOps s) map).map Prod.fst := by
      refine section?_fst (fun hCheck map map' => ?_) map map'
      rw [h.interCtrlDepFunc hCheck]
      exact vulReport_fst h.corruptedIR h.orderedcorruptedIR _ _ _ map map'
    have hReport := congrArg (Option.map fun danFunc =>
      ({ dataflow := s.orderedcorruptedIR, ptrDeref, danFunc } : HeadReport)) hSection
    simpa [Option.map_map, Function.comp_def, h.orderedcorruptedIR] using hReport

/-- Nothing that an earlier head has left in the four containers can show in a
report: there are no entries, and the calls and branches make no pair. -/
structure LeavesNothing (env : Env) (options : Options) (s : State) : Prop where
  interCtrlDepPtr : options.ptrDerefCheck = true → s.interCtrlDepPtr = ∅
  interCtrlDepFunc : options.danFuncCheck = true → s.interCtrlDepFunc = ∅
  noPair : Reported options → s.files.MakesNoPair env

/-- So a head that finds nothing left over is reported as if it were the first one. -/
theorem analyseHead_fst {session : Session env.module}
    (h : LeavesNothing env options session.state) (body : List Site) (head : Site) :
    (env.analyseHead options body head session).map Prod.fst =
      (env.analyseHead options body head {}).map Prod.fst := by
  have hBegin : Alike env options session.state.files (beginHead body head {})
      (beginHead body head session.state) :=
    beginHead_alike h.interCtrlDepPtr h.interCtrlDepFunc body head
  have hReplay : SameEnd (Alike env options session.state.files)
      (env.replayHead body head {}) (env.replayHead body head session.state) :=
    popLoop_alike h.noPair hBegin
  unfold analyseHead
  generalize env.replayHead body head {} = first at hReplay
  generalize env.replayHead body head session.state = second at hReplay
  cases hReplay with
  | error stop => rfl
  | @ok s t hAlike =>
      have hReport : (env.headReport options t session.dominatorMap).map Prod.fst =
          (env.headReport options s {}).map Prod.fst :=
        headReport_fst (sameFindings_of_alike hAlike) {} session.dominatorMap
      simp only
      generalize env.headReport options s {} = first at hReport
      generalize env.headReport options t session.dominatorMap = second at hReport
      rcases first with - | ⟨report, map⟩ <;> rcases second with - | ⟨report', map'⟩
      · rfl
      · cases hReport
      · cases hReport
      · obtain rfl : report' = report := by simpa using hReport
        rfl

/-- What the loop reports for the head at a place: its report, or the reason why
the process ends there. -/
def reportAt {β : Type} (run : List HeadReport × Except Abort β) (n : Nat) :
    Option (Except Abort HeadReport) :=
  match run.1[n]? with
  | some report => some (.ok report)
  | none => match run.2 with
    | .error abort => some (.error abort)
    | .ok _ => none

/-- The heads before a given one make their reports, and those behind it start from the session
that they leave. -/
theorem analyseHeads_append {body before : List Site} {session session' : Session env.module}
    (after : List Site) (h : (env.analyseHeads options body before session).2 = .ok session') :
    env.analyseHeads options body (before ++ after) session =
      ((env.analyseHeads options body before session).1 ++
          (env.analyseHeads options body after session').1,
        (env.analyseHeads options body after session').2) ∧
      (env.analyseHeads options body before session).1.length = before.length := by
  induction before generalizing session with
  | nil =>
      cases h
      exact ⟨rfl, rfl⟩
  | cons head before ih =>
      rw [analyseHeads] at h
      rw [List.cons_append, analyseHeads, analyseHeads]
      cases hHead : env.analyseHead options body head session with
      | error abort =>
          rw [hHead] at h
          cases h
      | ok answer =>
          obtain ⟨report, next⟩ := answer
          rw [hHead] at h
          obtain ⟨hRun, hLength⟩ := ih h
          simp only [hRun, List.cons_append, List.length_cons, hLength, and_self]

/-- The report for a head begins with the analysis of that head. -/
theorem reportAt_analyseHeads_cons {body after : List Site} {head : Site}
    {session : Session env.module} :
    reportAt (env.analyseHeads options body (head :: after) session) 0 =
      some ((env.analyseHead options body head session).map Prod.fst) := by
  rw [analyseHeads]
  cases env.analyseHead options body head session with
  | error abort => rfl
  | ok answer => rfl

/-- A head is reported as if it were the only one, if the heads before it have
left nothing that can show. -/
theorem getCorruptedIRs_isolated {body before : List Site} (after : List Site) {head : Site}
    {session : Session env.module}
    (hBefore : (env.analyseHeads options body before {}).2 = .ok session)
    (hClear : LeavesNothing env options session.state) :
    reportAt (env.getCorruptedIRs options body (before ++ head :: after)) before.length =
      reportAt (env.getCorruptedIRs options body [head]) 0 := by
  have hAlone : env.getCorruptedIRs options body [head] =
      env.analyseHeads options body [head] {} := rfl
  have hAll : env.getCorruptedIRs options body (before ++ head :: after) =
      env.analyseHeads options body (before ++ head :: after) {} :=
    if_neg (by simp)
  obtain ⟨hRun, hLength⟩ := analyseHeads_append (head :: after) hBefore
  have hShift : reportAt (env.analyseHeads options body (before ++ head :: after) {})
      before.length = reportAt (env.analyseHeads options body (head :: after) session) 0 := by
    unfold reportAt
    rw [hRun, ← hLength, List.getElem?_append_right (Nat.le_refl _), Nat.sub_self]
  rw [hAll, hShift, hAlone, reportAt_analyseHeads_cons, reportAt_analyseHeads_cons,
    analyseHead_fst hClear]

/-- `main` calls `g` under a corrupted branch, and `g` has a GEP. The function
`other` has nothing to do with them. -/
def twoHeadsModule : Module where
  functions := [
    { name := "main"
      blocks := [
        { body := [⟨.load, [.globalVariable 0], none⟩]
          terminator := ⟨.br, [.instruction ⟨0, 0, 0⟩, .basicBlock ⟨0, 1⟩, .basicBlock ⟨0, 2⟩], none⟩
          successors := [1, 2] },
        { body := [⟨.call, [.function 1], none⟩]
          terminator := ⟨.br, [.basicBlock ⟨0, 2⟩], none⟩
          successors := [2] },
        { body := []
          terminator := ⟨.ret, [], none⟩
          successors := [] }] },
    { name := "g"
      blocks := [{
        body := [⟨.getElementPtr, [.globalVariable 1, .constant 0], some ⟨"a.c", 9⟩⟩]
        terminator := ⟨.ret, [], none⟩
        successors := [] }] },
    { name := "other"
      blocks := [{
        body := [⟨.load, [.globalVariable 2], none⟩]
        terminator := ⟨.ret, [], none⟩
        successors := [] }] }]

def twoHeadsEnv : Env where
  module := twoHeadsModule
  labels := findDangerousOp twoHeadsModule noTypes ∅
  influences A B := A = ⟨0, 0⟩ ∧ B = ⟨0, 1⟩

/-- After `other` the four containers are empty. -/
theorem getCorruptedIRs_isolated_after_other :
    ∃ session, (twoHeadsEnv.analyseHeads { ptrDerefCheck := true } [] [(2, ⟨2, 0, 0⟩)] {}).2 =
        .ok session ∧
      reportAt (twoHeadsEnv.getCorruptedIRs { ptrDerefCheck := true } []
          [(2, ⟨2, 0, 0⟩), (0, ⟨0, 0, 0⟩)]) 1 =
        reportAt (twoHeadsEnv.getCorruptedIRs { ptrDerefCheck := true } [] [(0, ⟨0, 0, 0⟩)]) 0 := by
  have hEval : ∃ session,
      (twoHeadsEnv.analyseHeads { ptrDerefCheck := true } [] [(2, ⟨2, 0, 0⟩)] {}).2 = .ok session ∧
        session.state.interCtrlDepPtr = ∅ ∧ session.state.corruptedBr = [] ∧
          session.state.corruptedCallIns = [] := exists_ok_of_eval (by decide)
  obtain ⟨session, hBefore, hPtr, hBr, hCall⟩ := hEval
  refine ⟨session, hBefore, getCorruptedIRs_isolated [] hBefore ⟨fun _ => hPtr, nofun, ?_⟩⟩
  intro _ call br _ _ hLeft
  simp [State.files, hBr, hCall] at hLeft

/-- The entry that was made for the first head is reported and counted for the
second one again. -/
theorem second_head_reports_first :
    reportAt (twoHeadsEnv.getCorruptedIRs { ptrDerefCheck := true } []
        [(0, ⟨0, 0, 0⟩), (2, ⟨2, 0, 0⟩)]) 1 ≠
      reportAt (twoHeadsEnv.getCorruptedIRs { ptrDerefCheck := true } [] [(2, ⟨2, 0, 0⟩)]) 0 := by
  have hSecond : (twoHeadsEnv.getCorruptedIRs { ptrDerefCheck := true } []
      [(0, ⟨0, 0, 0⟩), (2, ⟨2, 0, 0⟩)]).1[1]?.map (·.ptrDeref.map (·.vulNum)) =
        some (some 1) := by decide
  have hAlone : (twoHeadsEnv.getCorruptedIRs { ptrDerefCheck := true } []
      [(2, ⟨2, 0, 0⟩)]).1[0]?.map (·.ptrDeref.map (·.vulNum)) = some (some 0) := by decide
  obtain ⟨report, hReport, hNum⟩ := Option.map_eq_some_iff.mp hSecond
  obtain ⟨report', hReport', hNum'⟩ := Option.map_eq_some_iff.mp hAlone
  intro hSame
  simp only [reportAt, hReport, hReport', Option.some.injEq, Except.ok.injEq] at hSame
  rw [hSame, hNum'] at hNum
  cases hNum

end Env
end ConAnalysis
