import ConAnalysis.Dataflow.Faults
import ConAnalysis.Input.ParseInput
import ConAnalysis.Input.SourceLines
import ConAnalysis.SyncLoop.AdhocSync
import ConAnalysis.SyncLoop.Override

/-! `SyncLoop::runOnModule`: from the race report to the messages, and the inputs for which
the process ends before that. -/
namespace ConAnalysis.SyncLoop
open IR BreakLoop CallSweep Exceptions
open ConAnalysis.Env (Site)

/-- What one run of the pass is given: the module, the control dependence graphs, the loops,
the order of `ins2int_`, the two options, the race report, and what the variables hold that are
not initialised before a line of it is read. -/
structure Invocation where
  module : Module
  graphs : FuncRef → Option ControlDependence.ControlDependenceGraphBase := fun _ => none
  loopInfo : LoopInfo module
  ins2int : Inst2IntMap module
  racingWrite : Nat := 0
  racingRead : Nat := 0
  raceReport : Text
  raceReportBuffers : Nat → FuncFileLine := fun _ => ("", "", 0)

/-- The ways in which the process ends early: those of the functions that are called, and
`readFuncInstList_.front()` of an empty list. -/
inductive PassAbort where
  | raceReport (fault : LineFault)
  | racingInsts (abort : InputAbort)
  | frontOfEmptyList
  | analysis (stop : Stop Fault)

namespace Invocation

def env (p : Invocation) : Env where
  module := p.module
  graphs := p.graphs

/-- `initialize` on the two lines. -/
def racingInsts (p : Invocation) (racingLines : RacingLines) : Except InputAbort RacingInsts :=
  initializeRacing p.module (Inst2Int.lineMap p.module (Inst2Int.createMaps p.module).2) p.ins2int
    p.racingWrite p.racingRead [racingLines.1, racingLines.2]

/-- `SyncLoop::runOnModule`: the messages, and what ends the process early. -/
def runOnModule (p : Invocation) : List Detected × Option PassAbort :=
  match SyncLoop.parseInput p.raceReportBuffers p.raceReport with
  | .error fault => ([], some (.raceReport fault))
  | .ok racingLines =>
      match p.racingInsts racingLines with
      | .error abort => ([], some (.racingInsts abort))
      | .ok st =>
          if hReads : st.readFuncInstList ≠ [] then
            let (messages, stop) := p.env.runOnModule p.loopInfo racingLines st.writeFuncInstList
              st.readFuncInstList hReads
            (messages, stop.map .analysis)
          else ([], some .frontOfEmptyList)

end Invocation

namespace Env
variable {env : Env}

/-- If all accesses of the module parse, no visit ends the process. -/
theorem analyzer_faultFree (hGeps : env.module.ParsesGeps) :
    env.analyzer.FaultFree (fun site => site.Inside env.module)
      fun site item => item ∈ env.module.instructions site.1 where
  start {site s reason} hInside hError := by
    have hStart : env.start site s = .error reason := hError
    obtain ⟨i, hMem⟩ := hInside
    unfold start at hStart
    split at hStart
    · next hNil =>
        rw [List.dropWhile_eq_nil_iff] at hNil
        simpa using hNil _ hMem
    · split at hStart <;> cases hStart
  visit {site item l s reason} hItem hError := by
    have hVisit : env.visit site item l s = .error reason := hError
    by_cases isGep : item.2.opcode = .getElementPtr
    · rw [visit_of_getElementPtr isGep] at hVisit
      have hInst : item ∈ env.module.allInstructions :=
        Module.mem_allInstructions.mpr (Module.mem_instructions.mp hItem).2
      cases hGep : ConAnalysis.Env.visitGetElementPtr item.1 item.2
          (env.checkInfluence site.1 item.1 l s) with
      | error reason' =>
          exact ConAnalysis.Env.visitGetElementPtr_ne_error (hGeps _ hInst isGep) hGep
      | ok t =>
          rw [hGep] at hVisit
          cases hVisit
    · rw [visit_of_other isGep] at hVisit
      cases hVisit
  enter _ hEnter := absurd hEnter visit_ne_enter

/-- The analysis from a read of the module gets to its end. -/
theorem exists_intraFlowAnalysis (hGeps : env.module.ParsesGeps) {site : Site}
    (h : site.Inside env.module) (s : State) :
    ∃ answer, env.intraFlowAnalysis site s = .ok answer :=
  (analyzer_faultFree hGeps).exists_run analyzer_supplies balanced h Nat.zero_lt_one

/-- So the analyses of all reads come to their end. -/
theorem analyseReads_ends (hGeps : env.module.ParsesGeps) (LI : LoopInfo env.module)
    (input : RacingLines) (iL : Loop) {reads : List Site}
    (hInside : ∀ site ∈ reads, site.Inside env.module) (s : State) :
    (env.analyseReads LI input iL reads s).2 = none := by
  induction reads generalizing s with
  | nil => rfl
  | cons site sites ih =>
      rw [List.forall_mem_cons] at hInside
      obtain ⟨⟨rv, t⟩, hRun⟩ := exists_intraFlowAnalysis hGeps hInside.1 s
      rw [analyseReads, hRun]
      exact ih hInside.2 (clearDataSets t)

theorem runOnModule_ends (hGeps : env.module.ParsesGeps) (LI : LoopInfo env.module)
    (input : RacingLines) (writes : List Site) {reads : List Site} (hReads : reads ≠ [])
    (hInside : ∀ site ∈ reads, site.Inside env.module) :
    (env.runOnModule LI input writes reads hReads).2 = none := by
  unfold runOnModule
  split
  · rfl
  · unfold adhocSyncAnalysis
    split
    · exact analyseReads_ends hGeps LI input _ hInside {}
    · rfl

end Env

section Read
variable {M : Module} {back : Option InstRef} {item : InstRef × Instruction}
variable {items : List (InstRef × Instruction)} {st : RacingInsts}

/-- An instruction is read by itself, or as the last one of its line if there is no write. -/
def Reads (M : Module) (back : Option InstRef) (noWrite : Bool) (item : InstRef × Instruction) :
    Prop :=
  item.2.isCallSite = false ∧ Racy M (some item.1 = back && noWrite) item.2

instance (M : Module) (back : Option InstRef) (noWrite : Bool) (item : InstRef × Instruction) :
    Decidable (Reads M back noWrite item) :=
  inferInstanceAs (Decidable (_ ∧ _))

/-- As long as nothing is taken, an instruction is taken by what it is alone. -/
theorem handleRead_unread (hRead : st.readFuncInstList = []) (hFinished : st.finishedVars = ∅) :
    handleRead M back st item =
      if Reads M back st.writeFuncInstList.isEmpty item then .next { st with
        readFuncInstList := st.readFuncInstList ++ [siteOf item.1]
        finishedVars := insert (.instruction item.1) st.finishedVars }
      else .next st := by
  unfold handleRead
  by_cases hCall : item.2.isCallSite = true
  · have hNot : ¬Reads M back st.writeFuncInstList.isEmpty item := by
      rintro ⟨hNoCall, -⟩
      rw [hCall] at hNoCall
      cases hNoCall
    rw [if_pos hCall, if_neg hNot]
  · rw [if_neg hCall]
    simp only [hRead, hFinished, pick_empty, List.isEmpty_nil, Bool.true_and]
    by_cases hRacy : Racy M (some item.1 = back && st.writeFuncInstList.isEmpty) item.2
    · have hReads : Reads M back st.writeFuncInstList.isEmpty item :=
        ⟨Bool.eq_false_iff.mpr hCall, hRacy⟩
      rw [if_pos hReads, if_pos hRacy]
    · have hNot : ¬Reads M back st.writeFuncInstList.isEmpty item := fun hReads => hRacy hReads.2
      rw [if_neg hRacy, if_neg hNot]

theorem read_loop_unread_iff (hRead : st.readFuncInstList = []) (hFinished : st.finishedVars = ∅) :
    (loop (handleRead M back) items st).readFuncInstList ≠ [] ↔
      ∃ item ∈ items, Reads M back st.writeFuncInstList.isEmpty item := by
  induction items with
  | nil => simp [loop, hRead]
  | cons item items ih =>
      rw [List.exists_mem_cons_iff, loop, handleRead_unread hRead hFinished]
      by_cases hReads : Reads M back st.writeFuncInstList.isEmpty item
      · rw [if_pos hReads]
        exact iff_of_true (read_loop_ne_nil (by simp)) (.inl hReads)
      · rw [if_neg hReads, or_iff_right hReads]
        exact ih

theorem inside_read_loop (hItems : ∀ item ∈ items, M.inst? item.1 = some item.2)
    (h : ∀ site ∈ st.readFuncInstList, site.Inside M) :
    ∀ site ∈ (loop (handleRead M back) items st).readFuncInstList, site.Inside M := by
  refine loop_invariant (I := fun st : RacingInsts =>
    ∀ site ∈ st.readFuncInstList, site.Inside M) h ?_ ?_
  · intro item hItem st st' hst hRound
    unfold handleRead at hRound
    split at hRound
    · cases hRound
      exact hst
    · split at hRound <;> cases hRound
      · intro site hSite
        rcases List.mem_append.mp hSite with hOld | hNew
        · exact hst site hOld
        · rw [List.mem_singleton.mp hNew]
          exact inside_siteOf (hItems item hItem)
      · exact hst
      · exact hst
  · intro item _ st st' hst hRound
    unfold handleRead at hRound
    split at hRound
    · cases hRound
    · split at hRound <;> cases hRound
      exact hst

end Read

/-- Without an entry for a number nothing is overwritten. -/
theorem overwriteLists_of_none {entries : List (InstRef × Nat)} {write read : Nat}
    (h : entries.find? (fun entry => entry.2 = write ∨ entry.2 = read) = none) (st : RacingInsts) :
    overwriteLists write read entries st = st := by
  induction entries with
  | nil => rfl
  | cons entry entries ih =>
      obtain ⟨r, n⟩ := entry
      rw [List.find?_cons] at h
      split at h
      · cases h
      · next hNot =>
          rw [decide_eq_false_iff_not, not_or] at hNot
          rw [overwriteLists, if_neg hNot.1, if_neg hNot.2, ih h]

namespace Invocation
variable (p : Invocation)

/-- The manual input ends with the read, or an instruction of the read line is read. -/
def HasRead (racingLines : RacingLines) : Prop :=
  (∃ entry, p.ins2int.entries.find? (fun entry => entry.2 = p.racingWrite ∨
      entry.2 = p.racingRead) = some entry ∧ entry.2 ≠ p.racingWrite) ∨
  ∃ item ∈ p.module.instructionsAt racingLines.2.2,
    Reads p.module (backOf (p.module.instructionsAt racingLines.2.2))
      (p.module.instructionsAt racingLines.1.2).isEmpty item

variable {p}

/-- The lists that the report alone gives. -/
theorem handleReport_cases (p : Invocation) (racingLines : RacingLines) :
    (p.module.instructionsAt racingLines.2.2 ≠ [] ∧ ∃ st,
      handleReport p.module (Inst2Int.lineMap p.module (Inst2Int.createMaps p.module).2) true
        [racingLines.1, racingLines.2] {} = .ok st ∧
      (∀ site ∈ st.readFuncInstList, site.Inside p.module) ∧
      (st.readFuncInstList ≠ [] ↔ ∃ item ∈ p.module.instructionsAt racingLines.2.2,
        Reads p.module (backOf (p.module.instructionsAt racingLines.2.2))
          (p.module.instructionsAt racingLines.1.2).isEmpty item)) ∨
    (p.module.instructionsAt racingLines.2.2 = [] ∧
      handleReport p.module (Inst2Int.lineMap p.module (Inst2Int.createMaps p.module).2) true
        [racingLines.1, racingLines.2] {} = .error .readInstructionMissing) := by
  -- What the line of the write leaves behind: all its instructions, and nothing else.
  obtain ⟨st₁, hWrite, hEmpty, hRead, hFinished⟩ : ∃ st₁ : RacingInsts,
      handleReport p.module (Inst2Int.lineMap p.module (Inst2Int.createMaps p.module).2) true
          [racingLines.1, racingLines.2] {} =
        handleReport p.module (Inst2Int.lineMap p.module (Inst2Int.createMaps p.module).2) false
          [racingLines.2] st₁ ∧
      st₁.writeFuncInstList.isEmpty = (p.module.instructionsAt racingLines.1.2).isEmpty ∧
      st₁.readFuncInstList = [] ∧ st₁.finishedVars = ∅ := by
    rw [handleReport, Inst2Int.find_lineMap]
    cases p.module.instructionsAt racingLines.1.2 with
    | nil => exact ⟨{}, rfl, rfl, rfl, rfl⟩
    | cons item items => exact ⟨_, rfl, rfl, rfl, rfl⟩
  rw [hWrite, handleReport, Inst2Int.find_lineMap]
  cases hItems : p.module.instructionsAt racingLines.2.2 with
  | nil => exact .inr ⟨rfl, rfl⟩
  | cons item items =>
      refine .inl ⟨List.cons_ne_nil _ _, _, rfl, ?_, ?_⟩
      · refine inside_read_loop ?_ (by simp [hRead])
        rw [← hItems]
        exact fun item hItem => Module.mem_allInstructions.mp (List.mem_of_mem_filter hItem)
      · rw [← hEmpty]
        exact read_loop_unread_iff hRead hFinished

/-- The lines of the report either lead to instructions inside the module, or the assertion on
the read fails. -/
theorem racingInsts_cases (p : Invocation) (racingLines : RacingLines) :
    (p.module.instructionsAt racingLines.2.2 ≠ [] ∧ ∃ st, p.racingInsts racingLines = .ok st ∧
      (∀ site ∈ st.readFuncInstList, site.Inside p.module) ∧
      (st.readFuncInstList ≠ [] ↔ p.HasRead racingLines)) ∨
    (p.module.instructionsAt racingLines.2.2 = [] ∧
      p.racingInsts racingLines = .error .readInstructionMissing) := by
  unfold racingInsts initializeRacing
  rcases p.handleReport_cases racingLines with
    ⟨hFound, st, hReport, hInside, hRead⟩ | ⟨hNil, hReport⟩
  · refine .inl ⟨hFound, _, by rw [hReport]; rfl, ?_⟩
    unfold HasRead
    rw [← hRead]
    cases hFind : p.ins2int.entries.find?
        (fun entry => entry.2 = p.racingWrite ∨ entry.2 = p.racingRead) with
    | none =>
        rw [overwriteLists_of_none hFind]
        exact ⟨hInside, by simp⟩
    | some entry =>
        obtain ⟨r, n⟩ := entry
        rw [overwriteLists_of_find? hFind]
        by_cases hNumber : n = p.racingWrite
        · rw [if_pos hNumber]
          exact ⟨hInside, by simp [hNumber]⟩
        · rw [if_neg hNumber]
          refine ⟨?_, by simp [hNumber]⟩
          obtain ⟨i, hInst⟩ := Inst2Int.inst?_of_ins2int
            ((p.ins2int.mem_iff r n).mp (List.mem_of_find?_eq_some hFind))
          intro site hSite
          rw [List.mem_singleton.mp hSite]
          exact @inside_siteOf p.module (r, i) hInst
  · exact .inr ⟨hNil, by rw [hReport]; rfl⟩

end Invocation

/-- The ends that the report, its second line and the lack of a read account for. -/
def PassAbort.OfInput : PassAbort → Prop
  | .raceReport _ | .frontOfEmptyList => True
  | .racingInsts abort => abort = .readInstructionMissing
  | .analysis _ => False

namespace Invocation
variable {p : Invocation} {racingLines : RacingLines}

/-- With a read the pass gets to its end, and what it prints is that of the loop of the first
read. Else it ends early, and prints nothing. -/
theorem runOnModule_cases (hGeps : p.module.ParsesGeps)
    (hReport : SyncLoop.parseInput p.raceReportBuffers p.raceReport = .ok racingLines) :
    (p.module.instructionsAt racingLines.2.2 ≠ [] ∧ p.HasRead racingLines ∧
      ∃ st, ∃ hReads : st.readFuncInstList ≠ [], p.racingInsts racingLines = .ok st ∧
        (∀ site ∈ st.readFuncInstList, site.Inside p.module) ∧
        p.runOnModule = ((p.env.runOnModule p.loopInfo racingLines st.writeFuncInstList
          st.readFuncInstList hReads).1, none)) ∨
    (¬(p.module.instructionsAt racingLines.2.2 ≠ [] ∧ p.HasRead racingLines) ∧
      p.runOnModule.1 = [] ∧ (∃ abort, p.runOnModule.2 = some abort ∧ abort.OfInput) ∧
      ∀ st, p.racingInsts racingLines = .ok st → st.readFuncInstList = []) := by
  unfold runOnModule
  rw [hReport]
  rcases p.racingInsts_cases racingLines with
    ⟨hFound, st, hInsts, hInside, hRead⟩ | ⟨hNil, hInsts⟩
  · simp only [hInsts]
    by_cases hReads : st.readFuncInstList ≠ []
    · have hEnds : (p.env.runOnModule p.loopInfo racingLines st.writeFuncInstList
          st.readFuncInstList hReads).2 = none :=
        Env.runOnModule_ends hGeps _ _ _ hReads hInside
      refine .inl ⟨hFound, hRead.mp hReads, st, hReads, rfl, hInside, ?_⟩
      rw [dif_pos hReads]
      exact Prod.ext rfl (congrArg (Option.map PassAbort.analysis) hEnds)
    · rw [dif_neg hReads]
      refine .inr ⟨fun h => hReads (hRead.mpr h.2), rfl, ⟨_, rfl, trivial⟩, ?_⟩
      rintro _ ⟨⟩
      exact not_not.mp hReads
  · refine .inr ⟨fun h => h.1 hNil, ?_, ⟨.racingInsts .readInstructionMissing, ?_, rfl⟩, ?_⟩
    · simp only [hInsts]
    · simp only [hInsts]
    · intro st hSt
      cases hInsts.symm.trans hSt

end Invocation

/-- `spin` waits in its loop for what `set` stores. -/
def spinRun : Invocation where
  module := Env.spinModule
  graphs := Env.spinEnv.graphs
  loopInfo := Env.spinLoopInfo
  ins2int := .inOrder Env.spinModule
  raceReport := "set (spin.c:18)\nspin (spin.c:13)\n".toList

end ConAnalysis.SyncLoop
