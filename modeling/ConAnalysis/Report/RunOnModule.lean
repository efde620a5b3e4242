import ConAnalysis.Dataflow.Faults
import ConAnalysis.Input.CallStackHead
import ConAnalysis.Input.ParseInput
import ConAnalysis.Input.SourceLines
import ConAnalysis.Labels.LineAgreement
import ConAnalysis.SyncLoop.Initialize

/-! `ConAnalysis::runOnModule`: from the files that are passed on the command line to the
reports for all heads, and the inputs for which the process ends before that. -/
namespace ConAnalysis
open IR

/-- What one run of the pass is given: the module, the answers of LLVM and of the control
dependence graphs, the order of `ins2int_`, the options, the two files, and what the variables
hold that are not initialised before a line of them is read. -/
structure Invocation where
  module : Module
  types : CallTypes := noTypes
  influences : BlockRef → BlockRef → Bool := fun _ _ => false
  ins2int : Inst2IntMap module
  options : Options := {}
  corruptVar : Nat := 0
  danFuncFile : Text
  danFuncBuffers : Nat → String := fun _ => ""
  raceReport : Text
  raceReportBuffers : Nat → FuncFileLine := fun _ => ("", "", 0)

/-- The ways in which the process ends early, by the function that ends it. -/
inductive PassAbort where
  | danFuncFile (fault : LineFault)
  | raceReport (fault : LineFault)
  | callStack (abort : InputAbort)
  | analysis (abort : Abort)

namespace Invocation

def env (p : Invocation) (danFuncs : Finset String) : Env where
  module := p.module
  labels := findDangerousOp p.module p.types danFuncs
  influences := p.influences

/-- `getFileLine2InstListMap`. -/
def sourcetoIRmap (p : Invocation) : LineMap p.module :=
  Inst2Int.lineMap p.module (Inst2Int.createMaps p.module).2

/-- `initializeCallStack` on the lines of the report. -/
def callStacks (p : Invocation) (csinput : List FuncFileLine) : Except InputAbort CallStacks :=
  initializeCallStack p.module p.sourcetoIRmap p.ins2int.entries p.corruptVar csinput

/-- `ConAnalysis::runOnModule`, behind the `DOL` pass that it requires: the reports, and how
the run ends. -/
def runOnModule (p : Invocation) : List HeadReport × Except PassAbort (Session p.module) :=
  match DOL.parseInput p.danFuncBuffers p.danFuncFile with
  | .error fault => ([], .error (.danFuncFile fault))
  | .ok danFuncs =>
      match parseInput p.raceReportBuffers p.raceReport with
      | .error fault => ([], .error (.raceReport fault))
      | .ok csinput =>
          match p.callStacks csinput with
          | .error abort => ([], .error (.callStack abort))
          | .ok st =>
              let (reports, ending) :=
                (p.env danFuncs).getCorruptedIRs p.options st.callStackBody st.callStackHead
              (reports, ending.mapError .analysis)

end Invocation

section Reports
variable {env : Env}

end Reports

namespace Invocation
variable (p : Invocation)

variable {p} {csinput : List FuncFileLine} {st : CallStacks}

def FirstFound (p : Invocation) (csinput : List FuncFileLine) : Prop :=
  ∀ line ∈ csinput.head?, p.module.instructionsAt line.2 ≠ []

theorem find_ne_some_nil (key : FileLine) : p.sourcetoIRmap.find key ≠ some [] := by
  rw [sourcetoIRmap, Inst2Int.find_lineMap]
  split
  · exact fun hEq => by cases hEq
  · next hNe => exact fun hEq => hNe (Option.some.inj hEq)

/-- The loop over the lines only ends the process at the first one. -/
theorem handleReport_cases (p : Invocation) (csinput : List FuncFileLine) :
    (p.FirstFound csinput ∧
      ∃ st, handleReport p.module p.sourcetoIRmap true csinput {} = .ok st ∧
        (st.callStackHead ≠ [] ↔
          ∃ line ∈ csinput.head?, SeedsHead p.module (p.module.instructionsAt line.2))) ∨
    (¬p.FirstFound csinput ∧ handleReport p.module p.sourcetoIRmap true csinput {} =
      .error .firstInstructionFailed) := by
  cases csinput with
  | nil => exact .inl ⟨by simp [FirstFound], {}, rfl, by simp⟩
  | cons line lines =>
      have hFind : p.sourcetoIRmap.find line.2 = if p.module.instructionsAt line.2 = [] then none
          else some (p.module.instructionsAt line.2) := Inst2Int.find_lineMap p.module line.2
      by_cases hNil : p.module.instructionsAt line.2 = []
      · rw [if_pos hNil] at hFind
        refine .inr ⟨fun hFound => hFound line rfl hNil, ?_⟩
        simp only [handleReport, hFind, if_true]
      · rw [if_neg hNil] at hFind
        obtain ⟨st, hLater⟩ : ∃ st, handleReport p.module p.sourcetoIRmap false lines
            (handleLine p.module true (p.module.instructionsAt line.2) {}) = .ok st :=
          exists_handleReport_later.mpr fun later _ => find_ne_some_nil later.2
        have hReport : handleReport p.module p.sourcetoIRmap true (line :: lines) {} = .ok st := by
          rw [← hLater]
          obtain ⟨item, items, hItems⟩ := List.exists_cons_of_ne_nil hNil
          rw [hItems] at hFind ⊢
          simp only [handleReport, hFind]
        refine .inl ⟨?_, st, hReport, ?_⟩
        · rintro _ ⟨⟩
          exact hNil
        · rw [handleReport_later hLater]
          refine head_firstLine_iff.trans ⟨fun hSeeds => ⟨line, rfl, hSeeds⟩, ?_⟩
          rintro ⟨_, ⟨⟩, hSeeds⟩
          exact hSeeds

end Invocation

/-- The ends that the files, the first line of the report and the lack of a head account
for. -/
def PassAbort.OfInput : PassAbort → Prop
  | .danFuncFile _ | .raceReport _ => True
  | .callStack abort => abort = .firstInstructionFailed
  | .analysis abort => abort = .callStackHeadIsEmpty

end ConAnalysis
