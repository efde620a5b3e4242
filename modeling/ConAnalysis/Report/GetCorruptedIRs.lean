import ConAnalysis.Dataflow.Replay
import ConAnalysis.Dominators.GetDominators

/-! `ConAnalysis::getCorruptedIRs`: the loop over `callStackHead_` and what it
reports for each head. -/
namespace ConAnalysis
open IR CallSweep

/-- The command line switches `-ptrderef` and `-danfunc`. -/
structure Options where
  ptrDerefCheck : Bool := false
  danFuncCheck : Bool := false

/-- The two sections "Analysis Result": the number of static statements, the
cross-function entries, the operations found by `getDominators` and the total. -/
structure VulReport where
  statements : Nat
  interCtrlDep : Finmap fun _ : FileLine => List InstRef
  dominated : List DangerousOp
  vulNum : Nat
deriving DecidableEq

structure HeadReport where
  dataflow : List Value
  ptrDeref : Option VulReport
  danFunc : Option VulReport
deriving DecidableEq

/-- The members that are carried from one head to the next. -/
structure Session (M : Module) where
  state : State := {}
  dominatorMap : DominatorMap M := {}

/-- The ways in which the pass ends early: those of the dataflow analysis,
`front` of an empty list, and the assertion that there is a head. -/
inductive Abort where
  | stop (reason : Stop Fault)
  | frontOfEmptyList
  | callStackHeadIsEmpty
deriving DecidableEq

namespace Env
variable (env : Env) (options : Options)

/-- `printInterCtrlDepResult` and `getDominators`, and the sum of their answers. -/
def vulReport (statements : Nat) (resultMap : Finmap fun _ : FileLine => List InstRef)
    (danOps : List FuncFileLine) (s : State) (dominatorMap : DominatorMap env.module) :
    Option (VulReport × DominatorMap env.module) :=
  (getDominators (Inst2Int.createMaps env.module).2 s danOps { dominatorMap := dominatorMap }).map
    fun scan => ({ statements := statements
                   interCtrlDep := resultMap
                   dominated := scan.printed
                   vulNum := resultMap.keys.card + scan.rv }, scan.dominatorMap)

def section? (enabled : Bool)
    (report : DominatorMap env.module → Option (VulReport × DominatorMap env.module))
    (dominatorMap : DominatorMap env.module) :
    Option (Option VulReport × DominatorMap env.module) :=
  if enabled then (report dominatorMap).map fun (report, dominatorMap) => (some report, dominatorMap)
  else some (none, dominatorMap)

def headReport (s : State) (dominatorMap : DominatorMap env.module) :
    Option (HeadReport × DominatorMap env.module) :=
  (env.section? options.ptrDerefCheck (env.vulReport env.labels.danPtrOps.length s.interCtrlDepPtr
      env.labels.danPtrOps s) dominatorMap).bind fun (ptrDeref, dominatorMap) =>
    (env.section? options.danFuncCheck (env.vulReport env.labels.danFuncs.card s.interCtrlDepFunc
        env.labels.danFuncOps s) dominatorMap).map fun (danFunc, dominatorMap) =>
      ({ dataflow := s.orderedcorruptedIR, ptrDeref, danFunc }, dominatorMap)

/-- One round of the loop over `callStackHead_`. -/
def analyseHead (body : List Site) (head : Site) (session : Session env.module) :
    Except Abort (HeadReport × Session env.module) :=
  match env.replayHead body head session.state with
  | .error reason => .error (.stop reason)
  | .ok s =>
      match env.headReport options s session.dominatorMap with
      | none => .error .frontOfEmptyList
      | some (report, dominatorMap) => .ok (report, { state := s, dominatorMap := dominatorMap })

def analyseHeads (body : List Site) :
    List Site → Session env.module → List HeadReport × Except Abort (Session env.module)
  | [], session => ([], .ok session)
  | head :: heads, session =>
      match env.analyseHead options body head session with
      | .error abort => ([], .error abort)
      | .ok (report, session) =>
          let (reports, ending) := analyseHeads body heads session
          (report :: reports, ending)

def getCorruptedIRs (body callStackHead : List Site) :
    List HeadReport × Except Abort (Session env.module) :=
  if callStackHead.isEmpty then ([], .error .callStackHeadIsEmpty)
  else env.analyseHeads options body callStackHead {}

end Env
end ConAnalysis
