import ConAnalysis.Dataflow.State
import ConAnalysis.Library.CallSweep

/-! `ConAnalysis::intraDataflowAnalysis`: the forward taint analysis over one
function, which recurses at calls. The control dependence graphs and the
labels of the other passes are inputs. -/
namespace ConAnalysis
open IR CallSweep

/-- A labelled operation: function name, file name and line. -/
abbrev FuncFileLine := String × String × Nat

/-- The results of the `DOL` pass. Of the two maps only the keys are read. -/
structure DOL where
  danPtrOps : List FuncFileLine := []
  danPtrOpsMap : Finset FileLine := ∅
  danFuncOps : List FuncFileLine := []
  danFuncOpsMap : Finset FileLine := ∅
  danFuncs : Finset String := ∅

/-- What one run of the pass is given. `influences` answers the query of the
control dependence graph of the function that both blocks belong to. With
`memoSkip` off, the test that jumps over a callee is taken out. -/
structure Env where
  module : Module
  labels : DOL := {}
  influences : BlockRef → BlockRef → Bool := fun _ _ => false
  memoSkip : Bool := true

/-- `std::map<uint32_t, Value *>`: the corrupted actual of each position. -/
abbrev CorruptedArgs := Nat → Option Value

/-- The parameters of one call of `intraDataflowAnalysis`. -/
structure Call where
  func : FuncRef
  ins : Option InstRef := none
  corruptedparams : CorruptedArgs := fun _ => none
  ctrlDep : Bool := false

/-- The local variables of one call of `intraDataflowAnalysis`. -/
structure Locals where
  rv : Bool := false
  ctrlDepWithinCurFunc : Bool := false
  localCorruptedBr : List InstRef := []
deriving DecidableEq

/-- The ways in which the analysis ends the process. -/
inductive Fault where
  | couldntFindCallstackInstruction
  | cannotParseGetElementPtrInst
deriving DecidableEq, Repr

namespace Env

def func (env : Env) (f : FuncRef) : Function := env.module.func f

/-- `CDGs->graphs` has an entry for every function that is no declaration. -/
def hasGraph (env : Env) (f : FuncRef) : Bool := !(env.func f).isDeclaration

/-- The search for the start instruction. It is entered into the corrupted
set unless it is a call, which has been handled before the frame was left. -/
def startAt (env : Env) (f : FuncRef) (ins : Option InstRef) (s : State) :
    Except Fault (Bool × List (InstRef × Instruction) × State) :=
  match ins with
  | none => .ok (false, env.module.instructions f, s)
  | some start =>
      match (env.module.instructions f).dropWhile fun item => item.1 ≠ start with
      | [] => .error .couldntFindCallstackInstruction
      | (r, i) :: items =>
          if i.opcode = .call then
            if items.isEmpty then .error .couldntFindCallstackInstruction else .ok (false, items, s)
          else if .instruction r ∈ s.corruptedIR then .ok (false, (r, i) :: items, s)
          else
            let s := s.add2CrptList (.instruction r)
            if i.opcode = .getElementPtr then
              match i.operands[0]?, gepIdx i with
              | some v, some idx => .ok (true, (r, i) :: items, s.recordGepIdx v idx)
              | _, _ => .error .cannotParseGetElementPtrInst
            else .ok (true, (r, i) :: items, s)

/-- One corrupted parameter: the formal argument takes over the corruption
and the index records of the actual one. -/
def bindArg (f : FuncRef) (k : Nat) (actual : Value) (s : State) : State :=
  let s := if actual ∈ s.corruptedIR then s.add2CrptList (.argument f k) else s
  s.copyGepIdx (.argument f k) actual

/-- The loop over the formal arguments. It answers `none` where the source
returns `true` at once because there is no instruction to analyse. -/
def handleParams (f : FuncRef) (corruptedparams : CorruptedArgs) (atEnd : Bool) :
    List Nat → State → Option State
  | [], s => some s
  | k :: ks, s =>
      match corruptedparams k with
      | none => handleParams f corruptedparams atEnd ks s
      | some actual =>
          if atEnd then none else handleParams f corruptedparams atEnd ks (bindArg f k actual s)

def start (env : Env) (call : Call) (s : State) :
    Except Fault (Entry (InstRef × Instruction) Locals State Bool) :=
  match env.startAt call.func call.ins s with
  | .error reason => .error reason
  | .ok (rv, items, s) =>
      match handleParams call.func call.corruptedparams items.isEmpty
          (List.range (env.func call.func).params) s with
      | none => .ok (.returned true s)
      | some s => .ok (.body items { rv := rv } s)

/-- Is the instruction control dependent on a branch that was corrupted
earlier in this sweep? -/
def influenced (env : Env) (f : FuncRef) (r : InstRef) (l : Locals) : Bool :=
  env.hasGraph f && l.localCorruptedBr.any fun br => env.influences br.parent r.parent

/-- The corrupted branches that influence a corrupted call, without
repetition, in the order of the two nested loops. -/
def ctrlDepBrs (env : Env) (corruptedCallIns corruptedBr : List InstRef) : List InstRef :=
  corruptedCallIns.foldl (fun found call =>
    corruptedBr.foldl (fun found br =>
      if call.func = br.func ∧ env.hasGraph call.func ∧ env.influences br.parent call.parent
      then State.pushIfNew br found else found) found) []

/-- The check for a dangerous operation under a control dependence that comes
from the callers alone. -/
def checkDangerousOp (env : Env) (ctrlDep within : Bool) (i : Instruction) (s : State) : State :=
  match i.dbg with
  | none => s
  | some loc =>
      if ctrlDep ∧ within = false then
        let ctrlDepBrs := env.ctrlDepBrs s.corruptedCallIns s.corruptedBr
        if loc.fileLine ∈ env.labels.danPtrOpsMap then
          { s with interCtrlDepPtr := s.interCtrlDepPtr.insert loc.fileLine ctrlDepBrs }
        else if loc.fileLine ∈ env.labels.danFuncOpsMap then
          { s with interCtrlDepFunc := s.interCtrlDepFunc.insert loc.fileLine ctrlDepBrs }
        else s
      else s

/-- The cycle check compares names. -/
def onCallStack (env : Env) (callee : FuncRef) (s : State) : Bool :=
  s.callStack.any fun layer => (env.func layer.1).name = (env.func callee).name

/-- Only operands that are instructions are looked up. -/
def corruptedOperand (s : State) (v : Value) : Bool :=
  v.isInstruction && (v ∈ s.corruptedIR || (s.corruptedPtr v).isSome)

def coparams (i : Instruction) (s : State) : CorruptedArgs :=
  fun k => i.operands[k]?.filter (corruptedOperand s)

def paramsCorrupted (i : Instruction) (s : State) : Bool := i.operands.any (corruptedOperand s)

/-- The look-up in `funcEnterExitValMap_`: is the callee jumped over, and the
state with the size at entry filed. -/
def checkMemo (env : Env) (callee : FuncRef) (s : State) : Bool × State :=
  match s.funcEnterExitValMap callee with
  | none => (false, s.setEnterVal callee s.corruptedIR.card)
  | some funcVal =>
      if funcVal.enterVal = funcVal.exitVal then
        if funcVal.enterVal < s.corruptedIR.card then
          (false, s.setEnterVal callee s.corruptedIR.card)
        else (env.memoSkip && funcVal.enterVal == s.corruptedIR.card, s)
      else (false, s)

/-- A call that is followed: the callee goes on the call stack, and the call
is filed when a control dependence is passed on. -/
def enterCallee (r : InstRef) (callee : FuncRef) (flag : Bool) (s : State) : State :=
  let s := s.pushFrame (callee, none)
  if flag then { s with corruptedCallIns := State.pushIfNew r s.corruptedCallIns } else s

def visitCall (env : Env) (call : Call) (r : InstRef) (i : Instruction) (l : Locals) (s : State) :
    Outcome Call Locals State :=
  match i.calledFunction with
  | none => .done l s
  | some callee =>
      if (env.func callee).isIntrinsic then .done l s
      else if env.onCallStack callee s then .done l s
      else if (env.func callee).isDeclaration && paramsCorrupted i s then
        .done l (s.add2CrptList (.instruction r))
      else
        match env.checkMemo callee s with
        | (true, s) => .done l s
        | (false, s') =>
            let flag := call.ctrlDep || l.ctrlDepWithinCurFunc
            .enter { func := callee, corruptedparams := coparams i s, ctrlDep := flag } l
              (enterCallee r callee flag s')

/-- A GEP is corrupted by an index record of its base, or by an operand; only
in the second case an index record is made for it. -/
def visitGetElementPtr (r : InstRef) (i : Instruction) (s : State) : Except Fault State :=
  let coPtrList := (i.operands[0]?.bind s.corruptedPtr).getD []
  let s := match gepIdx i with
    | some idx => if idx ∈ coPtrList then s.add2CrptList (.instruction r) else s
    | none => s
  if (∃ v ∈ i.operands, v ∈ s.corruptedIR) ∧ .instruction r ∉ s.corruptedIR then
    match i.operands[1]?, gepIdx i with
    | some key, some idx => .ok ((s.add2CrptList (.instruction r)).recordGepIdx key idx)
    | _, _ => .error .cannotParseGetElementPtrInst
  else .ok s

/-- Any other instruction is corrupted by an operand. A store passes the
corruption on to its pointer operand, a branch is remembered. -/
def visitOther (r : InstRef) (i : Instruction) (l : Locals) (s : State) : Locals × State :=
  if (∃ v ∈ i.operands, v ∈ s.corruptedIR) ∧ .instruction r ∉ s.corruptedIR then
    let s := s.add2CrptList (.instruction r)
    match i.opcode with
    | .store =>
        ({ l with rv := true }, match i.operands[1]? with
          | some pointer => s.add2CrptList pointer
          | none => s)
    | .br =>
        ({ l with rv := true, localCorruptedBr := l.localCorruptedBr ++ [r] },
          { s with corruptedBr := State.pushIfNew r s.corruptedBr })
    | _ => ({ l with rv := true }, s)
  else (l, s)

/-- One round of the forward taint analysis, up to the recursive call. -/
def visit (env : Env) (call : Call) (item : InstRef × Instruction) (l : Locals) (s : State) :
    Except Fault (Outcome Call Locals State) :=
  let l := { l with ctrlDepWithinCurFunc := env.influenced call.func item.1 l }
  let s := env.checkDangerousOp call.ctrlDep l.ctrlDepWithinCurFunc item.2 s
  match item.2.opcode with
  | .call => .ok (env.visitCall call item.1 item.2 l s)
  | .getElementPtr => (visitGetElementPtr item.1 item.2 s).map (.done l)
  | _ => let (l, s) := visitOther item.1 item.2 l s; .ok (.done l s)

/-- What the caller does after the recursive call has returned. -/
def leave (callee : Call) (item : InstRef × Instruction) (addFuncRet : Bool) (s : State) : State :=
  let s := if addFuncRet then s.add2CrptList (.instruction item.1) else s
  (s.setExitVal callee.func s.corruptedIR.card).popFrame

/-- The parts of `intraDataflowAnalysis` around its recursive call. -/
def analyzer (env : Env) : Analyzer Call (InstRef × Instruction) Locals State Bool Fault where
  start := env.start
  visit := env.visit
  leave := leave
  result := Locals.rv

/-- A moment of the analysis, seen from one active `intraDataflowAnalysis`. -/
abbrev Point := Analyzer.Point Call (InstRef × Instruction) Locals State

/-- `ConAnalysis::intraDataflowAnalysis`, with fuel for the recursion. -/
def intraDataflowAnalysis (env : Env) (fuel : Nat) (call : Call) (s : State) :
    Except (Stop Fault) (Bool × State) := env.analyzer.run fuel call s

end Env
end ConAnalysis
