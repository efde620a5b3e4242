import ConAnalysis.Dataflow.Steps

/-! The loop of `ConAnalysis::getCorruptedIRs` that replays one call stack. -/
namespace ConAnalysis
open IR CallSweep

namespace Env

/-- Recursion of `intraDataflowAnalysis` never goes deeper than this. -/
def recursionFuel (env : Env) : Nat := env.module.functions.length + 2

/-- The call of `intraDataflowAnalysis` for one layer: no parameter is corrupted. -/
def frameCall (loc : FuncInst) : Call := { func := loc.1, ins := loc.2 }

def analyseFrame (env : Env) (loc : FuncInst) (s : State) : Except (Stop Fault) (Bool × State) :=
  env.intraDataflowAnalysis env.recursionFuel (frameCall loc) s

/-- After a layer has been popped: its call site, which the next layer
continues at, is corrupted when the analysis of the layer says so. -/
def resumeCaller (addFuncRet : Bool) (s : State) : State :=
  match addFuncRet, s.callStack with
  | true, (_, some callSite) :: _ => s.add2CrptList (.instruction callSite)
  | _, _ => s

/-- `while (!callStack_.empty())`, with fuel for the rounds. -/
def popLoop (env : Env) : Nat → State → Except (Stop Fault) State
  | 0, _ => .error .outOfFuel
  | rounds + 1, s =>
      match s.callStack with
      | [] => .ok s
      | loc :: _ =>
          match env.analyseFrame loc s with
          | .error stop => .error stop
          | .ok (addFuncRet, s) => popLoop env rounds (resumeCaller addFuncRet s.popFrame)

def replayFrames (env : Env) : List FuncInst → State → Except (Stop Fault) State
  | [], s => .ok s
  | loc :: below, s =>
      match env.analyseFrame loc s with
      | .error stop => .error stop
      | .ok (addFuncRet, s) => replayFrames env below (resumeCaller addFuncRet s.popFrame)

/-- An element of `callStackHead_` or `callStackBody_`. These lists never hold
a null instruction. -/
abbrev Site := FuncRef × InstRef

/-- Such an element as a layer of `callStack_`. -/
def Site.layer (site : Site) : FuncInst := (site.1, some site.2)

/-- What is set up anew for every element of `callStackHead_`. -/
def beginHead (body : List Site) (head : Site) (s : State) : State :=
  { s with
    callStack := (head :: body).map Site.layer
    orderedcorruptedIR := []
    corruptedIR := ∅
    corruptedPtr := fun _ => none
    funcEnterExitValMap := fun _ => none }

/-- The dataflow part of one round of `getCorruptedIRs`. -/
def replayHead (env : Env) (body : List Site) (head : Site) (s : State) :
    Except (Stop Fault) State := env.popLoop (body.length + 2) (beginHead body head s)

/-- One layer of the replay is worked off. The layers below it are left. -/
inductive ReplayStep (env : Env) : List FuncInst × State → List FuncInst × State → Prop where
  | frame {loc : FuncInst} {below : List FuncInst} {s s' : State} {addFuncRet : Bool}
      (analysed : env.analyseFrame loc s = .ok (addFuncRet, s')) :
      ReplayStep env (loc :: below, s) (below, resumeCaller addFuncRet s'.popFrame)

/-- The analysis of a layer always gets to its sweep. -/
theorem start_frameCall_ne_returned (env : Env) (loc : FuncInst) (s : State) (rv : Bool)
    (s' : State) : env.start (frameCall loc) s ≠ .ok (.returned rv s') := by
  intro started
  unfold start at started
  split at started
  · cases started
  · rw [handleParams_of_none (by simp [frameCall])] at started
    cases started

def ReplayReaches (env : Env) : List FuncInst × State → List FuncInst × State → Prop :=
  Relation.ReflTransGen env.ReplayStep

/-- The fold over the frames passes all their borders. -/
theorem replayReaches_of_replayFrames {env : Env} {layers : List FuncInst} {s s' : State}
    (h : env.replayFrames layers s = .ok s') : env.ReplayReaches (layers, s) ([], s') := by
  induction layers generalizing s with
  | nil =>
      cases h
      exact .refl
  | cons loc below ih =>
      unfold replayFrames at h
      split at h
      · cases h
      · next analysed => exact .head (.frame analysed) (ih h)

end Env
end ConAnalysis
