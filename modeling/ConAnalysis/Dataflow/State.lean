import ConAnalysis.IR.Module
import Mathlib.Data.Finmap
import Mathlib.Data.Finset.Card
import Mathlib.Data.Finset.Insert

/-! The data members of the `ConAnalysis` pass that the dataflow analysis
reads and writes, with the elementary updates. Sets and maps keyed by pointers
are used through membership and lookup only. -/
namespace ConAnalysis
open IR

/-- The file name without its path, and the line number. -/
abbrev FileLine := String × Nat

/-- `fileName.substr(fileName.find_last_of("\\/") + 1)`. -/
def stripPath (fileName : String) : String :=
  String.ofList (fileName.toList.reverse.takeWhile fun c => c ≠ '\\' && c ≠ '/').reverse

def IR.DebugLoc.fileLine (loc : DebugLoc) : FileLine := (stripPath loc.fileName, loc.lineNum)

/-- `GepIdxStruct`: the index operands of a GEP with two or three operands. -/
inductive GepIdx where
  | twoOp (idx : Value)
  | threeOp (first second : Value)
deriving DecidableEq, Repr

/-- The index record made for a GEP; other operand counts cannot be parsed. -/
def gepIdx (i : Instruction) : Option GepIdx :=
  match i.operands with
  | [_, idx] => some (.twoOp idx)
  | [_, first, second] => some (.threeOp first second)
  | _ => none

/-- `EnterExitVal`: sizes of the corrupted set, stored in 32 bits. -/
structure EnterExitVal where
  enterVal : Nat
  exitVal : Nat
deriving DecidableEq, Repr

/-- What a `uint32_t` member keeps of a size. -/
def toUInt32 (n : Nat) : Nat := n % 2 ^ 32

/-- A call stack layer: a function and the instruction to continue at. -/
abbrev FuncInst := FuncRef × Option InstRef

structure State where
  corruptedIR : Finset Value := ∅
  orderedcorruptedIR : List Value := []
  corruptedPtr : Value → Option (List GepIdx) := fun _ => none
  funcEnterExitValMap : FuncRef → Option EnterExitVal := fun _ => none
  callStack : List FuncInst := []
  corruptedBr : List InstRef := []
  corruptedCallIns : List InstRef := []
  interCtrlDepPtr : Finmap fun _ : FileLine => List InstRef := ∅
  interCtrlDepFunc : Finmap fun _ : FileLine => List InstRef := ∅

namespace State

/-- `add2CrptList`. No caller reads the Boolean it returns. -/
def add2CrptList (v : Value) (s : State) : State :=
  if v ∈ s.corruptedIR then s
  else { s with
    corruptedIR := insert v s.corruptedIR
    orderedcorruptedIR := s.orderedcorruptedIR ++ [v] }

@[simp] theorem add2CrptList_corruptedIR (v : Value) (s : State) :
    (s.add2CrptList v).corruptedIR = insert v s.corruptedIR := by
  unfold add2CrptList
  split
  · next h => exact (Finset.insert_eq_self.mpr h).symm
  · rfl

/-- A new value goes to the end of the list. -/
theorem add2CrptList_orderedcorruptedIR {v : Value} {s : State} (h : v ∉ s.corruptedIR) :
    (s.add2CrptList v).orderedcorruptedIR = s.orderedcorruptedIR ++ [v] := by
  rw [add2CrptList, if_neg h]

/-- One that is corrupted already is not entered twice. -/
theorem add2CrptList_of_mem {v : Value} {s : State} (h : v ∈ s.corruptedIR) :
    s.add2CrptList v = s := if_pos h

@[simp] theorem add2CrptList_corruptedPtr (v : Value) (s : State) :
    (s.add2CrptList v).corruptedPtr = s.corruptedPtr := by
  unfold add2CrptList; split <;> rfl

@[simp] theorem add2CrptList_funcEnterExitValMap (v : Value) (s : State) :
    (s.add2CrptList v).funcEnterExitValMap = s.funcEnterExitValMap := by
  unfold add2CrptList; split <;> rfl

@[simp] theorem add2CrptList_callStack (v : Value) (s : State) :
    (s.add2CrptList v).callStack = s.callStack := by
  unfold add2CrptList; split <;> rfl

@[simp] theorem add2CrptList_corruptedBr (v : Value) (s : State) :
    (s.add2CrptList v).corruptedBr = s.corruptedBr := by
  unfold add2CrptList; split <;> rfl

@[simp] theorem add2CrptList_corruptedCallIns (v : Value) (s : State) :
    (s.add2CrptList v).corruptedCallIns = s.corruptedCallIns := by
  unfold add2CrptList; split <;> rfl

@[simp] theorem add2CrptList_interCtrlDepPtr (v : Value) (s : State) :
    (s.add2CrptList v).interCtrlDepPtr = s.interCtrlDepPtr := by
  unfold add2CrptList; split <;> rfl

@[simp] theorem add2CrptList_interCtrlDepFunc (v : Value) (s : State) :
    (s.add2CrptList v).interCtrlDepFunc = s.interCtrlDepFunc := by
  unfold add2CrptList; split <;> rfl

/-- `corruptedPtr_[key].push_back(idx)`. -/
@[simp] def recordGepIdx (key : Value) (idx : GepIdx) (s : State) : State :=
  { s with
    corruptedPtr := Function.update s.corruptedPtr key
      (some ((s.corruptedPtr key).getD [] ++ [idx])) }

/-- `corruptedPtr_[calleeArgs] = corruptedPtr_[callerArgs]`, where the caller's
argument is known to be a key. -/
def copyGepIdx (calleeArgs callerArgs : Value) (s : State) : State :=
  match s.corruptedPtr callerArgs with
  | some entries => { s with corruptedPtr := Function.update s.corruptedPtr calleeArgs (some entries) }
  | none => s

@[simp] theorem copyGepIdx_corruptedIR (calleeArgs callerArgs : Value) (s : State) :
    (s.copyGepIdx calleeArgs callerArgs).corruptedIR = s.corruptedIR := by
  unfold copyGepIdx; split <;> rfl

@[simp] theorem copyGepIdx_orderedcorruptedIR (calleeArgs callerArgs : Value) (s : State) :
    (s.copyGepIdx calleeArgs callerArgs).orderedcorruptedIR = s.orderedcorruptedIR := by
  unfold copyGepIdx; split <;> rfl

@[simp] theorem copyGepIdx_callStack (calleeArgs callerArgs : Value) (s : State) :
    (s.copyGepIdx calleeArgs callerArgs).callStack = s.callStack := by
  unfold copyGepIdx; split <;> rfl

/-- Copying entries that are there changes nothing, as when a call is analysed again. -/
theorem copyGepIdx_eq_self {calleeArgs callerArgs : Value} {s : State}
    (h : ∀ entries, s.corruptedPtr callerArgs = some entries →
      s.corruptedPtr calleeArgs = some entries) : s.copyGepIdx calleeArgs callerArgs = s := by
  unfold copyGepIdx
  split
  · next entries hEntries => rw [← h entries hEntries, Function.update_eq_self]
  · rfl

@[simp] theorem copyGepIdx_corruptedPtr (calleeArgs callerArgs : Value) (s : State) :
    (s.copyGepIdx calleeArgs callerArgs).corruptedPtr = Function.update s.corruptedPtr calleeArgs
      ((s.corruptedPtr callerArgs).or (s.corruptedPtr calleeArgs)) := by
  unfold copyGepIdx
  split
  · next h => simp [h]
  · next h => simp [h]

/-- `find` and then `push_back` when the instruction is not in the list yet. -/
def pushIfNew (r : InstRef) (list : List InstRef) : List InstRef :=
  if r ∈ list then list else list ++ [r]

@[simp] def setEnterVal (f : FuncRef) (size : Nat) (s : State) : State :=
  { s with
    funcEnterExitValMap := Function.update s.funcEnterExitValMap f
      (some { (s.funcEnterExitValMap f).getD ⟨0, 0⟩ with enterVal := toUInt32 size }) }

@[simp] def setExitVal (f : FuncRef) (size : Nat) (s : State) : State :=
  { s with
    funcEnterExitValMap := Function.update s.funcEnterExitValMap f
      (some { (s.funcEnterExitValMap f).getD ⟨0, 0⟩ with exitVal := toUInt32 size }) }

@[simp] def pushFrame (frame : FuncInst) (s : State) : State :=
  { s with callStack := frame :: s.callStack }

@[simp] def popFrame (s : State) : State := { s with callStack := s.callStack.tail }

end State
end ConAnalysis
