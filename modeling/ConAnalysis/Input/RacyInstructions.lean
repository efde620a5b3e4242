import ConAnalysis.Dataflow.Replay
import ConAnalysis.Labels.Inst2Int

/-! The filter that picks the racy instructions among those of a source line. Both passes
have it in their loops over the lines of a race report. -/
namespace ConAnalysis
open IR

/-- `getFileLine2InstListMap`: the instructions of each source line. -/
structure LineMap (M : Module) where
  find : FileLine → Option (List (InstRef × Instruction))
  valid : ∀ {key items}, find key = some items → ∀ item ∈ items, M.inst? item.1 = some item.2

/-- The map of the `Inst2Int` pass. -/
def Inst2Int.lineMap (M : Module) (maps : Inst2Int) : LineMap M where
  find key := (maps.sourcetoIRmap key).map fun refs =>
    refs.filterMap fun r => (M.inst? r).map fun i => (r, i)
  valid {key items} h item hItem := by
    obtain ⟨refs, -, rfl⟩ := Option.map_eq_some_iff.mp h
    obtain ⟨r, -, hInst⟩ := List.mem_filterMap.mp hItem
    obtain ⟨i, hi, rfl⟩ := Option.map_eq_some_iff.mp hInst
    exact hi

/-- `isa<GetElementPtrInst>`, `isa<BitCastInst>`. -/
def isaInst (M : Module) (op : Opcode) : Value → Bool
  | .instruction r => (M.inst? r).any fun i => i.opcode = op
  | _ => false

/-- `isa<GlobalVariable>`. -/
def isGlobalVariable : Value → Bool
  | .globalVariable _ => true
  | _ => false

def IR.Instruction.isCallSite (i : Instruction) : Bool := i.opcode = .call || i.opcode = .invoke

def callsIntrinsic (M : Module) (i : Instruction) : Bool :=
  i.calledFunction.any fun callee => (M.func callee).isIntrinsic

structure OperandFlags where
  flagAlreadyAddedVar : Bool
  hasGlobal : Bool
  isPointer : Bool
  isBitCast : Bool

def operandFlags (M : Module) (finishedVars : Finset Value) (i : Instruction) : OperandFlags where
  flagAlreadyAddedVar := i.operands.any (· ∈ finishedVars)
  hasGlobal := i.operands.any isGlobalVariable
  isPointer := i.operands.any (isaInst M .getElementPtr)
  isBitCast := i.operands.any (isaInst M .bitCast)

def OperandFlags.passesOver (flags : OperandFlags) (i : Instruction) : Bool :=
  flags.flagAlreadyAddedVar || (!flags.hasGlobal && i.opcode = .load) ||
    (!flags.isBitCast && !flags.isPointer && !(i.opcode = .load))

/-- What becomes of an instruction that is no call: it is added to the list, or the loop
goes on, with the instruction in `finishedVars_` or not, or the loop is left. -/
inductive Choice where
  | add
  | skip (finished : Bool)
  | stop
deriving DecidableEq

/-- `fallback` tells that the instruction is the last one, and no list has an element. -/
def pick (M : Module) (finishedVars : Finset Value) (fallback : Bool) (i : Instruction) :
    Choice :=
  let flags := operandFlags M finishedVars i
  if i.opcode = .getElementPtr then
    if flags.flagAlreadyAddedVar then .stop else .add
  else if !fallback && flags.passesOver i then .skip flags.flagAlreadyAddedVar
  else .add

/-- An instruction that is added as long as nothing is finished. -/
def Racy (M : Module) (fallback : Bool) (i : Instruction) : Prop :=
  i.opcode = .getElementPtr ∨ fallback = true ∨
    (i.opcode = .load ∧ ∃ v ∈ i.operands, isGlobalVariable v = true) ∨
    (i.opcode ≠ .load ∧ ∃ v ∈ i.operands,
      isaInst M .getElementPtr v = true ∨ isaInst M .bitCast v = true)

instance (M : Module) (fallback : Bool) (i : Instruction) : Decidable (Racy M fallback i) :=
  inferInstanceAs (Decidable (_ ∨ _))

/-- At the start of a line nothing has been added that an operand could repeat. -/
theorem flagAlreadyAddedVar_empty (M : Module) (i : Instruction) :
    (operandFlags M ∅ i).flagAlreadyAddedVar = false := by
  simp [operandFlags]

/-- What the first instruction has to be like: a load of a global, or another instruction with
an access or a cast as an operand. -/
theorem passesOver_empty (M : Module) (i : Instruction) :
    (operandFlags M ∅ i).passesOver i = false ↔
      (i.opcode = .load ∧ ∃ v ∈ i.operands, isGlobalVariable v = true) ∨
      (i.opcode ≠ .load ∧ ∃ v ∈ i.operands,
        isaInst M .getElementPtr v = true ∨ isaInst M .bitCast v = true) := by
  by_cases isLoad : i.opcode = .load
  · simp [OperandFlags.passesOver, operandFlags, isLoad]
  · have hFlags : (operandFlags M ∅ i).passesOver i = false ↔
        (operandFlags M ∅ i).isPointer = true ∨ (operandFlags M ∅ i).isBitCast = true := by
      simp only [OperandFlags.passesOver, flagAlreadyAddedVar_empty, isLoad]
      cases (operandFlags M ∅ i).isPointer <;> cases (operandFlags M ∅ i).isBitCast <;> simp
    rw [hFlags]
    simp [operandFlags, isLoad, and_or_left, exists_or]

/-- As long as nothing is finished, an instruction is added or passed over. -/
theorem pick_empty (M : Module) (fallback : Bool) (i : Instruction) :
    pick M ∅ fallback i = if Racy M fallback i then .add else .skip false := by
  unfold pick Racy
  simp only [flagAlreadyAddedVar_empty, ← passesOver_empty]
  by_cases isGep : i.opcode = .getElementPtr
  · simp [isGep]
  · cases fallback <;> cases (operandFlags M ∅ i).passesOver i <;> simp [isGep]

/-- An instruction with a finished operand is added by the fallback only. -/
theorem pick_add {M : Module} {finishedVars : Finset Value} {fallback : Bool} {i : Instruction}
    (h : pick M finishedVars fallback i = .add) :
    fallback = true ∨ ∀ v ∈ i.operands, v ∉ finishedVars := by
  have hAdded : (operandFlags M finishedVars i).flagAlreadyAddedVar = false →
      ∀ v ∈ i.operands, v ∉ finishedVars := by
    intro hFlag v hv hMem
    simp only [operandFlags, List.any_eq_false, decide_eq_true_eq] at hFlag
    exact hFlag v hv hMem
  unfold pick at h
  cases hFlag : (operandFlags M finishedVars i).flagAlreadyAddedVar with
  | false => exact .inr (hAdded hFlag)
  | true =>
      by_cases isGep : i.opcode = .getElementPtr
      · simp [isGep, hFlag] at h
      · exact .inl (by simpa [isGep, hFlag, OperandFlags.passesOver] using h)

/-- An instruction that is finished without being added has a finished operand. -/
theorem pick_skip_true {M : Module} {finishedVars : Finset Value} {fallback : Bool}
    {i : Instruction} (h : pick M finishedVars fallback i = .skip true) : finishedVars ≠ ∅ := by
  rintro rfl
  rw [pick_empty] at h
  split at h <;> cases h

end ConAnalysis
