import ConAnalysis.Dominators.GetDominators

/-! The labels of `DOL` and the lines of `Inst2Int` agree, so that `getDominators` always
finds a first instruction. -/
namespace ConAnalysis
open IR

/-- The map of each kind has the locations of its list. -/
def DOL.KeysMatch (labels : DOL) : Prop :=
  ∀ kind key, key ∈ labels.opsMap kind ↔ ∃ func, (func, key) ∈ labels.ops kind

/-- An operation and the key that it is looked up by are entered together. -/
theorem DOL.KeysMatch.label {labels : DOL} (h : labels.KeysMatch) (kind : OpKind)
    (opEntry : FuncFileLine) : (labels.label kind opEntry).KeysMatch := by
  intro kind' key
  unfold DOL.label
  split
  · exact h kind' key
  · obtain ⟨func, line⟩ := opEntry
    have hOld := h kind' key
    cases kind <;> cases kind' <;>
      simp_all [ops, opsMap, exists_or]

structure Located (M : Module) (op : FuncFileLine) (r : InstRef) (i : Instruction) : Prop where
  inst : M.inst? r = some i
  func : (M.func r.func).name = op.1
  line : i.fileLine = some op.2

/-- A direct call of a dangerous function that is not one of LLVM's, or an indirect call that
such a function fits and may be aliased by. -/
def CallsDangerous (M : Module) (types : CallTypes) (danFuncs : Finset String) (r : InstRef)
    (i : Instruction) : Prop :=
  (i.opcode = .call ∨ i.opcode = .invoke) ∧
    match i.calledFunction with
    | some calleeFn =>
        isLLVMName (M.func calleeFn).name = false ∧ (M.func calleeFn).name ∈ danFuncs
    | none => ∃ fn < M.functions.length, isLLVMName (M.func fn).name = false ∧
        types.compareIndirectCall r fn = true ∧
        (∃ calleeVal, i.calledValue = some calleeVal ∧ types.mayAlias calleeVal fn = true) ∧
        (M.func fn).name ∈ danFuncs

structure LabelsAgree (M : Module) (types : CallTypes) (danFuncs : Finset String)
    (labels : DOL) (maps : Inst2Int) : Prop where
  nodup : ∀ kind, (labels.ops kind).Nodup
  ptr : ∀ op, op ∈ labels.danPtrOps ↔
    ∃ r i, Located M op r i ∧ i.opcode = .getElementPtr
  func : ∀ op, op ∈ labels.danFuncOps ↔
    ∃ r i, Located M op r i ∧ CallsDangerous M types danFuncs r i
  keys : labels.KeysMatch
  front : ∀ kind, ∀ op ∈ labels.ops kind, maps.lines op.2 ≠ []
  listed : ∀ kind, ∀ op ∈ labels.ops kind, ∀ r i, Located M op r i → r ∈ maps.lines op.2
  defined : ∀ s kind (scan : DominatorScan M),
    (getDominators maps s (labels.ops kind) scan).isSome = true

section Kinds
variable {M : Module} {types : CallTypes} {danFuncs : Finset String} {r : InstRef} {i : Instruction}

theorem mem_allFuncs {fn : FuncRef} : fn ∈ allFuncs M ↔
    fn < M.functions.length ∧ isLLVMName (M.func fn).name = false := by
  simp [allFuncs]

/-- A call is labelled for one of the names it may stand for. -/
theorem dangerousCall_iff : skipsCall M i = false ∧ fnNames M types (r, i) ∩ danFuncs ≠ ∅ ↔
    match i.calledFunction with
    | some calleeFn =>
        isLLVMName (M.func calleeFn).name = false ∧ (M.func calleeFn).name ∈ danFuncs
    | none => ∃ fn < M.functions.length, isLLVMName (M.func fn).name = false ∧
        types.compareIndirectCall r fn = true ∧
        (∃ calleeVal, i.calledValue = some calleeVal ∧ types.mayAlias calleeVal fn = true) ∧
        (M.func fn).name ∈ danFuncs := by
  rw [← Finset.nonempty_iff_ne_empty]
  unfold skipsCall fnNames
  cases i.calledFunction with
  | some calleeFn =>
      rw [Finset.singleton_inter]
      by_cases hMem : (M.func calleeFn).name ∈ danFuncs <;> simp [hMem]
  | none =>
      simp only [Option.any_none, true_and, Finset.Nonempty, Finset.mem_inter, List.mem_toFinset,
        List.mem_map, List.mem_filter, mem_allFuncs, Bool.and_eq_true, Option.any_eq_true]
      constructor
      · rintro ⟨-, ⟨fn, ⟨⟨hLt, hName⟩, hType, hAlias⟩, rfl⟩, hMem⟩
        exact ⟨fn, hLt, hName, hType, hAlias, hMem⟩
      · rintro ⟨fn, hLt, hName, hType, hAlias, hMem⟩
        exact ⟨_, ⟨fn, ⟨⟨hLt, hName⟩, hType, hAlias⟩, rfl⟩, hMem⟩

/-- Every access to a field counts as a dangerous use of a pointer. -/
theorem dangerousKind_eq_ptr :
    dangerousKind M types danFuncs (r, i) = some .ptr ↔ i.opcode = .getElementPtr := by
  unfold dangerousKind
  cases i.opcode <;> simp

/-- A call counts if the name of the callee is on the list. -/
theorem dangerousKind_eq_func :
    dangerousKind M types danFuncs (r, i) = some .func ↔ CallsDangerous M types danFuncs r i := by
  rw [CallsDangerous, ← dangerousCall_iff]
  unfold dangerousKind
  cases i.opcode <;> simp

/-- The label of an operation and the kind of its instruction say the same. -/
theorem labelledAs_iff {kind : OpKind} {op : FuncFileLine} :
    (∃ item ∈ M.allInstructions, LabelledAs M types danFuncs kind op item) ↔
      ∃ r i, Located M op r i ∧ dangerousKind M types danFuncs (r, i) = some kind := by
  constructor
  · rintro ⟨⟨r, i⟩, hItem, hKind, hFunc, hLine⟩
    exact ⟨r, i, ⟨Module.mem_allInstructions.mp hItem, hFunc, hLine⟩, hKind⟩
  · rintro ⟨r, i, hLocated, hKind⟩
    exact ⟨(r, i), Module.mem_allInstructions.mpr hLocated.inst, hKind, hLocated.func,
      hLocated.line⟩

end Kinds

section Agreement
variable {M : Module} {types : CallTypes}

theorem keysMatch_labelInst {labels : DOL} (h : labels.KeysMatch) (item : InstRef × Instruction) :
    (labelInst M types labels item).KeysMatch := by
  unfold labelInst
  split
  · exact h.label _ _
  · exact h

/-- An operation whose line has instructions is examined, whatever is corrupted. -/
theorem examineOp_isSome {maps : Inst2Int} {op : FuncFileLine} (h : maps.lines op.2 ≠ [])
    (s : State) (scan : DominatorScan M) : (examineOp maps s op scan).isSome = true := by
  obtain ⟨danOpI, rest, hFront⟩ := List.exists_cons_of_ne_nil h
  unfold examineOp
  rw [hFront]
  dsimp only
  repeat' split
  all_goals rfl

/-- `front` is never called on an empty list, since operations are labelled on lines that have
instructions. -/
theorem getDominators_isSome {maps : Inst2Int} {danOps : List FuncFileLine}
    (h : ∀ op ∈ danOps, maps.lines op.2 ≠ []) (s : State) (scan : DominatorScan M) :
    (getDominators maps s danOps scan).isSome = true := by
  induction danOps generalizing scan with
  | nil => rfl
  | cons op danOps ih =>
      rw [List.forall_mem_cons] at h
      obtain ⟨scan', hScan⟩ := Option.isSome_iff_exists.mp (examineOp_isSome h.1 s scan)
      rw [getDominators, hScan, Option.bind_some]
      exact ih h.2 scan'

variable (M types)

/-- For every module and every set of dangerous functions. -/
theorem labelsAgree (danFuncs : Finset String) : LabelsAgree M types danFuncs
    (findDangerousOp M types danFuncs) (Inst2Int.createMaps M).2 := by
  constructor
  case nodup => exact nodup_findDangerousOp danFuncs
  case ptr =>
    intro op
    rw [show (findDangerousOp M types danFuncs).danPtrOps =
      (findDangerousOp M types danFuncs).ops .ptr from rfl, mem_findDangerousOp, labelledAs_iff]
    simp only [dangerousKind_eq_ptr]
  case func =>
    intro op
    rw [show (findDangerousOp M types danFuncs).danFuncOps =
      (findDangerousOp M types danFuncs).ops .func from rfl, mem_findDangerousOp, labelledAs_iff]
    simp only [dangerousKind_eq_func]
  case keys =>
    refine List.foldlRecOn _ _ ?_ fun labels hLabels item _ => keysMatch_labelInst hLabels item
    intro kind key
    cases kind <;> simp [DOL.ops, DOL.opsMap]
  case front => exact fun kind op hOp => lines_ne_nil hOp
  case listed =>
    intro kind op _ r i hLocated
    exact Inst2Int.mem_lines.mpr ⟨i, hLocated.inst, hLocated.line⟩
  case defined => exact fun s kind => getDominators_isSome (fun op hOp => lines_ne_nil hOp) s

end Agreement
end ConAnalysis
