import ConAnalysis.Dataflow.Analysis
import ConAnalysis.Labels.Inst2Int
import Mathlib.Data.Finset.Lattice.Basic
import Mathlib.Data.Finset.Dedup

/-! The `DOL` pass: which operations are labelled as dangerous. -/
namespace ConAnalysis
open IR

/-- What the pass asks LLVM about calls: the type ids of the arguments and of
the result of a call and of a function, and the alias analysis. -/
structure CallTypes where
  arguments : InstRef → List Nat
  result : InstRef → Nat
  params : FuncRef → List Nat
  returns : FuncRef → Nat
  mayAlias : Value → FuncRef → Bool

namespace CallTypes

/-- Only the type ids are compared. -/
def compareIndirectCall (types : CallTypes) (cs : InstRef) (fn : FuncRef) : Bool :=
  if (types.arguments cs).length ≠ (types.params fn).length then false
  else if types.result cs ≠ types.returns fn then false
  else ((types.arguments cs).zip (types.params fn)).all fun (tp1, tp2) => tp1 == tp2

end CallTypes

/-- Calls without arguments, where nothing may alias. -/
def noTypes : CallTypes where
  arguments _ := []
  result _ := 0
  params _ := []
  returns _ := 0
  mayAlias _ _ := false

/-- `name.compare(0, 5, "llvm.") == 0`. -/
def isLLVMName (name : String) : Bool := name.toList.take 5 == "llvm.".toList

/-- The two lists of labelled operations. -/
inductive OpKind where
  | ptr | func
deriving DecidableEq, Repr

namespace DOL

/-- `danPtrOps_` or `danFuncOps_`. -/
def ops (labels : DOL) : OpKind → List FuncFileLine
  | .ptr => labels.danPtrOps
  | .func => labels.danFuncOps

/-- The keys of `danPtrOpsMap_` or `danFuncOpsMap_`. -/
def opsMap (labels : DOL) : OpKind → Finset FileLine
  | .ptr => labels.danPtrOpsMap
  | .func => labels.danFuncOpsMap

/-- An operation that is not in the list yet goes to its front. -/
def label (kind : OpKind) (opEntry : FuncFileLine) (labels : DOL) : DOL :=
  if opEntry ∈ labels.ops kind then labels
  else match kind with
    | .ptr => { labels with
        danPtrOps := opEntry :: labels.danPtrOps
        danPtrOpsMap := insert opEntry.2 labels.danPtrOpsMap }
    | .func => { labels with
        danFuncOps := opEntry :: labels.danFuncOps
        danFuncOpsMap := insert opEntry.2 labels.danFuncOpsMap }

@[simp] theorem label_danFuncs (kind : OpKind) (opEntry : FuncFileLine) (labels : DOL) :
    (labels.label kind opEntry).danFuncs = labels.danFuncs := by
  unfold label
  split
  · rfl
  · cases kind <;> rfl

theorem mem_label {kind kind' : OpKind} {op opEntry : FuncFileLine} {labels : DOL} :
    op ∈ (labels.label kind opEntry).ops kind' ↔
      op ∈ labels.ops kind' ∨ kind' = kind ∧ op = opEntry := by
  unfold label
  split
  · next hMem =>
      refine ⟨.inl, ?_⟩
      rintro (h | ⟨rfl, rfl⟩)
      · exact h
      · exact hMem
  · cases kind <;> cases kind' <;> simp [ops, or_comm]

/-- An operation that is labelled is not labelled again. -/
theorem nodup_label {kind kind' : OpKind} {opEntry : FuncFileLine} {labels : DOL}
    (h : (labels.ops kind').Nodup) : ((labels.label kind opEntry).ops kind').Nodup := by
  unfold label
  split
  · exact h
  · next hNew => cases kind <;> cases kind' <;> simp_all [ops]

end DOL

section Labelling
variable (M : Module) (types : CallTypes)

/-- `fnSet`. -/
def allFuncs : List FuncRef :=
  (List.range M.functions.length).filter fun f => !isLLVMName (M.func f).name

/-- `fnNames`: the callee, or what an indirect call may resolve to. -/
def fnNames (item : InstRef × Instruction) : Finset String :=
  match item.2.calledFunction with
  | some calleeFn => {(M.func calleeFn).name}
  | none =>
      (((allFuncs M).filter fun fn => types.compareIndirectCall item.1 fn &&
        item.2.calledValue.any (types.mayAlias · fn)).map fun fn => (M.func fn).name).toFinset

/-- A direct call of an `llvm.` function is skipped. -/
def skipsCall (i : Instruction) : Bool :=
  i.calledFunction.any fun calleeFn => isLLVMName (M.func calleeFn).name

def dangerousKind (danFuncs : Finset String) (item : InstRef × Instruction) : Option OpKind :=
  match item.2.opcode with
  | .getElementPtr => some .ptr
  | .call | .invoke =>
      if skipsCall M item.2 then none
      else if fnNames M types item ∩ danFuncs = ∅ then none
      else some .func
  | _ => none

def labelInst (labels : DOL) (item : InstRef × Instruction) : DOL :=
  match dangerousKind M types labels.danFuncs item, item.2.dbg with
  | some kind, some loc => labels.label kind ((M.func item.1.func).name, loc.fileLine)
  | _, _ => labels

/-- `findDangerousOp` from cleared members. -/
def findDangerousOp (danFuncs : Finset String) : DOL :=
  M.allInstructions.foldl (labelInst M types) { danFuncs }

/-- The instruction is dangerous, and the operation names its function and its
location. -/
def LabelledAs (danFuncs : Finset String) (kind : OpKind) (op : FuncFileLine)
    (item : InstRef × Instruction) : Prop :=
  dangerousKind M types danFuncs item = some kind ∧ (M.func item.1.func).name = op.1 ∧
    item.2.fileLine = some op.2

variable {M types}

theorem labelInst_danFuncs (labels : DOL) (item : InstRef × Instruction) :
    (labelInst M types labels item).danFuncs = labels.danFuncs := by
  unfold labelInst
  split
  · exact DOL.label_danFuncs _ _ _
  · rfl

/-- One instruction adds its own label, if it has one. -/
theorem mem_labelInst {kind : OpKind} {op : FuncFileLine} {labels : DOL}
    {item : InstRef × Instruction} :
    op ∈ (labelInst M types labels item).ops kind ↔
      op ∈ labels.ops kind ∨ LabelledAs M types labels.danFuncs kind op item := by
  unfold labelInst LabelledAs Instruction.fileLine
  split
  · next kind' loc hKind hLoc =>
      rw [DOL.mem_label, hKind, hLoc]
      simp only [Option.some.injEq, Option.map_some, Prod.ext_iff]
      exact or_congr_right ⟨fun ⟨h, hName, hLine⟩ => ⟨h.symm, hName.symm, hLine.1.symm, hLine.2.symm⟩,
        fun ⟨h, hName, hLine⟩ => ⟨h.symm, hName.symm, hLine.1.symm, hLine.2.symm⟩⟩
  · next hNot =>
      refine ⟨.inl, ?_⟩
      rintro (h | ⟨hKind, -, hLine⟩)
      · exact h
      · obtain ⟨loc, hLoc, -⟩ := Option.map_eq_some_iff.mp hLine
        exact (hNot kind loc hKind hLoc).elim

theorem nodup_labelInst {kind : OpKind} {labels : DOL} {item : InstRef × Instruction}
    (h : (labels.ops kind).Nodup) : ((labelInst M types labels item).ops kind).Nodup := by
  unfold labelInst
  split
  · exact DOL.nodup_label h
  · exact h

/-- Run lemma: no operation of a kind is listed twice. -/
theorem nodup_findDangerousOp (danFuncs : Finset String) (kind : OpKind) :
    ((findDangerousOp M types danFuncs).ops kind).Nodup := by
  refine List.foldlRecOn (motive := fun labels : DOL => (labels.ops kind).Nodup)
    M.allInstructions (labelInst M types) ?_ fun labels h item _ => nodup_labelInst h
  cases kind <;> exact List.nodup_nil

/-- The loop collects the labels of all instructions that it passes. -/
theorem mem_foldl_labelInst {kind : OpKind} {op : FuncFileLine} {labels : DOL}
    {items : List (InstRef × Instruction)} :
    op ∈ (items.foldl (labelInst M types) labels).ops kind ↔
      op ∈ labels.ops kind ∨ ∃ item ∈ items, LabelledAs M types labels.danFuncs kind op item := by
  induction items generalizing labels with
  | nil => simp
  | cons item items ih =>
      rw [List.foldl_cons, ih, mem_labelInst, labelInst_danFuncs, or_assoc]
      simp only [List.mem_cons, exists_eq_or_imp]

/-- The list holds the operations that name a dangerous instruction. -/
theorem mem_findDangerousOp {danFuncs : Finset String} {kind : OpKind} {op : FuncFileLine} :
    op ∈ (findDangerousOp M types danFuncs).ops kind ↔
      ∃ item ∈ M.allInstructions, LabelledAs M types danFuncs kind op item := by
  rw [findDangerousOp, mem_foldl_labelInst]
  cases kind <;> simp [DOL.ops]

/-- The line of a labelled operation has instructions. -/
theorem lines_ne_nil {danFuncs : Finset String} {kind : OpKind} {op : FuncFileLine}
    (h : op ∈ (findDangerousOp M types danFuncs).ops kind) :
    (Inst2Int.createMaps M).2.lines op.2 ≠ [] := by
  obtain ⟨⟨r, i⟩, hItem, -, -, hLine⟩ := mem_findDangerousOp.mp h
  exact List.ne_nil_of_mem (Inst2Int.mem_lines.mpr ⟨i, Module.mem_allInstructions.mp hItem, hLine⟩)

end Labelling
end ConAnalysis
