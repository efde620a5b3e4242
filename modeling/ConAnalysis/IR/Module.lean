import Mathlib.Data.List.Basic
import Mathlib.Data.List.Nodup
import Mathlib.Data.List.Pairwise
import Mathlib.Tactic.Common

/-! The part of LLVM's in-memory IR that the passes read. A pointer to an
object is modelled by the place of the object in its module, so two pointers
are equal exactly when they name the same place. -/
namespace ConAnalysis.IR

/-- `Function *`: the index in `Module::getFunctionList`. -/
abbrev FuncRef := Nat

/-- `BasicBlock *`: the function and the place in its block layout. -/
structure BlockRef where
  func : FuncRef
  block : Nat
deriving DecidableEq, Repr

/-- `Instruction *`: the block and the place inside the block. -/
structure InstRef where
  func : FuncRef
  block : Nat
  index : Nat
deriving DecidableEq, Repr

/-- `Instruction::getParent`. -/
def InstRef.parent (r : InstRef) : BlockRef := ⟨r.func, r.block⟩

/-- `Value *`. Constants are kept apart by an arbitrary number. -/
inductive Value where
  | instruction (r : InstRef)
  | argument (f : FuncRef) (k : Nat)
  | globalVariable (g : Nat)
  | function (f : FuncRef)
  | basicBlock (b : BlockRef)
  | constant (c : Nat)
deriving DecidableEq, Repr

/-- `isa<Instruction>`. -/
def Value.isInstruction : Value → Bool
  | .instruction _ => true
  | _ => false

/-- The instruction classes that the passes distinguish with `isa`. -/
inductive Opcode where
  | getElementPtr | call | invoke | store | load | br | ret | phi | alloca
  | bitCast | iCmp | binary | otherTerminator | other
deriving DecidableEq, Repr

/-- `TerminatorInst`. -/
def Opcode.isTerminator : Opcode → Bool
  | .br | .ret | .invoke | .otherTerminator => true
  | _ => false

/-- Instructions of these classes have type `void` and are nobody's operand. -/
def Opcode.isVoid : Opcode → Bool
  | .store | .br | .ret | .otherTerminator => true
  | _ => false

/-- What `DILocation` answers for the `dbg` metadata of an instruction. -/
structure DebugLoc where
  fileName : String
  lineNum : Nat
deriving DecidableEq, Repr

structure Instruction where
  opcode : Opcode
  operands : List Value
  dbg : Option DebugLoc := none
deriving DecidableEq, Repr

/-- `CallSite::getCalledValue`: the last operand of a call and the third from
the end of an invoke, before its two destinations. -/
def Instruction.calledValue (i : Instruction) : Option Value :=
  match i.opcode with
  | .call => i.operands.reverse[0]?
  | .invoke => i.operands.reverse[2]?
  | _ => none

/-- `CallSite::getCalledFunction`: null for an indirect call. -/
def Instruction.calledFunction (i : Instruction) : Option FuncRef :=
  match i.calledValue with
  | some (.function f) => some f
  | _ => none

theorem no_instruction_terminates : ∀ i ∈ ([] : List Instruction), i.opcode.isTerminator = false :=
  List.forall_mem_nil _

/-- Blocks end with their only terminator, as the LLVM verifier demands. -/
structure BasicBlock where
  body : List Instruction
  terminator : Instruction
  successors : List Nat
  body_plain : ∀ i ∈ body, i.opcode.isTerminator = false := by
    first | exact no_instruction_terminates | decide
  terminator_ends : terminator.opcode.isTerminator = true := by exact (rfl : true = true)

def BasicBlock.insts (B : BasicBlock) : List Instruction := B.body ++ [B.terminator]

theorem BasicBlock.insts_ne_nil (B : BasicBlock) : B.insts ≠ [] := by
  simp [insts]

theorem no_block_branches :
    ∀ B ∈ ([] : List BasicBlock), ∀ t ∈ B.successors, t < ([] : List BasicBlock).length :=
  List.forall_mem_nil _

theorem no_block_enters : ∀ B ∈ ([] : List BasicBlock), 0 ∉ B.successors := List.forall_mem_nil _

/-- The entry block has no predecessors and branches stay inside the function,
as the LLVM verifier demands. `params` counts the formal arguments. -/
structure Function where
  name : String
  params : Nat := 0
  isIntrinsic : Bool := false
  blocks : List BasicBlock := []
  successors_lt : ∀ B ∈ blocks, ∀ t ∈ B.successors, t < blocks.length := by
    first | exact no_block_branches | decide
  entry_first : ∀ B ∈ blocks, 0 ∉ B.successors := by first | exact no_block_enters | decide

namespace Function

/-- `F->begin() == F->end()`. -/
def isDeclaration (F : Function) : Bool := F.blocks.isEmpty

def instAt (F : Function) (block index : Nat) : Option Instruction :=
  (F.blocks[block]?).bind fun B => B.insts[index]?

/-- From `inst_begin(F)` to `inst_end(F)`: block by block in layout order. -/
def instructions (F : Function) (f : FuncRef) : List (InstRef × Instruction) :=
  F.blocks.zipIdx.flatMap fun (B, b) => B.insts.zipIdx.map fun (i, n) => (⟨f, b, n⟩, i)

/-- The instructions of a function are those that its blocks have at some place. -/
theorem mem_instructions {F : Function} {f : FuncRef} {r : InstRef} {i : Instruction} :
    (r, i) ∈ F.instructions f ↔ r.func = f ∧ F.instAt r.block r.index = some i := by
  obtain ⟨rf, rb, rn⟩ := r
  simp only [instructions, instAt, List.mem_flatMap, List.mem_map, Prod.mk.injEq, Prod.exists,
    List.mem_zipIdx_iff_getElem?, InstRef.mk.injEq, Option.bind_eq_some_iff]
  constructor
  · rintro ⟨B, b, hB, j, n, hj, ⟨rfl, rfl, rfl⟩, rfl⟩
    exact ⟨rfl, B, hB, hj⟩
  · rintro ⟨rfl, B, hB, hi⟩
    exact ⟨B, rb, hB, i, rn, hi, ⟨rfl, rfl, rfl⟩, rfl⟩

/-- A body without instructions is no body: blocks are never empty. -/
theorem instructions_eq_nil_iff (F : Function) (f : FuncRef) :
    F.instructions f = [] ↔ F.isDeclaration = true := by
  cases hBlocks : F.blocks with
  | nil => simp [instructions, isDeclaration, hBlocks]
  | cons B blocks =>
      have hInsts := B.insts_ne_nil
      simp [instructions, isDeclaration, hBlocks, List.zipIdx_cons, hInsts]

end Function

/-- Well-formed operands: they exist, and an instruction that is used as an
operand produces a value. -/
def Value.wellFormed (functions : List Function) : Value → Bool
  | .instruction r =>
      match (functions[r.func]?).bind fun F => F.instAt r.block r.index with
      | some i => !i.opcode.isVoid
      | none => false
  | .argument f k => (functions[f]?).any fun F => k < F.params
  | .function f => f < functions.length
  | .basicBlock b => (functions[b.func]?).any fun F => b.block < F.blocks.length
  | .globalVariable _ => true
  | .constant _ => true

/-- A module that the LLVM verifier accepts, as far as the passes depend on
it. Function names are distinct because the symbol table keys on them. -/
structure Module where
  functions : List Function
  operands_wf : ∀ F ∈ functions, ∀ B ∈ F.blocks, ∀ i ∈ B.insts, ∀ v ∈ i.operands,
    v.wellFormed functions = true := by decide
  names_nodup : (functions.map Function.name).Nodup := by decide

namespace Module

/-- An index outside the module never occurs in one that the verifier accepts;
it stands for an empty declaration. -/
def func (M : Module) (f : FuncRef) : Function := (M.functions[f]?).getD { name := "" }

def instructions (M : Module) (f : FuncRef) : List (InstRef × Instruction) :=
  (M.func f).instructions f

def inst? (M : Module) (r : InstRef) : Option Instruction :=
  (M.func r.func).instAt r.block r.index

theorem mem_instructions {M : Module} {f : FuncRef} {r : InstRef} {i : Instruction} :
    (r, i) ∈ M.instructions f ↔ r.func = f ∧ M.inst? r = some i := by
  rw [instructions, Function.mem_instructions, inst?]
  constructor <;> rintro ⟨rfl, h⟩ <;> exact ⟨rfl, h⟩

/-- Where there is an instruction, there is a function. -/
theorem func_mem_of_inst? {M : Module} {r : InstRef} {i : Instruction} (h : M.inst? r = some i) :
    M.functions[r.func]? = some (M.func r.func) := by
  cases hF : M.functions[r.func]? with
  | some F => simp [func, hF]
  | none => simp [inst?, func, hF, Function.instAt] at h

/-- Only functions of the module have instructions. -/
theorem lt_of_mem_instructions {M : Module} {f : FuncRef} {item : InstRef × Instruction}
    (h : item ∈ M.instructions f) : f < M.functions.length := by
  obtain ⟨r, i⟩ := item
  obtain ⟨rfl, hInst⟩ := mem_instructions.mp h
  exact (List.getElem?_eq_some_iff.mp (func_mem_of_inst? hInst)).1

/-- Operands of the instructions of a module are well formed. -/
theorem wellFormed_of_mem_operands {M : Module} {r : InstRef} {i : Instruction} {v : Value}
    (h : M.inst? r = some i) (hv : v ∈ i.operands) : v.wellFormed M.functions = true := by
  have hF := func_mem_of_inst? h
  simp only [inst?, Function.instAt, Option.bind_eq_some_iff] at h
  obtain ⟨B, hB, hi⟩ := h
  exact M.operands_wf _ (List.mem_of_getElem? hF) B (List.mem_of_getElem? hB) i
    (List.mem_of_getElem? hi) v hv

/-- An operand that is an instruction produces a value. -/
theorem operand_not_void {M : Module} {r s : InstRef} {i j : Instruction}
    (h : M.inst? r = some i) (hv : Value.instruction s ∈ i.operands) (hs : M.inst? s = some j) :
    j.opcode.isVoid = false := by
  have hWf := wellFormed_of_mem_operands h hv
  have hF := func_mem_of_inst? hs
  rw [inst?] at hs
  simpa [Value.wellFormed, hF, hs] using hWf

end Module
end ConAnalysis.IR
