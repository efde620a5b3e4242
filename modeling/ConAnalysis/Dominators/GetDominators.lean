import ConAnalysis.Dataflow.Growth
import ConAnalysis.Dominators.Compute
import ConAnalysis.IR.Layout
import ConAnalysis.Labels.DangerOpLabel

/-! `ConAnalysis::getDominators`: a labelled operation is counted when the
blocks that dominate it hold a corrupted branch. -/
namespace ConAnalysis
open IR Dominance

namespace IR.Function

def blockInstructions (F : Function) (f : FuncRef) (b : Nat) : List (InstRef × Instruction) :=
  (F.blocks[b]?).elim [] fun B => B.insts.zipIdx.map fun (i, n) => (⟨f, b, n⟩, i)

theorem mem_blockInstructions {F : Function} {f : FuncRef} {b : Nat} {r : InstRef}
    {i : Instruction} : (r, i) ∈ F.blockInstructions f b ↔
      r.func = f ∧ r.block = b ∧ F.instAt r.block r.index = some i := by
  obtain ⟨rf, rb, rn⟩ := r
  unfold blockInstructions instAt
  cases hBlock : F.blocks[b]? with
  | none =>
      refine ⟨fun h => (List.not_mem_nil h).elim, ?_⟩
      rintro ⟨-, rfl, hInst⟩
      simp [hBlock] at hInst
  | some B =>
      simp only [Option.elim_some, List.mem_map, Prod.mk.injEq, Prod.exists,
        List.mem_zipIdx_iff_getElem?, InstRef.mk.injEq]
      constructor
      · rintro ⟨j, n, hj, ⟨rfl, rfl, rfl⟩, rfl⟩
        exact ⟨rfl, rfl, by simpa [hBlock] using hj⟩
      · rintro ⟨rfl, rfl, hInst⟩
        exact ⟨i, rn, by simpa [hBlock] using hInst, ⟨rfl, rfl, rfl⟩, rfl⟩

end IR.Function

/-- What `computeDominators` leaves behind. -/
def dominatorsOf (F : Function) : BB2SetMap :=
  (computeDominators F).get (computeDominators_isSome F)

/-- The map of the pass answers as the computed dominators do. -/
theorem mem_dominatorsOf {F : Function} {d b : Nat} (hLt : d < F.blocks.length) :
    d ∈ dominatorsOf F b ↔ ComputedDominator F d b :=
  mem_computeDominators (Option.some_get (computeDominators_isSome F)).symm hLt

/-- `dominatorMap_`: whatever is filed for a function was computed for it. -/
structure DominatorMap (M : Module) where
  entries : FuncRef → Option BB2SetMap := fun _ => none
  computed : ∀ f dominators, entries f = some dominators → dominators = dominatorsOf (M.func f) := by
    simp

namespace DominatorMap
variable {M : Module}

/-- The sets of a function, which are computed and filed when they are needed
for the first time. -/
def dominators (map : DominatorMap M) (f : FuncRef) : BB2SetMap × DominatorMap M :=
  match map.entries f with
  | some dominators => (dominators, map)
  | none => (dominatorsOf (M.func f), {
      entries := Function.update map.entries f (some (dominatorsOf (M.func f)))
      computed := by
        intro g dominators hEntry
        by_cases hg : g = f
        · subst hg
          simpa [eq_comm] using hEntry
        · rw [Function.update_of_ne hg] at hEntry
          exact map.computed g dominators hEntry })

@[simp] theorem dominators_fst (map : DominatorMap M) (f : FuncRef) :
    (map.dominators f).1 = dominatorsOf (M.func f) := by
  unfold dominators
  split
  · next dominators hEntry => exact map.computed f dominators hEntry
  · rfl

end DominatorMap

def corruptedIRFuncSet (s : State) : Finset FuncRef :=
  s.corruptedIR.biUnion fun IR => match IR with
    | .instruction r => {r.func}
    | _ => ∅

/-- The loop over a block, which stops behind the dangerous operation. -/
def upTo (danOpI : InstRef) : List (InstRef × Instruction) → List (InstRef × Instruction)
  | [] => []
  | i :: rest => if i.1 = danOpI then [i] else i :: upTo danOpI rest

/-- The blocks are visited in the order of their addresses, on which nothing
depends, as the feasible path is made in the order of the corrupted list. -/
def dominatorSubset (F : Function) (dominators : BB2SetMap) (danOpI : InstRef) :
    List (InstRef × Instruction) :=
  ((List.range F.blocks.length).filter (· ∈ dominators danOpI.block)).flatMap fun it =>
    upTo danOpI (F.blockInstructions danOpI.func it)

def isCorruptedBranch (s : State) (item : InstRef × Instruction) : Bool :=
  item.2.opcode = .br && .instruction item.1 ∈ s.corruptedIR

def corruptBranchFlag (s : State) (subset : List (InstRef × Instruction)) : Bool :=
  subset.any (isCorruptedBranch s)

/-- The list that `getFeasiblePath` makes, and prints unless it is empty. -/
def feasiblepath (orderedcorruptedIR dominantfrontiers : List Value) : List Value :=
  orderedcorruptedIR.flatMap fun listitr => dominantfrontiers.filter (· = listitr)

def getFeasiblePath (s : State) (dominantfrontiers : List Value) : Option (List Value) :=
  match feasiblepath s.orderedcorruptedIR dominantfrontiers with
  | [] => none
  | v :: path => some (v :: path)

/-- What is printed for an operation that is counted. -/
structure DangerousOp where
  op : FuncFileLine
  path : List Value
deriving DecidableEq, Repr

/-- Where the loop of `getDominators` stands. -/
structure DominatorScan (M : Module) where
  rv : Nat := 0
  printed : List DangerousOp := []
  dominatorMap : DominatorMap M := {}

section GetDominators
variable {M : Module} (maps : Inst2Int) (s : State)

/-- One labelled operation. The answer `none` stands for `front` of an empty
list of instructions, which is undefined. -/
def examineOp (op : FuncFileLine) (scan : DominatorScan M) : Option (DominatorScan M) :=
  match maps.lines op.2 with
  | [] => none
  | danOpI :: _ =>
      if danOpI.func ∉ corruptedIRFuncSet s then some scan
      else if (M.func danOpI.func).name = op.1 then
        let (dominators, dominatorMap) := scan.dominatorMap.dominators danOpI.func
        let scan := { scan with dominatorMap := dominatorMap }
        let subset := dominatorSubset (M.func danOpI.func) dominators danOpI
        if corruptBranchFlag s subset then
          match getFeasiblePath s (subset.map fun i => .instruction i.1) with
          | none => some scan
          | some path => some { scan with rv := scan.rv + 1, printed := scan.printed ++ [⟨op, path⟩] }
        else some scan
      else some scan

def getDominators : List FuncFileLine → DominatorScan M → Option (DominatorScan M)
  | [], scan => some scan
  | op :: danOps, scan => (examineOp maps s op scan).bind (getDominators danOps)

end GetDominators

section Prefix
variable {M : Module} {s : State}

/-- The instructions of a block are listed in its order. -/
theorem pairwise_blockInstructions (F : Function) (f : FuncRef) (b : Nat) :
    (F.blockInstructions f b).Pairwise fun a c => a.1.index < c.1.index := by
  unfold Function.blockInstructions
  cases F.blocks[b]? with
  | none => exact .nil
  | some B =>
      rw [Option.elim_some, List.pairwise_map]
      exact (pairwise_zipIdx B.insts 0).imp fun h => h

/-- A corrupted branch among the instructions is on the feasible path. -/
theorem getFeasiblePath_isSome {subset : List (InstRef × Instruction)} (hInStep : s.InStep)
    (h : corruptBranchFlag s subset = true) :
    ∃ path, getFeasiblePath s (subset.map fun i => .instruction i.1) = some path := by
  obtain ⟨item, hItem, hCorrupted⟩ := List.any_eq_true.mp h
  simp only [isCorruptedBranch, Bool.and_eq_true, decide_eq_true_eq] at hCorrupted
  have hMem : Value.instruction item.1 ∈
      feasiblepath s.orderedcorruptedIR (subset.map fun i => .instruction i.1) := by
    refine List.mem_flatMap.mpr ⟨_, (hInStep.mem_iff _).mpr hCorrupted.2, ?_⟩
    exact List.mem_filter.mpr ⟨List.mem_map.mpr ⟨item, hItem, rfl⟩, by simp⟩
  unfold getFeasiblePath
  split
  · next hNil =>
      rw [hNil] at hMem
      cases hMem
  · exact ⟨_, rfl⟩

end Prefix
end ConAnalysis
