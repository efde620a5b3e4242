import ConAnalysis.Dominators.Exactness
import ConAnalysis.Dominators.GuardedOps

/-! What `ConAnalysis::getDominators` means for executions: the dominator prefix of an operation
against the control-flow paths that lead to it, instruction by instruction. -/
namespace ConAnalysis
open IR Dominance

/-- `inst_begin(F)`. -/
def entryPoint (f : FuncRef) : InstRef := ⟨f, 0, 0⟩

/-- Whenever control gets to `t`, it has been at `r`. -/
def OnEveryPath (M : Module) (r t : InstRef) : Prop :=
  Dominates (FlowsTo M) (· = entryPoint t.func) r t

/-- A place is given by its function, its block and its index. -/
theorem IR.InstRef.eq_of {r t : InstRef} (hFunc : r.func = t.func) (hBlock : r.block = t.block)
    (hIndex : r.index = t.index) : r = t := by
  cases r
  cases t
  exact (InstRef.mk.injEq ..).mpr ⟨hFunc, hBlock, hIndex⟩

section Projection
variable {M : Module} {f : FuncRef}

/-- A path runs through blocks, and through all of each block that it has left. -/
structure Covers (M : Module) (f : FuncRef) (blocks : List Nat) (visited : List InstRef)
    (t : InstRef) : Prop where
  func : t.func = f
  walk : Walk (M.func f).Edge 0 blocks t.block
  whole : ∀ r, r.func = f → r.block ∈ blocks → (M.inst? r).isSome →
    r.block = t.block ∧ t.index < r.index ∨ r ∈ visited

/-- A path goes on to the next instruction of the same block. -/
theorem Covers.next {blocks : List Nat} {visited : List InstRef} {t u : InstRef}
    (h : Covers M f blocks visited t) (hFunc : u.func = t.func) (hBlock : u.block = t.block)
    (hIndex : u.index = t.index + 1) : Covers M f blocks (u :: visited) u where
  func := hFunc.trans h.func
  walk := hBlock ▸ h.walk
  whole r hr hMem hInst := by
    rcases h.whole r hr hMem hInst with ⟨hSame, hLt⟩ | hVisited
    · rcases Nat.lt_or_eq_of_le (Nat.succ_le_of_lt hLt) with hLater | hEq
      · exact .inl ⟨hSame.trans hBlock.symm, hIndex ▸ hLater⟩
      · obtain rfl : r = u := InstRef.eq_of (hr.trans (hFunc.trans h.func).symm)
          (hSame.trans hBlock.symm) (hEq.symm.trans hIndex.symm)
        exact .inr List.mem_cons_self
    · exact .inr (List.mem_cons_of_mem _ hVisited)

/-- The terminator is the last instruction of its block. -/
theorem Covers.branch {blocks : List Nat} {visited : List InstRef} {t u : InstRef} {B : BasicBlock}
    (h : Covers M f blocks visited t) (hFunc : u.func = t.func)
    (hB : (M.func f).blocks[t.block]? = some B) (hEnd : t.index = B.body.length)
    (hStart : u.index = 0) (hSucc : u.block ∈ B.successors) :
    Covers M f (u.block :: blocks) (u :: visited) u where
  func := hFunc.trans h.func
  walk := by
    refine h.walk.snoc ?_
    simpa [Function.Edge, Function.successors, hB] using hSucc
  whole r hr hMem hInst := by
    by_cases hNew : r.block = u.block
    · rcases Nat.eq_zero_or_pos r.index with hZero | hPos
      · obtain rfl : r = u :=
          InstRef.eq_of (hr.trans (hFunc.trans h.func).symm) hNew (hZero.trans hStart.symm)
        exact .inr List.mem_cons_self
      · exact .inl ⟨hNew, hStart ▸ hPos⟩
    · have hOld : r.block ∈ blocks := (List.mem_cons.mp hMem).resolve_left hNew
      rcases h.whole r hr hOld hInst with ⟨hSame, hLt⟩ | hVisited
      · exfalso
        rw [Module.inst?, hr, Function.instAt, hSame, hB] at hInst
        obtain ⟨i, hi⟩ := Option.isSome_iff_exists.mp hInst
        have hLen := (List.getElem?_eq_some_iff.mp hi).1
        rw [BasicBlock.insts, List.length_append, List.length_singleton] at hLen
        omega
      · exact .inr (List.mem_cons_of_mem _ hVisited)

/-- From the blocks that a path has run through, the instructions. -/
theorem exists_covers {visited : List InstRef} {t : InstRef}
    (h : Walk (FlowsTo M) (entryPoint f) visited t) : ∃ blocks, Covers M f blocks visited t := by
  induction h with
  | nil =>
      refine ⟨[0], rfl, .nil, fun r hr hMem _ => ?_⟩
      rw [List.mem_singleton] at hMem
      rcases Nat.eq_zero_or_pos r.index with hZero | hPos
      · exact .inr (List.mem_singleton.mpr (InstRef.eq_of hr hMem hZero))
      · exact .inl ⟨hMem, hPos⟩
  | @snoc visited t u _ step ih =>
      obtain ⟨blocks, hCovers⟩ := ih
      obtain ⟨hFunc, ⟨hBlock, hIndex, -⟩ | hBranch⟩ := step
      · exact ⟨blocks, hCovers.next hFunc hBlock hIndex⟩
      · simp only [Option.any_eq_true, Bool.and_eq_true, decide_eq_true_eq,
          List.contains_iff_mem] at hBranch
        obtain ⟨B, hB, ⟨hEnd, hStart⟩, hSucc⟩ := hBranch
        rw [hCovers.func] at hB
        exact ⟨_, hCovers.branch hFunc hB hEnd hStart hSucc⟩

end Projection

section Lifting
variable {M : Module} {f : FuncRef}

/-- Inside of a block control passes from one instruction to the next. -/
theorem exists_walk_inside {start : InstRef} {b n : Nat} {visited : List InstRef}
    (hWalk : Walk (FlowsTo M) start visited ⟨f, b, 0⟩) (hInst : (M.inst? ⟨f, b, n⟩).isSome) :
    ∃ visited', Walk (FlowsTo M) start visited' ⟨f, b, n⟩ ∧
      ∀ r ∈ visited', r ∈ visited ∨ r.block = b ∧ r.index ≤ n := by
  induction n with
  | zero => exact ⟨visited, hWalk, fun r hr => .inl hr⟩
  | succ n ih =>
      have hBefore : (M.inst? ⟨f, b, n⟩).isSome := by
        obtain ⟨i, hi⟩ := Option.isSome_iff_exists.mp hInst
        obtain ⟨B, hB, hi⟩ := Option.bind_eq_some_iff.mp hi
        have hLt : n < B.insts.length := by
          have hLen := (List.getElem?_eq_some_iff.mp hi).1
          dsimp only at hLen
          omega
        have hSome := List.getElem?_eq_getElem hLt
        simp [Module.inst?, Function.instAt, hB, hSome]
      obtain ⟨visited', hWalk', hVisited⟩ := ih hBefore
      refine ⟨_, hWalk'.snoc ⟨rfl, .inl ⟨rfl, rfl, hInst⟩⟩, fun r hr => ?_⟩
      rcases List.mem_cons.mp hr with rfl | hr
      · exact .inr ⟨rfl, Nat.le_refl _⟩
      · refine (hVisited r hr).imp_right ?_
        rintro ⟨hBlock, hLe⟩
        exact ⟨hBlock, Nat.le_succ_of_le hLe⟩

/-- Every way through the blocks is one through the instructions, and in the block at its end
it need not go further than wanted. -/
theorem exists_walk_through {b n : Nat} {blocks : List Nat} (h : Walk (M.func f).Edge 0 blocks b)
    (hInst : (M.inst? ⟨f, b, n⟩).isSome) :
    ∃ visited, Walk (FlowsTo M) (entryPoint f) visited ⟨f, b, n⟩ ∧
      ∀ r ∈ visited, r.block ∈ blocks.tail ∨ r.block = b ∧ r.index ≤ n := by
  induction h generalizing n with
  | nil =>
      obtain ⟨visited, hWalk, hVisited⟩ := exists_walk_inside .nil hInst
      refine ⟨visited, hWalk, fun r hr => .inr ?_⟩
      rcases hVisited r hr with hEntry | hInside
      · rw [List.mem_singleton] at hEntry
        subst hEntry
        exact ⟨rfl, Nat.zero_le _⟩
      · exact hInside
  | @snoc before a b walk step ih =>
      have hEdge : b ∈ ((M.func f).blocks[a]?).elim [] BasicBlock.successors := step
      cases hB : (M.func f).blocks[a]? with
      | none => simp [hB] at hEdge
      | some B =>
          rw [hB] at hEdge
          have hEnd : (M.inst? ⟨f, a, B.body.length⟩).isSome := by
            simp [Module.inst?, Function.instAt, hB, BasicBlock.insts]
          obtain ⟨visited, hWalk, hVisited⟩ := ih hEnd
          have hFlows : FlowsTo M ⟨f, a, B.body.length⟩ ⟨f, b, 0⟩ := by
            refine ⟨rfl, .inr ?_⟩
            simpa [hB] using hEdge
          obtain ⟨visited', hWalk', hVisited'⟩ := exists_walk_inside (hWalk.snoc hFlows) hInst
          refine ⟨visited', hWalk', fun r hr => ?_⟩
          rcases hVisited' r hr with hOld | hInside
          · rcases List.mem_cons.mp hOld with rfl | hOld
            · exact .inr ⟨rfl, Nat.zero_le _⟩
            · rcases hVisited r hOld with hTail | ⟨hBlock, -⟩
              · exact .inl (List.mem_of_mem_tail hTail)
              · exact .inl (hBlock ▸ walk.mem)
          · exact .inr hInside

/-- The first arrival at a block. -/
theorem exists_first_walk {F : Function} {b : Nat} (hReach : F.Reachable b) :
    ∃ blocks, Walk F.Edge 0 blocks b ∧ b ∉ blocks.tail := by
  by_cases hb : b = 0
  · subst hb
    exact ⟨[0], .nil, List.not_mem_nil⟩
  · obtain ⟨visited, walk⟩ := exists_walk hReach
    obtain ⟨before, c, hWalk, hEdge, hNew⟩ := walk.exists_entering walk.mem hb
    exact ⟨_, hWalk.snoc hEdge, hNew⟩

end Lifting

section Prefix
variable {M : Module} {r t : InstRef}

/-- A function with an instruction has a first one. -/
theorem entryPoint_isSome (hInst : (M.inst? t).isSome) : (M.inst? (entryPoint t.func)).isSome := by
  obtain ⟨i, hi⟩ := Option.isSome_iff_exists.mp hInst
  obtain ⟨B, hB, -⟩ := Option.bind_eq_some_iff.mp hi
  have hLt := Nat.zero_lt_of_lt (List.getElem?_eq_some_iff.mp hB).1
  obtain ⟨j, insts, hInsts⟩ :=
    List.exists_cons_of_ne_nil ((M.func t.func).blocks[0]).insts_ne_nil
  simp [entryPoint, Module.inst?, Function.instAt, hLt, hInsts]

/-- Dominance of instructions is dominance of their blocks, and the order inside of one block. -/
theorem onEveryPath_iff (hReach : (M.func t.func).Reachable t.block) (hInst : (M.inst? t).isSome) :
    OnEveryPath M r t ↔ r.func = t.func ∧ (M.inst? r).isSome ∧
      Dominates (M.func t.func).Edge (· = 0) r.block t.block ∧
      (r.block = t.block → r.index ≤ t.index) := by
  constructor
  · intro h
    obtain ⟨blocks, hFirst, hNew⟩ := exists_first_walk hReach
    obtain ⟨visited, hWalk, hVisited⟩ := exists_walk_through hFirst hInst
    have hMem := h _ rfl visited hWalk
    obtain ⟨before, hWalkR, -⟩ := hWalk.exists_suffix hMem
    obtain ⟨blocksR, hCovers⟩ := exists_covers hWalkR
    refine ⟨hCovers.func, ?_, ?_, ?_⟩
    · cases hWalkR with
      | nil => exact entryPoint_isSome hInst
      | snoc _ step =>
          obtain ⟨i, hi⟩ := step.exists_inst
          exact Option.isSome_iff_exists.mpr ⟨i, (Module.mem_instructions.mp hi).2⟩
    · rintro _ rfl blocks walk
      obtain ⟨visited, hWalk, hVisited⟩ := exists_walk_through walk hInst
      rcases hVisited r (h _ rfl visited hWalk) with hTail | ⟨hBlock, -⟩
      · exact List.mem_of_mem_tail hTail
      · exact hBlock ▸ walk.mem
    · intro hBlock
      rcases hVisited r hMem with hTail | ⟨-, hLe⟩
      · exact absurd (hBlock ▸ hTail) hNew
      · exact hLe
  · rintro ⟨hFunc, hSome, hDom, hLe⟩ _ rfl visited hWalk
    obtain ⟨blocks, hCovers⟩ := exists_covers hWalk
    rcases hCovers.whole r hFunc (hDom 0 rfl blocks hCovers.walk) hSome with ⟨hBlock, hLt⟩ | hMem
    · exact absurd (hLe hBlock) (Nat.not_le.mpr hLt)
    · exact hMem

/-- The instructions up to the operation in the blocks that are computed to dominate it. -/
theorem mem_dominatorPrefix {danOpI : InstRef} {j : Instruction} (hInst : M.inst? danOpI = some j)
    {item : InstRef × Instruction} : item ∈ dominatorPrefix M danOpI ↔
      item.1.func = danOpI.func ∧ M.inst? item.1 = some item.2 ∧
        ComputedDominator (M.func danOpI.func) item.1.block danOpI.block ∧
        (item.1.block = danOpI.block → item.1.index ≤ danOpI.index) := by
  obtain ⟨r, i⟩ := item
  have hSorted := pairwise_blockInstructions (M.func danOpI.func) danOpI.func danOpI.block
  have hOwn : (danOpI, j) ∈ (M.func danOpI.func).blockInstructions danOpI.func danOpI.block :=
    Function.mem_blockInstructions.mpr ⟨rfl, rfl, hInst⟩
  have hAt : ∀ {d : Nat}, (r, i) ∈ (M.func danOpI.func).blockInstructions danOpI.func d ↔
      r.func = danOpI.func ∧ r.block = d ∧ M.inst? r = some i := by
    intro d
    rw [Function.mem_blockInstructions, Module.inst?]
    constructor <;> rintro ⟨hFunc, hRest⟩ <;> exact ⟨hFunc, by rw [hFunc] at *; exact hRest⟩
  rw [dominatorPrefix, mem_dominatorSubset]
  constructor
  · rintro ⟨d, hLt, hDom, hMem⟩
    obtain ⟨hFunc, rfl, hi⟩ := hAt.mp ((upTo_sublist _ _).subset hMem)
    refine ⟨hFunc, hi, hDom, fun hBlock => ?_⟩
    rw [hBlock, mem_upTo hSorted hOwn] at hMem
    rcases hMem.2 with hLt | hEq
    · exact hLt.le
    · rw [(Prod.mk.inj hEq).1]
  · rintro ⟨hFunc, hi, hDom, hLe⟩
    obtain ⟨B, hB, -⟩ := Option.bind_eq_some_iff.mp hi
    rw [hFunc] at hB
    refine ⟨r.block, (List.getElem?_eq_some_iff.mp hB).1, hDom, ?_⟩
    by_cases hBlock : r.block = danOpI.block
    · rw [hBlock, mem_upTo hSorted hOwn]
      refine ⟨hAt.mpr ⟨hFunc, hBlock, hi⟩, ?_⟩
      rcases Nat.lt_or_eq_of_le (hLe hBlock) with hLt | hIndex
      · exact .inl hLt
      · obtain rfl : r = danOpI := InstRef.eq_of hFunc hBlock hIndex
        exact .inr (Prod.ext rfl (Option.some.inj (hi.symm.trans hInst)))
    · rw [upTo_of_not_mem]
      · exact hAt.mpr ⟨hFunc, rfl, hi⟩
      · intro k hk
        exact hBlock (Function.mem_blockInstructions.mp hk).2.1.symm

/-- Without edges from blocks that have no predecessors, the prefix is what lies on every path. -/
theorem mem_dominatorPrefix_iff_onEveryPath {danOpI : InstRef} {j : Instruction}
    (hNone : NoOrphanEdge (M.func danOpI.func))
    (hReach : (M.func danOpI.func).Reachable danOpI.block) (hInst : M.inst? danOpI = some j)
    {item : InstRef × Instruction} : item ∈ dominatorPrefix M danOpI ↔
      OnEveryPath M item.1 danOpI ∧ M.inst? item.1 = some item.2 := by
  rw [mem_dominatorPrefix hInst, onEveryPath_iff hReach (hInst ▸ rfl),
    computedDominator_iff_dominates hNone hReach]
  constructor
  · rintro ⟨hFunc, hi, hDom, hLe⟩
    exact ⟨⟨hFunc, hi ▸ rfl, hDom, hLe⟩, hi⟩
  · rintro ⟨⟨hFunc, -, hDom, hLe⟩, hi⟩
    exact ⟨hFunc, hi, hDom, hLe⟩

end Prefix

/-- What the report says about the paths to the first instruction of an operation. -/
structure ReportsPaths (M : Module) (s : State) (scan : DominatorScan M) (op : FuncFileLine)
    (danOpI : InstRef) : Prop where
  printed : op ∈ scan.printed.map DangerousOp.op ↔ ∃ r i, M.inst? r = some i ∧ i.opcode = .br ∧
    .instruction r ∈ s.corruptedIR ∧ OnEveryPath M r danOpI
  path : ∀ p ∈ scan.printed, p.op = op → ∀ v, v ∈ p.path ↔
    v ∈ s.corruptedIR ∧ ∃ r, v = .instruction r ∧ OnEveryPath M r danOpI

section Report
variable {M : Module} {s : State} {op : FuncFileLine} {danOpI : InstRef}

/-- An operation counts exactly if a corrupted branch lies on every path to its first
instruction. -/
theorem behindCorruptedBranch_iff_onEveryPath (hExamined : examined M s op = some danOpI)
    (hNone : NoOrphanEdge (M.func danOpI.func))
    (hReach : (M.func danOpI.func).Reachable danOpI.block) :
    behindCorruptedBranch M s op = true ↔ ∃ r i, M.inst? r = some i ∧ i.opcode = .br ∧
      .instruction r ∈ s.corruptedIR ∧ OnEveryPath M r danOpI := by
  obtain ⟨j, hInst, -⟩ := Inst2Int.mem_lines.mp (List.mem_of_mem_head? (examined_eq_some.mp hExamined).1)
  rw [behindCorruptedBranch, hExamined, Option.any_some, corruptBranchFlag, List.any_eq_true]
  simp only [mem_dominatorPrefix_iff_onEveryPath hNone hReach hInst, isCorruptedBranch,
    Bool.and_eq_true, decide_eq_true_eq, Prod.exists]
  constructor
  · rintro ⟨r, i, ⟨hPath, hi⟩, hBr, hMem⟩
    exact ⟨r, i, hi, hBr, hMem, hPath⟩
  · rintro ⟨r, i, hi, hBr, hMem, hPath⟩
    exact ⟨r, i, ⟨hPath, hi⟩, hBr, hMem⟩

/-- And the frontiers are the instructions that lie on every path. -/
theorem mem_dominantfrontiers_iff (hExamined : examined M s op = some danOpI)
    (hNone : NoOrphanEdge (M.func danOpI.func))
    (hReach : (M.func danOpI.func).Reachable danOpI.block) {v : Value} :
    v ∈ dominantfrontiers M danOpI ↔ ∃ r, v = .instruction r ∧ OnEveryPath M r danOpI := by
  obtain ⟨j, hInst, -⟩ := Inst2Int.mem_lines.mp (List.mem_of_mem_head? (examined_eq_some.mp hExamined).1)
  simp only [dominantfrontiers, List.mem_map,
    mem_dominatorPrefix_iff_onEveryPath hNone hReach hInst]
  constructor
  · rintro ⟨item, ⟨hPath, -⟩, rfl⟩
    exact ⟨item.1, rfl, hPath⟩
  · rintro ⟨r, rfl, hPath⟩
    obtain ⟨i, hi⟩ := Option.isSome_iff_exists.mp
      ((onEveryPath_iff hReach (hInst ▸ rfl)).mp hPath).2.1
    exact ⟨(r, i), ⟨hPath, hi⟩, rfl⟩

end Report

/-- An operation is reported when, and only when, every path to it passes a corrupted branch,
and the path that is printed is all that is corrupted on each of these paths. -/
theorem getDominators_reports_paths {env : Env} {body : List Env.Site} {head : Env.Site}
    {s₀ s : State} (h : env.replayHead body head s₀ = .ok s) (types : CallTypes)
    (danFuncs : Finset String) (kind : OpKind) (dominatorMap : DominatorMap env.module) :
    ∃ scan, getDominators (Inst2Int.createMaps env.module).2 s
        ((findDangerousOp env.module types danFuncs).ops kind) { dominatorMap := dominatorMap } =
          some scan ∧
      ∀ op ∈ (findDangerousOp env.module types danFuncs).ops kind,
        ∀ danOpI ∈ examined env.module s op, NoOrphanEdge (env.module.func danOpI.func) →
          (env.module.func danOpI.func).Reachable danOpI.block →
          ReportsPaths env.module s scan op danOpI := by
  have hInStep : s.InStep := Env.inStep_replayHead h
  obtain ⟨scan, hScan, -, hPrinted⟩ := getDominators_eq hInStep
    (fun op (hOp : op ∈ (findDangerousOp env.module types danFuncs).ops kind) => lines_ne_nil hOp)
    { dominatorMap := dominatorMap }
  rw [List.nil_append] at hPrinted
  refine ⟨scan, hScan, fun op hOp danOpI hExamined hNone hReach => ⟨?_, ?_⟩⟩
  · rw [hPrinted, map_op_filterMap_printedFor, List.mem_filter, and_iff_right hOp]
    exact behindCorruptedBranch_iff_onEveryPath hExamined hNone hReach
  · intro p hp hEq v
    rw [hPrinted, List.mem_filterMap] at hp
    obtain ⟨op', -, hPrint⟩ := hp
    unfold printedFor at hPrint
    split at hPrint
    · obtain ⟨danOpI', hExamined', rfl⟩ := Option.map_eq_some_iff.mp hPrint
      subst hEq
      obtain rfl : danOpI' = danOpI := Option.some.inj (hExamined'.symm.trans hExamined)
      rw [List.mem_filter, decide_eq_true_eq, mem_dominantfrontiers_iff hExamined hNone hReach,
        hInStep.mem_iff]
    · cases hPrint

/-- All paths to line 6 pass the branch of line 5. -/
theorem getDominators_reports_paths_if : ∃ (s : State) (scan : DominatorScan ifModule),
    Env.replayHead { module := ifModule } [] (0, ⟨0, 0, 0⟩) {} = .ok s ∧
      getDominators (Inst2Int.createMaps ifModule).2 s
        ((findDangerousOp ifModule noTypes ∅).ops .ptr) {} = some scan ∧
      ReportsPaths ifModule s scan ("main", "a.c", 6) ⟨0, 1, 2⟩ := by
  obtain ⟨s, hReplay, hExamined⟩ := Exceptions.exists_ok_of_any
    (x := Env.replayHead { module := ifModule } [] (0, ⟨0, 0, 0⟩) {})
    (P := fun s : State => examined ifModule s ("main", "a.c", 6) = some ⟨0, 1, 2⟩)
    (by decide +kernel)
  obtain ⟨scan, hScan, hReports⟩ := getDominators_reports_paths hReplay noTypes ∅ .ptr {}
  have hReach : (ifModule.func 0).Reachable 1 :=
    .single (by decide : 1 ∈ (ifModule.func 0).successors 0)
  exact ⟨s, scan, hReplay, hScan,
    hReports ("main", "a.c", 6) (by decide) ⟨0, 1, 2⟩ hExamined noOrphanEdge_ifModule hReach⟩

end ConAnalysis
