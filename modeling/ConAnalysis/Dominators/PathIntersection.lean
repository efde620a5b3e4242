import ConAnalysis.Dataflow.Lockstep
import ConAnalysis.Dominators.GetDominators

/-! `ConAnalysis::getFeasiblePath`: what is printed for a dangerous operation, and that it
never takes an operation out of the count. -/
namespace ConAnalysis
open IR

section Subset

theorem upTo_sublist (danOpI : InstRef) (items : List (InstRef × Instruction)) :
    (upTo danOpI items).Sublist items := by
  induction items with
  | nil => exact .slnil
  | cons item items ih =>
      rw [upTo]
      split
      · exact (List.nil_sublist items).cons_cons item
      · exact ih.cons_cons item

/-- A block is visited once, and so is every instruction of it. -/
theorem pairwise_dominatorSubset (F : Function) (dominators : BB2SetMap) (danOpI : InstRef) :
    (dominatorSubset F dominators danOpI).Pairwise fun a b => a.1 ≠ b.1 := by
  unfold dominatorSubset
  rw [List.pairwise_flatMap]
  constructor
  · intro d _
    refine ((pairwise_blockInstructions F danOpI.func d).sublist (upTo_sublist _ _)).imp ?_
    rintro a b hLt hEq
    rw [hEq] at hLt
    exact Nat.lt_irrefl _ hLt
  · refine (List.nodup_range.filter _).imp ?_
    intro d d' hNe a ha b hb hEq
    have hBlock := (Function.mem_blockInstructions.mp ((upTo_sublist _ _).subset ha)).2.1
    have hBlock' := (Function.mem_blockInstructions.mp ((upTo_sublist _ _).subset hb)).2.1
    exact hNe (by rw [← hBlock, ← hBlock', hEq])

end Subset

/-- `dominatorSubset`, for the instruction at which a dangerous operation begins. -/
def dominatorPrefix (M : Module) (danOpI : InstRef) : List (InstRef × Instruction) :=
  dominatorSubset (M.func danOpI.func) (dominatorsOf (M.func danOpI.func)) danOpI

/-- The argument of `getFeasiblePath`. -/
def dominantfrontiers (M : Module) (danOpI : InstRef) : List Value :=
  (dominatorPrefix M danOpI).map fun i => .instruction i.1

/-- The first instruction of the line of an operation, if the operation is examined: it lies in
the named function, and that has corrupted instructions. -/
def examined (M : Module) (s : State) (op : FuncFileLine) : Option InstRef :=
  ((Inst2Int.createMaps M).2.lines op.2).head?.filter fun danOpI =>
    danOpI.func ∈ corruptedIRFuncSet s && (M.func danOpI.func).name = op.1

/-- The operation is examined, and a corrupted branch lies in its dominator prefix. -/
def behindCorruptedBranch (M : Module) (s : State) (op : FuncFileLine) : Bool :=
  (examined M s op).any fun danOpI => corruptBranchFlag s (dominatorPrefix M danOpI)

def printedFor (M : Module) (s : State) (op : FuncFileLine) : Option DangerousOp :=
  if behindCorruptedBranch M s op then
    (examined M s op).map fun danOpI =>
      ⟨op, s.orderedcorruptedIR.filter (· ∈ dominantfrontiers M danOpI)⟩
  else none

/-- The path is the part of the corrupted list that lies in the prefix, and it is printed
whenever there is a corrupted branch. -/
structure PathExact (M : Module) (s : State) (danOpI : InstRef) : Prop where
  eq_filter : feasiblepath s.orderedcorruptedIR (dominantfrontiers M danOpI) =
    s.orderedcorruptedIR.filter (· ∈ dominantfrontiers M danOpI)
  nodup : (feasiblepath s.orderedcorruptedIR (dominantfrontiers M danOpI)).Nodup
  found : corruptBranchFlag s (dominatorPrefix M danOpI) = true →
    getFeasiblePath s (dominantfrontiers M danOpI) =
      some (feasiblepath s.orderedcorruptedIR (dominantfrontiers M danOpI))

section Path
variable {M : Module} {s : State}

/-- No frontier is printed twice, since the instructions of the module have different places. -/
theorem nodup_dominantfrontiers (M : Module) (danOpI : InstRef) :
    (dominantfrontiers M danOpI).Nodup := by
  unfold dominantfrontiers
  rw [List.Nodup, List.pairwise_map]
  refine (pairwise_dominatorSubset _ _ _).imp ?_
  intro a b hNe hEq
  exact hNe (Value.instruction.inj hEq)

/-- The nested loops find an element once for each time it stands in the second list. -/
theorem feasiblepath_eq_filter {ordered frontiers : List Value} (h : frontiers.Nodup) :
    feasiblepath ordered frontiers = ordered.filter (· ∈ frontiers) := by
  unfold feasiblepath
  induction ordered with
  | nil => rfl
  | cons v ordered ih =>
      rw [List.flatMap_cons, ih, List.filter_eq]
      by_cases hMem : v ∈ frontiers
      · rw [List.count_eq_one_of_mem h hMem, List.filter_cons_of_pos (by simpa using hMem)]
        rfl
      · rw [List.count_eq_zero_of_not_mem hMem, List.filter_cons_of_neg (by simpa using hMem)]
        rfl

/-- The path has the frontiers that are corrupted, in the order of their corruption. -/
theorem getFeasiblePath_eq {frontiers path : List Value}
    (h : getFeasiblePath s frontiers = some path) :
    path = feasiblepath s.orderedcorruptedIR frontiers := by
  unfold getFeasiblePath at h
  split at h
  · cases h
  · next hPath => rw [hPath, ← Option.some.inj h]

/-- Holds of every state whose list and set are in step. -/
theorem pathExact (hInStep : s.InStep) (danOpI : InstRef) : PathExact M s danOpI := by
  have hFilter : feasiblepath s.orderedcorruptedIR (dominantfrontiers M danOpI) =
      s.orderedcorruptedIR.filter (· ∈ dominantfrontiers M danOpI) :=
    feasiblepath_eq_filter (nodup_dominantfrontiers M danOpI)
  constructor
  · exact hFilter
  · rw [hFilter]
    exact hInStep.nodup.filter _
  · intro hFlag
    obtain ⟨path, hPath⟩ := getFeasiblePath_isSome hInStep hFlag
    rw [dominantfrontiers, hPath, getFeasiblePath_eq hPath]

end Path

section Count
variable {M : Module} {s : State} {op : FuncFileLine} {danOpI : InstRef}

/-- An operation is examined at the first instruction of its line, if that lies in a function
with corrupted instructions and has the name of the operation. -/
theorem examined_eq_some : examined M s op = some danOpI ↔
    ((Inst2Int.createMaps M).2.lines op.2).head? = some danOpI ∧
      danOpI.func ∈ corruptedIRFuncSet s ∧ (M.func danOpI.func).name = op.1 := by
  simp [examined, Option.filter_eq_some_iff]

theorem examineOp_of_none (hLines : (Inst2Int.createMaps M).2.lines op.2 ≠ [])
    (h : examined M s op = none) (scan : DominatorScan M) :
    examineOp (Inst2Int.createMaps M).2 s op scan = some scan := by
  obtain ⟨danOpI, rest, hFront⟩ := List.exists_cons_of_ne_nil hLines
  have hNot : ∀ danOpI', examined M s op ≠ some danOpI' := by simp [h]
  simp only [ne_eq, examined_eq_some, hFront, List.head?_cons, Option.some.injEq, not_and] at hNot
  unfold examineOp
  rw [hFront]
  dsimp only
  split
  · rfl
  · next hFunc => rw [if_neg (hNot danOpI rfl (not_not.mp hFunc))]

/-- With a corrupted branch the operation is counted and its path printed. -/
theorem examineOp_of_some (hInStep : s.InStep) (h : examined M s op = some danOpI)
    (scan : DominatorScan M) :
    examineOp (Inst2Int.createMaps M).2 s op scan =
      let scan := { scan with dominatorMap := (scan.dominatorMap.dominators danOpI.func).2 }
      if corruptBranchFlag s (dominatorPrefix M danOpI) then
        some { scan with
          rv := scan.rv + 1
          printed := scan.printed ++
            [⟨op, s.orderedcorruptedIR.filter (· ∈ dominantfrontiers M danOpI)⟩] }
      else some scan := by
  obtain ⟨hHead, hFunc, hName⟩ := examined_eq_some.mp h
  obtain ⟨rest, hFront⟩ := List.head?_eq_some_iff.mp hHead
  unfold examineOp
  rw [hFront]
  simp only [DominatorMap.dominators_fst, hFunc, hName, not_true_eq_false, if_false, if_true]
  rw [← dominatorPrefix, ← dominantfrontiers]
  split
  · next hFlag =>
      have hExact := pathExact (M := M) hInStep danOpI
      rw [hExact.found hFlag, hExact.eq_filter]
  · rfl

/-- One round of the loop prints what belongs on the screen. -/
theorem examineOp_eq (hInStep : s.InStep) (hLines : (Inst2Int.createMaps M).2.lines op.2 ≠ [])
    (scan : DominatorScan M) :
    ∃ scan', examineOp (Inst2Int.createMaps M).2 s op scan = some scan' ∧
      scan'.rv = scan.rv + (behindCorruptedBranch M s op).toNat ∧
      scan'.printed = scan.printed ++ (printedFor M s op).toList := by
  unfold printedFor behindCorruptedBranch
  cases hExamined : examined M s op with
  | none => exact ⟨scan, examineOp_of_none hLines hExamined scan, rfl, by simp⟩
  | some danOpI =>
      rw [examineOp_of_some hInStep hExamined, Option.any_some]
      cases corruptBranchFlag s (dominatorPrefix M danOpI) with
      | false => exact ⟨_, rfl, rfl, by simp⟩
      | true => exact ⟨_, rfl, rfl, rfl⟩

/-- The whole loop. -/
theorem getDominators_eq (hInStep : s.InStep) {danOps : List FuncFileLine}
    (hLines : ∀ op ∈ danOps, (Inst2Int.createMaps M).2.lines op.2 ≠ []) (scan : DominatorScan M) :
    ∃ scan', getDominators (Inst2Int.createMaps M).2 s danOps scan = some scan' ∧
      scan'.rv = scan.rv + danOps.countP (behindCorruptedBranch M s) ∧
      scan'.printed = scan.printed ++ danOps.filterMap (printedFor M s) := by
  induction danOps generalizing scan with
  | nil => exact ⟨scan, rfl, rfl, (List.append_nil _).symm⟩
  | cons op danOps ih =>
      rw [List.forall_mem_cons] at hLines
      obtain ⟨scan₁, hExamine, hRv₁, hPrinted₁⟩ := examineOp_eq hInStep hLines.1 scan
      obtain ⟨scan₂, hRest, hRv₂, hPrinted₂⟩ := ih hLines.2 scan₁
      rw [getDominators, hExamine, Option.bind_some]
      refine ⟨scan₂, hRest, ?_, ?_⟩
      · rw [hRv₂, hRv₁, List.countP_cons, Nat.add_assoc, Nat.add_comm (Bool.toNat _)]
        cases behindCorruptedBranch M s op <;> rfl
      · rw [hPrinted₂, hPrinted₁, List.append_assoc]
        congr 1
        cases hPrint : printedFor M s op <;> simp [hPrint]

end Count

/-- Whatever is replayed, the paths are exact, and every examined operation behind a corrupted
branch is counted. -/
theorem getDominators_pathExact {env : Env} {body : List Env.Site} {head : Env.Site}
    {s₀ s : State} (h : env.replayHead body head s₀ = .ok s) (types : CallTypes)
    (danFuncs : Finset String) (kind : OpKind) (dominatorMap : DominatorMap env.module) :
    (∀ op ∈ (findDangerousOp env.module types danFuncs).ops kind,
      ∀ danOpI ∈ examined env.module s op, PathExact env.module s danOpI) ∧
    ∃ scan, getDominators (Inst2Int.createMaps env.module).2 s
        ((findDangerousOp env.module types danFuncs).ops kind) { dominatorMap := dominatorMap } =
          some scan ∧
      scan.rv = ((findDangerousOp env.module types danFuncs).ops kind).countP
        (behindCorruptedBranch env.module s) ∧
      scan.printed = ((findDangerousOp env.module types danFuncs).ops kind).filterMap
        (printedFor env.module s) := by
  have hInStep : s.InStep := Env.inStep_replayHead h
  refine ⟨fun _ _ danOpI _ => pathExact hInStep danOpI, ?_⟩
  have hLines : ∀ op ∈ (findDangerousOp env.module types danFuncs).ops kind,
      (Inst2Int.createMaps env.module).2.lines op.2 ≠ [] := fun _ hOp => lines_ne_nil hOp
  obtain ⟨scan, hScan, hRv, hPrinted⟩ :=
    getDominators_eq hInStep hLines { dominatorMap := dominatorMap }
  rw [Nat.zero_add] at hRv
  rw [List.nil_append] at hPrinted
  exact ⟨scan, hScan, hRv, hPrinted⟩

/-- `if (c) { p->x = 1;` in line 5 and `p->y = 1; }` in line 6. -/
def ifModule : Module where
  functions := [
    { name := "main"
      blocks := [
        { body := [⟨.load, [.globalVariable 0], some ⟨"a.c", 5⟩⟩]
          terminator := ⟨.br, [.instruction ⟨0, 0, 0⟩, .basicBlock ⟨0, 1⟩, .basicBlock ⟨0, 2⟩],
            some ⟨"a.c", 5⟩⟩
          successors := [1, 2] },
        { body := [⟨.getElementPtr, [.globalVariable 1, .constant 0], some ⟨"a.c", 5⟩⟩,
            ⟨.store, [.constant 1, .instruction ⟨0, 1, 0⟩], some ⟨"a.c", 5⟩⟩,
            ⟨.getElementPtr, [.globalVariable 1, .constant 2], some ⟨"a.c", 6⟩⟩,
            ⟨.store, [.constant 1, .instruction ⟨0, 1, 2⟩], some ⟨"a.c", 6⟩⟩]
          terminator := ⟨.br, [.basicBlock ⟨0, 2⟩], none⟩
          successors := [2] },
        { body := []
          terminator := ⟨.ret, [], none⟩
          successors := [] }] }]

/-- The load of line 5 is replayed, which corrupts the branch of its block. -/
theorem getDominators_pathExact_if : ∃ s,
    Env.replayHead { module := ifModule } [] (0, ⟨0, 0, 0⟩) {} = .ok s ∧
      s.orderedcorruptedIR = [.instruction ⟨0, 0, 0⟩, .instruction ⟨0, 0, 1⟩] ∧
      ∃ scan : DominatorScan ifModule, getDominators (Inst2Int.createMaps ifModule).2 s
          ((findDangerousOp ifModule noTypes ∅).ops .ptr) {} = some scan ∧
        scan.rv = ((findDangerousOp ifModule noTypes ∅).ops .ptr).countP
          (behindCorruptedBranch ifModule s) ∧
        scan.printed = ((findDangerousOp ifModule noTypes ∅).ops .ptr).filterMap
          (printedFor ifModule s) := by
  obtain ⟨s, hReplay, hOrdered⟩ := Exceptions.exists_ok_of_any
    (x := Env.replayHead { module := ifModule } [] (0, ⟨0, 0, 0⟩) {})
    (P := fun s : State =>
      s.orderedcorruptedIR = [.instruction ⟨0, 0, 0⟩, .instruction ⟨0, 0, 1⟩]) (by decide)
  exact ⟨s, hReplay, hOrdered, (getDominators_pathExact hReplay noTypes ∅ .ptr {}).2⟩

end ConAnalysis
