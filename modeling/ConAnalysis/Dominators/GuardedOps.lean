import ConAnalysis.Dominators.Exactness
import ConAnalysis.Dominators.PathIntersection

/-! The count of `ConAnalysis::getDominators` against the operations that corrupted branches
guard: the first instruction of a line is asked for all of them. -/
namespace ConAnalysis
open IR Dominance

def EndsWithCorruptedBranch (M : Module) (s : State) (f : FuncRef) (d : Nat) : Prop :=
  ∃ B, (M.func f).blocks[d]? = some B ∧ B.terminator.opcode = .br ∧
    .instruction ⟨f, d, B.body.length⟩ ∈ s.corruptedIR

section Prefix
variable {M : Module} {s : State}

/-- A block that does not hold the operation is visited as a whole. -/
theorem upTo_of_not_mem {danOpI : InstRef} {items : List (InstRef × Instruction)}
    (h : ∀ i, (danOpI, i) ∉ items) : upTo danOpI items = items := by
  induction items with
  | nil => rfl
  | cons item items ih =>
      have hNe : item.1 ≠ danOpI := by
        rintro rfl
        exact h item.2 List.mem_cons_self
      rw [upTo, if_neg hNe, ih fun i hi => h i (List.mem_cons_of_mem _ hi)]

/-- In its own block nothing is visited behind the operation. -/
theorem mem_upTo {danOpI : InstRef} {i : Instruction} {items : List (InstRef × Instruction)}
    (hSorted : items.Pairwise fun a b => a.1.index < b.1.index) (h : (danOpI, i) ∈ items)
    {item : InstRef × Instruction} :
    item ∈ upTo danOpI items ↔
      item ∈ items ∧ (item.1.index < danOpI.index ∨ item = (danOpI, i)) := by
  induction items with
  | nil => cases h
  | cons first items ih =>
      rw [List.pairwise_cons] at hSorted
      rw [upTo]
      split
      · next hEq =>
          have hFirst : first = (danOpI, i) := by
            rcases List.mem_cons.mp h with hFirst | hTail
            · exact hFirst.symm
            · have hLt := hSorted.1 _ hTail
              rw [hEq] at hLt
              exact absurd hLt (Nat.lt_irrefl _)
          subst hFirst
          rw [List.mem_singleton]
          constructor
          · rintro rfl
            exact ⟨List.mem_cons_self, .inr rfl⟩
          · rintro ⟨hMem, hLt | hItem⟩
            · rcases List.mem_cons.mp hMem with hItem | hTail
              · exact hItem
              · exact absurd hLt (Nat.lt_asymm (hSorted.1 _ hTail))
            · exact hItem
      · next hNe =>
          have hTail : (danOpI, i) ∈ items := by
            rcases List.mem_cons.mp h with hFirst | hTail
            · exact absurd (congrArg Prod.fst hFirst).symm hNe
            · exact hTail
          rw [List.mem_cons, List.mem_cons, ih hSorted.2 hTail]
          constructor
          · rintro (rfl | ⟨hMem, hBefore⟩)
            · exact ⟨.inl rfl, .inl (hSorted.1 _ hTail)⟩
            · exact ⟨.inr hMem, hBefore⟩
          · rintro ⟨rfl | hMem, hBefore⟩
            · exact .inl rfl
            · exact .inr ⟨hMem, hBefore⟩

/-- What the loop looks at: the dominating blocks, each up to the operation. -/
theorem mem_dominatorSubset {F : Function} {danOpI : InstRef} {item : InstRef × Instruction} :
    item ∈ dominatorSubset F (dominatorsOf F) danOpI ↔
      ∃ d < F.blocks.length, ComputedDominator F d danOpI.block ∧
        item ∈ upTo danOpI (F.blockInstructions danOpI.func d) := by
  simp only [dominatorSubset, List.mem_flatMap, List.mem_filter, List.mem_range, decide_eq_true_eq,
    and_assoc]
  refine exists_congr fun d => and_congr_right fun hLt => ?_
  rw [mem_dominatorsOf hLt]

/-- The branch belongs to a block of the function. -/
theorem EndsWithCorruptedBranch.lt {f : FuncRef} {d : Nat}
    (h : EndsWithCorruptedBranch M s f d) : d < (M.func f).blocks.length := by
  obtain ⟨B, hBlock, -⟩ := h
  exact (List.getElem?_eq_some_iff.mp hBlock).1

end Prefix

section Loop
variable {M : Module} {s : State}

/-- An operation is printed at most once, and only if it counts. -/
theorem map_op_printedFor (op : FuncFileLine) :
    (printedFor M s op).map DangerousOp.op =
      if behindCorruptedBranch M s op then some op else none := by
  unfold printedFor
  split
  · next hBehind =>
      obtain ⟨danOpI, hExamined, -⟩ := (Option.any_eq_true _ _).mp hBehind
      rw [hExamined]
      rfl
  · rfl

/-- The operations on the screen are those that count, each as often as it is listed. -/
theorem map_op_filterMap_printedFor (danOps : List FuncFileLine) :
    (danOps.filterMap (printedFor M s)).map DangerousOp.op =
      danOps.filter (behindCorruptedBranch M s) := by
  rw [List.map_filterMap, ← List.filterMap_eq_filter]
  congr 1
  funext op
  rw [map_op_printedFor, Option.guard]

end Loop

section Verdict
variable (M : Module) (types : CallTypes) (danFuncs : Finset String) (kind : OpKind) (s : State)
  (f : FuncRef) (op : FuncFileLine)

variable {M types danFuncs kind s f op}

theorem noOrphanEdge_ifModule : NoOrphanEdge (ifModule.func 0) := by
  rintro orphan b ⟨hNe, hLt, hNil⟩
  have hBlocks : orphan < 3 := hLt
  obtain rfl | rfl : orphan = 1 ∨ orphan = 2 := by omega
  · exact absurd hNil (by decide)
  · exact absurd hNil (by decide)

end Verdict
end ConAnalysis
