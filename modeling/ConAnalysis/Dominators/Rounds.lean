import ConAnalysis.Dominators.Compute
import Mathlib.Data.Set.Lattice

/-! The rounds of the loop of `ConAnalysis::computeDominators`. -/
namespace ConAnalysis
open IR Dominance Worklist Relation

abbrev DominatorLoop := List Nat × BB2SetMap

variable {F : Function}

def Rounds (F : Function) : DominatorLoop → Prop :=
  ReflTransGen (dominatorSolver F).Round (F.successors 0, initialDominators F)

/-- The block is at the front of the worklist at one time before this loop test. -/
def ProcessedBefore (F : Function) (b : Nat) (c : DominatorLoop) : Prop :=
  ∃ work dominators, Rounds F (b :: work, dominators) ∧
    TransGen (dominatorSolver F).Round (b :: work, dominators) c

/-- Every round that the loop comes to finds the invariant. -/
theorem Rounds.invariant {c : DominatorLoop} (h : Rounds F c) : DominatorInvariant F c.1 c.2 :=
  (dominatorSolver F).rounds_invariant (I := DominatorInvariant F) (fun h hSame => h.same hSame)
    (fun h _ => h.change) (.initially F) h

/-- A round takes blocks away from the sets only. -/
theorem Rounds.shrink {c c' : DominatorLoop} (h : Rounds F c)
    (hRound : (dominatorSolver F).Round c c') (b : Nat) : c'.2 b ⊆ c.2 b := by
  cases hRound with
  | same => exact Finset.Subset.refl _
  | change => exact h.invariant.update_subset b

/-- A block that has been neither processed nor queued has predecessors whose sets are full. -/
theorem Rounds.processed {c : DominatorLoop} (h : Rounds F c) {b : Nat} (hb : b ≠ 0) :
    ProcessedBefore F b c ∨ b ∈ c.1 ∨
      ∀ a, F.Edge a b → F.Reachable a → c.2 a = Finset.range F.blocks.length := by
  induction h with
  | refl =>
      right
      by_cases hEntry : F.Edge 0 b
      · exact .inl hEntry
      · refine .inr fun a hEdge hReachA => hReachA.initialDominators ?_
        rintro rfl
        exact hEntry hEdge
  | @tail c c' prior last ih =>
      rcases ih with ⟨work, dominators, hRounds, hAfter⟩ | hQueued | hFull
      · exact .inl ⟨work, dominators, hRounds, hAfter.tail last⟩
      · cases last with
        | same hSame =>
            rcases List.mem_cons.mp hQueued with rfl | hQueued
            · exact .inl ⟨_, _, prior, .single (.same hSame)⟩
            · exact .inr (.inl hQueued)
        | change hChange =>
            rcases List.mem_cons.mp hQueued with rfl | hQueued
            · exact .inl ⟨_, _, prior, .single (.change hChange)⟩
            · exact .inr (.inl (mem_pushNew.mpr (.inr hQueued)))
      · cases last with
        | same => exact .inr (.inr hFull)
        | @change Z work dominators hChange =>
            right
            by_cases hEdge : F.Edge Z b
            · refine .inl (mem_pushNew.mpr (.inl ?_))
              exact List.mem_filter.mpr ⟨hEdge, by simpa using hb⟩
            · refine .inr fun a ha hReachA => ?_
              have hNe : a ≠ Z := by
                rintro rfl
                exact hEdge ha
              exact (Function.update_of_ne hNe _ _).trans (hFull a ha hReachA)

/-- The equation of a block, with the sets as sets. -/
theorem coe_intersectDominators {dominators : BB2SetMap} {b : Nat} (h : F.predecessors b ≠ []) :
    (intersectDominators F dominators b : Set Nat) =
      insert b (⋂ P ∈ F.predecessors b, (dominators P : Set Nat)) := by
  ext d
  rw [Finset.mem_coe, mem_intersectDominators h, Set.mem_insert_iff, Set.mem_iInter₂]
  simp only [Function.mem_predecessors, Finset.mem_coe]

/-- The loop ends; on the way every block that the entry leads to is processed and no set gains
a block; and the sets it ends with solve the equations. The entry, to which no edge leads, has
its set before the loop. -/
theorem computeDominators_rounds (F : Function) : ∃ dominators,
    computeDominators F = some dominators ∧ Rounds F ([], dominators) ∧
      (∀ b, TransGen F.Edge 0 b → ProcessedBefore F b ([], dominators)) ∧
      (∀ c c', Rounds F c → (dominatorSolver F).Round c c' → ∀ b, c'.2 b ⊆ c.2 b) ∧
      dominators 0 = {0} ∧
      ∀ b, F.Reachable b → b ≠ 0 → (dominators b : Set Nat) =
        insert b (⋂ P ∈ F.predecessors b, (dominators P : Set Nat)) := by
  obtain ⟨dominators, hRun⟩ := Option.isSome_iff_exists.mp (computeDominators_isSome F)
  have hRounds : Rounds F ([], dominators) := (dominatorSolver F).rounds_of_run hRun
  have hInv := hRounds.invariant
  refine ⟨dominators, hRun, hRounds, ?_, fun _ _ => Rounds.shrink, hInv.entry, ?_⟩
  · intro b hPath
    have hReach : F.Reachable b := hPath.to_reflTransGen
    have hb : b ≠ 0 := by
      obtain ⟨a, -, hEdge⟩ := TransGen.tail'_iff.mp hPath
      exact hEdge.lt.2.2
    rcases hRounds.processed hb with hProcessed | hQueued | hFull
    · exact hProcessed
    · cases hQueued
    · obtain ⟨a, hEdge, hReachA, hNot⟩ := hInv.exists_not_full hReach hb
      exact absurd (hFull a hEdge hReachA) hNot
  · intro b hReach hb
    rw [← coe_intersectDominators (hReach.predecessors_ne_nil hb)]
    exact congrArg _ (hInv.equation hReach hb)

end ConAnalysis
