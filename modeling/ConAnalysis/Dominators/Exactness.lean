import ConAnalysis.Dominators.Compute

/-! When the sets of `computeDominators` are the dominators of the control-flow
graph. -/
namespace ConAnalysis
open IR Dominance

variable {F : Function}

/-- No edge leads from a block without predecessors to a reachable block. -/
def NoOrphanEdge (F : Function) : Prop :=
  ∀ orphan b, F.Orphan orphan → F.Edge orphan b → ¬F.Reachable b

def DominatorsExact (F : Function) (dominators : BB2SetMap) : Prop :=
  ∀ b, F.Reachable b → ∀ d, d ∈ dominators b ↔ Dominates F.Edge (· = 0) d b

/-- Walks from the entry look at live edges only. -/
theorem liveWalk {visited : List Nat} {b : Nat} (walk : Walk F.Edge 0 visited b) :
    Walk (LiveEdge F) 0 visited b := by
  induction walk with
  | nil => exact .nil
  | snoc walk step ih => exact ih.snoc ⟨step, walk.reachable.tail step⟩

/-- A walk that starts at a block without predecessors does not get away from it. -/
theorem eq_of_walk_orphan (hNone : NoOrphanEdge F) {orphan b : Nat} {visited : List Nat}
    (hOrphan : F.Orphan orphan) (walk : Walk (LiveEdge F) orphan visited b) : b = orphan := by
  induction walk with
  | nil => rfl
  | snoc _ step ih =>
      subst ih
      exact absurd step.2 (hNone _ _ hOrphan step.1)

/-- Then the further roots do not matter. -/
theorem dominates_live_iff (hNone : NoOrphanEdge F) {d b : Nat} (hReach : F.Reachable b) :
    Dominates (LiveEdge F) (Root F) d b ↔ Dominates F.Edge (· = 0) d b := by
  constructor
  · rintro hDom _ rfl visited walk
    exact hDom 0 (.inl rfl) visited (liveWalk walk)
  · rintro hDom start (rfl | hOrphan) visited walk
    · exact hDom 0 rfl visited (walk.mono fun a c hLive => hLive.1)
    · obtain rfl := eq_of_walk_orphan hNone hOrphan walk
      exact absurd hReach (orphan_not_reachable hOrphan)

/-- Without an edge from an unreachable block, the computed dominators of a reachable block are
its dominators. -/
theorem computedDominator_iff_dominates (hNone : NoOrphanEdge F) {d b : Nat}
    (hReach : F.Reachable b) : ComputedDominator F d b ↔ Dominates F.Edge (· = 0) d b := by
  rw [ComputedDominator, dominates_live_iff hNone hReach]
  exact ⟨fun hDom => hDom.1 hReach, fun hDom => ⟨fun _ => hDom, fun hNot => absurd hReach hNot⟩⟩

/-- Behind an edge from a block without predecessors, the entry is lost. -/
theorem not_dominates_live_entry {orphan b : Nat} (hOrphan : F.Orphan orphan)
    (hEdge : F.Edge orphan b) (hReach : F.Reachable b) :
    ¬Dominates (LiveEdge F) (Root F) 0 b := by
  intro hDom
  have hEq := (hDom.of_edge ⟨hEdge, hReach⟩ hEdge.lt.2.2.symm).eq_of_root (.inr hOrphan)
  exact hOrphan.1 hEq.symm

/-- Dominators of a reachable block are blocks of the function. -/
theorem lt_of_dominates {d b : Nat} (hReach : F.Reachable b) (hb : b ≠ 0)
    (h : Dominates F.Edge (· = 0) d b) : d < F.blocks.length := by
  obtain ⟨visited, walk⟩ := exists_walk hReach
  have hReachD : F.Reachable d := walk.reachable_of_mem (h 0 rfl visited walk)
  by_cases hd : d = 0
  · have hLt := hReach.lt hb
    omega
  · exact hReachD.lt hd

/-- The loop ends, and its sets are exact if, and only if, no edge leads from a
block without predecessors to a reachable block. -/
theorem computeDominators_exact_iff (F : Function) : ∃ dominators,
    computeDominators F = some dominators ∧ (DominatorsExact F dominators ↔ NoOrphanEdge F) := by
  obtain ⟨dominators, hRun⟩ := Option.isSome_iff_exists.mp (computeDominators_isSome F)
  obtain ⟨hInv, hKeeps⟩ := computeDominators_invariant hRun
  refine ⟨dominators, hRun, ?_, ?_⟩
  · intro hExact orphan b hOrphan hEdge hReach
    have hEntry : 0 ∈ dominators b := (hExact b hReach 0).mpr (dominates_of_only_root b)
    have hLt : 0 < F.blocks.length := Nat.zero_lt_of_lt hEdge.lt.1
    exact not_dominates_live_entry hOrphan hEdge hReach
      ((hInv.mem_iff_dominates hKeeps hReach hLt).mp hEntry)
  · intro hNone b hReach d
    by_cases hb : b = 0
    · subst hb
      rw [hInv.entry, Finset.mem_singleton]
      constructor
      · rintro rfl
        exact dominates_of_only_root 0
      · exact fun hDom => hDom.eq_of_root rfl
    · constructor
      · intro hd
        have hLt := Finset.mem_range.mp (hInv.bounded b hReach hb hd)
        exact (dominates_live_iff hNone hReach).mp
          ((hInv.mem_iff_dominates hKeeps hReach hLt).mp hd)
      · intro hDom
        exact (hInv.mem_iff_dominates hKeeps hReach (lt_of_dominates hReach hb hDom)).mpr
          ((dominates_live_iff hNone hReach).mpr hDom)

def orphanFunction : Function where
  name := "f"
  blocks := [
    { body := []
      terminator := ⟨.br, [.basicBlock ⟨0, 1⟩], none⟩
      successors := [1] },
    { body := []
      terminator := ⟨.ret, [], none⟩
      successors := [] },
    { body := []
      terminator := ⟨.br, [.basicBlock ⟨0, 1⟩], none⟩
      successors := [1] }]

/-- The entry dominates the reachable block 1, but is not in its set. -/
theorem orphanFunction_not_exact : ∃ dominators, computeDominators orphanFunction = some dominators ∧
    dominators 1 = {1} ∧ orphanFunction.Reachable 1 ∧
    Dominates orphanFunction.Edge (· = 0) 0 1 ∧ ¬DominatorsExact orphanFunction dominators := by
  obtain ⟨dominators, hRun⟩ := Option.isSome_iff_exists.mp (computeDominators_isSome orphanFunction)
  have hSet : (computeDominators orphanFunction).map (fun dominators => dominators 1) = some {1} := by
    decide
  have hOne : dominators 1 = {1} := by
    rw [hRun] at hSet
    exact Option.some.inj hSet
  have hReach : orphanFunction.Reachable 1 := .single (by decide : 1 ∈ orphanFunction.successors 0)
  have hDom : Dominates orphanFunction.Edge (· = 0) 0 1 := dominates_of_only_root 1
  refine ⟨dominators, hRun, hOne, hReach, hDom, fun hExact => ?_⟩
  have hEntry := (hExact 1 hReach 0).mpr hDom
  rw [hOne] at hEntry
  exact absurd hEntry (by decide)

end ConAnalysis
