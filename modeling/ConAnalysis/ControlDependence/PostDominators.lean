import Mathlib.Data.List.TakeWhile
import ConAnalysis.Dominators.Compute

/-! Post-dominance, LLVM's tree of it, and control dependence. -/
namespace ConAnalysis.ControlDependence
open IR Dominance

/-- A block without successors leaves the function. -/
def Exit (F : Function) (b : Nat) : Prop := b < F.blocks.length ∧ F.successors b = []

/-- Every path from `b` to an exit passes through `a`: every walk backwards from an
exit to `b` does. -/
def PostDominates (F : Function) (a b : Nat) : Prop :=
  Dominates (fun x y => F.Edge y x) (Exit F) a b

/-- One way to leave `a` leads to `c` in any case, and another one may not. -/
def ControlDependent (F : Function) (a c : Nat) : Prop :=
  ∃ s, F.Edge a s ∧ PostDominates F c s ∧ ¬(PostDominates F c a ∧ c ≠ a)

/-- The blocks from `b` up to the root of a tree, with fuel for the way. -/
def climb (iDom : Nat → Option Nat) : Nat → Nat → List Nat
  | 0, _ => []
  | fuel + 1, b => b :: (iDom b).elim [] (climb iDom fuel)

/-- `PostDominatorTree`: a block without `getIDom` is the root, or a child of the
virtual root, which has no block. It covers the blocks that can reach an exit. The
iteration in post-order visits each of them once. -/
structure PostDominatorTree (F : Function) where
  iDom : Nat → Option Nat
  depth : Nat → Nat
  postOrder : List Nat
  depth_lt : ∀ b p, iDom b = some p → depth p < depth b
  correct : ∀ b < F.blocks.length, ∀ a, a ∈ climb iDom (depth b + 1) b ↔ PostDominates F a b
  postOrder_perm : postOrder.Perm (List.range F.blocks.length)

namespace PostDominatorTree
variable {F : Function} (pdt : PostDominatorTree F)

/-- `cur = pdt[b]; cur; cur = cur->getIDom()`, without the virtual root. -/
def ancestors (b : Nat) : List Nat := climb pdt.iDom (pdt.depth b + 1) b

/-- `pdt.dominates(a, b)`. -/
def dominates (a b : Nat) : Bool := decide (a ∈ pdt.ancestors b)

/-- The virtual root has no block. -/
def findNearestCommonDominator (a b : Nat) : Option Nat :=
  (pdt.ancestors a).find? (· ∈ pdt.ancestors b)

/-- Above its depth, the fuel of a climb does not matter. -/
theorem climb_of_lt {fuel fuel' b : Nat} (h : pdt.depth b < fuel) (h' : pdt.depth b < fuel') :
    climb pdt.iDom fuel b = climb pdt.iDom fuel' b := by
  induction fuel generalizing b fuel' with
  | zero => omega
  | succ fuel ih =>
      obtain ⟨fuel', rfl⟩ : ∃ n, fuel' = n + 1 := ⟨fuel' - 1, by omega⟩
      rw [climb, climb]
      cases hDom : pdt.iDom b with
      | none => rfl
      | some p =>
          have hLt := pdt.depth_lt b p hDom
          rw [Option.elim_some, Option.elim_some]
          exact congrArg (List.cons b) (ih (by omega) (by omega))

/-- The ancestors of a block are itself and those of its immediate post-dominator. -/
theorem ancestors_eq (b : Nat) :
    pdt.ancestors b = b :: (pdt.iDom b).elim [] pdt.ancestors := by
  rw [ancestors, climb]
  cases hDom : pdt.iDom b with
  | none => rfl
  | some p =>
      rw [Option.elim_some, Option.elim_some, ancestors, pdt.climb_of_lt (pdt.depth_lt b p hDom)
        (Nat.lt_succ_self _)]

/-- On the way up the depth decreases. -/
theorem depth_le_of_mem {a b : Nat} (h : a ∈ pdt.ancestors b) : a = b ∨ pdt.depth a < pdt.depth b := by
  induction hDepth : pdt.depth b using Nat.strongRecOn generalizing b with
  | ind n ih =>
      subst hDepth
      rw [ancestors_eq] at h
      rcases List.mem_cons.mp h with rfl | h
      · exact .inl rfl
      · cases hDom : pdt.iDom b with
        | none =>
            rw [hDom] at h
            cases h
        | some p =>
            rw [hDom] at h
            have hLt := pdt.depth_lt b p hDom
            rcases ih _ hLt h rfl with rfl | hLess
            · exact .inr hLt
            · exact .inr (hLess.trans hLt)

/-- No block is met twice on the way to the root, since the depth goes down at each step. -/
theorem nodup_ancestors (b : Nat) : (pdt.ancestors b).Nodup := by
  induction hDepth : pdt.depth b using Nat.strongRecOn generalizing b with
  | ind n ih =>
      subst hDepth
      rw [ancestors_eq]
      cases hDom : pdt.iDom b with
      | none => exact List.nodup_singleton b
      | some p =>
          have hLt := pdt.depth_lt b p hDom
          refine List.nodup_cons.mpr ⟨fun hMem => ?_, ih _ hLt p rfl⟩
          rcases pdt.depth_le_of_mem hMem with rfl | hLess
          · omega
          · omega

/-- From any block on the way up, the way is that of this block. -/
theorem ancestors_split {b l : Nat} {before after : List Nat}
    (h : pdt.ancestors b = before ++ l :: after) : pdt.ancestors l = l :: after := by
  induction before generalizing b with
  | nil =>
      rw [ancestors_eq] at h ⊢
      obtain ⟨rfl, hAfter⟩ := List.cons.inj h
      rw [hAfter]
  | cons first before ih =>
      rw [ancestors_eq] at h
      obtain ⟨rfl, hRest⟩ := List.cons.inj h
      cases hDom : pdt.iDom b with
      | none =>
          rw [hDom] at hRest
          simp at hRest
      | some p =>
          rw [hDom] at hRest
          exact ih hRest

/-- The blocks that `computeDependencies` makes dependent on `a` for the edge to `s`:
`a` itself if it is the nearest common post-dominator, and those on the way up from
`s` below it. -/
def dependents (a s : Nat) : List Nat :=
  if a = s ∨ !pdt.dominates s a then
    (if pdt.findNearestCommonDominator a s = some a then [a] else []) ++
      (pdt.ancestors s).takeWhile fun cur => some cur ≠ pdt.findNearestCommonDominator a s
  else []

variable {pdt}

/-- Behind the nearest common post-dominator, the two ways up are the same. -/
theorem exists_split {a s l : Nat} (h : pdt.findNearestCommonDominator a s = some l) :
    ∃ before before' after, pdt.ancestors a = before ++ l :: after ∧
      pdt.ancestors s = before' ++ l :: after ∧ ∀ c ∈ before, c ∉ pdt.ancestors s := by
  obtain ⟨hMem, before, after, hEq, hBefore⟩ := List.find?_eq_some_iff_append.mp h
  rw [decide_eq_true_eq] at hMem
  obtain ⟨before', after', hEq'⟩ := List.append_of_mem hMem
  have hAfter := (pdt.ancestors_split hEq).symm.trans (pdt.ancestors_split hEq')
  rw [List.cons.injEq] at hAfter
  rw [← hAfter.2] at hEq'
  exact ⟨before, before', after, hEq, hEq', by simpa using hBefore⟩

/-- A block is not above those that are above it. -/
theorem not_mem_ancestors {a s : Nat} (h : s ∈ pdt.ancestors a) (hNe : a ≠ s) :
    a ∉ pdt.ancestors s := by
  intro hMem
  have hLt := (pdt.depth_le_of_mem h).resolve_left hNe.symm
  have hLt' := (pdt.depth_le_of_mem hMem).resolve_left hNe
  omega

/-- Above a block that is above `a` there are only blocks above `a`. -/
theorem mem_ancestors_trans {a s c : Nat} (h : s ∈ pdt.ancestors a) (hc : c ∈ pdt.ancestors s) :
    c ∈ pdt.ancestors a := by
  obtain ⟨before, after, hEq⟩ := List.append_of_mem h
  rw [pdt.ancestors_split hEq] at hc
  rw [hEq]
  exact List.mem_append_right _ hc

/-- In a list without repetitions the part before an element is what `takeWhile` keeps. -/
theorem takeWhile_ne {before after : List Nat} {l : Nat} (h : (before ++ l :: after).Nodup) :
    (before ++ l :: after).takeWhile (fun cur => decide (some cur ≠ some l)) = before := by
  have hNe : ∀ c ∈ before, decide (some c ≠ some l) = true := by
    intro c hc
    rw [decide_eq_true_eq, ne_eq, Option.some.injEq]
    exact (List.nodup_append.mp h).2.2 c hc l List.mem_cons_self
  rw [List.takeWhile_append_of_pos hNe, List.takeWhile_cons_of_neg (by simp), List.append_nil]

/-- A block that is above `s` is its own nearest common post-dominator with `s`. -/
theorem findNearestCommonDominator_of_mem {a s : Nat} (h : a ∈ pdt.ancestors s) :
    pdt.findNearestCommonDominator a s = some a := by
  rw [findNearestCommonDominator, pdt.ancestors_eq a, List.find?_cons_of_pos (by simpa using h)]

/-- The common post-dominator is on the way up from the successor. -/
theorem mem_of_findNearestCommonDominator {a s l : Nat}
    (h : pdt.findNearestCommonDominator a s = some l) : l ∈ pdt.ancestors s := by
  simpa using List.find?_some h

/-- Below the nearest common post-dominator there are the blocks that are above `s`
and not above `a`. -/
theorem mem_takeWhile_common {a s c : Nat} : c ∈ (pdt.ancestors s).takeWhile
      (fun cur => decide (some cur ≠ pdt.findNearestCommonDominator a s)) ↔
    c ∈ pdt.ancestors s ∧ c ∉ pdt.ancestors a := by
  cases hCommon : pdt.findNearestCommonDominator a s with
  | none =>
      have hNone : ∀ c ∈ pdt.ancestors a, c ∉ pdt.ancestors s := by
        simpa using List.find?_eq_none.mp hCommon
      rw [List.takeWhile_eq_self_iff.mpr (by simp)]
      exact (and_iff_left_of_imp fun hMem hAbove => hNone c hAbove hMem).symm
  | some l =>
      obtain ⟨before, before', after, hWay, hWay', hBefore⟩ := exists_split hCommon
      have hNodup := pdt.nodup_ancestors s
      rw [hWay'] at hBefore hNodup ⊢
      rw [hWay, takeWhile_ne hNodup]
      have hDisjoint := (List.nodup_append.mp hNodup).2.2
      constructor
      · intro hc
        refine ⟨List.mem_append_left _ hc, fun hAbove => ?_⟩
        rcases List.mem_append.mp hAbove with hOwn | hShared
        · exact hBefore c hOwn (List.mem_append_left _ hc)
        · exact hDisjoint c hc c hShared rfl
      · rintro ⟨hMem, hNot⟩
        rcases List.mem_append.mp hMem with hc | hShared
        · exact hc
        · exact absurd (List.mem_append_right _ hShared) hNot

/-- They are the blocks on the way up from `s` that are not above `a`. -/
theorem mem_dependents {a s c : Nat} : c ∈ pdt.dependents a s ↔
    c ∈ pdt.ancestors s ∧ ¬(c ∈ pdt.ancestors a ∧ c ≠ a) := by
  have hSelf : a ∈ pdt.ancestors a := by
    rw [ancestors_eq]
    exact List.mem_cons_self
  by_cases hLeft : a ≠ s ∧ s ∈ pdt.ancestors a
  · obtain ⟨hNe, hAbove⟩ := hLeft
    rw [dependents, if_neg (by simp [hNe, dominates, hAbove])]
    refine iff_of_false List.not_mem_nil ?_
    rintro ⟨hMem, hNot⟩
    refine hNot ⟨mem_ancestors_trans hAbove hMem, ?_⟩
    rintro rfl
    exact not_mem_ancestors hAbove hNe hMem
  · have hEdge : a = s ∨ (!pdt.dominates s a) = true := by
      simpa [dominates, Classical.or_iff_not_imp_left] using hLeft
    rw [dependents, if_pos hEdge, List.mem_append, mem_takeWhile_common]
    constructor
    · rintro (hOwn | ⟨hMem, hNot⟩)
      · split at hOwn
        · next hCommon =>
            obtain rfl := List.mem_singleton.mp hOwn
            exact ⟨mem_of_findNearestCommonDominator hCommon, fun h => h.2 rfl⟩
        · cases hOwn
      · exact ⟨hMem, fun h => hNot h.1⟩
    · rintro ⟨hMem, hNot⟩
      by_cases hca : c = a
      · subst hca
        rw [if_pos (findNearestCommonDominator_of_mem hMem)]
        exact .inl (List.mem_singleton_self c)
      · exact .inr ⟨hMem, fun hAbove => hNot ⟨hAbove, hca⟩⟩

variable (pdt) in
/-- The dependents over all ways to leave `a` are the blocks that are control
dependent on it. -/
theorem controlDependent_iff {a c : Nat} :
    ControlDependent F a c ↔ ∃ s, F.Edge a s ∧ c ∈ pdt.dependents a s := by
  refine exists_congr fun s => and_congr_right fun hEdge => ?_
  rw [mem_dependents, ancestors, ancestors, pdt.correct s hEdge.lt.2.1, pdt.correct a hEdge.lt.1]

/-- The tree covers a function only if all its blocks can reach an exit: anything
post-dominates the others. -/
theorem exists_exit (pdt : PostDominatorTree F) {b : Nat} (hLt : b < F.blocks.length) :
    ∃ e, Exit F e ∧ Relation.ReflTransGen F.Edge b e := by
  by_contra hNone
  have hAll : ∀ a, a ∈ pdt.ancestors b := by
    intro a
    refine (pdt.correct b hLt a).mpr fun e hExit visited walk => ?_
    exact absurd ⟨e, hExit, Relation.reflTransGen_swap.mp walk.reachable⟩ hNone
  have hLe := List.le_sum_of_mem (hAll ((pdt.ancestors b).sum + 1))
  omega

end PostDominatorTree
end ConAnalysis.ControlDependence
