import ConAnalysis.IR.Module
import ConAnalysis.Library.Dominance
import ConAnalysis.Library.Worklist
import Mathlib.Algebra.BigOperators.Group.Finset.Basic
import Mathlib.Algebra.GroupWithZero.Nat
import Mathlib.Algebra.Order.BigOperators.Group.Finset
import Mathlib.Data.Finset.Card
import Mathlib.Data.Finset.Range

/-! `ConAnalysis::computeDominators`. Blocks are named by their place in the
layout; the entry block is number 0. -/
namespace ConAnalysis
open IR Dominance Worklist

namespace IR.Function
variable (F : Function)

/-- `succ_begin(b)` to `succ_end(b)`. -/
def successors (b : Nat) : List Nat := (F.blocks[b]?).elim [] BasicBlock.successors

/-- `pred_begin(b)` to `pred_end(b)`. Order and repetition do not matter. -/
def predecessors (b : Nat) : List Nat :=
  (List.range F.blocks.length).filter fun p => b ∈ F.successors p

def Edge (a b : Nat) : Prop := b ∈ F.successors a

variable {F}

/-- Edges lead from blocks of the function to blocks of the function, and none to the entry. -/
theorem Edge.lt {a b : Nat} (h : F.Edge a b) : a < F.blocks.length ∧ b < F.blocks.length ∧ b ≠ 0 := by
  unfold Edge successors at h
  cases hBlock : F.blocks[a]? with
  | none => simp [hBlock] at h
  | some B =>
      rw [hBlock, Option.elim_some] at h
      have hMem := List.mem_of_getElem? hBlock
      refine ⟨(List.getElem?_eq_some_iff.mp hBlock).1, F.successors_lt B hMem b h, ?_⟩
      rintro rfl
      exact F.entry_first B hMem h

/-- `predecessors` lists the blocks that an edge leads from. -/
theorem mem_predecessors {p b : Nat} : p ∈ F.predecessors b ↔ F.Edge p b := by
  rw [predecessors, List.mem_filter, List.mem_range, decide_eq_true_eq]
  exact ⟨fun h => h.2, fun h => ⟨h.lt.1, h⟩⟩

/-- Reachable from the entry. -/
def Reachable (F : Function) (b : Nat) : Prop := Relation.ReflTransGen F.Edge 0 b

/-- A block other than the entry without predecessors. -/
def Orphan (F : Function) (b : Nat) : Prop :=
  b ≠ 0 ∧ b < F.blocks.length ∧ F.predecessors b = []

/-- A reachable block other than the entry is entered from somewhere. -/
theorem Reachable.predecessors_ne_nil {b : Nat} (h : F.Reachable b) (hb : b ≠ 0) :
    F.predecessors b ≠ [] := by
  rcases h.cases_tail with rfl | ⟨p, -, hEdge⟩
  · exact absurd rfl hb
  · exact List.ne_nil_of_mem (mem_predecessors.mpr hEdge)

theorem Reachable.lt {b : Nat} (h : F.Reachable b) (hb : b ≠ 0) : b < F.blocks.length := by
  rcases h.cases_tail with rfl | ⟨p, -, hEdge⟩
  · exact absurd rfl hb
  · exact hEdge.lt.2.1

end IR.Function

/-- `BB2SetMap`: a block that is no key has the empty set. -/
abbrev BB2SetMap := Nat → Finset Nat

/-- All blocks for a block with predecessors, and the block itself otherwise. -/
def initialDominators (F : Function) : BB2SetMap := fun b =>
  if b = 0 then {0}
  else if b < F.blocks.length then
    if F.predecessors b = [] then {b} else Finset.range F.blocks.length
  else ∅

/-- `intersects` for one block of the worklist. Such a block is a successor, so
it has predecessors. -/
def intersectDominators (F : Function) (dominators : BB2SetMap) (Z : Nat) : Finset Nat :=
  match F.predecessors Z with
  | [] => {Z}
  | P :: Ps =>
      insert Z ((P :: Ps).foldl (fun intersects P => (dominators P).filter (· ∈ intersects))
        (dominators P))

/-- The equations that the worklist solves. The entry is not queued again. -/
def dominatorSolver (F : Function) : Solver Nat (Finset Nat) where
  transfer := intersectDominators F
  dependents Z := (F.successors Z).filter (· ≠ 0)

/-- More successors than any block has. -/
def successorBound (F : Function) : Nat := (F.blocks.map fun B => B.successors.length).sum

def computeDominators (F : Function) : Option BB2SetMap :=
  (dominatorSolver F).run
    ((successorBound F + 1) * (F.blocks.length * F.blocks.length) + (F.successors 0).length)
    (F.successors 0) (initialDominators F)

/-- The loop over the predecessors intersects their sets with what it starts from. -/
theorem mem_foldl_filter {dominators : BB2SetMap} {Ps : List Nat} {start : Finset Nat} {d : Nat} :
    d ∈ Ps.foldl (fun intersects P => (dominators P).filter (· ∈ intersects)) start ↔
      d ∈ start ∧ ∀ P ∈ Ps, d ∈ dominators P := by
  induction Ps generalizing start with
  | nil => simp
  | cons P Ps ih =>
      rw [List.foldl_cons, ih, Finset.mem_filter, List.forall_mem_cons]
      tauto

/-- A block of the worklist keeps itself and what all its predecessors have. -/
theorem mem_intersectDominators {F : Function} {dominators : BB2SetMap} {Z d : Nat}
    (h : F.predecessors Z ≠ []) : d ∈ intersectDominators F dominators Z ↔
      d = Z ∨ ∀ P, F.Edge P Z → d ∈ dominators P := by
  simp only [← Function.mem_predecessors]
  unfold intersectDominators
  cases hPreds : F.predecessors Z with
  | nil => exact absurd hPreds h
  | cons P Ps =>
      simp only
      rw [Finset.mem_insert, mem_foldl_filter]
      exact or_congr_right ⟨fun hMem => hMem.2, fun hMem => ⟨hMem P List.mem_cons_self, hMem⟩⟩

/-- What holds whenever the loop test is made. -/
structure DominatorInvariant (F : Function) (work : List Nat) (dominators : BB2SetMap) : Prop where
  queued : ∀ b ∈ work, b ≠ 0 ∧ F.Reachable b
  entry : dominators 0 = {0}
  unreachable : ∀ b, ¬F.Reachable b → dominators b = initialDominators F b
  bounded : ∀ b, F.Reachable b → b ≠ 0 → dominators b ⊆ Finset.range F.blocks.length
  shrinks : ∀ b, F.Reachable b → b ≠ 0 → intersectDominators F dominators b ⊆ dominators b
  handedOn : ∀ a b, F.Edge a b → F.Reachable a → b ∈ work ∨ dominators b ⊆ insert b (dominators a)
  solved : ∀ b, F.Reachable b → b ≠ 0 → b ∈ work ∨
    dominators b = intersectDominators F dominators b ∨
    ∀ a, F.Edge a b → F.Reachable a → dominators a = Finset.range F.blocks.length

theorem initialDominators_of_predecessors {F : Function} {b : Nat} (hb : b ≠ 0)
    (hLt : b < F.blocks.length) (hPreds : F.predecessors b ≠ []) :
    initialDominators F b = Finset.range F.blocks.length := by
  rw [initialDominators, if_neg hb, if_pos hLt, if_neg hPreds]

theorem IR.Function.Reachable.initialDominators {F : Function} {b : Nat} (h : F.Reachable b)
    (hb : b ≠ 0) : initialDominators F b = Finset.range F.blocks.length :=
  initialDominators_of_predecessors hb (h.lt hb) (h.predecessors_ne_nil hb)

theorem initialDominators_subset {F : Function} {b : Nat} (hb : b ≠ 0) :
    initialDominators F b ⊆ Finset.range F.blocks.length := by
  rw [initialDominators, if_neg hb]
  split
  · next hLt =>
      split
      · exact Finset.singleton_subset_iff.mpr (Finset.mem_range.mpr hLt)
      · exact Finset.Subset.refl _
  · exact Finset.empty_subset _

/-- What the predecessors share, each of them has. -/
theorem intersectDominators_subset {F : Function} {dominators : BB2SetMap} {a b : Nat}
    (hEdge : F.Edge a b) : intersectDominators F dominators b ⊆ insert b (dominators a) := by
  intro d hd
  rw [mem_intersectDominators (List.ne_nil_of_mem (Function.mem_predecessors.mpr hEdge))] at hd
  exact Finset.mem_insert.mpr (hd.imp_right fun hAll => hAll a hEdge)

namespace DominatorInvariant
variable {F : Function} {work : List Nat} {dominators : BB2SetMap}

/-- The first test of the loop finds the successors of the entry on the worklist. -/
theorem initially (F : Function) :
    DominatorInvariant F (F.successors 0) (initialDominators F) where
  queued b hb := ⟨(Function.Edge.lt hb).2.2, .single hb⟩
  entry := rfl
  unreachable _ _ := rfl
  bounded b _ hb := initialDominators_subset hb
  shrinks b hReach hb := by
    rw [hReach.initialDominators hb]
    intro d hd
    rcases (mem_intersectDominators (hReach.predecessors_ne_nil hb)).mp hd with rfl | hd
    · exact Finset.mem_range.mpr (hReach.lt hb)
    · obtain ⟨p, hp⟩ := List.exists_mem_of_ne_nil _ (hReach.predecessors_ne_nil hb)
      have hEdge := Function.mem_predecessors.mp hp
      have hMem := hd p hEdge
      by_cases hEntry : p = 0
      · subst hEntry
        rw [initialDominators, if_pos rfl, Finset.mem_singleton] at hMem
        rw [hMem]
        exact Finset.mem_range.mpr hEdge.lt.1
      · exact initialDominators_subset hEntry hMem
  handedOn a b hEdge hReach := by
    by_cases ha : a = 0
    · subst ha
      exact .inl hEdge
    · right
      rw [hReach.initialDominators ha]
      exact (initialDominators_subset hEdge.lt.2.2).trans (Finset.subset_insert _ _)
  solved b hReach hb := by
    by_cases hEntry : F.Edge 0 b
    · exact .inl hEntry
    · refine .inr (.inr ?_)
      intro a hEdge hReachA
      refine hReachA.initialDominators ?_
      rintro rfl
      exact hEntry hEdge

/-- A block whose set does not change is solved. -/
theorem same {Z : Nat} (h : DominatorInvariant F (Z :: work) dominators)
    (hSame : intersectDominators F dominators Z = dominators Z) :
    DominatorInvariant F work dominators where
  queued b hb := h.queued b (List.mem_cons_of_mem _ hb)
  entry := h.entry
  unreachable := h.unreachable
  bounded := h.bounded
  shrinks := h.shrinks
  handedOn a b hEdge hReach := by
    rcases h.handedOn a b hEdge hReach with hMem | hSub
    · rcases List.mem_cons.mp hMem with rfl | hMem
      · right
        rw [← hSame]
        exact intersectDominators_subset hEdge
      · exact .inl hMem
    · exact .inr hSub
  solved b hReach hb := by
    rcases h.solved b hReach hb with hMem | hRest
    · rcases List.mem_cons.mp hMem with rfl | hMem
      · exact .inr (.inl hSame.symm)
      · exact .inl hMem
    · exact .inr hRest

/-- Looking at a block takes blocks away from its set only. -/
theorem update_subset {Z : Nat} (h : DominatorInvariant F (Z :: work) dominators) (b : Nat) :
    Function.update dominators Z (intersectDominators F dominators Z) b ⊆ dominators b := by
  obtain ⟨hZ, hReachZ⟩ := h.queued Z List.mem_cons_self
  by_cases hb : b = Z
  · subst hb
    rw [Function.update_self]
    exact h.shrinks b hReachZ hZ
  · rw [Function.update_of_ne hb]

/-- A block whose set changes has it shrink, and its successors are queued. -/
theorem change {Z : Nat} (h : DominatorInvariant F (Z :: work) dominators) :
    DominatorInvariant F (pushNew ((dominatorSolver F).dependents Z) work)
      (Function.update dominators Z (intersectDominators F dominators Z)) := by
  obtain ⟨hZ, hReachZ⟩ := h.queued Z List.mem_cons_self
  have hQueue : ∀ b, b ∈ pushNew ((dominatorSolver F).dependents Z) work ↔
      F.Edge Z b ∨ b ∈ work := by
    intro b
    rw [mem_pushNew, dominatorSolver, List.mem_filter, decide_eq_true_eq]
    exact or_congr_left ⟨fun hb => hb.1, fun hEdge => ⟨hEdge, Function.Edge.lt hEdge |>.2.2⟩⟩
  have hMono : ∀ b, F.predecessors b ≠ [] →
      intersectDominators F (Function.update dominators Z (intersectDominators F dominators Z)) b ⊆
        intersectDominators F dominators b := by
    intro b hb d hd
    rw [mem_intersectDominators hb] at hd ⊢
    exact hd.imp_right fun hAll P hEdge => h.update_subset P (hAll P hEdge)
  constructor
  case queued =>
    intro b hb
    rcases (hQueue b).mp hb with hEdge | hb
    · exact ⟨hEdge.lt.2.2, hReachZ.tail hEdge⟩
    · exact h.queued b (List.mem_cons_of_mem _ hb)
  case entry =>
    rw [Function.update_of_ne hZ.symm, h.entry]
  case unreachable =>
    intro b hb
    rw [Function.update_of_ne (by rintro rfl; exact hb hReachZ), h.unreachable b hb]
  case bounded =>
    exact fun b hReach hb => (h.update_subset b).trans (h.bounded b hReach hb)
  case shrinks =>
    intro b hReach hb
    refine (hMono b (hReach.predecessors_ne_nil hb)).trans ?_
    by_cases hEq : b = Z
    · subst hEq
      rw [Function.update_self]
    · rw [Function.update_of_ne hEq]
      exact h.shrinks b hReach hb
  case handedOn =>
    intro a b hEdge hReach
    by_cases ha : a = Z
    · subst ha
      exact .inl ((hQueue b).mpr (.inl hEdge))
    · rw [Function.update_of_ne ha]
      by_cases hb : b = Z
      · subst hb
        right
        rw [Function.update_self]
        exact intersectDominators_subset hEdge
      · rw [Function.update_of_ne hb]
        rcases h.handedOn a b hEdge hReach with hMem | hSub
        · exact .inl ((hQueue b).mpr (.inr ((List.mem_cons.mp hMem).resolve_left hb)))
        · exact .inr hSub
  case solved =>
    intro b hReach hb
    by_cases hEdge : F.Edge Z b
    · exact .inl ((hQueue b).mpr (.inl hEdge))
    · -- the sets of the predecessors of `b` have not changed
      have hKept : ∀ a, F.Edge a b →
          Function.update dominators Z (intersectDominators F dominators Z) a = dominators a := by
        intro a ha
        rw [Function.update_of_ne (by rintro rfl; exact hEdge ha)]
      have hSame : intersectDominators F
          (Function.update dominators Z (intersectDominators F dominators Z)) b =
            intersectDominators F dominators b := by
        ext d
        rw [mem_intersectDominators (hReach.predecessors_ne_nil hb),
          mem_intersectDominators (hReach.predecessors_ne_nil hb)]
        exact or_congr_right (forall₂_congr fun a ha => by rw [hKept a ha])
      by_cases hEq : b = Z
      · subst hEq
        exact .inr (.inl (by rw [hSame, Function.update_self]))
      · rw [Function.update_of_ne hEq, hSame]
        rcases h.solved b hReach hb with hMem | hEqn | hAll
        · exact .inl ((hQueue b).mpr (.inr ((List.mem_cons.mp hMem).resolve_left hEq)))
        · exact .inr (.inl hEqn)
        · exact .inr (.inr fun a ha hReachA => by rw [hKept a ha]; exact hAll a ha hReachA)

end DominatorInvariant

/-- Where a walk of the computed dominance may start: at the entry, or at a
block without predecessors, whose set is never anything but the block itself. -/
def Root (F : Function) (b : Nat) : Prop := b = 0 ∨ F.Orphan b

/-- The edges the worklist looks at are those into reachable blocks. -/
def LiveEdge (F : Function) (a b : Nat) : Prop := F.Edge a b ∧ F.Reachable b

/-- A block without predecessors can be reached only if it is the entry. -/
theorem orphan_not_reachable {F : Function} {b : Nat} (h : F.Orphan b) : ¬F.Reachable b :=
  fun hReach => hReach.predecessors_ne_nil h.1 h.2.2

/-- The sets never lose a block that all live walks pass through. -/
def KeepsDominators (F : Function) (dominators : BB2SetMap) : Prop :=
  ∀ b, F.Reachable b → ∀ d < F.blocks.length, Dominates (LiveEdge F) (Root F) d b → d ∈ dominators b

/-- Full sets contain every dominator, and the entry has no other than itself. -/
theorem keepsDominators_initially (F : Function) : KeepsDominators F (initialDominators F) := by
  intro b hReach d hLt hDom
  by_cases hb : b = 0
  · subst hb
    rw [hDom.eq_of_root (.inl rfl), initialDominators, if_pos rfl]
    exact Finset.mem_singleton_self 0
  · rw [hReach.initialDominators hb]
    exact Finset.mem_range.mpr hLt

/-- Step lemma: a dominator of a block dominates every predecessor that counts, or is the block
itself, so the intersection keeps it. -/
theorem DominatorInvariant.keepsDominators {F : Function} {work : List Nat}
    {dominators : BB2SetMap} {Z : Nat} (h : DominatorInvariant F (Z :: work) dominators)
    (hKeeps : KeepsDominators F dominators) :
    KeepsDominators F (Function.update dominators Z (intersectDominators F dominators Z)) := by
  obtain ⟨hZ, hReachZ⟩ := h.queued Z List.mem_cons_self
  intro b hReach d hLt hDom
  by_cases hb : b = Z
  · subst hb
    rw [Function.update_self, mem_intersectDominators (hReach.predecessors_ne_nil hZ)]
    by_cases hEq : d = b
    · exact .inl hEq
    · right
      intro P hEdge
      have hDomP := hDom.of_edge ⟨hEdge, hReach⟩ hEq
      by_cases hReachP : F.Reachable P
      · exact hKeeps P hReachP d hLt hDomP
      · have hP : P ≠ 0 := by
          rintro rfl
          exact hReachP .refl
        rw [h.unreachable P hReachP]
        by_cases hPreds : F.predecessors P = []
        · rw [hDomP.eq_of_root (.inr ⟨hP, hEdge.lt.1, hPreds⟩), initialDominators, if_neg hP,
            if_pos hEdge.lt.1, if_pos hPreds]
          exact Finset.mem_singleton_self P
        · rw [initialDominators_of_predecessors hP hEdge.lt.1 hPreds]
          exact Finset.mem_range.mpr hLt
  · rw [Function.update_of_ne hb]
    exact hKeeps b hReach d hLt hDom

def LoopInvariant (F : Function) (work : List Nat) (dominators : BB2SetMap) : Prop :=
  DominatorInvariant F work dominators ∧ KeepsDominators F dominators

/-- A round that changes nothing only shortens the worklist. -/
theorem LoopInvariant.same {F : Function} {Z : Nat} {work : List Nat} {dominators : BB2SetMap}
    (h : LoopInvariant F (Z :: work) dominators)
    (hSame : (dominatorSolver F).transfer dominators Z = dominators Z) :
    LoopInvariant F work dominators := ⟨h.1.same hSame, h.2⟩

/-- A round that shrinks a set puts its successors on the worklist. -/
theorem LoopInvariant.change {F : Function} {Z : Nat} {work : List Nat} {dominators : BB2SetMap}
    (h : LoopInvariant F (Z :: work) dominators) :
    LoopInvariant F (pushNew ((dominatorSolver F).dependents Z) work)
      (Function.update dominators Z ((dominatorSolver F).transfer dominators Z)) :=
  ⟨h.1.change, h.1.keepsDominators h.2⟩

/-- The blocks that are still in some set. A change takes at least one away. -/
def potential (F : Function) (dominators : BB2SetMap) : Nat :=
  ∑ b ∈ Finset.range F.blocks.length, (dominators b).card

/-- Why the loop ends: a set that changes gets smaller. -/
theorem potential_update_lt {F : Function} {Z : Nat} {work : List Nat} {dominators : BB2SetMap}
    (h : DominatorInvariant F (Z :: work) dominators)
    (hChange : intersectDominators F dominators Z ≠ dominators Z) :
    potential F (Function.update dominators Z (intersectDominators F dominators Z)) <
      potential F dominators := by
  obtain ⟨hZ, hReachZ⟩ := h.queued Z List.mem_cons_self
  have hShrink := h.shrinks Z hReachZ hZ
  refine Finset.sum_lt_sum ?_ ⟨Z, Finset.mem_range.mpr (hReachZ.lt hZ), ?_⟩
  · exact fun b _ => Finset.card_le_card (h.update_subset b)
  · rw [Function.update_self]
    exact Finset.card_lt_card (lt_of_le_of_ne hShrink hChange)

/-- No more than all successors of one block are pushed in a round. -/
theorem dependents_length_le (F : Function) (Z : Nat) :
    ((dominatorSolver F).dependents Z).length ≤ successorBound F := by
  refine (List.length_filter_le _ _).trans ?_
  unfold Function.successors successorBound
  cases hBlock : F.blocks[Z]? with
  | none => simp
  | some B =>
      exact List.le_sum_of_mem (List.mem_map.mpr ⟨B, List.mem_of_getElem? hBlock, rfl⟩)

/-- Each of the sets starts with no more than all blocks. -/
theorem potential_initial_le (F : Function) :
    potential F (initialDominators F) ≤ F.blocks.length * F.blocks.length := by
  have hCard : ∀ b ∈ Finset.range F.blocks.length,
      (initialDominators F b).card ≤ F.blocks.length := by
    intro b hb
    rw [Finset.mem_range] at hb
    by_cases hEntry : b = 0
    · rw [initialDominators, if_pos hEntry, Finset.card_singleton]
      omega
    · calc (initialDominators F b).card
          ≤ (Finset.range F.blocks.length).card :=
            Finset.card_le_card (initialDominators_subset hEntry)
        _ = F.blocks.length := Finset.card_range _
  calc potential F (initialDominators F)
      ≤ (Finset.range F.blocks.length).card * F.blocks.length :=
        Finset.sum_le_card_nsmul _ _ _ hCard
    _ = F.blocks.length * F.blocks.length := by rw [Finset.card_range]

/-- The worklist runs empty. -/
theorem computeDominators_isSome (F : Function) : (computeDominators F).isSome = true := by
  have hChange : ∀ {Z work dominators}, LoopInvariant F (Z :: work) dominators →
      (dominatorSolver F).transfer dominators Z ≠ dominators Z →
      LoopInvariant F (pushNew ((dominatorSolver F).dependents Z) work)
        (Function.update dominators Z ((dominatorSolver F).transfer dominators Z)) ∧
      potential F (Function.update dominators Z ((dominatorSolver F).transfer dominators Z)) <
        potential F dominators :=
    fun h hNe => ⟨h.change, potential_update_lt h.1 hNe⟩
  refine (dominatorSolver F).run_isSome (I := LoopInvariant F) LoopInvariant.same hChange
    (dependents_length_le F) ⟨.initially F, keepsDominators_initially F⟩ ?_
  have hBound := Nat.mul_le_mul_left (successorBound F + 1) (potential_initial_le F)
  omega

/-- What the loop ends with satisfies the invariant for an empty worklist. -/
theorem computeDominators_invariant {F : Function} {dominators : BB2SetMap}
    (h : computeDominators F = some dominators) : LoopInvariant F [] dominators :=
  (dominatorSolver F).run_invariant (I := LoopInvariant F) LoopInvariant.same
    (fun h _ => h.change) ⟨.initially F, keepsDominators_initially F⟩ h

namespace DominatorInvariant
variable {F : Function} {dominators : BB2SetMap}

/-- At the end an edge into a reachable block hands on all but the block. -/
theorem subset_of_edge (h : DominatorInvariant F [] dominators) {a b : Nat} (hEdge : F.Edge a b)
    (hReach : F.Reachable a) : dominators b ⊆ insert b (dominators a) :=
  (h.handedOn a b hEdge hReach).resolve_left (List.not_mem_nil)

/-- No set holds more than what any one walk from the entry visits. -/
theorem mem_visited (h : DominatorInvariant F [] dominators) {visited : List Nat} {b d : Nat}
    (walk : Walk F.Edge 0 visited b) (hd : d ∈ dominators b) : d ∈ visited := by
  induction walk with
  | nil =>
      rw [h.entry] at hd
      simpa using hd
  | snoc walk step ih =>
      rcases Finset.mem_insert.mp (h.subset_of_edge step walk.reachable hd) with rfl | hd
      · exact List.mem_cons_self
      · exact List.mem_cons_of_mem _ (ih hd)

/-- At the end some predecessor has lost a block. -/
theorem exists_not_full (h : DominatorInvariant F [] dominators) {b : Nat} (hReach : F.Reachable b)
    (hb : b ≠ 0) : ∃ a, F.Edge a b ∧ F.Reachable a ∧
      dominators a ≠ Finset.range F.blocks.length := by
  -- where a walk enters `b` for the first time, `b` has not been visited
  obtain ⟨visited, walk⟩ := exists_walk hReach
  obtain ⟨before, a, hWalk, hEdge, hNew⟩ := walk.exists_entering walk.mem hb
  refine ⟨a, hEdge, hWalk.reachable, fun hFull => hNew (h.mem_visited hWalk ?_)⟩
  rw [hFull]
  exact Finset.mem_range.mpr (hReach.lt hb)

/-- At the end the equations hold at all reachable blocks, also at one whose
set has never changed. -/
theorem equation (h : DominatorInvariant F [] dominators) {b : Nat} (hReach : F.Reachable b)
    (hb : b ≠ 0) : dominators b = intersectDominators F dominators b := by
  rcases h.solved b hReach hb with hMem | hEqn | hAll
  · cases hMem
  · exact hEqn
  · obtain ⟨a, hEdge, hReachA, hNot⟩ := h.exists_not_full hReach hb
    exact absurd (hAll a hEdge hReachA) hNot

/-- What the set of a reachable block holds at the end. -/
theorem mem_iff_dominates (h : DominatorInvariant F [] dominators)
    (hKeeps : KeepsDominators F dominators) {b d : Nat} (hReach : F.Reachable b)
    (hLt : d < F.blocks.length) :
    d ∈ dominators b ↔ Dominates (LiveEdge F) (Root F) d b := by
  constructor
  · intro hd
    refine dominates_of_mem (D := fun c => {d | d ∈ dominators c}) ?_ ?_ hd
    · rintro r (rfl | hOrphan) d hd
      · rwa [Set.mem_ofPred_eq, h.entry, Finset.mem_singleton] at hd
      · rw [Set.mem_ofPred_eq, h.unreachable r (orphan_not_reachable hOrphan), initialDominators,
          if_neg hOrphan.1, if_pos hOrphan.2.1, if_pos hOrphan.2.2, Finset.mem_singleton] at hd
        exact hd
    · rintro a c ⟨hEdge, hReach⟩ d hd
      rw [Set.mem_ofPred_eq, h.equation hReach hEdge.lt.2.2,
        mem_intersectDominators (hReach.predecessors_ne_nil hEdge.lt.2.2)] at hd
      exact hd.imp_right fun hAll => hAll a hEdge
  · exact hKeeps b hReach d hLt

end DominatorInvariant

/-- What `computeDominators` answers about a block `b`: for a reachable block the
dominators in the graph that may also be entered at the blocks without
predecessors, and otherwise what was there initially. -/
def ComputedDominator (F : Function) (d b : Nat) : Prop :=
  (F.Reachable b → Dominates (LiveEdge F) (Root F) d b) ∧
    (¬F.Reachable b → d ∈ initialDominators F b)

/-- The result in terms of the graph alone, where blocks that cannot be reached take part as
predecessors. -/
theorem mem_computeDominators {F : Function} {dominators : BB2SetMap}
    (h : computeDominators F = some dominators) {d b : Nat} (hLt : d < F.blocks.length) :
    d ∈ dominators b ↔ ComputedDominator F d b := by
  obtain ⟨hInv, hKeeps⟩ := computeDominators_invariant h
  by_cases hReach : F.Reachable b
  · rw [hInv.mem_iff_dominates hKeeps hReach hLt]
    exact ⟨fun hDom => ⟨fun _ => hDom, fun hNot => absurd hReach hNot⟩, fun hDom => hDom.1 hReach⟩
  · rw [hInv.unreachable b hReach]
    exact ⟨fun hMem => ⟨fun hIs => absurd hIs hReach, fun _ => hMem⟩, fun hDom => hDom.2 hReach⟩

end ConAnalysis
