import ConAnalysis.IR.Module
import Mathlib.Data.Finset.Basic

/-! The loops that `LoopInfo` finds, and `SyncLoop::checkLoop`, which looks for the one
that the racing read lies in. -/
namespace ConAnalysis.SyncLoop
open IR

/-- `Loop`: its blocks, and the loops directly inside it. -/
inductive Loop where
  | mk (blocks : List BlockRef) (subLoops : List Loop)

namespace Loop

def blocks : Loop → List BlockRef
  | .mk blocks _ => blocks

def getSubLoops : Loop → List Loop
  | .mk _ subLoops => subLoops

inductive Nested (L : Loop) : Loop → Prop where
  | refl : Nested L L
  | sub {inner subLoop : Loop} (outer : Nested L inner) (hSub : subLoop ∈ inner.getSubLoops) :
      Nested L subLoop

theorem Nested.trans {L inner innermost : Loop} (h₁ : L.Nested inner)
    (h₂ : inner.Nested innermost) : L.Nested innermost := by
  induction h₂ with
  | refl => exact h₁
  | sub _ hSub ih => exact ih.sub hSub

end Loop

def successors (M : Module) (BB : BlockRef) : List BlockRef :=
  (((M.func BB.func).blocks[BB.block]?).map BasicBlock.successors).getD [] |>.map (⟨BB.func, ·⟩)

/-- What the pass relies on of `LoopInfo`: the outermost loops of each function, whose
block lists include the blocks of their subloops, and the test for exits. -/
structure LoopInfo (M : Module) where
  loops : FuncRef → List Loop
  isLoopExiting : Loop → BlockRef → Bool
  blocks_subLoops : ∀ f, ∀ top ∈ loops f, ∀ L, top.Nested L →
    ∀ subLoop ∈ L.getSubLoops, subLoop.blocks ⊆ L.blocks
  isLoopExiting_iff : ∀ L BB, isLoopExiting L BB = true ↔ ∃ t ∈ successors M BB, t ∉ L.blocks

mutual

/-- `SyncLoop::iterateLoops`. -/
def iterateLoops (firstInsBBSet : Finset BlockRef) : Loop → Option Loop
  | .mk blocks subLoops =>
      if ∃ bb ∈ blocks, bb ∈ firstInsBBSet then some (.mk blocks subLoops)
      else iterateSubLoops firstInsBBSet subLoops

/-- Its loop over the subloops, which is also the loop over the outermost loops. -/
def iterateSubLoops (firstInsBBSet : Finset BlockRef) : List Loop → Option Loop
  | [] => none
  | L :: rest =>
      match iterateLoops firstInsBBSet L with
      | some res => some res
      | none => iterateSubLoops firstInsBBSet rest

end

/-- `SyncLoop::checkLoop`, where `firstIns` is the front of `readFuncInstList_`. -/
def checkLoop {M : Module} (LI : LoopInfo M) (firstIns : InstRef) : Option Loop :=
  (List.range M.functions.length).findSome? fun f =>
    if (M.func f).isDeclaration then none
    else iterateSubLoops {firstIns.parent} (LI.loops f)

section Search
variable {set : Finset BlockRef}

mutual

/-- What is found is nested in the loop, and a block of it is in the set. -/
theorem iterateLoops_some : ∀ {L res : Loop}, iterateLoops set L = some res →
    L.Nested res ∧ ∃ bb ∈ res.blocks, bb ∈ set
  | .mk blocks subLoops, res, h => by
      unfold iterateLoops at h
      split at h
      · next hMeets =>
          cases h
          exact ⟨.refl, hMeets⟩
      · obtain ⟨L, hSub, hNested, hMeets⟩ := iterateSubLoops_some h
        exact ⟨(Loop.Nested.refl.sub hSub).trans hNested, hMeets⟩

/-- What is found has one of the blocks, and lies in one of the loops that are searched. -/
theorem iterateSubLoops_some : ∀ {loops : List Loop} {res : Loop},
    iterateSubLoops set loops = some res →
      ∃ L ∈ loops, L.Nested res ∧ ∃ bb ∈ res.blocks, bb ∈ set
  | L :: rest, res, h => by
      unfold iterateSubLoops at h
      split at h
      · next hFound =>
          cases h
          exact ⟨L, List.mem_cons_self, iterateLoops_some hFound⟩
      · obtain ⟨L', hRest, hFound⟩ := iterateSubLoops_some h
        exact ⟨L', List.mem_cons_of_mem _ hRest, hFound⟩

end

variable {M : Module} {LI : LoopInfo M} {f : FuncRef} {top L : Loop}

theorem LoopInfo.blocks_nested (hTop : top ∈ LI.loops f) (h : top.Nested L) :
    L.blocks ⊆ top.blocks := by
  induction h with
  | refl => exact List.Subset.refl _
  | sub outer hSub ih => exact List.Subset.trans (LI.blocks_subLoops f top hTop _ outer _ hSub) ih

/-- An outermost loop has all blocks of its nest, so no subloop is ever found. -/
theorem iterateLoops_eq (hTop : top ∈ LI.loops f) :
    iterateLoops set top = if ∃ bb ∈ top.blocks, bb ∈ set then some top else none := by
  obtain ⟨blocks, subLoops⟩ := top
  by_cases hMeets : ∃ bb ∈ blocks, bb ∈ set
  · rw [iterateLoops, if_pos hMeets, if_pos (show ∃ bb ∈ (Loop.mk blocks subLoops).blocks, bb ∈ set
      from hMeets)]
  · rw [if_neg (show ¬∃ bb ∈ (Loop.mk blocks subLoops).blocks, bb ∈ set from hMeets)]
    cases hFound : iterateLoops set (.mk blocks subLoops) with
    | none => rfl
    | some res =>
        obtain ⟨hNested, bb, hBlock, hSet⟩ := iterateLoops_some hFound
        exact absurd ⟨bb, LI.blocks_nested hTop hNested hBlock, hSet⟩ hMeets

/-- The search answers with the outermost loop, since it looks at the blocks of a loop before
its inner loops. -/
theorem iterateSubLoops_eq_find {tops : List Loop} (hTops : ∀ top ∈ tops, top ∈ LI.loops f) :
    iterateSubLoops set tops = tops.find? fun L => ∃ bb ∈ L.blocks, bb ∈ set := by
  induction tops with
  | nil => rfl
  | cons top tops ih =>
      rw [List.forall_mem_cons] at hTops
      rw [iterateSubLoops, iterateLoops_eq hTops.1, ih hTops.2, List.find?_cons]
      by_cases hMeets : ∃ bb ∈ top.blocks, bb ∈ set <;> simp [hMeets]

end Search

/-- The outermost loops in the order in which `checkLoop` asks for them. -/
def outermostLoops {M : Module} (LI : LoopInfo M) : List Loop :=
  (List.range M.functions.length).flatMap fun f =>
    if (M.func f).isDeclaration then [] else LI.loops f

/-- `checkLoop` answers the outermost loop around the instruction. -/
theorem checkLoop_eq_find {M : Module} (LI : LoopInfo M) (firstIns : InstRef) :
    checkLoop LI firstIns = (outermostLoops LI).find? fun L => firstIns.parent ∈ L.blocks := by
  rw [checkLoop, outermostLoops, List.find?_flatMap]
  congr 1
  funext f
  split
  · rfl
  · rw [iterateSubLoops_eq_find fun _ => id]
    simp

end ConAnalysis.SyncLoop
