import ConAnalysis.ControlDependence.Regions
import ConAnalysis.ControlDependence.TreeExistence
import ConAnalysis.Library.Search

/-! `ControlDependenceGraphBase::graphForFunction` and `influences`. -/
namespace ConAnalysis.ControlDependence
open IR Dominance Relation Rerouting

/-- Move the children on the true or on the false edges of a block under a region of
their own, if there are several. -/
def fixTooMany (type : EdgeType) (g : Graph) (node : NodeRef) : Graph :=
  let children := (g.node node).children type
  if children.length > 1 then
    let (region, g) := g.newRegion
    let g := children.foldl (fun g child =>
      (((g.addOther region child).addParent child region).removeParent child node).removeChild type node
        child) g
    (g.addChild type node region).addParent region node
  else g

def fixTooManyTrue : Graph → NodeRef → Graph := fixTooMany .true

def fixTooManyFalse : Graph → NodeRef → Graph := fixTooMany .false

/-- The blocks in `nodes` are ordered by the addresses of their nodes. The regions
among them are skipped. -/
def insertRegions {F : Function} (pdt : PostDominatorTree F) (nodes : List Nat) (g : Graph) : Graph :=
  nodes.foldl (fun g b => fixTooManyFalse (fixTooManyTrue g (.block b)) (.block b))
    (Regions.enterAll g pdt.postOrder).graph

def graphForFunction (F : Function) (pdt : PostDominatorTree F) (nodes : List Nat) : Graph :=
  insertRegions pdt nodes (computeDependencies F pdt)

/-- Whether `A` is met on the way up from `B`, with fuel for the rounds. -/
def influences (g : Graph) (fuel A B : Nat) : Option Bool :=
  Search.search (fun x => (g.node x).parents) (fun x => x.getBlock == some A) fuel
    (g.node (.block B)).parents []

/-- What holds while the edges of the blocks are fixed. -/
structure Fixing (F : Function) (g₀ g : Graph) : Prop where
  fresh : ∀ n, g.regions ≤ n → ∀ y, ¬g.Parent (.region n) y
  region_lt : ∀ x n, g.Parent x (.region n) → n < g.regions
  block_lt : ∀ x b, g.Parent x (.block b) → b < F.blocks.length
  child_reaches : ∀ a type y, g.Child (.block a) type y → TransGen g.Parent y (.block a)
  reaches : ∀ b a, TransGen g.Parent (.block b) (.block a) ↔ TransGen g₀.Parent (.block b) (.block a)

/-- The graph that the first phase leaves is where the second phase starts. -/
theorem fixing_of_inv {F : Function} {g₀ : Graph} {st : Regions} (h : Regions.Inv F g₀ [] st) :
    Fixing F g₀ st.graph where
  fresh := h.fresh
  region_lt := h.region_lt
  block_lt := h.block_lt
  child_reaches a type y hy := .single (h.child_parent a type y hy)
  reaches := h.reaches

section Fix
variable {F : Function} {g₀ g : Graph} {type : EdgeType} {a : Nat} {node region x y : NodeRef}
variable {children : List NodeRef}

/-- The loop over the children. -/
theorem parent_foldl_fix (hNe : region ≠ node) : (children.foldl (fun g child =>
    (((g.addOther region child).addParent child region).removeParent child node).removeChild type node
      child) g).Parent x y ↔
        (x ∈ children ∧ y = region) ∨ (g.Parent x y ∧ ¬(x ∈ children ∧ y = node)) := by
  induction children generalizing g with
  | nil => simp
  | cons child children ih =>
      rw [List.foldl_cons, ih, Graph.parent_removeChild, Graph.parent_removeParent,
        Graph.parent_addParent, Graph.addOther, Graph.parent_addChild, List.mem_cons]
      have hOther : y = region → y ≠ node := fun hEq => hEq ▸ hNe
      tauto

/-- Moving children under the new region gives the other nodes no child that they did not have. -/
theorem child_of_foldl_fix {type' : EdgeType} (hx : x ≠ region) (h : (children.foldl (fun g child =>
    (((g.addOther region child).addParent child region).removeParent child node).removeChild type node
      child) g).Child x type' y) : g.Child x type' y := by
  induction children generalizing g with
  | nil => exact h
  | cons child children ih =>
      have hRound := ih h
      rw [Graph.child_removeChild, Graph.child_removeParent, Graph.child_addParent, Graph.addOther,
        Graph.child_addChild] at hRound
      exact hRound.1.resolve_right fun hNew => hx hNew.1

theorem regions_foldl_fix : (children.foldl (fun g child =>
    (((g.addOther region child).addParent child region).removeParent child node).removeChild type node
      child) g).regions = g.regions :=
  List.foldlRecOn (motive := fun g' : Graph => g'.regions = g.regions) _ _ rfl fun _ hg _ _ => hg

/-- Between the children and the block there is the region now. -/
theorem parent_fixTooMany (h : ((g.node (.block a)).children type).length > 1) :
    (fixTooMany type g (.block a)).Parent x y ↔
      (g.Child (.block a) type x ∧ y = .region g.regions) ∨
      (g.Parent x y ∧ ¬(g.Child (.block a) type x ∧ y = .block a)) ∨
      (x = .region g.regions ∧ y = .block a) := by
  rw [fixTooMany, if_pos h]
  simp only [Graph.newRegion]
  rw [Graph.parent_addParent, Graph.parent_addChild, parent_foldl_fix (by simp), or_assoc]
  rfl

/-- Afterwards a block has a child of before, or the new region if it is the block that had too
many. -/
theorem child_of_fixTooMany {a' : Nat} {type' : EdgeType}
    (h : ((g.node (.block a)).children type).length > 1)
    (hy : (fixTooMany type g (.block a)).Child (.block a') type' y) :
    g.Child (.block a') type' y ∨ (a' = a ∧ y = .region g.regions) := by
  rw [fixTooMany, if_pos h] at hy
  simp only [Graph.newRegion] at hy
  rw [Graph.child_addParent, Graph.child_addChild] at hy
  rcases hy with hy | ⟨hEq, -, rfl⟩
  · exact .inl (child_of_foldl_fix (g := { g with regions := g.regions + 1 })
      (show NodeRef.block a' ≠ .region g.regions by simp) hy)
  · exact .inr ⟨NodeRef.block.inj hEq, rfl⟩

/-- One region is made for a block that has too many children. -/
theorem regions_fixTooMany (h : ((g.node (.block a)).children type).length > 1) :
    (fixTooMany type g (.block a)).regions = g.regions + 1 := by
  rw [fixTooMany, if_pos h]
  exact regions_foldl_fix

/-- The children of a block have been created. -/
theorem Fixing.child_ne (hFixing : Fixing F g₀ g) (hChild : g.Child (.block a) type x) {n : Nat}
    (hn : g.regions ≤ n) : x ≠ .region n := by
  rintro rfl
  exact not_transGen_of_isolated (hFixing.fresh n hn) (hFixing.child_reaches a type _ hChild)

/-- The way to a block leads through the new region or around it. -/
theorem Fixing.transGen_iff (hFixing : Fixing F g₀ g)
    (h : ((g.node (.block a)).children type).length > 1) (hx : x ≠ .region g.regions) (b : Nat) :
    TransGen (fixTooMany type g (.block a)).Parent x (.block b) ↔ TransGen g.Parent x (.block b) := by
  -- with the edge from the region to the block, but no edge to the region yet
  have hNew : ∀ {x y}, x ≠ .region g.regions →
      (TransGen (fun x y => g.Parent x y ∨ (x = .region g.regions ∧ y = .block a)) x y ↔
        TransGen g.Parent x y) := by
    intro x y hx
    refine transGen_of_new (.region g.regions) ?_ ?_ hx
    · exact fun x hx => absurd (hFixing.region_lt x _ hx) (Nat.lt_irrefl _)
    · exact fun x hx y => or_iff_left fun hEdge => hx hEdge.1
  refine (transGen_congr (fun x => ∃ b, x = .block b) ?_ ?_ ⟨b, rfl⟩).trans (hNew hx)
  · intro x y hxy
    rcases (parent_fixTooMany h).mp hxy with ⟨hx, rfl⟩ | hOld | hEdge
    · refine .inr ⟨by simp, fun t _ hPath => ?_⟩
      have hUp := (hNew (hFixing.child_ne hx (Nat.le_refl _))).mpr (hFixing.child_reaches a type x hx)
      obtain ⟨z, hStep, hRest⟩ := transGen_head_iff.mp hPath
      obtain ⟨-, rfl⟩ := hStep.resolve_left (hFixing.fresh _ (Nat.le_refl _) z)
      rcases hRest with rfl | hRest
      · exact hUp
      · exact hUp.trans hRest
    · exact .inl (.inl hOld.1)
    · exact .inl (.inr hEdge)
  · intro x y hxy
    left
    rcases hxy with hOld | hEdge
    · by_cases hMoved : g.Child (.block a) type x ∧ y = .block a
      · obtain ⟨hx, rfl⟩ := hMoved
        exact .head ((parent_fixTooMany h).mpr (.inl ⟨hx, rfl⟩))
          (.single ((parent_fixTooMany h).mpr (.inr (.inr ⟨rfl, rfl⟩))))
      · exact .single ((parent_fixTooMany h).mpr (.inr (.inl ⟨hOld, hMoved⟩)))
    · exact .single ((parent_fixTooMany h).mpr (.inr (.inr hEdge)))

/-- Fixing the edges of one type of a block. -/
theorem Fixing.fixTooMany (hFixing : Fixing F g₀ g) (type : EdgeType) (a : Nat) :
    Fixing F g₀ (fixTooMany type g (.block a)) := by
  by_cases h : ((g.node (.block a)).children type).length > 1
  · have ha : a < F.blocks.length := by
      have hReaches := hFixing.child_reaches a type _ (List.getElem_mem (Nat.zero_lt_of_lt h))
      obtain ⟨x, -, hLast⟩ := TransGen.tail'_iff.mp hReaches
      exact hFixing.block_lt x a hLast
    constructor
    case fresh =>
      intro n hn y hy
      rw [regions_fixTooMany h] at hn
      rcases (parent_fixTooMany h).mp hy with ⟨hChild, -⟩ | hOld | hEdge
      · exact hFixing.child_ne hChild (by omega) rfl
      · exact hFixing.fresh n (by omega) y hOld.1
      · obtain rfl := NodeRef.region.inj hEdge.1
        omega
    case region_lt =>
      intro x n hx
      rw [regions_fixTooMany h]
      rcases (parent_fixTooMany h).mp hx with ⟨-, hEq⟩ | hOld | hEdge
      · obtain rfl := NodeRef.region.inj hEq
        exact Nat.lt_succ_self _
      · exact Nat.lt_succ_of_lt (hFixing.region_lt x n hOld.1)
      · cases hEdge.2
    case block_lt =>
      intro x b hx
      rcases (parent_fixTooMany h).mp hx with ⟨-, hEq⟩ | hOld | hEdge
      · cases hEq
      · exact hFixing.block_lt x b hOld.1
      · obtain rfl := NodeRef.block.inj hEdge.2
        exact ha
    case child_reaches =>
      intro a' type' y hy
      rcases child_of_fixTooMany h hy with hOld | ⟨rfl, rfl⟩
      · exact (hFixing.transGen_iff h (hFixing.child_ne hOld (Nat.le_refl _)) a').mpr
          (hFixing.child_reaches a' type' y hOld)
      · exact .single ((parent_fixTooMany h).mpr (.inr (.inr ⟨rfl, rfl⟩)))
    case reaches => exact fun b a' => (hFixing.transGen_iff h (by simp) a').trans (hFixing.reaches b a')
  · rw [ControlDependence.fixTooMany, if_neg h]
    exact hFixing

end Fix

section Query
variable {F : Function} {pdt : PostDominatorTree F}

/-- Run of the second phase: over any list of nodes, in any order, edges only get longer routes. -/
theorem fixing_graphForFunction (nodes : List Nat) :
    Fixing F (computeDependencies F pdt) (graphForFunction F pdt nodes) :=
  List.foldlRecOn (motive := Fixing F (computeDependencies F pdt)) _ _
    (fixing_of_inv Regions.inv_enterAll) fun _ hg b _ => (hg.fixTooMany .true b).fixTooMany .false b

/-- Chains of parents in the graph of the dependencies are chains of control
dependences. -/
theorem transGen_computeDependencies {a b : Nat} :
    TransGen (computeDependencies F pdt).Parent (.block b) (.block a) ↔
      TransGen (ControlDependent F) a b := by
  constructor
  · intro h
    generalize hx : NodeRef.block b = x at h
    induction h using TransGen.head_induction_on generalizing b with
    | single hStep =>
        subst hx
        obtain ⟨c, hc, ⟨a', ha, hDependent⟩ | ⟨hEq, -⟩⟩ := parent_computeDependencies.mp hStep
        · obtain rfl := NodeRef.block.inj hc
          obtain rfl := NodeRef.block.inj ha
          exact .single hDependent
        · cases hEq
    | head hStep hRest ih =>
        subst hx
        obtain ⟨c, hc, ⟨a', rfl, hDependent⟩ | ⟨rfl, -⟩⟩ := parent_computeDependencies.mp hStep
        · obtain rfl := NodeRef.block.inj hc
          exact (ih rfl).tail hDependent
        · refine absurd hRest (not_transGen_of_isolated fun y hy => ?_)
          obtain ⟨c, hEq, -⟩ := parent_computeDependencies.mp hy
          cases hEq
  · intro h
    induction h with
    | single hDependent =>
        exact .single (parent_computeDependencies.mpr ⟨_, rfl, .inl ⟨_, rfl, hDependent⟩⟩)
    | tail _ hDependent ih =>
        exact .head (parent_computeDependencies.mpr ⟨_, rfl, .inl ⟨_, rfl, hDependent⟩⟩) ih

def createdNodes (F : Function) (g : Graph) : List NodeRef :=
  .root :: ((List.range F.blocks.length).map .block ++ (List.range g.regions).map .region)

/-- Whatever has been linked is among the root, the blocks and the regions made so far, so that
the search below has finitely many nodes to look at. -/
theorem Fixing.mem_createdNodes {g₀ g : Graph} (h : Fixing F g₀ g) {x y : NodeRef}
    (hxy : g.Parent x y) : y ∈ createdNodes F g := by
  cases y with
  | root => exact List.mem_cons_self
  | block b => simp [createdNodes, h.block_lt x b hxy]
  | region n => simp [createdNodes, h.region_lt x n hxy]

/-- The way up from the parents of a node meets the block. -/
theorem reaches_parents_iff {g : Graph} {a : Nat} {x : NodeRef} :
    Search.Reaches (fun x => (g.node x).parents) (fun x => x.getBlock == some a)
      (g.node x).parents ↔ TransGen g.Parent x (.block a) := by
  have hGoal : ∀ y : NodeRef, (y.getBlock == some a) = true ↔ y = .block a := by
    intro y
    cases y <;> simp [NodeRef.getBlock]
  constructor
  · rintro ⟨y, hStep, z, hPath, hz⟩
    obtain rfl := (hGoal z).mp hz
    exact TransGen.head' hStep hPath
  · intro h
    obtain ⟨y, hStep, hPath⟩ := TransGen.head'_iff.mp h
    exact ⟨y, hStep, .block a, hPath, (hGoal _).mpr rfl⟩

/-- There is nothing finished before the first round. -/
theorem inv_start (g : Graph) (A : Nat) (x : NodeRef) : Search.Inv (fun x => (g.node x).parents)
    (fun x => x.getBlock == some A) (g.node x).parents [] := ⟨nofun, nofun⟩

/-- The query ends if the way up from the block stays among finitely many nodes. -/
theorem exists_influences_eq_some {g : Graph} {A B : Nat} (nodes : List NodeRef)
    (hNodes : ∀ x ∈ nodes, ∀ y, g.Parent x y → y ∈ nodes)
    (hStart : ∀ y, g.Parent (.block B) y → y ∈ nodes) :
    ∃ fuel answer, influences g fuel A B = some answer :=
  Search.exists_search_eq_some nodes hNodes (inv_start g A (.block B)) hStart

/-- In any graph the query asks for a way up between the two blocks. -/
theorem influences_eq_true_iff {g : Graph} {fuel A B : Nat} {answer : Bool}
    (h : influences g fuel A B = some answer) :
    answer = true ↔ TransGen g.Parent (.block B) (.block A) := by
  rw [Search.search_eq_true_iff (inv_start g A (.block B)) h, List.nil_append, reaches_parents_iff]

/-- The query ends for any two blocks: the graph is finite and a node is not searched twice. -/
theorem exists_influences_graphForFunction (F : Function) (pdt : PostDominatorTree F)
    (nodes : List Nat) (A B : Nat) :
    ∃ fuel answer, influences (graphForFunction F pdt nodes) fuel A B = some answer := by
  have hFixing : Fixing F (computeDependencies F pdt) (graphForFunction F pdt nodes) :=
    fixing_graphForFunction nodes
  exact exists_influences_eq_some (createdNodes F (graphForFunction F pdt nodes))
    (fun x _ y hy => hFixing.mem_createdNodes hy) fun y hy => hFixing.mem_createdNodes hy

/-- Whatever fuel the query ended with, its answer is right. -/
theorem influences_graphForFunction_iff {nodes : List Nat} {fuel A B : Nat} {answer : Bool}
    (h : influences (graphForFunction F pdt nodes) fuel A B = some answer) :
    answer = true ↔ TransGen (ControlDependent F) A B := by
  rw [influences_eq_true_iff h, (fixing_graphForFunction nodes).reaches,
    transGen_computeDependencies]

/-- The query ends, and it answers whether there is a chain of control dependences
from the one block to the other. The function has a post-dominator tree exactly if all
of its blocks reach an exit (`nonempty_postDominatorTree_iff`). -/
theorem influences_iff (F : Function) (pdt : PostDominatorTree F) (nodes : List Nat) (A B : Nat) :
    (∃ fuel answer, influences (graphForFunction F pdt nodes) fuel A B = some answer) ∧
      ∀ fuel answer, influences (graphForFunction F pdt nodes) fuel A B = some answer →
        (answer = true ↔ TransGen (ControlDependent F) A B) :=
  ⟨exists_influences_graphForFunction F pdt nodes A B,
    fun _ _ => influences_graphForFunction_iff⟩

/-- The branch influences its first side. -/
theorem influences_iff_ifElse : ∃ (pdt : PostDominatorTree ifElse) (fuel : Nat),
    influences (graphForFunction ifElse pdt [0, 1, 2, 3]) fuel 0 1 = some true := by
  obtain ⟨pdt⟩ := (nonempty_postDominatorTree_iff ifElse).mpr ifElse_reachesExit
  obtain ⟨⟨fuel, answer, hAnswer⟩, hIff⟩ := influences_iff ifElse pdt [0, 1, 2, 3] 0 1
  have hEdges : ifElse.Edge 0 1 ∧ ifElse.Edge 2 3 ∧ ifElse.Edge 0 2 := by simp [ifElse_edge]
  have hDependent : ControlDependent ifElse 0 1 := by
    refine ⟨1, hEdges.1, .self 1, fun h => ?_⟩
    have hWalk : Walk (fun x y => ifElse.Edge y x) 3 [3] 3 := .nil
    exact ifElse_not_postDominates ((hWalk.snoc hEdges.2.1).snoc hEdges.2.2) (by decide) h.1
  refine ⟨pdt, fuel, ?_⟩
  rw [hAnswer, (hIff fuel answer hAnswer).mpr (.single hDependent)]

/-- In every finite graph the search ends, and then it has found the way up if there is one. -/
theorem influences_of_finite (g : Graph) (nodes : List NodeRef)
    (hNodes : ∀ x ∈ nodes, ∀ y, g.Parent x y → y ∈ nodes) (A B : Nat)
    (hB : NodeRef.block B ∈ nodes) :
    (∃ fuel answer, influences g fuel A B = some answer) ∧
      ∀ fuel answer, influences g fuel A B = some answer →
        (answer = true ↔ TransGen g.Parent (.block B) (.block A)) :=
  ⟨exists_influences_eq_some nodes hNodes (hNodes _ hB), fun _ _ => influences_eq_true_iff⟩

/-- Two blocks that are parents of each other; one of them is its own parent as well. -/
def cyclicGraph : Graph where
  node
    | .block 0 => { parents := [.block 1, .block 0] }
    | .block 1 => { parents := [.root, .block 0] }
    | _ => {}

/-- Block 2 is not found above the cycle, and the search for it ends all the same. -/
theorem influences_of_finite_cyclic :
    (∃ fuel answer, influences cyclicGraph fuel 2 0 = some answer) ∧
      ∀ fuel answer, influences cyclicGraph fuel 2 0 = some answer →
        (answer = true ↔ TransGen cyclicGraph.Parent (.block 0) (.block 2)) := by
  have hNodes : ∀ x ∈ [NodeRef.root, .block 0, .block 1], ∀ y ∈ (cyclicGraph.node x).parents,
      y ∈ [NodeRef.root, .block 0, .block 1] := by decide
  exact influences_of_finite cyclicGraph _ hNodes 2 0 (by simp)

end Query

/-- `ControlDependenceGraphBase`: a graph in which the search for every block ends. -/
structure ControlDependenceGraphBase where
  graph : Graph
  rounds : Nat → Nat → Nat
  ends : ∀ A B, (influences graph (rounds A B) A B).isSome = true

namespace ControlDependenceGraphBase

def influences (cdg : ControlDependenceGraphBase) (A B : Nat) : Bool :=
  (ControlDependence.influences cdg.graph (cdg.rounds A B) A B).get (cdg.ends A B)

/-- The search from `B` up the parents finds `A` exactly if a chain of parents leads there. -/
theorem influences_eq_true_iff (cdg : ControlDependenceGraphBase) (A B : Nat) :
    cdg.influences A B = true ↔ TransGen cdg.graph.Parent (.block B) (.block A) :=
  ControlDependence.influences_eq_true_iff (Option.some_get _).symm

/-- The query is transitive, though the graph's edges are not. -/
theorem influences_trans {cdg : ControlDependenceGraphBase} {A B C : Nat}
    (hAB : cdg.influences A B = true) (hBC : cdg.influences B C = true) :
    cdg.influences A C = true := by
  rw [influences_eq_true_iff] at hAB hBC ⊢
  exact hBC.trans hAB

noncomputable def graphForFunction (F : Function) (pdt : PostDominatorTree F) (nodes : List Nat) :
    ControlDependenceGraphBase where
  graph := ControlDependence.graphForFunction F pdt nodes
  rounds A B := (exists_influences_graphForFunction F pdt nodes A B).choose
  ends A B := by
    obtain ⟨answer, hAnswer⟩ := (exists_influences_graphForFunction F pdt nodes A B).choose_spec
    rw [hAnswer]
    rfl

/-- The graph that the pass uses answers with the transitive closure of control dependence. -/
theorem influences_graphForFunction (F : Function) (pdt : PostDominatorTree F) (nodes : List Nat)
    (A B : Nat) : (graphForFunction F pdt nodes).influences A B = true ↔
      TransGen (ControlDependent F) A B :=
  influences_graphForFunction_iff (Option.some_get _).symm

end ControlDependenceGraphBase
end ConAnalysis.ControlDependence
