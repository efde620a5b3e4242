import ConAnalysis.ControlDependence.RegionClasses

/-! `ControlDependenceGraphBase::controls`, which climbs as long as nodes have one parent. -/
namespace ConAnalysis.ControlDependence
open IR Relation Dominance

/-- Whether `A` is met on the way up from a node, with fuel for the rounds. -/
def controls (g : Graph) (A : Nat) : Nat → NodeRef → Option Bool
  | 0, _ => none
  | fuel + 1, n =>
      match (g.node n).parents with
      | [parent] => if parent.getBlock == some A then some true else controls g A fuel parent
      | _ => some false

/-- Whether the block is executed depends on `a`, and on nothing else. -/
def SoleDependence (F : Function) (a b : Nat) : Prop :=
  ¬PostDominates F b 0 ∧ ∀ a', ControlDependent F a' b ↔ a' = a

section Fuel
variable {g : Graph} {A : Nat} {n parent : NodeRef}

/-- One round of the query: from a node with one parent the walk either meets `A` there or goes
on from that parent. -/
theorem controls_of_single (h : (g.node n).parents = [parent]) (fuel : Nat) :
    controls g A (fuel + 1) n =
      if parent.getBlock == some A then some true else controls g A fuel parent := by
  rw [controls, h]

theorem controls_of_region {m : Nat} (h : (g.node n).parents = [.region m]) (fuel : Nat) :
    controls g A (fuel + 1) n = controls g A fuel (.region m) := by
  rw [controls_of_single h]
  exact if_neg (by simp [NodeRef.getBlock])

theorem controls_of_block {a : Nat} (h : (g.node n).parents = [.block a]) (fuel : Nat) :
    controls g A (fuel + 1) n = if a = A then some true else controls g A fuel (.block a) := by
  rw [controls_of_single h]
  exact if_congr (by simp [NodeRef.getBlock]) rfl rfl

/-- The walk gives up where there is no parent at all or a choice between several. -/
theorem controls_of_not_single (h : ∀ parent, (g.node n).parents ≠ [parent]) (fuel : Nat) :
    controls g A (fuel + 1) n = some false := by
  rw [controls]
  split
  · next parent hParents => exact absurd hParents (h parent)
  · rfl

/-- More fuel does not change an answer that is already there. -/
theorem controls_add {fuel : Nat} {answer : Bool} (h : controls g A fuel n = some answer) (k : Nat) :
    controls g A (fuel + k) n = some answer := by
  induction fuel generalizing n with
  | zero => cases h
  | succ fuel ih =>
      rw [Nat.add_right_comm]
      by_cases hSingle : ∃ parent, (g.node n).parents = [parent]
      · obtain ⟨parent, hParent⟩ := hSingle
        rw [controls_of_single hParent] at h ⊢
        split at h
        · next hMet => rw [if_pos hMet, h]
        · next hMet => rw [if_neg hMet, ih h]
      · have hNot : ∀ parent, (g.node n).parents ≠ [parent] := fun parent hEq => hSingle ⟨parent, hEq⟩
        rw [controls_of_not_single hNot] at h ⊢
        exact h

/-- The answer does not depend on the fuel that it was found with, so it is the answer of the
query. -/
theorem controls_unique {fuel fuel' : Nat} {answer answer' : Bool}
    (h : controls g A fuel n = some answer) (h' : controls g A fuel' n = some answer') :
    answer = answer' := by
  have hMore := controls_add h fuel'
  rw [Nat.add_comm, controls_add h' fuel] at hMore
  exact (Option.some.inj hMore).symm

end Fuel

/-- A node of the first loop, or a region that the second loop has created for the block. -/
def StandsFor (g₁ : Graph) (owner : Nat → Nat) (z y : NodeRef) : Prop :=
  (z = y ∧ ∀ n, z = .region n → n < g₁.regions) ∨
    ∃ n, g₁.regions ≤ n ∧ z = .region n ∧ y = .block (owner n)

/-- The next region is created for `a`. -/
def own (owner : Nat → Nat) (g : Graph) (a : Nat) : Nat → Nat :=
  fun n => if n = g.regions then a else owner n

/-- How the second loop of `insertRegions` has changed the way up: the regions that it has created
stand for the blocks that own them. -/
structure Routed (g₁ g : Graph) (owner : Nat → Nat) : Prop where
  regions_le : g₁.regions ≤ g.regions
  above : ∀ x, (∀ n, x = .region n → n < g₁.regions) → ∀ y, g₁.Parent x y ↔
    ∃ z, g.Parent x z ∧ StandsFor g₁ owner z y
  fixed : ∀ n, g₁.regions ≤ n → n < g.regions → ∀ z, g.Parent (.region n) z ↔ z = .block (owner n)
  old_children : ∀ a type y, g.Child (.block a) type y → (∀ n, y = .region n → n < g₁.regions) →
    g₁.Child (.block a) type y
  new_children : ∀ a type n, g₁.regions ≤ n → g.Child (.block a) type (.region n) →
    ∀ y, g.Child (.block a) type y → y = .region n

section Routing
variable {g₁ g : Graph} {owner : Nat → Nat} {type : EdgeType} {a : Nat}

/-- What `fixTooMany` does to the children of the nodes other than the new region: only the node
that had too many loses them. -/
theorem child_foldl_fix {children : List NodeRef} {region node x y : NodeRef} {type' : EdgeType}
    (hx : x ≠ region) : (children.foldl (fun g child =>
      (((g.addOther region child).addParent child region).removeParent child node).removeChild type node
        child) g).Child x type' y ↔
          g.Child x type' y ∧ ¬(x = node ∧ type' = type ∧ y ∈ children) := by
  induction children generalizing g with
  | nil => simp
  | cons child children ih =>
      rw [List.foldl_cons, ih, Graph.child_removeChild, Graph.child_removeParent, Graph.child_addParent,
        Graph.addOther, Graph.child_addChild, List.mem_cons]
      tauto

/-- The block keeps the new region as its only child of the type. -/
theorem child_fixTooMany {a' : Nat} {type' : EdgeType} {y : NodeRef}
    (h : ((g.node (.block a)).children type).length > 1) :
    (fixTooMany type g (.block a)).Child (.block a') type' y ↔
      (g.Child (.block a') type' y ∧ ¬(a' = a ∧ type' = type)) ∨
        (a' = a ∧ type' = type ∧ y = .region g.regions) := by
  rw [fixTooMany, if_pos h]
  simp only [Graph.newRegion]
  rw [Graph.child_addParent, Graph.child_addChild, child_foldl_fix (by simp), NodeRef.block.injEq]
  refine or_congr_left (and_congr_right fun hChild => not_congr ?_)
  refine and_congr_right fun ha => and_iff_left_of_imp fun hType => ?_
  rw [← ha, ← hType]
  exact hChild

/-- The children that are moved were there before the second loop. -/
theorem Routed.child_old (h : Routed g₁ g owner) (hSets : g.Sets)
    (hMany : ((g.node (.block a)).children type).length > 1) {y : NodeRef}
    (hy : g.Child (.block a) type y) : ∀ n, y = .region n → n < g₁.regions := by
  rintro n rfl
  by_contra hNew
  have hOnly := h.new_children a type n (Nat.not_lt.mp hNew) hy
  have hSingle : (g.node (.block a)).children type = [.region n] :=
    eq_singleton_of_nodup (hSets.children _ type) fun z => ⟨hOnly z, fun hEq => hEq ▸ hy⟩
  rw [hSingle] at hMany
  exact absurd hMany (Nat.lt_irrefl _)

theorem own_self : own owner g a g.regions = a := if_pos rfl

theorem own_of_ne {n : Nat} (hn : n ≠ g.regions) : own owner g a n = owner n := if_neg hn

/-- A new region changes nothing for the nodes that the other ones stand for. -/
theorem standsFor_own_of_ne {z y : NodeRef} (hz : z ≠ .region g.regions) :
    StandsFor g₁ (own owner g a) z y ↔ StandsFor g₁ owner z y := by
  refine or_congr_right (exists_congr fun n => and_congr_right fun _ => and_congr_right fun hEq => ?_)
  rw [own_of_ne fun hn => hz (hEq.trans (congrArg _ hn))]

/-- The region that `fixTooMany` makes for a block stands for that block alone. -/
theorem standsFor_own_self {y : NodeRef} (h : g₁.regions ≤ g.regions) :
    StandsFor g₁ (own owner g a) (.region g.regions) y ↔ y = .block a := by
  constructor
  · rintro (⟨-, hOld⟩ | ⟨n, -, hEq, rfl⟩)
    · exact absurd (hOld _ rfl) (Nat.not_lt.mpr h)
    · rw [← NodeRef.region.inj hEq, own_self]
  · rintro rfl
    exact .inr ⟨g.regions, h, rfl, by rw [own_self]⟩

theorem standsFor_block {b : Nat} {y : NodeRef} : StandsFor g₁ owner (.block b) y ↔ y = .block b := by
  constructor
  · rintro (⟨hEq, -⟩ | ⟨n, -, hEq, -⟩)
    · exact hEq.symm
    · cases hEq
  · rintro rfl
    exact .inl ⟨rfl, fun n hEq => by cases hEq⟩

section Fix
variable {F : Function} {g₀ : Graph}

/-- Fixing the edges of one type of a block. -/
theorem Routed.fixTooMany (h : Routed g₁ g owner)
    (hParent : ∀ a type y, g₁.Child (.block a) type y → g₁.Parent y (.block a)) (hSets : g.Sets)
    (hFixing : Fixing F g₀ g) (hMany : ((g.node (.block a)).children type).length > 1) :
    Routed g₁ (fixTooMany type g (.block a)) (own owner g a) := by
  have hOldChild : ∀ {y}, g.Child (.block a) type y → ∀ n, y = .region n → n < g₁.regions :=
    h.child_old hSets hMany
  have hUsed : ∀ {x z}, g.Parent x z → z ≠ .region g.regions := by
    rintro x z hz rfl
    exact absurd (hFixing.region_lt x _ hz) (Nat.lt_irrefl _)
  constructor
  case regions_le =>
    rw [regions_fixTooMany hMany]
    exact Nat.le_succ_of_le h.regions_le
  case above =>
    intro x hx y
    rw [h.above x hx]
    have hNotNew : x ≠ .region g.regions := by
      rintro rfl
      exact absurd (hx _ rfl) (Nat.not_lt.mpr h.regions_le)
    constructor
    · rintro ⟨z, hz, hUp⟩
      by_cases hMoved : g.Child (.block a) type x ∧ z = .block a
      · obtain ⟨hChild, rfl⟩ := hMoved
        refine ⟨.region g.regions, (parent_fixTooMany hMany).mpr (.inl ⟨hChild, rfl⟩), ?_⟩
        exact (standsFor_own_self h.regions_le).mpr (standsFor_block.mp hUp)
      · exact ⟨z, (parent_fixTooMany hMany).mpr (.inr (.inl ⟨hz, hMoved⟩)),
          (standsFor_own_of_ne (hUsed hz)).mpr hUp⟩
    · rintro ⟨z, hz, hUp⟩
      rcases (parent_fixTooMany hMany).mp hz with ⟨hChild, rfl⟩ | ⟨hOld, -⟩ | ⟨hEq, -⟩
      · obtain rfl := (standsFor_own_self h.regions_le).mp hUp
        exact (h.above x hx _).mp (hParent a type x (h.old_children a type x hChild hx))
      · exact ⟨z, hOld, (standsFor_own_of_ne (hUsed hOld)).mp hUp⟩
      · exact absurd hEq hNotNew
  case fixed =>
    intro n hn hLt z
    rw [regions_fixTooMany hMany] at hLt
    have hNotChild : ¬g.Child (.block a) type (.region n) := fun hChild =>
      absurd (hOldChild hChild n rfl) (Nat.not_lt.mpr hn)
    rw [parent_fixTooMany hMany, or_iff_right fun hMoved => hNotChild hMoved.1,
      and_iff_left fun hMoved => hNotChild hMoved.1]
    by_cases hEq : n = g.regions
    · subst hEq
      rw [or_iff_right (hFixing.fresh _ (Nat.le_refl _) z), own_self]
      exact and_iff_right rfl
    · rw [or_iff_left fun hNew => hEq (NodeRef.region.inj hNew.1), own_of_ne hEq]
      exact h.fixed n hn (by omega) z
  case old_children =>
    intro a' type' y hy hOld
    rcases (child_fixTooMany hMany).mp hy with ⟨hChild, -⟩ | ⟨-, -, rfl⟩
    · exact h.old_children a' type' y hChild hOld
    · exact absurd (hOld _ rfl) (Nat.not_lt.mpr h.regions_le)
  case new_children =>
    intro a' type' n hn hChild y hy
    rw [child_fixTooMany hMany] at hChild hy
    rcases hChild with ⟨hOld, hNot⟩ | ⟨rfl, rfl, hEq⟩
    · exact h.new_children a' type' n hn hOld y (hy.resolve_right fun hNew => hNot ⟨hNew.1, hNew.2.1⟩).1
    · rcases hy with ⟨-, hNot⟩ | ⟨-, -, rfl⟩
      · exact absurd ⟨rfl, rfl⟩ hNot
      · exact hEq.symm

/-- No two parents of a node stand for the same block. -/
structure Faithful (g₁ g : Graph) (owner : Nat → Nat) : Prop where
  attached : ∀ a type y, g.Child (.block a) type y → (∀ n, y = .region n → n < g₁.regions) →
    g.Parent y (.block a)
  injective : ∀ x, (∀ n, x = .region n → n < g₁.regions) → ∀ z z' y, g.Parent x z → g.Parent x z' →
    StandsFor g₁ owner z y → StandsFor g₁ owner z' y → z = z'

/-- A node is the child of a block by edges of one type only. -/
def Exclusive (g₁ : Graph) : Prop :=
  ∀ a type type' y, g₁.Child (.block a) type y → g₁.Child (.block a) type' y → type = type'

/-- Step of the second phase: when the children of a block are moved under a region of their
own, no two parents of a node come to stand for the same block. -/
theorem Faithful.fixTooMany (hFaithful : Faithful g₁ g owner) (h : Routed g₁ g owner)
    (hExclusive : Exclusive g₁) (hFixing : Fixing F g₀ g)
    (hMany : ((g.node (.block a)).children type).length > 1) :
    Faithful g₁ (fixTooMany type g (.block a)) (own owner g a) := by
  have hUsed : ∀ {x z}, g.Parent x z → z ≠ .region g.regions := by
    rintro x z hz rfl
    exact absurd (hFixing.region_lt x _ hz) (Nat.lt_irrefl _)
  constructor
  case attached =>
    intro a' type' y hy hOld
    rcases (child_fixTooMany hMany).mp hy with ⟨hChild, hNot⟩ | ⟨-, -, rfl⟩
    · refine (parent_fixTooMany hMany).mpr (.inr (.inl ⟨hFaithful.attached a' type' y hChild hOld, ?_⟩))
      rintro ⟨hMoved, hEq⟩
      obtain rfl := NodeRef.block.inj hEq
      exact hNot ⟨rfl, hExclusive a' type' type y (h.old_children a' type' y hChild hOld)
        (h.old_children a' type y hMoved hOld)⟩
    · exact absurd (hOld _ rfl) (Nat.not_lt.mpr h.regions_le)
  case injective =>
    intro x hx z z' y hz hz' hUp hUp'
    have hNotNew : x ≠ .region g.regions := by
      rintro rfl
      exact absurd (hx _ rfl) (Nat.not_lt.mpr h.regions_le)
    -- the block itself is no parent of the children that have been moved
    have hBlock : ∀ z, g.Parent x z → ¬(g.Child (.block a) type x ∧ z = .block a) →
        g.Child (.block a) type x → ¬StandsFor g₁ (own owner g a) z (.block a) := by
      intro z hz hNot hChild hUp
      refine hNot ⟨hChild, ?_⟩
      exact hFaithful.injective x hx z (.block a) (.block a) hz (hFaithful.attached a type x hChild hx)
        ((standsFor_own_of_ne (hUsed hz)).mp hUp) (standsFor_block.mpr rfl)
    rcases (parent_fixTooMany hMany).mp hz with ⟨hChild, rfl⟩ | ⟨hOld, hNot⟩ | ⟨hEq, -⟩
    · obtain rfl := (standsFor_own_self h.regions_le).mp hUp
      rcases (parent_fixTooMany hMany).mp hz' with ⟨-, rfl⟩ | ⟨hOld', hNot'⟩ | ⟨hEq, -⟩
      · rfl
      · exact absurd hUp' (hBlock z' hOld' hNot' hChild)
      · exact absurd hEq hNotNew
    · rcases (parent_fixTooMany hMany).mp hz' with ⟨hChild, rfl⟩ | ⟨hOld', hNot'⟩ | ⟨hEq, -⟩
      · obtain rfl := (standsFor_own_self h.regions_le).mp hUp'
        exact absurd hUp (hBlock z hOld hNot hChild)
      · exact hFaithful.injective x hx z z' y hOld hOld' ((standsFor_own_of_ne (hUsed hOld)).mp hUp)
          ((standsFor_own_of_ne (hUsed hOld')).mp hUp')
      · exact absurd hEq hNotNew
    · exact absurd hEq hNotNew

/-- What the second loop keeps. -/
structure Fixed (F : Function) (g₀ g₁ g : Graph) : Prop where
  sets : g.Sets
  fixing : Fixing F g₀ g
  routed : ∃ owner, Routed g₁ g owner ∧ (Exclusive g₁ → Faithful g₁ g owner)

/-- Step of the second phase: parents and children stay sets, and the regions made so far stand
for the blocks that own them. -/
theorem Fixed.fixTooMany (h : Fixed F g₀ g₁ g)
    (hParent : ∀ a type y, g₁.Child (.block a) type y → g₁.Parent y (.block a)) (type : EdgeType)
    (a : Nat) : Fixed F g₀ g₁ (fixTooMany type g (.block a)) := by
  obtain ⟨hSets, hFixing, owner, hRouted, hFaithful⟩ := h
  refine ⟨hSets.fixTooMany type _, hFixing.fixTooMany type a, ?_⟩
  by_cases hMany : ((g.node (.block a)).children type).length > 1
  · exact ⟨_, hRouted.fixTooMany hParent hSets hFixing hMany, fun hExclusive =>
      (hFaithful hExclusive).fixTooMany hRouted hExclusive hFixing hMany⟩
  · rw [ControlDependence.fixTooMany, if_neg hMany]
    exact ⟨owner, hRouted, hFaithful⟩

end Fix

end Routing

section OneType
variable {F : Function} {a b : Nat}

/-- A conditional branch has two successors, as the LLVM verifier demands. -/
def TwoWay (F : Function) : Prop :=
  ∀ B ∈ F.blocks, B.terminator.opcode = .br → B.terminator.operands.length = 3 → B.successors.length = 2

instance (F : Function) : Decidable (TwoWay F) :=
  inferInstanceAs (Decidable (∀ B ∈ F.blocks, B.terminator.opcode = .br →
    B.terminator.operands.length = 3 → B.successors.length = 2))

/-- No block depends on a branch all of whose ways lead to it. -/
theorem controlDependent_of_all (pdt : PostDominatorTree F) {s : Nat} (hEdge : F.Edge a s)
    (hAll : ∀ c, F.Edge a c → PostDominates F b c) : PostDominates F b a ∧ b ≠ a := by
  have hNotExit : ∀ e, Exit F e → e ≠ a := by
    rintro e hExit rfl
    unfold Function.Edge at hEdge
    rw [hExit.2] at hEdge
    exact List.not_mem_nil hEdge
  constructor
  · intro e hExit visited walk
    cases walk with
    | nil => exact absurd rfl (hNotExit _ hExit)
    | snoc walk step => exact List.mem_cons_of_mem _ (hAll _ step e hExit _ walk)
  · rintro rfl
    obtain ⟨e, hExit, hReach⟩ := pdt.exists_exit hEdge.lt.1
    obtain ⟨visited, walk⟩ := exists_walk (reflTransGen_swap.mp hReach)
    obtain ⟨before, c, walkBefore, step, hFirst⟩ := walk.exists_entering walk.mem (hNotExit e hExit).symm
    exact hFirst (hAll c step e hExit before walkBefore)

/-- In a function whose branches go two ways, a block depends on another through one type of
edge only. Otherwise it would post-dominate the block that it depends on. -/
theorem DependsVia.type_unique (pdt : PostDominatorTree F) (hTwoWay : TwoWay F) {type type' : EdgeType}
    (h : DependsVia F a type b) (h' : DependsVia F a type' b) : type = type' := by
  obtain ⟨s, hEdge, rfl, hDom, hNot⟩ := h
  obtain ⟨s', hEdge', rfl, hDom', -⟩ := h'
  by_contra hNe
  have hDiff : s ≠ s' := fun hEq => hNe (by rw [hEq])
  obtain ⟨block, hBlock⟩ : ∃ block, F.blocks[a]? = some block :=
    ⟨_, List.getElem?_eq_getElem hEdge.lt.1⟩
  have hSuccessors : F.successors a = block.successors := by
    rw [Function.successors, hBlock, Option.elim_some]
  by_cases hBranch : block.terminator.opcode = .br ∧ block.terminator.operands.length = 3
  · obtain ⟨s₀, s₁, hTwo⟩ := List.length_eq_two.mp
      (hTwoWay block (List.mem_of_getElem? hBlock) hBranch.1 hBranch.2)
    refine hNot (controlDependent_of_all pdt hEdge fun c hc => ?_)
    unfold Function.Edge at hEdge hEdge' hc
    rw [hSuccessors, hTwo, List.mem_pair] at hEdge hEdge' hc
    have hCases : c = s ∨ c = s' := by
      rcases hEdge with rfl | rfl <;> rcases hEdge' with rfl | rfl <;> tauto
    rcases hCases with rfl | rfl
    · exact hDom
    · exact hDom'
  · simp [getEdgeType, hBlock, hBranch] at hNe

/-- What `cdMap` says about the children that are regions. -/
structure Keyed (F : Function) (g₀ : Graph) (st : Regions) : Prop where
  child_key : ∀ x type n, st.graph.Child x type (.region n) →
    ∃ key ∈ st.cdMap, (type, x) ∈ key.1 ∧ key.2 = .region n
  key_block : ∀ key ∈ st.cdMap, key.2 = .root ∨
    ∃ b < F.blocks.length, ∀ cd ∈ key.1, cd ∈ controlDependences g₀ (.block b)

/-- Step of the first phase: a region stays below what is in its key, and a key holds control
dependences of one block. -/
theorem Keyed.enter {g₀ : Graph} {pending : List Nat} {st : Regions} (h : Keyed F g₀ st)
    (hClasses : Classes F g₀ (b :: pending) st) (hb : b < F.blocks.length) :
    Keyed F g₀ (st.enter b) := by
  rw [Regions.enter, Regions.regionFor]
  cases st.findRegion (controlDependences st.graph (.block b)) with
  | some region =>
      refine ⟨fun x type n hChild => ?_, h.key_block⟩
      exact h.child_key x type n ((child_moveTo_of_ne (by simp)).mp hChild)
  | none =>
      constructor
      · intro x type n hChild
        rcases Regions.child_create.mp ((child_moveTo_of_ne (by simp)).mp hChild) with hOld | ⟨hMem, hEq⟩
        · obtain ⟨key, hKey, hMem⟩ := h.child_key x type n hOld
          exact ⟨key, List.mem_cons_of_mem _ hKey, hMem⟩
        · exact ⟨_, List.mem_cons_self, hMem, hEq.symm⟩
      · intro key hKey
        rcases List.mem_cons.mp hKey with rfl | hOld
        · exact .inr ⟨b, hb, fun cd hcd => (hClasses.mem_controlDependences cd).mp hcd⟩
        · exact h.key_block key hOld

/-- Run of the first phase over any blocks that are left, each entered once. -/
theorem Keyed.foldl_enter {g₀ : Graph} {blocks : List Nat} {st : Regions} (h : Keyed F g₀ st)
    (hClasses : Classes F g₀ blocks st) (hInv : Regions.Inv F g₀ blocks st) (hNodup : blocks.Nodup)
    (hLt : ∀ b ∈ blocks, b < F.blocks.length) : Keyed F g₀ (blocks.foldl Regions.enter st) := by
  induction blocks generalizing st with
  | nil => exact h
  | cons b blocks ih =>
      rw [List.nodup_cons] at hNodup
      rw [List.forall_mem_cons] at hLt
      exact ih (h.enter hClasses hLt.1) (hClasses.enter hInv hNodup.1 hLt.1) (hInv.enter hNodup.1)
        hNodup.2 hLt.2

/-- After the first phase no node is filed under a block by edges of two types. -/
theorem exclusive_enterAll (pdt : PostDominatorTree F) (hTwoWay : TwoWay F) :
    Exclusive (Regions.enterAll (computeDependencies F pdt) pdt.postOrder).graph := by
  have hInv : Regions.Inv F (computeDependencies F pdt) [] _ := Regions.inv_enterAll
  have hKeyed : Keyed F (computeDependencies F pdt)
      (Regions.enterAll (computeDependencies F pdt) pdt.postOrder) := by
    refine Keyed.foldl_enter ⟨fun x type n hChild => ?_, ?_⟩ classes_computeDependencies
      Regions.inv_computeDependencies (pdt.postOrder_perm.nodup_iff.mpr List.nodup_range)
      fun b hb => List.mem_range.mp (pdt.postOrder_perm.mem_iff.mp hb)
    · obtain ⟨c, hEq, -⟩ := child_computeDependencies.mp hChild
      cases hEq
    · intro key hKey
      rw [List.mem_singleton.mp hKey]
      exact .inl rfl
  intro a type type' y h h'
  have hParent := hInv.child_parent a type y h
  cases y with
  | root => exact absurd hParent (hInv.root_isolated _)
  | block b => exact absurd h (sameAbove_enterAll.children a type b)
  | region n =>
      obtain ⟨key, hKey, hMem, hRegion⟩ := hKeyed.child_key _ type n h
      obtain ⟨key', hKey', hMem', hRegion'⟩ := hKeyed.child_key _ type' n h'
      have hSame := ((classes_enterAll pdt).distinct key hKey key' hKey').mp (hRegion.trans hRegion'.symm)
      rcases hKeyed.key_block key hKey with hRoot | ⟨b, hb, hDependences⟩
      · rw [hRoot] at hRegion
        cases hRegion
      · have hVia : ∀ {type}, (type, NodeRef.block a) ∈ key.1 → DependsVia F a type b := by
          intro type hMem
          rcases (mem_controlDependences_computeDependencies hb).mp (hDependences _ hMem) with
            ⟨a', hEq, hVia⟩ | ⟨hEq, -⟩
          · obtain rfl := NodeRef.block.inj hEq
            exact hVia
          · cases hEq
        exact (hVia hMem).type_unique pdt hTwoWay (hVia ((hSame _).mpr hMem'))

end OneType

section Climb
variable {F : Function} {pdt : PostDominatorTree F} {A a b : Nat}

/-- Before the second phase there is nothing to follow: every region stands for itself. -/
theorem routed_enterAll : Routed (Regions.enterAll (computeDependencies F pdt) pdt.postOrder).graph
    (Regions.enterAll (computeDependencies F pdt) pdt.postOrder).graph id := by
  have hInv : Regions.Inv F (computeDependencies F pdt) [] _ := Regions.inv_enterAll
  refine ⟨Nat.le_refl _, fun x hx y => ⟨fun hy => ⟨y, hy, .inl ⟨rfl, ?_⟩⟩, ?_⟩, ?_, ?_, ?_⟩
  · rintro n rfl
    exact hInv.region_lt x n hy
  · rintro ⟨z, hz, ⟨rfl, -⟩ | ⟨n, hn, rfl, -⟩⟩
    · exact hz
    · exact absurd (hInv.region_lt x n hz) (Nat.not_lt.mpr hn)
  · exact fun n hn hLt => absurd hLt (Nat.not_lt.mpr hn)
  · exact fun a type y hy _ => hy
  · intro a type n hn hChild
    exact absurd (hInv.child_parent a type _ hChild) (hInv.fresh n hn _)

/-- The graph of the first phase is faithful to itself, which starts the induction over
`fixTooMany`. -/
theorem faithful_enterAll : Faithful (Regions.enterAll (computeDependencies F pdt) pdt.postOrder).graph
    (Regions.enterAll (computeDependencies F pdt) pdt.postOrder).graph id := by
  have hInv : Regions.Inv F (computeDependencies F pdt) [] _ := Regions.inv_enterAll
  refine ⟨fun a type y hy _ => hInv.child_parent a type y hy, ?_⟩
  have hSame : ∀ {x z y}, (Regions.enterAll (computeDependencies F pdt) pdt.postOrder).graph.Parent x z →
      StandsFor (Regions.enterAll (computeDependencies F pdt) pdt.postOrder).graph id z y → z = y := by
    rintro x z y hz (⟨hEq, -⟩ | ⟨n, hn, rfl, -⟩)
    · exact hEq
    · exact absurd (hInv.region_lt x n hz) (Nat.not_lt.mpr hn)
  exact fun x _ z z' y hz hz' hUp hUp' => (hSame hz hUp).trans (hSame hz' hUp').symm

variable (pdt) in
/-- The whole second phase only moves children under new regions. -/
theorem fixed_graphForFunction (nodes : List Nat) : Fixed F (computeDependencies F pdt)
    (Regions.enterAll (computeDependencies F pdt) pdt.postOrder).graph
    (graphForFunction F pdt nodes) := by
  have hInv : Regions.Inv F (computeDependencies F pdt) [] _ := Regions.inv_enterAll
  have hSets : (Regions.enterAll (computeDependencies F pdt) pdt.postOrder).graph.Sets :=
    List.foldlRecOn (motive := fun st : Regions => st.graph.Sets) _ _ sets_computeDependencies
      fun _ hst b _ => sets_enter hst b
  refine List.foldlRecOn (motive := Fixed F (computeDependencies F pdt)
    (Regions.enterAll (computeDependencies F pdt) pdt.postOrder).graph) _ _ ?_ fun _ hg b _ =>
      (hg.fixTooMany hInv.child_parent .true b).fixTooMany hInv.child_parent .false b
  exact ⟨hSets, fixing_of_inv hInv, id, routed_enterAll, fun _ => faithful_enterAll⟩

/-- The region above a block has been linked to all that the block depends on. -/
theorem exists_region (pdt : PostDominatorTree F) (nodes : List Nat) (hb : b < F.blocks.length)
    (hDependent : ∃ a, ControlDependent F a b) :
    ∃ n < (Regions.enterAll (computeDependencies F pdt) pdt.postOrder).graph.regions,
      ((graphForFunction F pdt nodes).node (.block b)).parents = [.region n] ∧
        ∀ y, (Regions.enterAll (computeDependencies F pdt) pdt.postOrder).graph.Parent (.region n) y ↔
          (∃ a, y = .block a ∧ ControlDependent F a b) ∨ (y = .root ∧ PostDominates F b 0) := by
  obtain ⟨key, hKey, hSame, hParents, -⟩ := exists_key pdt hb nodes
  have hSets : (graphForFunction F pdt nodes).Sets := sets_graphForFunction nodes
  have hMem : ∀ type y, (type, y) ∈ key.1 ↔ (∃ a, y = .block a ∧ DependsVia F a type b) ∨
      (y = .root ∧ type = .other ∧ PostDominates F b 0) := fun type y =>
    (hSame _).trans (mem_controlDependences_computeDependencies hb)
  obtain ⟨n, hn, hRegion, hAbove⟩ := (Regions.inv_enterAll.keys key hKey).resolve_left fun hRoot => by
    obtain ⟨a, ha⟩ := hDependent
    obtain ⟨type, hVia⟩ := controlDependent_iff_dependsVia.mp ha
    have hBlock := (hMem type (.block a)).mpr (.inl ⟨a, rfl, hVia⟩)
    rw [hRoot.2, List.mem_singleton] at hBlock
    cases hBlock
  refine ⟨n, hn, eq_singleton_of_nodup (hSets.parents _) fun y => ?_, fun y => (hAbove y).trans ?_⟩
  · rw [← hRegion]
    exact (hParents y).trans (and_iff_right hDependent)
  · simp only [hMem, exists_or, controlDependent_iff_dependsVia]
    refine or_congr ⟨?_, ?_⟩ ⟨?_, ?_⟩
    · rintro ⟨type, a, hEq, hVia⟩
      exact ⟨a, hEq, type, hVia⟩
    · rintro ⟨a, hEq, type, hVia⟩
      exact ⟨type, a, hEq, hVia⟩
    · rintro ⟨type, hEq, -, hDom⟩
      exact ⟨hEq, hDom⟩
    · rintro ⟨hEq, hDom⟩
      exact ⟨.other, hEq, rfl, hDom⟩

section Region
variable {g₁ g : Graph} {owner : Nat → Nat} {n : Nat}

/-- Everything that the block depends on is met at the only parent of its region. -/
theorem Routed.sole_of_single (h : Routed g₁ g owner) (hn : n < g₁.regions)
    (hAbove : ∀ y, g₁.Parent (.region n) y ↔
      (∃ a, y = .block a ∧ ControlDependent F a b) ∨ (y = .root ∧ PostDominates F b 0))
    {z : NodeRef} (hz : (g.node (.region n)).parents = [z]) (ha : ControlDependent F a b) :
    SoleDependence F a b ∧
      (z = .block a ∨ ∃ m, g₁.regions ≤ m ∧ z = .region m ∧ owner m = a) := by
  have hOld : ∀ n', NodeRef.region n = .region n' → n' < g₁.regions :=
    fun n' hEq => NodeRef.region.inj hEq ▸ hn
  have hStands : ∀ y, g₁.Parent (.region n) y → StandsFor g₁ owner z y := by
    intro y hy
    obtain ⟨z', hz', hUp⟩ := (h.above _ hOld y).mp hy
    obtain rfl : z' = z := List.mem_singleton.mp (hz ▸ hz' : z' ∈ [z])
    exact hUp
  have hBlock : ∀ a', ControlDependent F a' b →
      z = .block a' ∨ ∃ m, g₁.regions ≤ m ∧ z = .region m ∧ owner m = a' := by
    intro a' ha'
    rcases hStands _ ((hAbove _).mpr (.inl ⟨a', rfl, ha'⟩)) with ⟨hEq, -⟩ | ⟨m, hm, hzm, hEq⟩
    · exact .inl hEq
    · exact .inr ⟨m, hm, hzm, (NodeRef.block.inj hEq).symm⟩
  refine ⟨⟨fun hDom => ?_, fun a' => ⟨fun ha' => ?_, fun hEq => hEq ▸ ha⟩⟩, hBlock a ha⟩
  · rcases hStands _ ((hAbove _).mpr (.inr ⟨rfl, hDom⟩)) with ⟨rfl, -⟩ | ⟨m, -, -, hEq⟩
    · rcases hBlock a ha with hEq | ⟨m, -, hEq, -⟩ <;> cases hEq
    · cases hEq
  · rcases hBlock a ha with rfl | ⟨m, -, rfl, rfl⟩
    · rcases hBlock a' ha' with hEq | ⟨m, -, hEq, -⟩
      · exact (NodeRef.block.inj hEq).symm
      · cases hEq
    · rcases hBlock a' ha' with hEq | ⟨m', -, hEq, rfl⟩
      · cases hEq
      · rw [NodeRef.region.inj hEq]

/-- If the block depends on one other block only, all parents of its region stand for this one. -/
theorem Faithful.single_of_sole (h : Faithful g₁ g owner) (hRouted : Routed g₁ g owner)
    (hSets : g.Sets) (hn : n < g₁.regions)
    (hAbove : ∀ y, g₁.Parent (.region n) y ↔
      (∃ a, y = .block a ∧ ControlDependent F a b) ∨ (y = .root ∧ PostDominates F b 0))
    (hSole : SoleDependence F a b) : ∃ z, (g.node (.region n)).parents = [z] := by
  have hOld : ∀ n', NodeRef.region n = .region n' → n' < g₁.regions :=
    fun n' hEq => NodeRef.region.inj hEq ▸ hn
  have hStands : ∀ z, g.Parent (.region n) z → StandsFor g₁ owner z (.block a) := by
    intro z hz
    have hSome : ∃ y, StandsFor g₁ owner z y := by
      by_cases hNew : ∀ n, z = .region n → n < g₁.regions
      · exact ⟨z, .inl ⟨rfl, hNew⟩⟩
      · simp only [not_forall, Nat.not_lt] at hNew
        obtain ⟨m, rfl, hm⟩ := hNew
        exact ⟨_, .inr ⟨m, hm, rfl, rfl⟩⟩
    obtain ⟨y, hUp⟩ := hSome
    rcases (hAbove y).mp ((hRouted.above _ hOld y).mpr ⟨z, hz, hUp⟩) with ⟨a', rfl, ha'⟩ | ⟨-, hDom⟩
    · rwa [← (hSole.2 a').mp ha']
    · exact absurd hDom hSole.1
  obtain ⟨z, hz, -⟩ := (hRouted.above _ hOld _).mp
    ((hAbove (.block a)).mpr (.inl ⟨a, rfl, (hSole.2 a).mpr rfl⟩))
  refine ⟨z, eq_singleton_of_nodup (hSets.parents _) fun z' => ⟨fun hz' => ?_, fun hEq => hEq ▸ hz⟩⟩
  exact h.injective _ hOld z' z _ hz' hz (hStands z' hz') (hStands z hz)

end Region

/-- From a block, the climb comes to an end, or to the only block that this one depends on. -/
theorem controls_block (pdt : PostDominatorTree F) (nodes : List Nat) (hb : b < F.blocks.length) :
    ((∀ A, ∃ fuel, controls (graphForFunction F pdt nodes) A fuel (.block b) = some false) ∧
        (TwoWay F → ∀ a, ¬SoleDependence F a b)) ∨
      ∃ rounds a, SoleDependence F a b ∧ ∀ A fuel,
        controls (graphForFunction F pdt nodes) A (fuel + rounds) (.block b) =
          if a = A then some true else controls (graphForFunction F pdt nodes) A fuel (.block a) := by
  obtain ⟨hSets, hFixing, owner, hRouted, hFaithful⟩ := fixed_graphForFunction pdt nodes
  by_cases hDependent : ∃ a, ControlDependent F a b
  case neg =>
    obtain ⟨key, -, -, hParents, -⟩ := exists_key pdt hb nodes
    refine .inl ⟨fun A => ⟨1, controls_of_not_single (fun parent hEq => hDependent ?_) 0⟩,
      fun _ a hSole => hDependent ⟨a, (hSole.2 a).mpr rfl⟩⟩
    have hParent : parent ∈ ((graphForFunction F pdt nodes).node (.block b)).parents :=
      hEq ▸ List.mem_singleton_self parent
    exact ((hParents parent).mp hParent).1
  case pos =>
    obtain ⟨n, hn, hOwn, hAbove⟩ := exists_region pdt nodes hb hDependent
    by_cases hSingle : ∃ z, ((graphForFunction F pdt nodes).node (.region n)).parents = [z]
    case neg =>
      refine .inl ⟨fun A => ⟨2, (controls_of_region hOwn 1).trans ?_⟩, fun hTwoWay a hSole => hSingle ?_⟩
      · exact controls_of_not_single (fun z hz => hSingle ⟨z, hz⟩) 0
      · exact (hFaithful (exclusive_enterAll pdt hTwoWay)).single_of_sole hRouted hSets hn hAbove hSole
    case pos =>
      obtain ⟨a, ha⟩ := hDependent
      obtain ⟨z, hz⟩ := hSingle
      obtain ⟨hSole, rfl | ⟨m, hm, rfl, rfl⟩⟩ := hRouted.sole_of_single hn hAbove hz ha
      · exact .inr ⟨2, a, hSole, fun A fuel =>
          (controls_of_region hOwn (fuel + 1)).trans (controls_of_block hz fuel)⟩
      · have hLt := hFixing.region_lt (.region n) m (hz ▸ List.mem_singleton_self _ : _ ∈ _)
        have hFix : ((graphForFunction F pdt nodes).node (.region m)).parents = [.block (owner m)] :=
          eq_singleton_of_nodup (hSets.parents _) (hRouted.fixed m hm hLt)
        refine .inr ⟨3, owner m, hSole, fun A fuel => ?_⟩
        rw [controls_of_region hOwn (fuel + 2), controls_of_region hz (fuel + 1)]
        exact controls_of_block hFix fuel

/-- On the way from the entry to where `b` cannot be avoided any more, there is a block that `b`
depends on, unless it cannot be avoided from the entry on. -/
theorem exists_controlDependent {visited : List Nat} {x : Nat} (walk : Walk F.Edge 0 visited x)
    (hDom : PostDominates F b x) (hEntry : ¬PostDominates F b 0) :
    ∃ a ∈ visited, ControlDependent F a b := by
  induction walk with
  | nil => exact absurd hDom hEntry
  | @snoc visited c x walk step ih =>
      by_cases hBefore : PostDominates F b c
      · obtain ⟨a, hMem, hDependent⟩ := ih hBefore
        exact ⟨a, List.mem_cons_of_mem _ hMem, hDependent⟩
      · exact ⟨c, List.mem_cons_of_mem _ walk.mem, x, step, hDom, fun hBoth => hBefore hBoth.1⟩

namespace SoleDependence

/-- The only block on which a block depends dominates it, since a path around it would have to
take another branch. -/
theorem dominates (h : SoleDependence F a b) : Dominates F.Edge (· = 0) a b := by
  rintro _ rfl visited walk
  obtain ⟨a', hMem, hDependent⟩ := exists_controlDependent walk (Dominates.self b) h.1
  exact (h.2 a').mp hDependent ▸ hMem

/-- A block that can be reached does not depend on itself alone. -/
theorem ne (h : SoleDependence F a b) (hReach : F.Reachable b) : a ≠ b := by
  have hb : b ≠ 0 := by
    rintro rfl
    exact h.1 (Dominates.self 0)
  obtain ⟨visited, walk⟩ := exists_walk hReach
  obtain ⟨before, c, walkBefore, step, hFirst⟩ := walk.exists_entering walk.mem hb
  have hMem : a ∈ before := by
    by_cases hBefore : PostDominates F b c
    · obtain ⟨a', hMem, hDependent⟩ := exists_controlDependent walkBefore hBefore h.1
      exact (h.2 a').mp hDependent ▸ hMem
    · have hDependent : ControlDependent F c b :=
        ⟨b, step, Dominates.self b, fun hBoth => hBefore hBoth.1⟩
      exact (h.2 c).mp hDependent ▸ walkBefore.mem
  exact fun hEq => hFirst (hEq ▸ hMem)

theorem lt (h : SoleDependence F a b) : a < F.blocks.length := by
  obtain ⟨s, hEdge, -⟩ := (h.2 a).mpr rfl
  exact hEdge.lt.1

/-- A chain leads to blocks that are passed on every way. -/
theorem dominates_of_chain (h : TransGen (SoleDependence F) a b) (hReach : F.Reachable b) :
    Dominates F.Edge (· = 0) a b ∧ a ≠ b := by
  obtain ⟨visited, walk⟩ := exists_walk hReach
  induction h generalizing visited with
  | single hSole => exact ⟨hSole.dominates, hSole.ne hReach⟩
  | @tail c b _ hSole ih =>
      have hMem := hSole.dominates 0 rfl visited walk
      obtain ⟨before, walkBefore, -⟩ := walk.exists_suffix hMem
      obtain ⟨hDom, hNe⟩ := ih walkBefore.reachable before walkBefore
      refine ⟨hDom.trans hSole.dominates, ?_⟩
      rintro rfl
      exact hNe (hDom.antisymm hSole.dominates rfl walkBefore)

end SoleDependence

/-- The climb from a block that can be reached ends: each block on the way is on every shortest way
to the one before. -/
theorem exists_controls (pdt : PostDominatorTree F) (nodes : List Nat) (A : Nat)
    {visited : List Nat} (walk : Walk F.Edge 0 visited b) (hb : b < F.blocks.length) :
    ∃ fuel answer, controls (graphForFunction F pdt nodes) A fuel (.block b) = some answer ∧
      (answer = true → TransGen (SoleDependence F) A b) ∧
      (TwoWay F → TransGen (SoleDependence F) A b → answer = true) := by
  induction hLength : visited.length using Nat.strongRecOn generalizing visited b with
  | ind n ih =>
      subst hLength
      rcases controls_block pdt nodes hb with ⟨hEnds, hNone⟩ | ⟨rounds, a, hSole, hClimb⟩
      · obtain ⟨fuel, hFuel⟩ := hEnds A
        refine ⟨fuel, false, hFuel, fun h => Bool.noConfusion h, fun hTwoWay hChain => ?_⟩
        obtain ⟨a, -, hSole⟩ := TransGen.tail'_iff.mp hChain
        exact absurd hSole (hNone hTwoWay a)
      · by_cases hMet : a = A
        · subst hMet
          refine ⟨0 + rounds, true, ?_, fun _ => .single hSole, fun _ _ => rfl⟩
          rw [hClimb, if_pos rfl]
        · have hMem := hSole.dominates 0 rfl visited walk
          obtain ⟨before, walkBefore, hShorter⟩ := walk.exists_shorter hMem (hSole.ne walk.reachable)
          obtain ⟨fuel, answer, hAnswer, hForth, hBack⟩ := ih _ hShorter walkBefore hSole.lt rfl
          refine ⟨fuel + rounds, answer, ?_, fun h => (hForth h).tail hSole, fun hTwoWay hChain => ?_⟩
          · rw [hClimb, if_neg hMet, hAnswer]
          · obtain ⟨a', hRest, hSole'⟩ := TransGen.tail'_iff.mp hChain
            obtain rfl : a' = a := (hSole.2 a').mp ((hSole'.2 a').mpr rfl)
            rcases reflTransGen_iff_eq_or_transGen.mp hRest with hEq | hRest
            · exact absurd hEq hMet
            · exact hBack hTwoWay hRest

/-- For a block that can be reached, the query ends, and it answers whether a chain of sole
dependences leads to it from `A`. Every way to it leads through such a block. -/
theorem controls_iff (F : Function) (pdt : PostDominatorTree F) (nodes : List Nat)
    (hTwoWay : TwoWay F) (A B : Nat) (hB : B < F.blocks.length) (hReach : F.Reachable B) :
    (∃ fuel answer, controls (graphForFunction F pdt nodes) A fuel (.block B) = some answer) ∧
    (∀ fuel answer, controls (graphForFunction F pdt nodes) A fuel (.block B) = some answer →
      (answer = true ↔ TransGen (SoleDependence F) A B)) ∧
    (TransGen (SoleDependence F) A B → Dominates F.Edge (· = 0) A B ∧ A ≠ B) := by
  obtain ⟨visited, walk⟩ := exists_walk hReach
  obtain ⟨fuel, answer, hAnswer, hForth, hBack⟩ := exists_controls pdt nodes A walk hB
  refine ⟨⟨fuel, answer, hAnswer⟩, fun fuel' answer' hAnswer' => ?_, fun hChain =>
    SoleDependence.dominates_of_chain hChain hReach⟩
  rw [← controls_unique hAnswer hAnswer']
  exact ⟨hForth, hBack hTwoWay⟩

end Climb

/-- One side of the branch is controlled by the branch. -/
theorem controls_iff_ifElse : ∃ (pdt : PostDominatorTree ifElse) (fuel : Nat),
    controls (graphForFunction ifElse pdt [0, 1, 2, 3]) 0 fuel (.block 1) = some true ∧
      Dominates ifElse.Edge (· = 0) 0 1 := by
  obtain ⟨pdt⟩ := (nonempty_postDominatorTree_iff ifElse).mpr ifElse_reachesExit
  have hTwoWay : TwoWay ifElse := by decide
  have hEdge : ifElse.Edge 0 1 ∧ ifElse.Edge 2 3 ∧ ifElse.Edge 0 2 := by simp [ifElse_edge]
  have hWalk : Walk (fun x y => ifElse.Edge y x) 3 [3] 3 := .nil
  have hSole : SoleDependence ifElse 0 1 := by
    refine ⟨ifElse_not_postDominates ((hWalk.snoc hEdge.2.1).snoc hEdge.2.2) (by decide), fun a => ?_⟩
    simp [controlDependent_iff_dependsVia, ifElse_dependsVia]
  obtain ⟨⟨fuel, answer, hAnswer⟩, hIff, hDominates⟩ := controls_iff ifElse pdt [0, 1, 2, 3] hTwoWay 0 1
    (by decide) (.single hEdge.1)
  obtain rfl := (hIff fuel answer hAnswer).mpr (.single hSole)
  exact ⟨pdt, fuel, hAnswer, (hDominates (.single hSole)).1⟩

end ConAnalysis.ControlDependence
