import ConAnalysis.ControlDependence.Influences
import ConAnalysis.ControlDependence.TreeExistence

/-! `enclosingRegion`. Two blocks are put under the same region exactly when they have the same
control dependences. -/
namespace ConAnalysis.ControlDependence
open IR

/-- `isRegion`. -/
def NodeRef.isRegion (x : NodeRef) : Bool := x.getBlock.isNone

/-- `ControlDependenceNode::enclosingRegion`, if its assertions hold. -/
def enclosingRegion (g : Graph) (x : NodeRef) : Option NodeRef :=
  if x.isRegion then some x
  else
    match (g.node x).parents with
    | [region] => if region.isRegion then some region else none
    | _ => none

/-- One way of this type to leave `a` leads to `c` in any case, and another one may not. -/
def DependsVia (F : Function) (a : Nat) (type : EdgeType) (c : Nat) : Prop :=
  ∃ s, F.Edge a s ∧ getEdgeType F a s = type ∧ PostDominates F c s ∧ ¬(PostDominates F c a ∧ c ≠ a)

section Typed
variable {F : Function} {pdt : PostDominatorTree F} {a c : Nat} {type : EdgeType}

theorem controlDependent_iff_dependsVia : ControlDependent F a c ↔ ∃ type, DependsVia F a type c := by
  constructor
  · rintro ⟨s, hEdge, hDependent⟩
    exact ⟨_, s, hEdge, rfl, hDependent⟩
  · rintro ⟨_, s, hEdge, -, hDependent⟩
    exact ⟨s, hEdge, hDependent⟩

/-- The pass files a block under the edge on whose way up to the common post-dominator it lies. -/
theorem dependsVia_iff : DependsVia F a type c ↔
    ∃ s, F.Edge a s ∧ getEdgeType F a s = type ∧ c ∈ pdt.dependents a s := by
  refine exists_congr fun s => and_congr_right fun hEdge => and_congr_right fun _ => ?_
  rw [PostDominatorTree.mem_dependents, PostDominatorTree.ancestors, PostDominatorTree.ancestors,
    pdt.correct s hEdge.lt.2.1, pdt.correct a hEdge.lt.1]

/-- The children of a block are the blocks that depend on it by edges of the type. -/
theorem child_computeDependencies {x y : NodeRef} :
    (computeDependencies F pdt).Child x type y ↔ ∃ c, y = .block c ∧
      ((∃ a, x = .block a ∧ DependsVia F a type c) ∨
        (x = .root ∧ type = .other ∧ c ∈ pdt.ancestors 0)) := by
  have hEdge : ∀ A B (g : Graph), ((pdt.dependents A B).foldl
      (fun g cur => link (getEdgeType F A B) g (.block A) (.block cur)) g).Child x type y ↔
        g.Child x type y ∨ ∃ cur ∈ pdt.dependents A B,
          x = .block A ∧ type = getEdgeType F A B ∧ y = .block cur := fun A B g =>
    foldl_iff (P := fun g => g.Child x type y)
      (Q := fun cur => x = .block A ∧ type = getEdgeType F A B ∧ y = .block cur)
      (fun _ _ => child_link) (pdt.dependents A B) g
  have hBlock : ∀ A (g : Graph), ((F.successors A).foldl
      (fun g B => (pdt.dependents A B).foldl
        (fun g cur => link (getEdgeType F A B) g (.block A) (.block cur)) g) g).Child x type y ↔
        g.Child x type y ∨ ∃ B ∈ F.successors A, ∃ cur ∈ pdt.dependents A B,
          x = .block A ∧ type = getEdgeType F A B ∧ y = .block cur := fun A g =>
    foldl_iff (P := fun g => g.Child x type y)
      (Q := fun B => ∃ cur ∈ pdt.dependents A B,
        x = .block A ∧ type = getEdgeType F A B ∧ y = .block cur)
      (fun g B => hEdge A B g) (F.successors A) g
  have hEmpty : ¬({} : Graph).Child x type y := by
    unfold Graph.Child
    cases type <;> exact List.not_mem_nil
  have hBlocks : ((List.range F.blocks.length).foldl
      (fun g A => (F.successors A).foldl
        (fun g B => (pdt.dependents A B).foldl
          (fun g cur => link (getEdgeType F A B) g (.block A) (.block cur)) g) g) {}).Child x type y ↔
        ({} : Graph).Child x type y ∨ ∃ A ∈ List.range F.blocks.length, ∃ B ∈ F.successors A,
          ∃ cur ∈ pdt.dependents A B,
            x = .block A ∧ type = getEdgeType F A B ∧ y = .block cur :=
    foldl_iff (P := fun g => g.Child x type y)
      (Q := fun A => ∃ B ∈ F.successors A, ∃ cur ∈ pdt.dependents A B,
        x = .block A ∧ type = getEdgeType F A B ∧ y = .block cur)
      (fun g A => hBlock A g) (List.range F.blocks.length) {}
  have hRoot : ∀ g : Graph, ((pdt.ancestors 0).foldl
      (fun g cur => link .other g .root (.block cur)) g).Child x type y ↔
        g.Child x type y ∨ ∃ cur ∈ pdt.ancestors 0, x = .root ∧ type = .other ∧ y = .block cur :=
    fun g => foldl_iff (P := fun g => g.Child x type y)
      (Q := fun cur => x = .root ∧ type = .other ∧ y = .block cur)
      (fun _ _ => child_link) (pdt.ancestors 0) g
  refine (hRoot _).trans ?_
  rw [hBlocks, or_iff_right hEmpty]
  constructor
  · rintro (⟨a, -, s, hSucc, c, hMem, rfl, hType, rfl⟩ | ⟨c, hMem, rfl, hType, rfl⟩)
    · exact ⟨c, rfl, .inl ⟨a, rfl, dependsVia_iff.mpr ⟨s, hSucc, hType.symm, hMem⟩⟩⟩
    · exact ⟨c, rfl, .inr ⟨rfl, hType, hMem⟩⟩
  · rintro ⟨c, rfl, ⟨a, rfl, hDependent⟩ | ⟨rfl, hType, hMem⟩⟩
    · obtain ⟨s, hSucc, hType, hMem⟩ := dependsVia_iff.mp hDependent
      exact .inl ⟨a, List.mem_range.mpr hSucc.lt.1, s, hSucc, c, hMem, rfl, hType.symm, rfl⟩
    · exact .inr ⟨c, hMem, rfl, hType, rfl⟩

theorem ControlDependent.lt (pdt : PostDominatorTree F) (h : ControlDependent F a c) :
    c < F.blocks.length := by
  obtain ⟨s, hEdge, hDom, -⟩ := h
  exact ReachesExit.lt ((nonempty_postDominatorTree_iff F).mp ⟨pdt⟩) hEdge.lt.2.1 hDom

/-- What a block depends on before any block has been moved. -/
theorem mem_controlDependences_computeDependencies {y : NodeRef} (hc : c < F.blocks.length) :
    (type, y) ∈ controlDependences (computeDependencies F pdt) (.block c) ↔
      (∃ a, y = .block a ∧ DependsVia F a type c) ∨
        (y = .root ∧ type = .other ∧ PostDominates F c 0) := by
  have hEntry : c ∈ pdt.ancestors 0 ↔ PostDominates F c 0 := pdt.correct 0 (by omega) c
  rw [mem_controlDependences, and_iff_right_of_imp fun hChild =>
    (symmetric_computeDependencies y (.block c)).mpr ⟨type, hChild⟩, child_computeDependencies]
  simp only [NodeRef.block.injEq, exists_eq_left', hEntry]

end Typed

/-- The sets of the nodes have no elements twice, so that their sizes are the lengths. -/
structure Graph.Sets (g : Graph) : Prop where
  parents : ∀ x, (g.node x).parents.Nodup
  children : ∀ x type, ((g.node x).children type).Nodup

namespace Graph.Sets
variable {g : Graph} {a b : NodeRef} {type : EdgeType}

/-- Parents and children are sets in the source; a change of one node that keeps its own sets
keeps them all. -/
theorem modify {f : Node → Node} (h : g.Sets) (hParents : (f (g.node a)).parents.Nodup)
    (hChildren : ∀ type, ((f (g.node a)).children type).Nodup) : (g.modify a f).Sets := by
  constructor
  · intro x
    by_cases hx : x = a
    · rw [hx, node_modify_self]
      exact hParents
    · rw [node_modify_of_ne hx]
      exact h.parents x
  · intro x type
    by_cases hx : x = a
    · rw [hx, node_modify_self]
      exact hChildren type
    · rw [node_modify_of_ne hx]
      exact h.children x type

theorem setChildren (h : g.Sets) {cs : List NodeRef} (hcs : cs.Nodup) (type' : EdgeType) :
    (((g.node a).setChildren cs type).children type').Nodup := by
  rw [Node.children_setChildren]
  split
  · exact hcs
  · exact h.children a type'

theorem addChild (h : g.Sets) : (g.addChild type a b).Sets := by
  refine h.modify ?_ (h.setChildren ((h.children a type).insert))
  rw [Node.parents_setChildren]
  exact h.parents a

theorem removeChild (h : g.Sets) : (g.removeChild type a b).Sets := by
  refine h.modify ?_ (h.setChildren ((h.children a type).filter _))
  rw [Node.parents_setChildren]
  exact h.parents a

theorem addParent (h : g.Sets) : (g.addParent a b).Sets := by
  refine h.modify (h.parents a).insert fun type => ?_
  rw [Node.children_parents]
  exact h.children a type

theorem removeParent (h : g.Sets) : (g.removeParent a b).Sets := by
  refine h.modify ((h.parents a).filter _) fun type => ?_
  rw [Node.children_parents]
  exact h.children a type

theorem newRegion (h : g.Sets) : g.newRegion.2.Sets := ⟨h.parents, h.children⟩

theorem link (h : g.Sets) : (link type g a b).Sets := h.addChild.addParent

/-- The parents that are taken away and the region put in their place leave sets. -/
theorem moveTo (h : g.Sets) (node region : NodeRef) (cds : List (EdgeType × NodeRef)) :
    (Regions.moveTo node region g cds).Sets :=
  List.foldlRecOn _ _ h fun _ hg _ _ => hg.removeChild.addChild.addParent.removeParent

/-- Second phase: also the new region's children are a set. -/
theorem fixTooMany (h : g.Sets) (type : EdgeType) (x : NodeRef) : (fixTooMany type g x).Sets := by
  by_cases hMany : ((g.node x).children type).length > 1
  · rw [ControlDependence.fixTooMany, if_pos hMany]
    refine Sets.addParent (Sets.addChild ?_)
    exact List.foldlRecOn _ _ h.newRegion fun _ hg _ _ => hg.addChild.addParent.removeParent.removeChild
  · rw [ControlDependence.fixTooMany, if_neg hMany]
    exact h

end Graph.Sets

section Construction
variable {F : Function} {pdt : PostDominatorTree F} {st : Regions}

/-- No node is entered twice by the dependences, whatever edges share the blocks on their way
up. -/
theorem sets_computeDependencies : (computeDependencies F pdt).Sets := by
  have hEmpty : ({} : Graph).Sets := by
    constructor
    · exact fun x => List.nodup_nil
    · rintro x (_ | _ | _) <;> exact List.nodup_nil
  unfold computeDependencies
  refine List.foldlRecOn _ _ ?_ fun g hg cur _ => hg.link
  refine List.foldlRecOn _ _ hEmpty fun g hg A _ => ?_
  refine List.foldlRecOn _ _ hg fun g hg B _ => ?_
  exact List.foldlRecOn _ _ hg fun g hg cur _ => hg.link

theorem sets_enter (h : st.graph.Sets) (b : Nat) : (st.enter b).graph.Sets := by
  rw [Regions.enter, Regions.regionFor]
  cases st.findRegion (controlDependences st.graph (.block b)) with
  | some region => exact h.moveTo _ _ _
  | none =>
      refine Graph.Sets.moveTo ?_ _ _ _
      exact List.foldlRecOn _ _ h.newRegion fun _ hg _ _ => hg.link

/-- In the finished graph no node has a parent or a child twice. -/
theorem sets_graphForFunction (nodes : List Nat) : (graphForFunction F pdt nodes).Sets := by
  unfold graphForFunction insertRegions
  refine List.foldlRecOn _ _ ?_ fun g hg b _ => (hg.fixTooMany .true _).fixTooMany .false _
  exact List.foldlRecOn (motive := fun st : Regions => st.graph.Sets) _ _ sets_computeDependencies
    fun _ hst b _ => sets_enter hst b

end Construction

/-- What `cdMap` says about the blocks while some of them are still to be moved. -/
structure Classes (F : Function) (g₀ : Graph) (pending : List Nat) (st : Regions) : Prop where
  untouched_parents : ∀ b, b ∈ pending ∨ F.blocks.length ≤ b →
    ∀ y, st.graph.Parent (.block b) y ↔ g₀.Parent (.block b) y
  untouched_children : ∀ b ∈ pending,
    ∀ x type, st.graph.Child x type (.block b) ↔ g₀.Child x type (.block b)
  distinct : ∀ key ∈ st.cdMap, ∀ key' ∈ st.cdMap, key.2 = key'.2 ↔ ∀ cd, cd ∈ key.1 ↔ cd ∈ key'.1
  moved : ∀ b < F.blocks.length, b ∉ pending → ∃ key ∈ st.cdMap,
    (∀ cd, cd ∈ key.1 ↔ cd ∈ controlDependences g₀ (.block b)) ∧
      ∀ y, st.graph.Parent (.block b) y ↔ key.2 ≠ .root ∧ key.1 ≠ [] ∧ y = key.2

section Loop
variable {F : Function} {g₀ : Graph} {b : Nat} {pending : List Nat} {st : Regions}

theorem controlDependences_ne_nil_of_iff {key cds : List (EdgeType × NodeRef)}
    (h : ∀ cd, cd ∈ key ↔ cd ∈ cds) : key ≠ [] ↔ cds ≠ [] := by
  rw [ne_eq, ne_eq, not_iff_not, List.eq_nil_iff_forall_not_mem, List.eq_nil_iff_forall_not_mem]
  exact forall_congr' fun cd => not_congr (h cd)

/-- A block has kept its dependences until it is moved. -/
theorem Classes.mem_controlDependences (h : Classes F g₀ (b :: pending) st)
    (cd : EdgeType × NodeRef) :
    cd ∈ controlDependences st.graph (.block b) ↔ cd ∈ controlDependences g₀ (.block b) := by
  obtain ⟨type, y⟩ := cd
  rw [ControlDependence.mem_controlDependences, ControlDependence.mem_controlDependences,
    h.untouched_parents b (.inl List.mem_cons_self), h.untouched_children b List.mem_cons_self]

/-- Moving a block under the region of its dependences. -/
theorem Classes.move (h : Classes F g₀ (b :: pending) st) (hInv : Regions.Inv F g₀ (b :: pending) st)
    (hb : b ∉ pending) (hLt : b < F.blocks.length) {cds : List (EdgeType × NodeRef)}
    {region : NodeRef} (hCds : ∀ cd, cd ∈ cds ↔ cd ∈ controlDependences st.graph (.block b))
    (hRegion : Regions.Belongs st.graph cds region)
    (hKey : ∃ key, (key, region) ∈ st.cdMap ∧ ∀ cd, cd ∈ key ↔ cd ∈ cds) :
    Classes F g₀ pending { st with graph := Regions.moveTo (.block b) region st.graph cds } := by
  have hOther : ∀ {b'}, b' ≠ b → NodeRef.block b' ≠ .block b :=
    fun hNe hEq => hNe (NodeRef.block.inj hEq)
  constructor
  case untouched_parents =>
    intro b' hb' y
    have hNe : b' ≠ b := by
      rintro rfl
      exact hb'.elim hb fun hLe => absurd hLt (Nat.not_lt.mpr hLe)
    exact (parent_moveTo_of_ne (hOther hNe)).trans
      (h.untouched_parents b' (hb'.imp_left (List.mem_cons_of_mem _)) y)
  case untouched_children =>
    intro b' hb' x type
    have hNe : b' ≠ b := fun hEq => hb (hEq ▸ hb')
    exact (child_moveTo_of_ne (hOther hNe)).trans
      (h.untouched_children b' (List.mem_cons_of_mem _ hb') x type)
  case distinct => exact h.distinct
  case moved =>
    intro b' hb' hNot
    by_cases hEq : b' = b
    · subst hEq
      obtain ⟨key, hMem, hSame⟩ := hKey
      refine ⟨(key, region), hMem, fun cd => ?_, fun y => ?_⟩
      · exact (hSame cd).trans ((hCds cd).trans (h.mem_controlDependences cd))
      · rw [hInv.parent_moved (fun type y => (hCds _).trans ControlDependence.mem_controlDependences)
          hRegion y, controlDependences_ne_nil_of_iff hSame]
    · obtain ⟨key, hMem, hSame, hParents⟩ := h.moved b' hb' fun hMem =>
        (List.mem_cons.mp hMem).elim hEq hNot
      exact ⟨key, hMem, hSame, fun y => (parent_moveTo_of_ne (hOther hEq)).trans (hParents y)⟩

/-- A new region is for dependences that no other region is for. -/
theorem Classes.create (h : Classes F g₀ (b :: pending) st) (hInv : Regions.Inv F g₀ (b :: pending) st)
    (hFind : st.findRegion (controlDependences st.graph (.block b)) = none) :
    Classes F g₀ (b :: pending)
      { graph := (controlDependences st.graph (.block b)).foldl
          (fun g (type, parent) => link type g parent (.region st.graph.regions)) st.graph.newRegion.2
        cdMap := (controlDependences st.graph (.block b), .region st.graph.regions) :: st.cdMap } := by
  have hNew : ∀ key ∈ st.cdMap, key.2 ≠ .region st.graph.regions := by
    intro key hKey hEq
    rcases hInv.keys key hKey with ⟨hRoot, -⟩ | ⟨n, hn, hRegion, -⟩
    · rw [hRoot] at hEq
      cases hEq
    · rw [hRegion] at hEq
      obtain rfl := NodeRef.region.inj hEq
      exact absurd hn (Nat.lt_irrefl _)
  have hOther : ∀ key ∈ st.cdMap,
      ¬∀ cd, cd ∈ key.1 ↔ cd ∈ controlDependences st.graph (.block b) := by
    intro key hKey hSame
    unfold Regions.findRegion at hFind
    rw [Option.map_eq_none_iff, List.find?_eq_none] at hFind
    refine hFind key hKey ?_
    simp only [Bool.and_eq_true, List.all_eq_true, decide_eq_true_eq]
    exact ⟨fun cd hcd => (hSame cd).mp hcd, fun cd hcd => (hSame cd).mpr hcd⟩
  constructor
  case untouched_parents =>
    intro b' hb' y
    refine (Regions.parent_create.trans (or_iff_left ?_)).trans (h.untouched_parents b' hb' y)
    rintro ⟨hEq, -⟩
    cases hEq
  case untouched_children =>
    intro b' hb' x type
    refine (Regions.child_create.trans (or_iff_left ?_)).trans (h.untouched_children b' hb' x type)
    rintro ⟨-, hEq⟩
    cases hEq
  case distinct =>
    intro key hKey key' hKey'
    rcases List.mem_cons.mp hKey with rfl | hOld
    · rcases List.mem_cons.mp hKey' with rfl | hOld'
      · exact iff_of_true rfl fun cd => Iff.rfl
      · exact iff_of_false (hNew key' hOld').symm fun hSame =>
          hOther key' hOld' fun cd => (hSame cd).symm
    · rcases List.mem_cons.mp hKey' with rfl | hOld'
      · exact iff_of_false (hNew key hOld) (hOther key hOld)
      · exact h.distinct key hOld key' hOld'
  case moved =>
    intro b' hb' hNot
    obtain ⟨key, hMem, hSame, hParents⟩ := h.moved b' hb' hNot
    refine ⟨key, List.mem_cons_of_mem _ hMem, hSame, fun y => ?_⟩
    refine (Regions.parent_create.trans (or_iff_left ?_)).trans (hParents y)
    rintro ⟨hEq, -⟩
    cases hEq

/-- One round of the first loop of `insertRegions`. -/
theorem Classes.enter (h : Classes F g₀ (b :: pending) st) (hInv : Regions.Inv F g₀ (b :: pending) st)
    (hb : b ∉ pending) (hLt : b < F.blocks.length) : Classes F g₀ pending (st.enter b) := by
  rw [Regions.enter, Regions.regionFor]
  cases hFind : st.findRegion (controlDependences st.graph (.block b)) with
  | some region =>
      obtain ⟨key, hMem, hSub, hSup⟩ := Regions.mem_of_findRegion hFind
      exact h.move hInv hb hLt (fun cd => Iff.rfl) (hInv.belongs_of_findRegion hFind)
        ⟨key, hMem, fun cd => ⟨hSub cd, hSup cd⟩⟩
  | none =>
      have hCreate := h.create hInv hFind
      refine hCreate.move hInv.create hb hLt (fun cd => ?_) ⟨.inr ⟨st.graph.regions, ?_, rfl⟩,
        fun hRoot => ?_, fun _ y => ?_⟩ ⟨_, List.mem_cons_self, fun cd => Iff.rfl⟩
      · rw [h.mem_controlDependences, hCreate.mem_controlDependences]
      · rw [Regions.regions_create]
        exact Nat.lt_succ_self _
      · cases hRoot
      · rw [Regions.parent_create]
        exact (or_iff_right (hInv.fresh _ (Nat.le_refl _) y)).trans (and_iff_right rfl)

/-- Run of the first phase: the blocks still to come are filed one after another, each under the
key of its own control dependences. -/
theorem Classes.foldl_enter {blocks : List Nat} (h : Classes F g₀ blocks st)
    (hInv : Regions.Inv F g₀ blocks st) (hNodup : blocks.Nodup)
    (hLt : ∀ b ∈ blocks, b < F.blocks.length) : Classes F g₀ [] (blocks.foldl Regions.enter st) := by
  induction blocks generalizing st with
  | nil => exact h
  | cons b blocks ih =>
      rw [List.nodup_cons] at hNodup
      rw [List.forall_mem_cons] at hLt
      exact ih (h.enter hInv hNodup.1 hLt.1) (hInv.enter hNodup.1) hNodup.2 hLt.2

end Loop

section Shape
variable {F : Function} {pdt : PostDominatorTree F}

/-- Before the first block is entered only the root's key is there. -/
theorem classes_computeDependencies : Classes F (computeDependencies F pdt) pdt.postOrder
    { graph := computeDependencies F pdt, cdMap := [([(.other, .root)], .root)] } := by
  refine ⟨fun b _ y => Iff.rfl, fun b _ x type => Iff.rfl, fun key hKey key' hKey' => ?_,
    fun b hb hNot => ?_⟩
  · rw [List.mem_singleton.mp hKey, List.mem_singleton.mp hKey']
    exact iff_of_true rfl fun cd => Iff.rfl
  · exact absurd (pdt.postOrder_perm.mem_iff.mpr (List.mem_range.mpr hb)) hNot

variable (pdt) in
/-- After the first phase every block is filed in the region of its control dependences. -/
theorem classes_enterAll : Classes F (computeDependencies F pdt) []
    (Regions.enterAll (computeDependencies F pdt) pdt.postOrder) :=
  classes_computeDependencies.foldl_enter Regions.inv_computeDependencies
    (pdt.postOrder_perm.nodup_iff.mpr List.nodup_range)
    fun _ hb => List.mem_range.mp (pdt.postOrder_perm.mem_iff.mp hb)

/-- What the second loop of `insertRegions` leaves as it is. -/
structure SameAbove (g₁ g : Graph) : Prop where
  parents : ∀ b y, g.Parent (.block b) y ↔ g₁.Parent (.block b) y
  children : ∀ a type b, ¬g.Child (.block a) type (.block b)

/-- Step of the second phase: the children of blocks are regions by now, so no block gets
another parent. -/
theorem SameAbove.fixTooMany {g₁ g : Graph} (h : SameAbove g₁ g) (type : EdgeType) (a : Nat) :
    SameAbove g₁ (fixTooMany type g (.block a)) := by
  by_cases hMany : ((g.node (.block a)).children type).length > 1
  · constructor
    · intro b y
      rw [parent_fixTooMany hMany, ← h.parents b y, or_iff_right fun hChild => h.children a type b hChild.1,
        or_iff_left fun hEq => by cases hEq.1]
      exact and_iff_left fun hChild => h.children a type b hChild.1
    · intro a' type' b hChild
      rcases child_of_fixTooMany hMany hChild with hOld | ⟨-, hEq⟩
      · exact h.children a' type' b hOld
      · cases hEq
  · rw [ControlDependence.fixTooMany, if_neg hMany]
    exact h

/-- No block is the child of a block any more. -/
theorem sameAbove_enterAll :
    SameAbove (Regions.enterAll (computeDependencies F pdt) pdt.postOrder).graph
      (Regions.enterAll (computeDependencies F pdt) pdt.postOrder).graph := by
  refine ⟨fun b y => Iff.rfl, fun a type b hChild => ?_⟩
  have hParent := Regions.inv_enterAll.child_parent a type _ hChild
  by_cases hb : b < F.blocks.length
  · obtain ⟨key, hKey, -, hParents⟩ := (classes_enterAll pdt).moved b hb List.not_mem_nil
    obtain ⟨-, -, hEq⟩ := (hParents _).mp hParent
    rcases Regions.inv_enterAll.keys key hKey with ⟨hRoot, -⟩ | ⟨n, -, hRegion, -⟩
    · rw [hRoot] at hEq
      cases hEq
    · rw [hRegion] at hEq
      cases hEq
  · rw [(classes_enterAll pdt).untouched_parents b (.inr (Nat.not_lt.mp hb)), parent_computeDependencies] at hParent
    obtain ⟨c, hc, ⟨a', -, hDependent⟩ | ⟨hEq, -⟩⟩ := hParent
    · obtain rfl := NodeRef.block.inj hc
      exact hb (ControlDependent.lt pdt hDependent)
    · cases hEq

/-- The second phase does not change what is above a block. -/
theorem sameAbove_graphForFunction (nodes : List Nat) :
    SameAbove (Regions.enterAll (computeDependencies F pdt) pdt.postOrder).graph
      (graphForFunction F pdt nodes) :=
  List.foldlRecOn (motive := SameAbove _) _ _ sameAbove_enterAll
    fun _ hg b _ => (hg.fixTooMany .true b).fixTooMany .false b

theorem cdMap_enter (st : Regions) (b : Nat) : st.cdMap ⊆ (st.enter b).cdMap := by
  rw [Regions.enter, Regions.regionFor]
  cases st.findRegion (controlDependences st.graph (.block b)) with
  | some region => exact List.Subset.refl _
  | none => exact List.subset_cons_self _ _

variable (pdt) in
/-- The blocks that depend on the root alone are left without parents. -/
theorem exists_key {b : Nat} (hb : b < F.blocks.length) (nodes : List Nat) :
    ∃ key ∈ (Regions.enterAll (computeDependencies F pdt) pdt.postOrder).cdMap,
      (∀ cd, cd ∈ key.1 ↔ cd ∈ controlDependences (computeDependencies F pdt) (.block b)) ∧
      (∀ y, (graphForFunction F pdt nodes).Parent (.block b) y ↔
        (∃ a, ControlDependent F a b) ∧ y = key.2) ∧
      ((∃ a, ControlDependent F a b) → key.2.isRegion = true) := by
  obtain ⟨key, hKey, hSame, hParents⟩ := (classes_enterAll pdt).moved b hb List.not_mem_nil
  have hKeys := Regions.inv_enterAll.keys key hKey
  have hRootKey : ([(.other, .root)], .root) ∈
      (Regions.enterAll (computeDependencies F pdt) pdt.postOrder).cdMap :=
    List.foldlRecOn (motive := fun st : Regions =>
      ([(EdgeType.other, NodeRef.root)], NodeRef.root) ∈ st.cdMap) _ _
      (List.mem_singleton_self _) fun st hMem b _ => cdMap_enter st b hMem
  have hMem : ∀ type y, (type, y) ∈ key.1 ↔ (∃ a, y = .block a ∧ DependsVia F a type b) ∨
      (y = .root ∧ type = .other ∧ PostDominates F b 0) := fun type y =>
    (hSame _).trans (mem_controlDependences_computeDependencies hb)
  have hProper : (∃ a, ControlDependent F a b) ↔ key.2 ≠ .root ∧ key.1 ≠ [] := by
    constructor
    · rintro ⟨a, hDependent⟩
      obtain ⟨type, hVia⟩ := controlDependent_iff_dependsVia.mp hDependent
      have hBlock := (hMem type (.block a)).mpr (.inl ⟨a, rfl, hVia⟩)
      refine ⟨fun hRoot => ?_, List.ne_nil_of_mem hBlock⟩
      rcases hKeys with ⟨-, hOnly⟩ | ⟨n, -, hRegion, -⟩
      · rw [hOnly, List.mem_singleton] at hBlock
        cases hBlock
      · rw [hRegion] at hRoot
        cases hRoot
    · rintro ⟨hNotRoot, hNe⟩
      by_contra hNone
      refine hNotRoot (((classes_enterAll pdt).distinct key hKey _ hRootKey).mpr fun cd => ?_)
      have hOnly : ∀ cd ∈ key.1, cd = (.other, .root) := by
        rintro ⟨type, y⟩ hcd
        rcases (hMem type y).mp hcd with ⟨a, -, hVia⟩ | ⟨rfl, rfl, -⟩
        · exact absurd ⟨a, controlDependent_iff_dependsVia.mpr ⟨type, hVia⟩⟩ hNone
        · rfl
      obtain ⟨cd', hcd'⟩ := List.exists_mem_of_ne_nil _ hNe
      rw [List.mem_singleton]
      exact ⟨hOnly cd, fun hEq => hEq ▸ hOnly cd' hcd' ▸ hcd'⟩
  refine ⟨key, hKey, hSame, fun y => ?_, fun hDependent => ?_⟩
  · rw [(sameAbove_graphForFunction nodes).parents, hParents y, hProper, and_assoc]
  · rcases hKeys with ⟨hRoot, -⟩ | ⟨n, -, hRegion, -⟩
    · exact absurd hRoot (hProper.mp hDependent).1
    · rw [hRegion]
      rfl

/-- A set with one member, kept as a list. -/
theorem eq_singleton_of_nodup {l : List NodeRef} {x : NodeRef} (hNodup : l.Nodup)
    (h : ∀ y, y ∈ l ↔ y = x) : l = [x] := by
  have hPerm : l.Perm [x] := (List.perm_ext_iff_of_nodup hNodup (List.nodup_singleton x)).mpr
    fun y => (h y).trans List.mem_singleton.symm
  exact List.perm_singleton.mp hPerm

/-- The same edges lead to both blocks. -/
def SameDependences (F : Function) (b b' : Nat) : Prop :=
  (∀ a type, DependsVia F a type b ↔ DependsVia F a type b') ∧
    (PostDominates F b 0 ↔ PostDominates F b' 0)

variable (pdt) in
/-- A block that depends on another is enclosed by the region of its key; one that depends on
none has no region. -/
theorem enclosingRegion_block {b : Nat} (hb : b < F.blocks.length) (nodes : List Nat) :
    ∃ key ∈ (Regions.enterAll (computeDependencies F pdt) pdt.postOrder).cdMap,
      (∀ cd, cd ∈ key.1 ↔ cd ∈ controlDependences (computeDependencies F pdt) (.block b)) ∧
      ((∃ a, ControlDependent F a b) →
        enclosingRegion (graphForFunction F pdt nodes) (.block b) = some key.2) ∧
      ((¬∃ a, ControlDependent F a b) →
        enclosingRegion (graphForFunction F pdt nodes) (.block b) = none) := by
  obtain ⟨key, hKey, hSame, hParents, hRegion⟩ := exists_key pdt hb nodes
  refine ⟨key, hKey, hSame, fun hDependent => ?_, fun hNone => ?_⟩
  · have hOnly : ((graphForFunction F pdt nodes).node (.block b)).parents = [key.2] :=
      eq_singleton_of_nodup ((sets_graphForFunction nodes).parents _) fun y =>
        (hParents y).trans (and_iff_right hDependent)
    unfold enclosingRegion
    rw [if_neg (by simp [NodeRef.isRegion, NodeRef.getBlock]), hOnly]
    exact if_pos (hRegion hDependent)
  · have hNil : ((graphForFunction F pdt nodes).node (.block b)).parents = [] :=
      List.eq_nil_iff_forall_not_mem.mpr fun y hy => hNone ((hParents y).mp hy).1
    unfold enclosingRegion
    rw [if_neg (by simp [NodeRef.isRegion, NodeRef.getBlock]), hNil]

/-- A block has an enclosing region if and only if it depends on some branch, and two such blocks
have the same region if and only if they have the same dependences. -/
theorem enclosingRegion_eq_iff (F : Function) (pdt : PostDominatorTree F) (nodes : List Nat) :
    ∀ b < F.blocks.length,
      ((enclosingRegion (graphForFunction F pdt nodes) (.block b)).isSome = true ↔
        ∃ a, ControlDependent F a b) ∧
      ∀ b' < F.blocks.length, (∃ a, ControlDependent F a b) →
        (enclosingRegion (graphForFunction F pdt nodes) (.block b) =
          enclosingRegion (graphForFunction F pdt nodes) (.block b') ↔ SameDependences F b b') := by
  intro b hb
  obtain ⟨key, hKey, hSame, hSome, hNone⟩ := enclosingRegion_block pdt hb nodes
  constructor
  · by_cases hDependent : ∃ a, ControlDependent F a b
    · rw [hSome hDependent]
      exact iff_of_true rfl hDependent
    · rw [hNone hDependent]
      exact iff_of_false Bool.false_ne_true hDependent
  intro b' hb' hDependent
  obtain ⟨key', hKey', hSame', hSome', hNone'⟩ := enclosingRegion_block pdt hb' nodes
  have hMem : ∀ {key : List (EdgeType × NodeRef)} {b : Nat}, b < F.blocks.length →
      (∀ cd, cd ∈ key ↔ cd ∈ controlDependences (computeDependencies F pdt) (.block b)) →
      ∀ type y, (type, y) ∈ key ↔ (∃ a, y = .block a ∧ DependsVia F a type b) ∨
        (y = .root ∧ type = .other ∧ PostDominates F b 0) := fun hb hSame type y =>
    (hSame _).trans (mem_controlDependences_computeDependencies hb)
  have hSets : (∀ cd, cd ∈ key.1 ↔ cd ∈ key'.1) ↔ SameDependences F b b' := by
    constructor
    · intro hEq
      constructor
      · intro a type
        simpa [hMem hb hSame, hMem hb' hSame'] using hEq (type, .block a)
      · simpa [hMem hb hSame, hMem hb' hSame'] using hEq (.other, .root)
    · rintro ⟨hVia, hEntry⟩ ⟨type, y⟩
      rw [hMem hb hSame, hMem hb' hSame', hEntry]
      simp only [hVia]
  rw [hSome hDependent, ← hSets]
  by_cases hDependent' : ∃ a, ControlDependent F a b'
  · rw [hSome' hDependent', Option.some.injEq]
    exact (classes_enterAll pdt).distinct key hKey key' hKey'
  · rw [hNone' hDependent']
    refine iff_of_false nofun fun hEq => hDependent' ?_
    obtain ⟨a, hOld⟩ := hDependent
    obtain ⟨type, hVia⟩ := controlDependent_iff_dependsVia.mp hOld
    exact ⟨a, controlDependent_iff_dependsVia.mpr ⟨type, ((hSets.mp hEq).1 a type).mp hVia⟩⟩

end Shape

section IfElse

/-- Each side depends on the branch and on nothing else. -/
theorem ifElse_dependsVia {a b : Nat} {type : EdgeType} (hb : b = 1 ∨ b = 2) :
    DependsVia ifElse a type b ↔ a = 0 ∧ type = getEdgeType ifElse 0 b := by
  have hWalk : Dominance.Walk (fun x y => ifElse.Edge y x) 3 [3] 3 := .nil
  have hLeft : ifElse.Edge 1 3 ∧ ifElse.Edge 0 1 := by simp [ifElse_edge]
  have hRight : ifElse.Edge 2 3 ∧ ifElse.Edge 0 2 := by simp [ifElse_edge]
  have hNotMeet : ∀ {b}, b ≠ 3 → ¬PostDominates ifElse b 3 := fun hb =>
    ifElse_not_postDominates hWalk (by simpa using hb)
  have hOther : ¬PostDominates ifElse 1 2 ∧ ¬PostDominates ifElse 2 1 :=
    ⟨ifElse_not_postDominates (hWalk.snoc hRight.1) (by decide),
      ifElse_not_postDominates (hWalk.snoc hLeft.1) (by decide)⟩
  have hBranch : ¬PostDominates ifElse 1 0 ∧ ¬PostDominates ifElse 2 0 :=
    ⟨ifElse_not_postDominates ((hWalk.snoc hRight.1).snoc hRight.2) (by decide),
      ifElse_not_postDominates ((hWalk.snoc hLeft.1).snoc hLeft.2) (by decide)⟩
  constructor
  · rintro ⟨s, hEdge, rfl, hDom, -⟩
    simp only [ifElse_edge, List.mem_cons, Prod.mk.injEq, List.not_mem_nil, or_false] at hEdge
    rcases hb with rfl | rfl <;> rcases hEdge with ⟨rfl, rfl⟩ | ⟨rfl, rfl⟩ | ⟨rfl, rfl⟩ | ⟨rfl, rfl⟩
    · exact ⟨rfl, rfl⟩
    · exact absurd hDom hOther.1
    · exact absurd hDom (hNotMeet (by decide))
    · exact absurd hDom (hNotMeet (by decide))
    · exact absurd hDom hOther.2
    · exact ⟨rfl, rfl⟩
    · exact absurd hDom (hNotMeet (by decide))
    · exact absurd hDom (hNotMeet (by decide))
  · rintro ⟨rfl, rfl⟩
    rcases hb with rfl | rfl
    · exact ⟨1, hLeft.2, rfl, Dominance.Dominates.self 1, fun h => hBranch.1 h.1⟩
    · exact ⟨2, hRight.2, rfl, Dominance.Dominates.self 2, fun h => hBranch.2 h.1⟩

/-- The two sides of the branch have regions, and not the same one. -/
theorem enclosingRegion_eq_iff_ifElse : ∃ pdt : PostDominatorTree ifElse,
    (enclosingRegion (graphForFunction ifElse pdt [0, 1, 2, 3]) (.block 1)).isSome = true ∧
      enclosingRegion (graphForFunction ifElse pdt [0, 1, 2, 3]) (.block 1) ≠
        enclosingRegion (graphForFunction ifElse pdt [0, 1, 2, 3]) (.block 2) := by
  obtain ⟨pdt⟩ := (nonempty_postDominatorTree_iff ifElse).mpr ifElse_reachesExit
  have hVia : DependsVia ifElse 0 .true 1 := (ifElse_dependsVia (.inl rfl)).mpr ⟨rfl, rfl⟩
  have hDependent : ∃ a, ControlDependent ifElse a 1 :=
    ⟨0, controlDependent_iff_dependsVia.mpr ⟨_, hVia⟩⟩
  obtain ⟨hSome, hSame⟩ := enclosingRegion_eq_iff ifElse pdt [0, 1, 2, 3] 1 (by decide)
  refine ⟨pdt, hSome.mpr hDependent, fun hEq => ?_⟩
  have hOther := (((hSame 2 (by decide) hDependent).mp hEq).1 0 .true).mp hVia
  exact absurd ((ifElse_dependsVia (.inr rfl)).mp hOther).2 (by decide)

end IfElse

end ConAnalysis.ControlDependence
