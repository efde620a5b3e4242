import ConAnalysis.ControlDependence.Dependencies
import ConAnalysis.Library.Rerouting

/-! `ControlDependenceGraphBase::insertRegions`. Blocks with the same control
dependences are moved under one region. -/
namespace ConAnalysis.ControlDependence
open IR Relation Rerouting

/-- The typed edges of a node from its parents. -/
def controlDependences (g : Graph) (node : NodeRef) : List (EdgeType × NodeRef) :=
  (g.node node).parents.flatMap fun parent =>
    ([.true, .false, .other].filter fun type => decide (g.Child parent type node)).map
      fun type => (type, parent)

/-- The graph and `cdMap`, which is looked up by sets. -/
structure Regions where
  graph : Graph
  cdMap : List (List (EdgeType × NodeRef) × NodeRef)

namespace Regions

def findRegion (st : Regions) (cds : List (EdgeType × NodeRef)) : Option NodeRef :=
  (st.cdMap.find? fun (key, _) => key.all (· ∈ cds) && cds.all (· ∈ key)).map Prod.snd

/-- A region is created for control dependences that have none yet. -/
def regionFor (st : Regions) (cds : List (EdgeType × NodeRef)) : NodeRef × Regions :=
  match st.findRegion cds with
  | some region => (region, st)
  | none =>
      let (region, graph) := st.graph.newRegion
      (region, {
        graph := cds.foldl (fun g (type, parent) => link type g parent region) graph
        cdMap := (cds, region) :: st.cdMap })

def moveTo (node region : NodeRef) (g : Graph) (cds : List (EdgeType × NodeRef)) : Graph :=
  cds.foldl (fun g (type, parent) =>
    (((g.removeChild type parent node).addOther region node).addParent node region).removeParent node
      parent) g

def enter (st : Regions) (b : Nat) : Regions :=
  let cds := controlDependences st.graph (.block b)
  let (region, st) := st.regionFor cds
  { st with graph := moveTo (.block b) region st.graph cds }

/-- The first loop of `insertRegions`. -/
def enterAll (g : Graph) (postOrder : List Nat) : Regions :=
  postOrder.foldl enter { graph := g, cdMap := [([(.other, .root)], .root)] }

end Regions

section MoveTo
variable {node region x y : NodeRef} {g : Graph} {type : EdgeType}
variable {cds : List (EdgeType × NodeRef)}

/-- The control dependences of a node are its parents, each with the type of the edge. -/
theorem mem_controlDependences :
    (type, y) ∈ controlDependences g node ↔ g.Parent node y ∧ g.Child y type node := by
  rw [controlDependences, List.mem_flatMap]
  constructor
  · rintro ⟨parent, hParent, hMem⟩
    obtain ⟨type', hType, hEq⟩ := List.mem_map.mp hMem
    rw [Prod.mk.injEq] at hEq
    obtain ⟨rfl, rfl⟩ := hEq
    exact ⟨hParent, of_decide_eq_true (List.mem_filter.mp hType).2⟩
  · rintro ⟨hParent, hChild⟩
    refine ⟨y, hParent, List.mem_map.mpr ⟨type, List.mem_filter.mpr ⟨?_, decide_eq_true hChild⟩, rfl⟩⟩
    cases type <;> simp

/-- One round of moving a node. -/
theorem parent_move : ((((g.removeChild type y node).addOther region node).addParent node
    region).removeParent node y).Parent node x ↔ (g.Parent node x ∨ x = region) ∧ x ≠ y := by
  rw [Graph.parent_removeParent, Graph.parent_addParent, Graph.addOther, Graph.parent_addChild,
    Graph.parent_removeChild]
  simp

/-- Only the parents of the node change. -/
theorem parent_moveTo_of_ne (hx : x ≠ node) :
    (Regions.moveTo node region g cds).Parent x y ↔ g.Parent x y := by
  unfold Regions.moveTo
  refine List.foldlRecOn (motive := fun g' : Graph => g'.Parent x y ↔ g.Parent x y) _ _ Iff.rfl ?_
  rintro g' hg ⟨type, parent⟩ -
  rw [Graph.parent_removeParent, Graph.parent_addParent, Graph.addOther, Graph.parent_addChild,
    Graph.parent_removeChild, ← hg]
  simp [hx]

/-- The region takes the place of the parents. -/
theorem parent_moveTo (hRegion : ∀ type, (type, region) ∉ cds) :
    (Regions.moveTo node region g cds).Parent node y ↔
      (cds ≠ [] ∧ y = region) ∨ (g.Parent node y ∧ ∀ type, (type, y) ∉ cds) := by
  induction cds generalizing g with
  | nil => simp [Regions.moveTo]
  | cons cd cds ih =>
      obtain ⟨type, parent⟩ := cd
      have hRest : ∀ type, (type, region) ∉ cds := fun type' hMem =>
        hRegion type' (List.mem_cons_of_mem _ hMem)
      have hNe : region ≠ parent := by
        rintro rfl
        exact hRegion type List.mem_cons_self
      have hRound := ih (g := (((g.removeChild type parent node).addOther region node).addParent node
        region).removeParent node parent) hRest
      rw [parent_move] at hRound
      refine hRound.trans ?_
      constructor
      · rintro (⟨-, rfl⟩ | ⟨⟨hOld | rfl, hParent⟩, hNot⟩)
        · exact .inl ⟨List.cons_ne_nil _ _, rfl⟩
        · refine .inr ⟨hOld, fun type' hMem => ?_⟩
          rcases List.mem_cons.mp hMem with hEq | hMem
          · exact hParent (Prod.mk.inj hEq).2
          · exact hNot type' hMem
        · exact .inl ⟨List.cons_ne_nil _ _, rfl⟩
      · rintro (⟨-, rfl⟩ | ⟨hOld, hNot⟩)
        · exact .inr ⟨⟨.inr rfl, hNe⟩, hRest⟩
        · refine .inr ⟨⟨.inl hOld, ?_⟩, fun type' hMem => hNot type' (List.mem_cons_of_mem _ hMem)⟩
          rintro rfl
          exact hNot type List.mem_cons_self

/-- Where the region is the only parent already, it gets lost as a parent. -/
theorem parent_moveTo_self (hNe : cds ≠ []) (hRegion : ∀ cd ∈ cds, cd.2 = region) :
    (Regions.moveTo node region g cds).Parent node y ↔ g.Parent node y ∧ y ≠ region := by
  induction cds generalizing g with
  | nil => exact absurd rfl hNe
  | cons cd cds ih =>
      obtain ⟨type, parent⟩ := cd
      rw [List.forall_mem_cons] at hRegion
      obtain ⟨hParent, hRest⟩ := hRegion
      simp only at hParent
      subst hParent
      have hRound : ∀ y, ((((g.removeChild type parent node).addOther parent node).addParent node
          parent).removeParent node parent).Parent node y ↔ g.Parent node y ∧ y ≠ parent := by
        intro y
        rw [parent_move]
        exact and_congr_left fun hy => or_iff_left hy
      by_cases hNil : cds = []
      · subst hNil
        exact hRound y
      · refine (ih (g := (((g.removeChild type parent node).addOther parent node).addParent node
          parent).removeParent node parent) hNil hRest).trans ?_
        rw [hRound, and_assoc, and_self_iff]

/-- Only the node can become or stop being a child. -/
theorem child_moveTo_of_ne (hy : y ≠ node) :
    (Regions.moveTo node region g cds).Child x type y ↔ g.Child x type y := by
  unfold Regions.moveTo
  refine List.foldlRecOn (motive := fun g' : Graph => g'.Child x type y ↔ g.Child x type y) _ _
    Iff.rfl ?_
  rintro g' hg ⟨type', parent⟩ -
  rw [Graph.child_removeParent, Graph.child_addParent, Graph.addOther, Graph.child_addChild,
    Graph.child_removeChild, ← hg]
  simp [hy]

/-- It is not a child of its former parents any more. -/
theorem child_moveTo (hx : x ≠ region) (h : (Regions.moveTo node region g cds).Child x type node) :
    g.Child x type node ∧ (type, x) ∉ cds := by
  induction cds generalizing g with
  | nil => exact ⟨h, List.not_mem_nil⟩
  | cons cd cds ih =>
      obtain ⟨type', parent⟩ := cd
      obtain ⟨hRound, hNot⟩ := ih (g := (((g.removeChild type' parent node).addOther region
        node).addParent node region).removeParent node parent) h
      rw [Graph.child_removeParent, Graph.child_addParent, Graph.addOther, Graph.child_addChild,
        Graph.child_removeChild] at hRound
      obtain ⟨hOld, hKept⟩ := hRound.resolve_right fun hNew => hx hNew.1
      refine ⟨hOld, fun hMem => ?_⟩
      rcases List.mem_cons.mp hMem with hEq | hMem
      · obtain ⟨rfl, rfl⟩ := Prod.mk.inj hEq
        exact hKept ⟨rfl, rfl, rfl⟩
      · exact hNot hMem

end MoveTo
namespace Regions

/-- What holds while some blocks are still to be moved. -/
structure Inv (F : Function) (g₀ : Graph) (pending : List Nat) (st : Regions) : Prop where
  root_isolated : ∀ y, ¬st.graph.Parent .root y
  fresh : ∀ n, st.graph.regions ≤ n → ∀ y, ¬st.graph.Parent (.region n) y
  region_lt : ∀ x n, st.graph.Parent x (.region n) → n < st.graph.regions
  block_lt : ∀ x b, st.graph.Parent x (.block b) → b < F.blocks.length
  typed : ∀ b ∈ pending, ∀ y, st.graph.Parent (.block b) y → ∃ type, st.graph.Child y type (.block b)
  plain : ∀ b ∈ pending, ∀ n, ¬st.graph.Parent (.block b) (.region n)
  child_parent : ∀ a type y, st.graph.Child (.block a) type y → st.graph.Parent y (.block a)
  keys : ∀ key ∈ st.cdMap, (key.2 = .root ∧ key.1 = [(.other, .root)]) ∨
    ∃ n < st.graph.regions, key.2 = .region n ∧
      ∀ y, st.graph.Parent (.region n) y ↔ ∃ type, (type, y) ∈ key.1
  reaches : ∀ b a, TransGen st.graph.Parent (.block b) (.block a) ↔
    TransGen g₀.Parent (.block b) (.block a)

/-- The region under which a node with these control dependences belongs. -/
structure Belongs (g : Graph) (cds : List (EdgeType × NodeRef)) (region : NodeRef) : Prop where
  root_or_region : region = .root ∨ ∃ n < g.regions, region = .region n
  of_root : region = .root → cds ≠ [] ∧ ∀ cd ∈ cds, cd.2 = .root
  parents : region ≠ .root → ∀ y, g.Parent region y ↔ ∃ type, (type, y) ∈ cds

/-- A key leads to a region, never to a block. -/
theorem Belongs.ne_block {g : Graph} {cds : List (EdgeType × NodeRef)} {region : NodeRef}
    (h : Belongs g cds region) (b : Nat) : region ≠ .block b := by
  rintro rfl
  rcases h.root_or_region with hEq | ⟨n, -, hEq⟩ <;> cases hEq

theorem Belongs.lt {g : Graph} {cds : List (EdgeType × NodeRef)} {n : Nat}
    (h : Belongs g cds (.region n)) : n < g.regions := by
  rcases h.root_or_region with hEq | ⟨n', hn', hEq⟩
  · cases hEq
  · exact NodeRef.region.inj hEq ▸ hn'

section Steps
variable {F : Function} {g₀ : Graph} {b : Nat} {pending : List Nat} {st : Regions}

/-- A region that is found has a key with the same members, in whatever order they were entered. -/
theorem mem_of_findRegion {cds : List (EdgeType × NodeRef)} {region : NodeRef}
    (h : st.findRegion cds = some region) : ∃ key, (key, region) ∈ st.cdMap ∧
      (∀ cd ∈ key, cd ∈ cds) ∧ ∀ cd ∈ cds, cd ∈ key := by
  obtain ⟨⟨key, region'⟩, hFind, rfl⟩ := Option.map_eq_some_iff.mp h
  have hSame := List.find?_some hFind
  simp only [Bool.and_eq_true, List.all_eq_true, decide_eq_true_eq] at hSame
  exact ⟨key, List.mem_of_find?_eq_some hFind, hSame.1, hSame.2⟩

/-- A region that exists already. -/
theorem Inv.belongs_of_findRegion (h : Inv F g₀ pending st) {cds : List (EdgeType × NodeRef)}
    {region : NodeRef} (hFind : st.findRegion cds = some region) : Belongs st.graph cds region := by
  obtain ⟨key, hKey, hSub, hSup⟩ := mem_of_findRegion hFind
  rcases h.keys _ hKey with ⟨hRoot, hEq⟩ | ⟨n, hn, hRegion, hParents⟩
  · simp only at hRoot hEq
    subst hRoot hEq
    refine ⟨.inl rfl, fun _ => ⟨?_, fun cd hcd => ?_⟩, fun hNe => absurd rfl hNe⟩
    · exact List.ne_nil_of_mem (hSub _ (List.mem_singleton_self _))
    · rw [List.mem_singleton.mp (hSup cd hcd)]
  · simp only at hRegion hParents
    subst hRegion
    refine ⟨.inr ⟨n, hn, rfl⟩, nofun, fun _ y => (hParents y).trans ?_⟩
    exact exists_congr fun type => ⟨hSub _, hSup _⟩

/-- A region that is created. -/
theorem parent_create {cds : List (EdgeType × NodeRef)} {region x y : NodeRef} {g : Graph} :
    (cds.foldl (fun g (type, parent) => link type g parent region) g).Parent x y ↔
      g.Parent x y ∨ (x = region ∧ ∃ type, (type, y) ∈ cds) := by
  refine (foldl_iff (P := fun g => g.Parent x y)
    (Q := fun cd : EdgeType × NodeRef => x = region ∧ y = cd.2) (fun _ _ => parent_link) cds g).trans ?_
  refine or_congr_right ⟨?_, ?_⟩
  · rintro ⟨⟨type, _⟩, hMem, rfl, rfl⟩
    exact ⟨rfl, type, hMem⟩
  · rintro ⟨rfl, type, hMem⟩
    exact ⟨(type, y), hMem, rfl, rfl⟩

/-- A new region becomes the child of every dependence in its key. -/
theorem child_create {cds : List (EdgeType × NodeRef)} {region x y : NodeRef} {g : Graph}
    {type : EdgeType} :
    (cds.foldl (fun g (type, parent) => link type g parent region) g).Child x type y ↔
      g.Child x type y ∨ ((type, x) ∈ cds ∧ y = region) := by
  refine (foldl_iff (P := fun g => g.Child x type y)
    (Q := fun cd : EdgeType × NodeRef => x = cd.2 ∧ type = cd.1 ∧ y = region)
    (fun _ _ => child_link) cds g).trans ?_
  refine or_congr_right ⟨?_, ?_⟩
  · rintro ⟨⟨_, _⟩, hMem, rfl, rfl, rfl⟩
    exact ⟨hMem, rfl⟩
  · rintro ⟨hMem, rfl⟩
    exact ⟨(type, x), hMem, rfl, rfl, rfl⟩

theorem regions_create {cds : List (EdgeType × NodeRef)} {region : NodeRef} {g : Graph} :
    (cds.foldl (fun g (type, parent) => link type g parent region) g).regions = g.regions :=
  List.foldlRecOn (motive := fun g' : Graph => g'.regions = g.regions) _ _ rfl fun _ hg _ _ => hg

/-- A new region keeps everything, as no edge leads to it yet. -/
theorem Inv.create (h : Inv F g₀ (b :: pending) st) :
    Inv F g₀ (b :: pending)
      { graph := (controlDependences st.graph (.block b)).foldl
          (fun g (type, parent) => link type g parent (.region st.graph.regions)) st.graph.newRegion.2
        cdMap := (controlDependences st.graph (.block b), .region st.graph.regions) :: st.cdMap } := by
  have hParent : ∀ x y, ((controlDependences st.graph (.block b)).foldl
      (fun g (type, parent) => link type g parent (.region st.graph.regions))
        st.graph.newRegion.2).Parent x y ↔ st.graph.Parent x y ∨
          (x = .region st.graph.regions ∧ ∃ type, (type, y) ∈ controlDependences st.graph (.block b)) :=
    fun x y => parent_create
  have hChild : ∀ x type y, ((controlDependences st.graph (.block b)).foldl
      (fun g (type, parent) => link type g parent (.region st.graph.regions))
        st.graph.newRegion.2).Child x type y ↔ st.graph.Child x type y ∨
          ((type, x) ∈ controlDependences st.graph (.block b) ∧ y = .region st.graph.regions) :=
    fun x type y => child_create
  have hRegions : ((controlDependences st.graph (.block b)).foldl
      (fun g (type, parent) => link type g parent (.region st.graph.regions))
        st.graph.newRegion.2).regions = st.graph.regions + 1 := regions_create
  have hCds : ∀ y, (∃ type, (type, y) ∈ controlDependences st.graph (.block b)) →
      st.graph.Parent (.block b) y := by
    rintro y ⟨type, hMem⟩
    exact (mem_controlDependences.mp hMem).1
  constructor
  case root_isolated =>
    intro y hy
    rcases (hParent _ _).mp hy with hy | ⟨hEq, -⟩
    · exact h.root_isolated y hy
    · cases hEq
  case fresh =>
    intro n hn y hy
    rw [hRegions] at hn
    rcases (hParent _ _).mp hy with hy | ⟨hEq, -⟩
    · exact h.fresh n (by omega) y hy
    · obtain rfl := NodeRef.region.inj hEq
      omega
  case region_lt =>
    intro x n hx
    rw [hRegions]
    rcases (hParent _ _).mp hx with hx | ⟨-, hMem⟩
    · exact Nat.lt_succ_of_lt (h.region_lt x n hx)
    · exact absurd (hCds _ hMem) (h.plain b List.mem_cons_self n)
  case block_lt =>
    intro x b' hx
    rcases (hParent _ _).mp hx with hx | ⟨-, hMem⟩
    · exact h.block_lt x b' hx
    · exact h.block_lt _ b' (hCds _ hMem)
  case typed =>
    intro b' hb' y hy
    rcases (hParent _ _).mp hy with hy | ⟨hEq, -⟩
    · obtain ⟨type, hType⟩ := h.typed b' hb' y hy
      exact ⟨type, (hChild _ _ _).mpr (.inl hType)⟩
    · cases hEq
  case plain =>
    intro b' hb' n hy
    rcases (hParent _ _).mp hy with hy | ⟨hEq, -⟩
    · exact h.plain b' hb' n hy
    · cases hEq
  case child_parent =>
    intro a type y hy
    rcases (hChild _ _ _).mp hy with hy | ⟨hMem, rfl⟩
    · exact (hParent _ _).mpr (.inl (h.child_parent a type y hy))
    · exact (hParent _ _).mpr (.inr ⟨rfl, type, hMem⟩)
  case keys =>
    intro key hKey
    rw [hRegions]
    rcases List.mem_cons.mp hKey with rfl | hKey
    · refine .inr ⟨st.graph.regions, Nat.lt_succ_self _, rfl, fun y => (hParent _ _).trans ?_⟩
      rw [or_iff_right (h.fresh _ (Nat.le_refl _) y)]
      exact and_iff_right rfl
    · refine (h.keys key hKey).imp_right ?_
      rintro ⟨n, hn, hRegion, hParents⟩
      refine ⟨n, Nat.lt_succ_of_lt hn, hRegion, fun y => ((hParent _ _).trans ?_).trans (hParents y)⟩
      refine or_iff_left fun hNew => ?_
      obtain rfl := NodeRef.region.inj hNew.1
      omega
  case reaches =>
    intro b' a
    refine (transGen_of_new (.region st.graph.regions) ?_ ?_ (by simp)).trans (h.reaches b' a)
    · exact fun x hx => absurd (h.region_lt x _ hx) (Nat.lt_irrefl _)
    · exact fun x hx y => (hParent x y).trans (or_iff_left fun hNew => hx hNew.1)

/-- Moving a block under its region makes no region. -/
theorem regions_moveTo {node region : NodeRef} {g : Graph} {cds : List (EdgeType × NodeRef)} :
    (moveTo node region g cds).regions = g.regions :=
  List.foldlRecOn (motive := fun g' : Graph => g'.regions = g.regions) _ _ rfl fun _ hg _ _ => hg

section Move
variable {cds : List (EdgeType × NodeRef)} {region : NodeRef}

/-- The region is the only parent of the node that has been moved. -/
theorem Inv.parent_moved (h : Inv F g₀ (b :: pending) st)
    (hCds : ∀ type y, (type, y) ∈ cds ↔
      st.graph.Parent (.block b) y ∧ st.graph.Child y type (.block b))
    (hRegion : Belongs st.graph cds region) (y : NodeRef) :
    (moveTo (.block b) region st.graph cds).Parent (.block b) y ↔
      region ≠ .root ∧ cds ≠ [] ∧ y = region := by
  have hTyped : ∀ y, st.graph.Parent (.block b) y → ∃ type, (type, y) ∈ cds := by
    intro y hy
    obtain ⟨type, hType⟩ := h.typed b List.mem_cons_self y hy
    exact ⟨type, (hCds type y).mpr ⟨hy, hType⟩⟩
  by_cases hRoot : region = .root
  · obtain ⟨hNe, hAll⟩ := hRegion.of_root hRoot
    subst hRoot
    rw [parent_moveTo_self hNe hAll]
    refine iff_of_false ?_ fun hNot => hNot.1 rfl
    rintro ⟨hParent, hy⟩
    obtain ⟨type, hMem⟩ := hTyped y hParent
    exact hy (hAll _ hMem)
  · have hPlain : ∀ type, (type, region) ∉ cds := by
      intro type hMem
      obtain ⟨n, -, rfl⟩ := hRegion.root_or_region.resolve_left hRoot
      exact h.plain b List.mem_cons_self n ((hCds type _).mp hMem).1
    rw [parent_moveTo hPlain]
    constructor
    · rintro (hNew | ⟨hParent, hNot⟩)
      · exact ⟨hRoot, hNew⟩
      · obtain ⟨type, hMem⟩ := hTyped y hParent
        exact absurd hMem (hNot type)
    · exact fun hNew => .inl hNew.2

/-- The way to a block leads through the region or ends at the root. -/
theorem Inv.transGen_moved (h : Inv F g₀ (b :: pending) st)
    (hCds : ∀ type y, (type, y) ∈ cds ↔
      st.graph.Parent (.block b) y ∧ st.graph.Child y type (.block b))
    (hRegion : Belongs st.graph cds region) {x : NodeRef} {a : Nat} :
    TransGen (moveTo (.block b) region st.graph cds).Parent x (.block a) ↔
      TransGen st.graph.Parent x (.block a) := by
  have hMoved := h.parent_moved hCds hRegion
  refine transGen_congr (fun x => ∃ b, x = .block b) ?_ ?_ ⟨a, rfl⟩
  · intro x y hxy
    by_cases hEq : x = .block b
    · subst hEq
      obtain ⟨hRoot, hNe, rfl⟩ := (hMoved _).mp hxy
      refine .inr ⟨fun ⟨b', hEq⟩ => hRegion.ne_block b' hEq, fun t _ hPath => ?_⟩
      -- the region has the parents that the node had
      obtain ⟨z, hStep, hRest⟩ := transGen_head_iff.mp hPath
      obtain ⟨type, hMem⟩ := (hRegion.parents hRoot z).mp hStep
      exact transGen_head_iff.mpr ⟨z, ((hCds type z).mp hMem).1, hRest⟩
    · exact .inl ((parent_moveTo_of_ne hEq).mp hxy)
  · intro x y hxy
    by_cases hEq : x = .block b
    · subst hEq
      obtain ⟨type, hType⟩ := h.typed b List.mem_cons_self y hxy
      have hMem := (hCds type y).mpr ⟨hxy, hType⟩
      by_cases hRoot : region = .root
      · obtain rfl : y = .root := (hRegion.of_root hRoot).2 _ hMem
        exact .inr ⟨by simp, h.root_isolated⟩
      · have hUp : (moveTo (.block b) region st.graph cds).Parent region y :=
          (parent_moveTo_of_ne (hRegion.ne_block b)).mpr ((hRegion.parents hRoot y).mpr ⟨type, hMem⟩)
        exact .inl (.head ((hMoved region).mpr ⟨hRoot, List.ne_nil_of_mem hMem, rfl⟩) (.single hUp))
    · exact .inl (.single ((parent_moveTo_of_ne hEq).mpr hxy))

/-- Moving the node to its region keeps the invariant. -/
theorem Inv.move (h : Inv F g₀ (b :: pending) st) (hb : b ∉ pending)
    (hCds : ∀ type y, (type, y) ∈ cds ↔
      st.graph.Parent (.block b) y ∧ st.graph.Child y type (.block b))
    (hRegion : Belongs st.graph cds region) :
    Inv F g₀ pending { st with graph := moveTo (.block b) region st.graph cds } := by
  have hMoved := h.parent_moved hCds hRegion
  have hSame : ∀ {x y}, x ≠ .block b →
      ((moveTo (.block b) region st.graph cds).Parent x y ↔ st.graph.Parent x y) :=
    fun hx => parent_moveTo_of_ne hx
  have hOther : ∀ {b'}, b' ∈ pending → NodeRef.block b' ≠ .block b := by
    rintro b' hb' hEq
    obtain rfl := NodeRef.block.inj hEq
    exact hb hb'
  constructor
  case root_isolated => exact fun y hy => h.root_isolated y ((hSame (by simp)).mp hy)
  case fresh =>
    intro n hn y hy
    rw [regions_moveTo] at hn
    exact h.fresh n hn y ((hSame (by simp)).mp hy)
  case region_lt =>
    intro x n hx
    rw [regions_moveTo]
    by_cases hEq : x = .block b
    · subst hEq
      obtain ⟨-, -, rfl⟩ := (hMoved _).mp hx
      exact hRegion.lt
    · exact h.region_lt x n ((hSame hEq).mp hx)
  case block_lt =>
    intro x b' hx
    by_cases hEq : x = .block b
    · subst hEq
      obtain ⟨-, -, hBlock⟩ := (hMoved _).mp hx
      exact absurd hBlock.symm (hRegion.ne_block b')
    · exact h.block_lt x b' ((hSame hEq).mp hx)
  case typed =>
    intro b' hb' y hy
    obtain ⟨type, hType⟩ := h.typed b' (List.mem_cons_of_mem _ hb') y ((hSame (hOther hb')).mp hy)
    exact ⟨type, (child_moveTo_of_ne (hOther hb')).mpr hType⟩
  case plain =>
    exact fun b' hb' n hy =>
      h.plain b' (List.mem_cons_of_mem _ hb') n ((hSame (hOther hb')).mp hy)
  case child_parent =>
    intro a type y hy
    by_cases hEq : y = .block b
    · subst hEq
      obtain ⟨hChild, hNot⟩ := child_moveTo (hRegion.ne_block a).symm hy
      exact absurd ((hCds type _).mpr ⟨h.child_parent a type _ hChild, hChild⟩) hNot
    · exact (hSame hEq).mpr (h.child_parent a type y ((child_moveTo_of_ne hEq).mp hy))
  case keys =>
    intro key hKey
    rw [regions_moveTo]
    refine (h.keys key hKey).imp_right ?_
    rintro ⟨n, hn, hEq, hParents⟩
    exact ⟨n, hn, hEq, fun y => (hSame (by simp)).trans (hParents y)⟩
  case reaches => exact fun b' a => (h.transGen_moved hCds hRegion).trans (h.reaches b' a)

end Move

/-- One round of the loop. -/
theorem Inv.enter (h : Inv F g₀ (b :: pending) st) (hb : b ∉ pending) :
    Inv F g₀ pending (st.enter b) := by
  rw [Regions.enter, regionFor]
  cases hFind : st.findRegion (controlDependences st.graph (.block b)) with
  | some region =>
      exact h.move hb (fun type y => mem_controlDependences) (h.belongs_of_findRegion hFind)
  | none =>
      refine h.create.move hb (fun type y => ?_) ⟨.inr ⟨st.graph.regions, ?_, rfl⟩, nofun, fun _ y => ?_⟩
      · rw [mem_controlDependences, parent_create, child_create, Graph.newRegion]
        exact and_congr (or_iff_left (by simp)).symm (or_iff_left (by simp)).symm
      · rw [regions_create]
        exact Nat.lt_succ_self _
      · rw [parent_create]
        exact (or_iff_right (h.fresh _ (Nat.le_refl _) y)).trans (and_iff_right rfl)

/-- The run that belongs to `Inv.enter`: all blocks that are left are entered, each once. -/
theorem Inv.foldl_enter {blocks : List Nat} (h : Inv F g₀ blocks st) (hNodup : blocks.Nodup) :
    Inv F g₀ [] (blocks.foldl Regions.enter st) := by
  induction blocks generalizing st with
  | nil => exact h
  | cons b blocks ih =>
      rw [List.nodup_cons] at hNodup
      exact ih (h.enter hNodup.1) hNodup.2

end Steps

/-- The graph of the dependencies, before any block has been moved. -/
theorem inv_computeDependencies {F : Function} {pdt : PostDominatorTree F} :
    Inv F (computeDependencies F pdt) pdt.postOrder
      { graph := computeDependencies F pdt, cdMap := [([(.other, .root)], .root)] } where
  root_isolated y hy := by
    obtain ⟨c, hEq, -⟩ := parent_computeDependencies.mp hy
    cases hEq
  fresh n _ y hy := by
    obtain ⟨c, hEq, -⟩ := parent_computeDependencies.mp hy
    cases hEq
  region_lt x n hx := by
    obtain ⟨c, -, ⟨a, hEq, -⟩ | ⟨hEq, -⟩⟩ := parent_computeDependencies.mp hx <;> cases hEq
  block_lt x b hx := by
    obtain ⟨c, -, ⟨a, hEq, s, hEdge, -⟩ | ⟨hEq, -⟩⟩ := parent_computeDependencies.mp hx
    · obtain rfl := NodeRef.block.inj hEq
      exact hEdge.lt.1
    · cases hEq
  typed b _ y hy := (symmetric_computeDependencies y (.block b)).mp hy
  plain b _ n hy := by
    obtain ⟨c, -, ⟨a, hEq, -⟩ | ⟨hEq, -⟩⟩ := parent_computeDependencies.mp hy <;> cases hEq
  child_parent a type y hy := (symmetric_computeDependencies (.block a) y).mpr ⟨type, hy⟩
  keys key hKey := by
    rw [List.mem_singleton.mp hKey]
    exact .inl ⟨rfl, rfl⟩
  reaches b a := Iff.rfl

/-- The first phase as a whole keeps the invariant, from the graph of the bare dependences on. -/
theorem inv_enterAll {F : Function} {pdt : PostDominatorTree F} :
    Inv F (computeDependencies F pdt) [] (enterAll (computeDependencies F pdt) pdt.postOrder) :=
  inv_computeDependencies.foldl_enter (pdt.postOrder_perm.nodup_iff.mpr List.nodup_range)

end Regions
end ConAnalysis.ControlDependence
