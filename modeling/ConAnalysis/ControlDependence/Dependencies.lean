import ConAnalysis.ControlDependence.Graph
import ConAnalysis.ControlDependence.PostDominators

/-! `ControlDependenceGraphBase::computeDependencies`. -/
namespace ConAnalysis.ControlDependence
open IR

/-- `getEdgeType`: only conditional branches have true and false edges. -/
def getEdgeType (F : Function) (A B : Nat) : EdgeType :=
  match F.blocks[A]? with
  | none => .other
  | some block =>
      if block.terminator.opcode = .br ∧ block.terminator.operands.length = 3 then
        if block.successors[0]? = some B then .true
        else if block.successors[1]? = some B then .false
        else .other
      else .other

/-- `A->addTrue(C)` or the like, and `C->addParent(A)`. -/
def link (type : EdgeType) (g : Graph) (A C : NodeRef) : Graph := (g.addChild type A C).addParent C A

def computeDependencies (F : Function) (pdt : PostDominatorTree F) : Graph :=
  let g := (List.range F.blocks.length).foldl
    (fun g A => (F.successors A).foldl
      (fun g B => (pdt.dependents A B).foldl
        (fun g cur => link (getEdgeType F A B) g (.block A) (.block cur)) g) g) {}
  -- ENTRY -> START
  (pdt.ancestors 0).foldl (fun g cur => link .other g .root (.block cur)) g

/-- What every round of a loop adds, the loop adds. -/
theorem foldl_iff {α β : Type} {P : α → Prop} {Q : β → Prop} {f : α → β → α}
    (h : ∀ a b, P (f a b) ↔ P a ∨ Q b) (items : List β) (a : α) :
    P (items.foldl f a) ↔ P a ∨ ∃ b ∈ items, Q b := by
  induction items generalizing a with
  | nil => simp
  | cons b items ih => rw [List.foldl_cons, ih, h, List.exists_mem_cons_iff, or_assoc]

section Link
variable {type : EdgeType} {g : Graph} {x y A C : NodeRef}

/-- Linking two nodes adds one parent and takes none away. -/
theorem parent_link : (link type g A C).Parent x y ↔ g.Parent x y ∨ (x = C ∧ y = A) := by
  rw [link, Graph.parent_addParent, Graph.parent_addChild]

/-- The same seen from above: one child of the given type is added. -/
theorem child_link {type' : EdgeType} : (link type g A C).Child x type' y ↔
    g.Child x type' y ∨ (x = A ∧ type' = type ∧ y = C) := by
  rw [link, Graph.child_addParent, Graph.child_addChild]

end Link

/-- Parents and children are the same edges. -/
def Graph.Symmetric (g : Graph) : Prop := ∀ x y, g.Parent y x ↔ ∃ type, g.Child x type y

theorem Graph.Symmetric.link {type : EdgeType} {g : Graph} {A C : NodeRef} (h : g.Symmetric) :
    (link type g A C).Symmetric := by
  intro x y
  simp only [parent_link, child_link, h x y, exists_or]
  refine or_congr_right ⟨?_, ?_⟩
  · rintro ⟨rfl, rfl⟩
    exact ⟨type, rfl, rfl, rfl⟩
  · rintro ⟨_, rfl, -, rfl⟩
    exact ⟨rfl, rfl⟩

section Compute
variable {F : Function} {pdt : PostDominatorTree F}

/-- After the dependences are computed, a node has a parent exactly if that parent has it as a
child. Induction over the edges, then over the blocks up to the common post-dominator. -/
theorem symmetric_computeDependencies : (computeDependencies F pdt).Symmetric := by
  have hEmpty : ({} : Graph).Symmetric := by
    intro x y
    simp only [Graph.Parent, Graph.Child]
    refine iff_of_false List.not_mem_nil ?_
    rintro ⟨type, hChild⟩
    cases type <;> cases hChild
  unfold computeDependencies
  refine List.foldlRecOn _ _ ?_ fun g hg cur _ => hg.link
  refine List.foldlRecOn _ _ hEmpty fun g hg A _ => ?_
  refine List.foldlRecOn _ _ hg fun g hg B _ => ?_
  exact List.foldlRecOn _ _ hg fun g hg cur _ => hg.link

/-- The parents of a block are the blocks that it is control dependent on, and the
root if it post-dominates the entry. -/
theorem parent_computeDependencies {x y : NodeRef} :
    (computeDependencies F pdt).Parent x y ↔ ∃ c, x = .block c ∧
      ((∃ a, y = .block a ∧ ControlDependent F a c) ∨ (y = .root ∧ c ∈ pdt.ancestors 0)) := by
  have hEdge : ∀ A B (g : Graph), ((pdt.dependents A B).foldl
      (fun g cur => link (getEdgeType F A B) g (.block A) (.block cur)) g).Parent x y ↔
        g.Parent x y ∨ ∃ cur ∈ pdt.dependents A B, x = .block cur ∧ y = .block A := fun A B g =>
    foldl_iff (P := fun g => g.Parent x y) (Q := fun cur => x = .block cur ∧ y = .block A)
      (fun _ _ => parent_link) (pdt.dependents A B) g
  have hBlock : ∀ A (g : Graph), ((F.successors A).foldl
      (fun g B => (pdt.dependents A B).foldl
        (fun g cur => link (getEdgeType F A B) g (.block A) (.block cur)) g) g).Parent x y ↔
        g.Parent x y ∨ ∃ B ∈ F.successors A, ∃ cur ∈ pdt.dependents A B,
          x = .block cur ∧ y = .block A := fun A g =>
    foldl_iff (P := fun g => g.Parent x y)
      (Q := fun B => ∃ cur ∈ pdt.dependents A B, x = .block cur ∧ y = .block A)
      (fun g B => hEdge A B g) (F.successors A) g
  have hEmpty : ¬({} : Graph).Parent x y := List.not_mem_nil
  have hBlocks : ((List.range F.blocks.length).foldl
      (fun g A => (F.successors A).foldl
        (fun g B => (pdt.dependents A B).foldl
          (fun g cur => link (getEdgeType F A B) g (.block A) (.block cur)) g) g) {}).Parent x y ↔
        ({} : Graph).Parent x y ∨ ∃ A ∈ List.range F.blocks.length, ∃ B ∈ F.successors A,
          ∃ cur ∈ pdt.dependents A B, x = .block cur ∧ y = .block A :=
    foldl_iff (P := fun g => g.Parent x y)
      (Q := fun A => ∃ B ∈ F.successors A, ∃ cur ∈ pdt.dependents A B, x = .block cur ∧ y = .block A)
      (fun g A => hBlock A g) (List.range F.blocks.length) {}
  have hRoot : ∀ g : Graph, ((pdt.ancestors 0).foldl
      (fun g cur => link .other g .root (.block cur)) g).Parent x y ↔
        g.Parent x y ∨ ∃ cur ∈ pdt.ancestors 0, x = .block cur ∧ y = .root := fun g =>
    foldl_iff (P := fun g => g.Parent x y) (Q := fun cur => x = .block cur ∧ y = .root)
      (fun _ _ => parent_link) (pdt.ancestors 0) g
  refine (hRoot _).trans ?_
  rw [hBlocks, or_iff_right hEmpty]
  constructor
  · rintro (⟨a, -, s, hSucc, c, hMem, rfl, rfl⟩ | ⟨c, hMem, rfl, rfl⟩)
    · exact ⟨c, rfl, .inl ⟨a, rfl, (PostDominatorTree.controlDependent_iff pdt).mpr ⟨s, hSucc, hMem⟩⟩⟩
    · exact ⟨c, rfl, .inr ⟨rfl, hMem⟩⟩
  · rintro ⟨c, rfl, ⟨a, rfl, hDependent⟩ | ⟨rfl, hMem⟩⟩
    · obtain ⟨s, hSucc, hMem⟩ := (PostDominatorTree.controlDependent_iff pdt).mp hDependent
      exact .inl ⟨a, List.mem_range.mpr (Function.Edge.lt hSucc).1, s, hSucc, c, hMem, rfl, rfl⟩
    · exact .inr ⟨c, hMem, rfl, rfl⟩

end Compute
end ConAnalysis.ControlDependence
