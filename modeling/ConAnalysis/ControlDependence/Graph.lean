import Mathlib.Data.List.Basic
import Mathlib.Logic.Function.Basic
import Mathlib.Tactic.Common

/-! The nodes and the edges of a `ControlDependenceGraph`. -/
namespace ConAnalysis.ControlDependence

/-- `TRUE`, `FALSE` and `OTHER`. -/
inductive EdgeType where
  | true | false | other
deriving DecidableEq, Repr

/-- `ControlDependenceNode *`: the root, the node of a block, or a region in the order
of their creation. -/
inductive NodeRef where
  | root
  | block (b : Nat)
  | region (n : Nat)
deriving DecidableEq, Repr

/-- `getBlock`, which is null for the root and the regions. -/
def NodeRef.getBlock : NodeRef → Option Nat
  | .block b => some b
  | .root | .region _ => none

/-- The sets of a node, without an order of their own. -/
structure Node where
  parents : List NodeRef := []
  trueChildren : List NodeRef := []
  falseChildren : List NodeRef := []
  otherChildren : List NodeRef := []

namespace Node

def children (n : Node) : EdgeType → List NodeRef
  | .true => n.trueChildren
  | .false => n.falseChildren
  | .other => n.otherChildren

def setChildren (n : Node) (cs : List NodeRef) : EdgeType → Node
  | .true => { n with trueChildren := cs }
  | .false => { n with falseChildren := cs }
  | .other => { n with otherChildren := cs }

@[simp] theorem parents_setChildren (n : Node) (cs : List NodeRef) (type : EdgeType) :
    (n.setChildren cs type).parents = n.parents := by
  cases type <;> rfl

/-- The three sets of children are independent of each other. -/
theorem children_setChildren (n : Node) (cs : List NodeRef) (type type' : EdgeType) :
    (n.setChildren cs type).children type' = if type' = type then cs else n.children type' := by
  cases type <;> cases type' <;> rfl

@[simp] theorem children_parents (n : Node) (ps : List NodeRef) (type : EdgeType) :
    { n with parents := ps }.children type = n.children type := by
  cases type <;> rfl

end Node

/-- The nodes, where those that have not been created have no edges, and the number
of regions that have been created. -/
structure Graph where
  node : NodeRef → Node := fun _ => {}
  regions : Nat := 0

namespace Graph

def modify (g : Graph) (x : NodeRef) (f : Node → Node) : Graph :=
  { g with node := Function.update g.node x (f (g.node x)) }

/-- `addTrue`, `addFalse` and `addOther`. -/
def addChild (type : EdgeType) (g : Graph) (x child : NodeRef) : Graph :=
  g.modify x fun n => n.setChildren ((n.children type).insert child) type

def addTrue : Graph → NodeRef → NodeRef → Graph := addChild .true

def addFalse : Graph → NodeRef → NodeRef → Graph := addChild .false

def addOther : Graph → NodeRef → NodeRef → Graph := addChild .other

def addParent (g : Graph) (x parent : NodeRef) : Graph :=
  g.modify x fun n => { n with parents := n.parents.insert parent }

/-- `removeTrue`, `removeFalse` and `removeOther`. -/
def removeChild (type : EdgeType) (g : Graph) (x child : NodeRef) : Graph :=
  g.modify x fun n => n.setChildren ((n.children type).filter (· ≠ child)) type

def removeTrue : Graph → NodeRef → NodeRef → Graph := removeChild .true

def removeFalse : Graph → NodeRef → NodeRef → Graph := removeChild .false

def removeOther : Graph → NodeRef → NodeRef → Graph := removeChild .other

def removeParent (g : Graph) (x parent : NodeRef) : Graph :=
  g.modify x fun n => { n with parents := n.parents.filter (· ≠ parent) }

/-- `new ControlDependenceNode()`. -/
def newRegion (g : Graph) : NodeRef × Graph :=
  (.region g.regions, { g with regions := g.regions + 1 })

def Parent (g : Graph) (x y : NodeRef) : Prop := y ∈ (g.node x).parents

def Child (g : Graph) (x : NodeRef) (type : EdgeType) (y : NodeRef) : Prop :=
  y ∈ (g.node x).children type

instance (g : Graph) (x y : NodeRef) : Decidable (g.Parent x y) :=
  inferInstanceAs (Decidable (_ ∈ _))

instance (g : Graph) (x : NodeRef) (type : EdgeType) (y : NodeRef) : Decidable (g.Child x type y) :=
  inferInstanceAs (Decidable (_ ∈ _))

section Edges
variable {g : Graph} {type type' : EdgeType} {x y a b : NodeRef}

theorem node_modify_self (f : Node → Node) : (g.modify x f).node x = f (g.node x) :=
  Function.update_self ..

/-- A change of one node leaves the others alone. -/
theorem node_modify_of_ne {f : Node → Node} (h : x ≠ a) : (g.modify a f).node x = g.node x :=
  Function.update_of_ne h ..

/-- `addChild` is one half of a link: parents stay as they were. -/
theorem parent_addChild : (g.addChild type a b).Parent x y ↔ g.Parent x y := by
  unfold Parent addChild
  by_cases hx : x = a
  · subst hx
    rw [node_modify_self, Node.parents_setChildren]
  · rw [node_modify_of_ne hx]

/-- It enters just the one child, under just the one type. -/
theorem child_addChild : (g.addChild type a b).Child x type' y ↔
    g.Child x type' y ∨ (x = a ∧ type' = type ∧ y = b) := by
  unfold Child addChild
  by_cases hx : x = a
  · subst hx
    rw [node_modify_self, Node.children_setChildren]
    split
    · next hType =>
        subst hType
        simp [List.mem_insert_iff, or_comm]
    · next hType => simp [hType]
  · rw [node_modify_of_ne hx]
    simp [hx]

theorem parent_addParent : (g.addParent a b).Parent x y ↔ g.Parent x y ∨ (x = a ∧ y = b) := by
  unfold Parent addParent
  by_cases hx : x = a
  · subst hx
    rw [node_modify_self]
    simp [List.mem_insert_iff, or_comm]
  · rw [node_modify_of_ne hx]
    simp [hx]

theorem child_addParent : (g.addParent a b).Child x type y ↔ g.Child x type y := by
  unfold Child addParent
  by_cases hx : x = a
  · subst hx
    rw [node_modify_self, Node.children_parents]
  · rw [node_modify_of_ne hx]

/-- Taking a child away leaves the parents, which `removeParent` must follow up. -/
theorem parent_removeChild : (g.removeChild type a b).Parent x y ↔ g.Parent x y := by
  unfold Parent removeChild
  by_cases hx : x = a
  · subst hx
    rw [node_modify_self, Node.parents_setChildren]
  · rw [node_modify_of_ne hx]

/-- Only the given child of the given type is taken away. -/
theorem child_removeChild : (g.removeChild type a b).Child x type' y ↔
    g.Child x type' y ∧ ¬(x = a ∧ type' = type ∧ y = b) := by
  unfold Child removeChild
  by_cases hx : x = a
  · subst hx
    rw [node_modify_self, Node.children_setChildren]
    split
    · next hType =>
        subst hType
        simp
    · next hType => simp [hType]
  · rw [node_modify_of_ne hx]
    simp [hx]

theorem parent_removeParent : (g.removeParent a b).Parent x y ↔
    g.Parent x y ∧ ¬(x = a ∧ y = b) := by
  unfold Parent removeParent
  by_cases hx : x = a
  · subst hx
    rw [node_modify_self]
    simp
  · rw [node_modify_of_ne hx]
    simp [hx]

theorem child_removeParent : (g.removeParent a b).Child x type y ↔ g.Child x type y := by
  unfold Child removeParent
  by_cases hx : x = a
  · subst hx
    rw [node_modify_self, Node.children_parents]
  · rw [node_modify_of_ne hx]

end Edges

end Graph
end ConAnalysis.ControlDependence
