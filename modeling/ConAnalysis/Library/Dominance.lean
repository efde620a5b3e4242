import Mathlib.Data.Set.Insert
import Mathlib.Logic.Relation
import Mathlib.Tactic.Common

/-! Dominance in a directed graph, with any set of nodes at which walks may
start, and the equations that dominator sets satisfy. -/
namespace Dominance
variable {α : Type}

/-- A walk along edges, with the nodes that it has visited, the last one first. -/
inductive Walk (edge : α → α → Prop) (start : α) : List α → α → Prop where
  | nil : Walk edge start [start] start
  | snoc {visited : List α} {a b : α} (walk : Walk edge start visited a) (step : edge a b) :
      Walk edge start (b :: visited) b

theorem Walk.mono {edge edge' : α → α → Prop} {start a : α} {visited : List α}
    (hEdge : ∀ a b, edge a b → edge' a b) (h : Walk edge start visited a) :
    Walk edge' start visited a := by
  induction h with
  | nil => exact .nil
  | snoc _ step ih => exact .snoc ih (hEdge _ _ step)

theorem Walk.reachable {edge : α → α → Prop} {start a : α} {visited : List α}
    (h : Walk edge start visited a) : Relation.ReflTransGen edge start a := by
  induction h with
  | nil => exact .refl
  | snoc _ step ih => exact ih.tail step

theorem exists_walk {edge : α → α → Prop} {start a : α} (h : Relation.ReflTransGen edge start a) :
    ∃ visited, Walk edge start visited a := by
  induction h with
  | refl => exact ⟨_, .nil⟩
  | tail _ step ih =>
      obtain ⟨visited, walk⟩ := ih
      exact ⟨_, .snoc walk step⟩

/-- A node that has been visited was entered for the first time. -/
theorem Walk.exists_entering {edge : α → α → Prop} {start a b : α} {visited : List α}
    (h : Walk edge start visited a) (hMem : b ∈ visited) (hNe : b ≠ start) :
    ∃ before c, Walk edge start before c ∧ edge c b ∧ b ∉ before := by
  induction h with
  | nil => exact absurd (List.mem_singleton.mp hMem) hNe
  | @snoc visited a c walk step ih =>
      by_cases hBefore : b ∈ visited
      · exact ih hBefore
      · rcases List.mem_cons.mp hMem with rfl | hMem
        · exact ⟨visited, a, walk, step, hBefore⟩
        · exact absurd hMem hBefore

theorem Walk.mem {edge : α → α → Prop} {start a : α} {visited : List α}
    (h : Walk edge start visited a) : a ∈ visited := by
  cases h <;> simp

theorem Walk.start_mem {edge : α → α → Prop} {start a : α} {visited : List α}
    (h : Walk edge start visited a) : start ∈ visited := by
  induction h with
  | nil => exact List.mem_singleton_self start
  | snoc _ _ ih => exact List.mem_cons_of_mem _ ih

theorem Walk.reachable_of_mem {edge : α → α → Prop} {start a b : α} {visited : List α}
    (h : Walk edge start visited a) (hMem : b ∈ visited) : Relation.ReflTransGen edge start b := by
  induction h with
  | nil =>
      rw [List.mem_singleton.mp hMem]
  | snoc walk step ih =>
      rcases List.mem_cons.mp hMem with rfl | hMem
      · exact (walk.snoc step).reachable
      · exact ih hMem

/-- Every walk from a root to `b` passes through `d`. -/
def Dominates (edge : α → α → Prop) (root : α → Prop) (d b : α) : Prop :=
  ∀ start, root start → ∀ visited, Walk edge start visited b → d ∈ visited

section Equations
variable {edge : α → α → Prop} {root : α → Prop}

/-- A node other than `d` hands the domination back along its incoming edges. -/
theorem Dominates.of_edge {d a b : α} (h : Dominates edge root d b) (step : edge a b)
    (hNe : d ≠ b) : Dominates edge root d a := by
  intro start hRoot visited walk
  exact (List.mem_cons.mp (h start hRoot _ (.snoc walk step))).resolve_left hNe

theorem Dominates.self (b : α) : Dominates edge root b b :=
  fun _ _ _ walk => walk.mem

/-- A root that is the only one dominates everything. -/
theorem dominates_of_only_root {r : α} (b : α) : Dominates edge (· = r) r b := by
  rintro _ rfl visited walk
  exact walk.start_mem

/-- Roots are dominated by themselves alone. -/
theorem Dominates.eq_of_root {d b : α} (h : Dominates edge root d b) (hRoot : root b) : d = b := by
  simpa using h b hRoot [b] .nil

/-- Sets that hold nothing but the node itself at a root, and nothing that an
incoming edge does not bring along, hold dominators only. -/
theorem dominates_of_mem {D : α → Set α} (hRoot : ∀ r, root r → D r ⊆ {r})
    (hEdge : ∀ a b, edge a b → D b ⊆ insert b (D a)) {d b : α} (h : d ∈ D b) :
    Dominates edge root d b := by
  intro start hStart visited walk
  induction walk with
  | nil => exact List.mem_singleton.mpr (hRoot start hStart h)
  | snoc _ step ih =>
      rcases hEdge _ _ step h with rfl | hMem
      · exact List.mem_cons_self
      · exact List.mem_cons_of_mem _ (ih hMem)

end Equations

section Order
variable {edge : α → α → Prop} {root : α → Prop} {a b c : α}

/-- A walk leads to the nodes that it visits. -/
theorem Walk.exists_suffix {start : α} {visited : List α} (h : Walk edge start visited b)
    (hMem : a ∈ visited) : ∃ before, Walk edge start before a ∧ before <:+ visited := by
  induction h with
  | nil =>
      obtain rfl := List.mem_singleton.mp hMem
      exact ⟨_, .nil, List.suffix_rfl⟩
  | snoc walk step ih =>
      rcases List.mem_cons.mp hMem with rfl | hMem
      · exact ⟨_, walk.snoc step, List.suffix_rfl⟩
      · obtain ⟨before, hWalk, hSuffix⟩ := ih hMem
        exact ⟨before, hWalk, hSuffix.trans (List.suffix_cons _ _)⟩

/-- To another node, the way is shorter. -/
theorem Walk.exists_shorter {start : α} {visited : List α} (h : Walk edge start visited b)
    (hMem : a ∈ visited) (hNe : a ≠ b) :
    ∃ before, Walk edge start before a ∧ before.length < visited.length := by
  cases h with
  | nil => exact absurd (List.mem_singleton.mp hMem) hNe
  | snoc walk step =>
      obtain ⟨before, hWalk, hSuffix⟩ := walk.exists_suffix ((List.mem_cons.mp hMem).resolve_left hNe)
      exact ⟨before, hWalk, Nat.lt_succ_of_le hSuffix.length_le⟩

/-- Dominance is transitive: cut the walk where it first meets the middle node. -/
theorem Dominates.trans (h : Dominates edge root a b) (h' : Dominates edge root b c) :
    Dominates edge root a c := by
  intro start hStart visited walk
  obtain ⟨before, hWalk, hSuffix⟩ := walk.exists_suffix (h' start hStart visited walk)
  exact hSuffix.subset (h start hStart before hWalk)

/-- Two nodes that dominate each other cannot both be reached first. -/
theorem Dominates.antisymm (h : Dominates edge root a b) (h' : Dominates edge root b a)
    {start : α} (hStart : root start) {visited : List α} (walk : Walk edge start visited b) :
    a = b := by
  induction hLength : visited.length using Nat.strongRecOn generalizing visited with
  | ind n ih =>
      subst hLength
      by_contra hNe
      obtain ⟨before, hWalk, hLt⟩ := walk.exists_shorter (h start hStart visited walk) hNe
      obtain ⟨before', hWalk', hLt'⟩ :=
        hWalk.exists_shorter (h' start hStart before hWalk) (Ne.symm hNe)
      exact hNe (ih before'.length (hLt'.trans hLt) hWalk' rfl)

/-- If the one can be reached around the other and the other way round, then whatever
is behind one of them can be reached around one of them. -/
theorem exists_walk_around (hNe : a ≠ c) {start startA startC : α} {visited toA toC : List α}
    (hA : root startA) (walkA : Walk edge startA toA a) (hcA : c ∉ toA)
    (hC : root startC) (walkC : Walk edge startC toC c) (haC : a ∉ toC)
    (walk : Walk edge start visited b) (hMem : a ∈ visited ∨ c ∈ visited) :
    ∃ start, root start ∧ ∃ visited, Walk edge start visited b ∧ (a ∉ visited ∨ c ∉ visited) := by
  induction walk with
  | nil =>
      rw [List.mem_singleton, List.mem_singleton] at hMem
      rcases hMem with rfl | rfl
      · exact ⟨_, hA, _, walkA, .inr hcA⟩
      · exact ⟨_, hC, _, walkC, .inl haC⟩
  | @snoc visited d b walk step ih =>
      by_cases hab : b = a
      · subst hab
        exact ⟨_, hA, _, walkA, .inr hcA⟩
      · by_cases hcb : b = c
        · subst hcb
          exact ⟨_, hC, _, walkC, .inl haC⟩
        · have hBefore : a ∈ visited ∨ c ∈ visited := hMem.imp
            (fun hMem => (List.mem_cons.mp hMem).resolve_left (Ne.symm hab))
            fun hMem => (List.mem_cons.mp hMem).resolve_left (Ne.symm hcb)
          obtain ⟨start, hStart, visited, walk, hNot⟩ := ih hBefore
          refine ⟨start, hStart, _, walk.snoc step, hNot.imp ?_ ?_⟩
          · exact fun hNot hMem => hNot ((List.mem_cons.mp hMem).resolve_left (Ne.symm hab))
          · exact fun hNot hMem => hNot ((List.mem_cons.mp hMem).resolve_left (Ne.symm hcb))

/-- The dominators of a node that can be reached are a chain. -/
theorem Dominates.total (ha : Dominates edge root a b) (hc : Dominates edge root c b)
    {start : α} (hStart : root start) {visited : List α} (walk : Walk edge start visited b) :
    Dominates edge root a c ∨ Dominates edge root c a := by
  by_cases hEq : a = c
  · exact .inl (hEq ▸ Dominates.self a)
  by_contra hNone
  simp only [Dominates, not_or, not_forall] at hNone
  obtain ⟨⟨startC, hC, toC, walkC, haC⟩, startA, hA, toA, walkA, hcA⟩ := hNone
  obtain ⟨start', hStart', visited', walk', hNot⟩ := exists_walk_around hEq hA walkA hcA hC walkC haC
    walk (.inl (ha start hStart visited walk))
  exact hNot.elim (· (ha start' hStart' visited' walk')) (· (hc start' hStart' visited' walk'))

end Order
end Dominance
