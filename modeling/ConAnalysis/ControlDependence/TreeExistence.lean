import Mathlib.Data.Finset.Max
import Mathlib.Data.Finset.Range
import ConAnalysis.ControlDependence.PostDominators

/-! The functions that have a post-dominator tree. -/
namespace ConAnalysis.ControlDependence
open IR Dominance

/-- Every block can reach an exit. -/
def ReachesExit (F : Function) : Prop :=
  ∀ b < F.blocks.length, ∃ e, Exit F e ∧ Relation.ReflTransGen F.Edge b e

open Classical in
/-- The other blocks that post-dominate `b`. -/
noncomputable def strictPostDominators (F : Function) (b : Nat) : Finset Nat :=
  (Finset.range F.blocks.length).filter fun a => PostDominates F a b ∧ a ≠ b

open Classical in
/-- The one of them that has the most others above it. -/
noncomputable def immediatePostDominator (F : Function) (b : Nat) : Option Nat :=
  if h : b < F.blocks.length ∧ (strictPostDominators F b).Nonempty then
    some (Finset.exists_max_image _ (fun a => (strictPostDominators F a).card) h.2).choose
  else none

section Order
variable {F : Function} {a b p : Nat}

/-- A walk back from an exit to the block, which dominance is about when edges are turned
around. -/
theorem ReachesExit.exists_walk (h : ReachesExit F) (hb : b < F.blocks.length) :
    ∃ e, Exit F e ∧ ∃ visited, Walk (fun x y => F.Edge y x) e visited b := by
  obtain ⟨e, hExit, hReach⟩ := h b hb
  exact ⟨e, hExit, Dominance.exists_walk (Relation.reflTransGen_swap.mp hReach)⟩

/-- A post-dominator is on a walk to an exit and so a block of the function. -/
theorem ReachesExit.lt (h : ReachesExit F) (hb : b < F.blocks.length) (hDom : PostDominates F a b) :
    a < F.blocks.length := by
  obtain ⟨e, hExit, visited, walk⟩ := h.exists_walk hb
  have hReach := Relation.reflTransGen_swap.mp
    (walk.reachable_of_mem (hDom e hExit visited walk))
  rcases Relation.ReflTransGen.cases_head hReach with rfl | ⟨c, hEdge, -⟩
  · exact hExit.1
  · exact hEdge.lt.1

/-- The finite set that is computed holds just the post-dominators other than the block itself. -/
theorem ReachesExit.mem_strictPostDominators (h : ReachesExit F) (hb : b < F.blocks.length) :
    a ∈ strictPostDominators F b ↔ PostDominates F a b ∧ a ≠ b := by
  classical
  rw [strictPostDominators, Finset.mem_filter, Finset.mem_range]
  exact and_iff_right_of_imp fun hDom => h.lt hb hDom.1

/-- What is above the immediate post-dominator, and nothing else, is above the block. -/
theorem ReachesExit.strictPostDominators_eq (h : ReachesExit F)
    (hp : immediatePostDominator F b = some p) :
    p < F.blocks.length ∧ p ∉ strictPostDominators F p ∧
      strictPostDominators F b = insert p (strictPostDominators F p) := by
  unfold immediatePostDominator at hp
  split at hp
  case isFalse => cases hp
  case isTrue hSome =>
    obtain ⟨hb, hNonempty⟩ := hSome
    obtain ⟨hMem, hMax⟩ := (Finset.exists_max_image (strictPostDominators F b)
      (fun a => (strictPostDominators F a).card) hNonempty).choose_spec
    rw [Option.some.inj hp] at hMem hMax
    obtain ⟨hDom, hNe⟩ := (h.mem_strictPostDominators hb).mp hMem
    have hLt := h.lt hb hDom
    have hSelf : p ∉ strictPostDominators F p := fun hIn =>
      ((h.mem_strictPostDominators hLt).mp hIn).2 rfl
    obtain ⟨e, hExit, visited, walk⟩ := h.exists_walk hb
    refine ⟨hLt, hSelf, Finset.ext fun a => ?_⟩
    rw [Finset.mem_insert, h.mem_strictPostDominators hb, h.mem_strictPostDominators hLt]
    constructor
    · rintro ⟨hDom', hNe'⟩
      by_cases hap : a = p
      · exact .inl hap
      right
      refine ⟨(Dominates.total hDom' hDom hExit walk).resolve_right fun hUp => ?_, hap⟩
      -- else `a` would have more blocks above it than `p`
      have hLtA := h.lt hb hDom'
      have hSub : strictPostDominators F p ⊂ strictPostDominators F a := by
        refine (Finset.ssubset_iff_of_subset fun c hc => ?_).mpr ⟨p, ?_, hSelf⟩
        · obtain ⟨hDomC, hNeC⟩ := (h.mem_strictPostDominators hLt).mp hc
          refine (h.mem_strictPostDominators hLtA).mpr ⟨hDomC.trans hUp, ?_⟩
          rintro rfl
          obtain ⟨e, hExit, visited, walk⟩ := h.exists_walk hLt
          exact hNeC (hDomC.antisymm hUp hExit walk)
        · exact (h.mem_strictPostDominators hLtA).mpr ⟨hUp, Ne.symm hap⟩
      have hCard := hMax a ((h.mem_strictPostDominators hb).mpr ⟨hDom', hNe'⟩)
      exact absurd (Finset.card_lt_card hSub) (Nat.not_lt.mpr hCard)
    · rintro (rfl | ⟨hDom', hNe'⟩)
      · exact ⟨hDom, hNe⟩
      · refine ⟨hDom'.trans hDom, ?_⟩
        rintro rfl
        exact hNe (hDom.antisymm hDom' hExit walk)

/-- Each step up the tree leaves one strict post-dominator behind. This is the depth that makes
the tree well founded. -/
theorem ReachesExit.card_strictPostDominators (h : ReachesExit F)
    (hp : immediatePostDominator F b = some p) :
    (strictPostDominators F b).card = (strictPostDominators F p).card + 1 := by
  obtain ⟨-, hSelf, hEq⟩ := h.strictPostDominators_eq hp
  rw [hEq, Finset.card_insert_of_notMem hSelf]

/-- Nothing else is above a block without an immediate post-dominator. -/
theorem ReachesExit.eq_of_none (h : ReachesExit F) (hb : b < F.blocks.length)
    (hNone : immediatePostDominator F b = none) (hDom : PostDominates F a b) : a = b := by
  by_contra hNe
  have hNonempty : (strictPostDominators F b).Nonempty :=
    ⟨a, (h.mem_strictPostDominators hb).mpr ⟨hDom, hNe⟩⟩
  rw [immediatePostDominator, dif_pos ⟨hb, hNonempty⟩] at hNone
  cases hNone

/-- The way up from a block leads through all blocks that post-dominate it. -/
theorem ReachesExit.mem_climb (h : ReachesExit F) (hb : b < F.blocks.length) :
    a ∈ climb (immediatePostDominator F) ((strictPostDominators F b).card + 1) b ↔
      PostDominates F a b := by
  induction hDepth : (strictPostDominators F b).card using Nat.strongRecOn generalizing b with
  | ind n ih =>
      subst hDepth
      rw [climb, List.mem_cons]
      cases hp : immediatePostDominator F b with
      | none =>
          rw [Option.elim_none, or_iff_left List.not_mem_nil]
          refine ⟨?_, h.eq_of_none hb hp⟩
          rintro rfl
          exact Dominates.self a
      | some p =>
          obtain ⟨hLt, -, hEq⟩ := h.strictPostDominators_eq hp
          have hCard := h.card_strictPostDominators hp
          rw [Option.elim_some, hCard, ih _ (by omega) hLt rfl]
          have hAbove : ∀ c, PostDominates F c b ∧ c ≠ b ↔ c = p ∨ PostDominates F c p ∧ c ≠ p := by
            intro c
            rw [← h.mem_strictPostDominators hb, hEq, Finset.mem_insert,
              h.mem_strictPostDominators hLt]
          constructor
          · rintro (rfl | hDom)
            · exact Dominates.self a
            · exact hDom.trans ((hAbove p).mpr (.inl rfl)).1
          · intro hDom
            by_cases hab : a = b
            · exact .inl hab
            · rcases (hAbove a).mp ⟨hDom, hab⟩ with rfl | hUp
              · exact .inr (Dominates.self a)
              · exact .inr hUp.1

end Order

/-- There is one exactly for the functions whose blocks can all reach an exit. -/
theorem nonempty_postDominatorTree_iff (F : Function) :
    Nonempty (PostDominatorTree F) ↔ ReachesExit F := by
  refine ⟨fun ⟨pdt⟩ b hb => pdt.exists_exit hb, fun h => ⟨?_⟩⟩
  exact {
    iDom := immediatePostDominator F
    depth := fun b => (strictPostDominators F b).card
    postOrder := List.range F.blocks.length
    depth_lt := fun b p hp => by
      have hCard := h.card_strictPostDominators hp
      omega
    correct := fun b hb a => h.mem_climb hb
    postOrder_perm := .refl _ }

def ifElse : Function where
  name := "f"
  blocks := [
    { body := [], terminator := ⟨.br, [.constant 0, .basicBlock ⟨0, 2⟩, .basicBlock ⟨0, 1⟩], none⟩,
      successors := [1, 2] },
    { body := [], terminator := ⟨.br, [.basicBlock ⟨0, 3⟩], none⟩, successors := [3] },
    { body := [], terminator := ⟨.br, [.basicBlock ⟨0, 3⟩], none⟩, successors := [3] },
    { body := [], terminator := ⟨.ret, [], none⟩, successors := [] }]

theorem ifElse_edge {a s : Nat} : ifElse.Edge a s ↔ (a, s) ∈ [(0, 1), (0, 2), (1, 3), (2, 3)] := by
  constructor
  · intro h
    have hAll : ∀ a < 4, ∀ s ∈ ifElse.successors a, (a, s) ∈ [(0, 1), (0, 2), (1, 3), (2, 3)] := by
      decide
    exact hAll a (Function.Edge.lt h).1 s h
  · intro h
    simp only [List.mem_cons, Prod.mk.injEq, List.not_mem_nil, or_false] at h
    unfold Function.Edge
    rcases h with ⟨rfl, rfl⟩ | ⟨rfl, rfl⟩ | ⟨rfl, rfl⟩ | ⟨rfl, rfl⟩ <;> decide

/-- From the exit back to one side of the branch, around the other side. -/
theorem ifElse_not_postDominates {b x : Nat} {visited : List Nat}
    (walk : Walk (fun x y => ifElse.Edge y x) 3 visited x) (hb : b ∉ visited) :
    ¬PostDominates ifElse b x :=
  fun h => hb (h 3 ⟨by decide, rfl⟩ visited walk)

/-- Both branches come to the last block, which returns. -/
theorem ifElse_reachesExit : ReachesExit ifElse := by
  have hSides : ifElse.Edge 0 1 ∧ ifElse.Edge 1 3 ∧ ifElse.Edge 2 3 := by simp [ifElse_edge]
  obtain ⟨hBranch, hLeft, hRight⟩ := hSides
  intro b hb
  refine ⟨3, ⟨by decide, rfl⟩, ?_⟩
  match b, hb with
  | 0, _ => exact .tail (.single hBranch) hLeft
  | 1, _ => exact .single hLeft
  | 2, _ => exact .single hRight
  | 3, _ => exact .refl

end ConAnalysis.ControlDependence
