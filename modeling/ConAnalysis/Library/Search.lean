import Mathlib.Data.List.TakeWhile
import Mathlib.Logic.Relation
import Mathlib.Tactic.Common

/-! Breadth-first search with a queue. Nodes are marked when they leave the queue,
so that a node may be queued several times. -/
namespace Search
open Relation

variable {α : Type} [DecidableEq α]

/-- The loop, with fuel for its rounds: whether a node of the queue, or one that is
reached from it, is a goal. -/
def search (next : α → List α) (goal : α → Bool) : Nat → List α → List α → Option Bool
  | _, [], _ => some false
  | 0, _ :: _, _ => none
  | fuel + 1, node :: work, finished =>
      if goal node then some true
      else search next goal fuel (work ++ (next node).filter (· ∉ node :: finished)) (node :: finished)

/-- The finished nodes are no goals, and what follows them is finished or queued. -/
structure Inv (next : α → List α) (goal : α → Bool) (work finished : List α) : Prop where
  no_goal : ∀ x ∈ finished, goal x = false
  closed : ∀ x ∈ finished, ∀ y ∈ next x, y ∈ finished ∨ y ∈ work

section Correct
variable {next : α → List α} {goal : α → Bool} {node : α} {work finished : List α}

/-- Step lemma: a node that is not the goal is finished, and its neighbours that are new are
queued. -/
theorem Inv.step (h : Inv next goal (node :: work) finished) (hGoal : goal node = false) :
    Inv next goal (work ++ (next node).filter (· ∉ node :: finished)) (node :: finished) where
  no_goal x hx := by
    rcases List.mem_cons.mp hx with rfl | hx
    · exact hGoal
    · exact h.no_goal x hx
  closed x hx y hy := by
    by_cases hFinished : y ∈ node :: finished
    · exact .inl hFinished
    · right
      rcases List.mem_cons.mp hx with rfl | hx
      · exact List.mem_append_right _ (List.mem_filter.mpr ⟨hy, by simpa using hFinished⟩)
      · rcases h.closed x hx y hy with hOld | hQueued
        · exact absurd (List.mem_cons_of_mem _ hOld) hFinished
        · rcases List.mem_cons.mp hQueued with rfl | hQueued
          · exact absurd List.mem_cons_self hFinished
          · exact List.mem_append_left _ hQueued

def Reaches (next : α → List α) (goal : α → Bool) (starts : List α) : Prop :=
  ∃ start ∈ starts, ∃ x, ReflTransGen (fun a b => b ∈ next a) start x ∧ goal x = true

omit [DecidableEq α] in
theorem Reaches.mono {starts starts' : List α} (h : Reaches next goal starts)
    (hSub : ∀ x ∈ starts, x ∈ starts') : Reaches next goal starts' := by
  obtain ⟨start, hStart, hGoal⟩ := h
  exact ⟨start, hSub start hStart, hGoal⟩

omit [DecidableEq α] in
/-- With an empty queue, everything that is reached is finished. -/
theorem Inv.not_reaches (h : Inv next goal [] finished) : ¬Reaches next goal finished := by
  rintro ⟨start, hStart, x, hPath, hGoal⟩
  have hMem : x ∈ finished := by
    clear hGoal
    induction hPath with
    | refl => exact hStart
    | tail _ hStep ih => exact (h.closed _ ih _ hStep).resolve_right List.not_mem_nil
  rw [h.no_goal x hMem] at hGoal
  cases hGoal

/-- A round does not change what is reached. -/
theorem reaches_step_iff : Reaches next goal
    ((node :: finished) ++ (work ++ (next node).filter (· ∉ node :: finished))) ↔
      Reaches next goal (finished ++ node :: work) := by
  constructor
  · rintro ⟨start, hStart, x, hPath, hGoal⟩
    rcases List.mem_append.mp hStart with hStart | hStart
    · refine ⟨start, ?_, x, hPath, hGoal⟩
      rcases List.mem_cons.mp hStart with rfl | hStart <;> simp [*]
    · rcases List.mem_append.mp hStart with hStart | hStart
      · exact ⟨start, by simp [hStart], x, hPath, hGoal⟩
      · exact ⟨node, by simp, x, .head (List.mem_filter.mp hStart).1 hPath, hGoal⟩
  · refine fun h => h.mono fun x hx => ?_
    rcases List.mem_append.mp hx with hx | hx
    · simp [hx]
    · rcases List.mem_cons.mp hx with rfl | hx <;> simp [*]

/-- The answer of the search. -/
theorem search_eq_true_iff {fuel : Nat} {answer : Bool} (h : Inv next goal work finished)
    (hSearch : search next goal fuel work finished = some answer) :
    answer = true ↔ Reaches next goal (finished ++ work) := by
  induction fuel generalizing work finished with
  | zero =>
      cases work with
      | nil =>
          cases hSearch
          rw [List.append_nil]
          exact iff_of_false nofun h.not_reaches
      | cons node work => cases hSearch
  | succ fuel ih =>
      cases work with
      | nil =>
          cases hSearch
          rw [List.append_nil]
          exact iff_of_false nofun h.not_reaches
      | cons node work =>
          rw [search] at hSearch
          cases hGoal : goal node with
          | true =>
              rw [if_pos hGoal] at hSearch
              cases hSearch
              exact iff_of_true rfl ⟨node, by simp, node, .refl, hGoal⟩
          | false =>
              rw [if_neg (by simp [hGoal])] at hSearch
              rw [ih (h.step hGoal) hSearch, reaches_step_iff]

/-- One node fewer is unfinished. -/
theorem length_unfinished_lt {nodes : List α} (hNode : node ∈ nodes) (hNew : node ∉ finished) :
    (nodes.filter (· ∉ node :: finished)).length < (nodes.filter (· ∉ finished)).length := by
  have hFilter : nodes.filter (· ∉ node :: finished) =
      (nodes.filter (· ∉ finished)).filter (· ≠ node) := by
    rw [List.filter_filter]
    refine List.filter_congr fun x _ => ?_
    simp [not_or]
  rw [hFilter, List.length_filter_lt_length_iff_exists]
  exact ⟨node, List.mem_filter.mpr ⟨hNode, by simpa using hNew⟩, by simp⟩

/-- The next unfinished node of the queue comes closer to its front. -/
theorem length_takeWhile_lt (h : Inv next goal (node :: work) finished) (hOld : node ∈ finished) :
    ((work ++ (next node).filter (· ∉ node :: finished)).takeWhile (· ∈ node :: finished)).length <
      ((node :: work).takeWhile (· ∈ finished)).length := by
  have hSame : ∀ x, x ∈ node :: finished ↔ x ∈ finished := fun x =>
    ⟨fun hx => (List.mem_cons.mp hx).elim (fun hEq => hEq ▸ hOld) id, List.mem_cons_of_mem _⟩
  simp only [hSame]
  rw [List.takeWhile_cons_of_pos (by simpa using hOld), List.length_cons, Nat.lt_succ_iff,
    List.takeWhile_append]
  split
  · next hAll =>
      have hWork : ∀ x ∈ work, x ∈ finished := by
        have hEq := List.IsPrefix.eq_of_length (List.takeWhile_prefix _) hAll
        simpa using List.takeWhile_eq_self_iff.mp hEq
      have hNothing : (next node).filter (· ∉ finished) = [] := by
        refine List.filter_eq_nil_iff.mpr fun y hy => ?_
        rcases h.closed node hOld y hy with hFinished | hQueued
        · simpa using hFinished
        · rcases List.mem_cons.mp hQueued with rfl | hQueued
          · simpa using hOld
          · simpa using hWork y hQueued
      rw [hNothing, List.takeWhile_nil, List.append_nil, hAll]
  · exact Nat.le_refl _

/-- In a finite graph the queue runs empty. -/
theorem exists_search_eq_some (nodes : List α) (hNodes : ∀ x ∈ nodes, ∀ y ∈ next x, y ∈ nodes)
    (h : Inv next goal work finished) (hWork : ∀ x ∈ work, x ∈ nodes) :
    ∃ fuel answer, search next goal fuel work finished = some answer := by
  induction hUnfinished : (nodes.filter (· ∉ finished)).length using Nat.strongRecOn
    generalizing work finished with
  | ind unfinished ihUnfinished =>
  induction hFront : (work.takeWhile (· ∈ finished)).length using Nat.strongRecOn
    generalizing work finished with
  | ind front ihFront =>
  cases work with
  | nil => exact ⟨0, false, rfl⟩
  | cons node work =>
      cases hGoal : goal node with
      | true => exact ⟨1, true, by rw [search, if_pos hGoal]⟩
      | false =>
          have hNext : ∀ x ∈ work ++ (next node).filter (· ∉ node :: finished), x ∈ nodes := by
            intro x hx
            rcases List.mem_append.mp hx with hx | hx
            · exact hWork x (List.mem_cons_of_mem _ hx)
            · exact hNodes node (hWork node List.mem_cons_self) x (List.mem_filter.mp hx).1
          obtain ⟨fuel, answer, hRest⟩ : ∃ fuel answer, search next goal fuel
              (work ++ (next node).filter (· ∉ node :: finished)) (node :: finished) = some answer := by
            by_cases hOld : node ∈ finished
            · refine ihFront _ (hFront ▸ length_takeWhile_lt h hOld) (h.step hGoal) hNext ?_ rfl
              rw [← hUnfinished]
              congr 1
              refine List.filter_congr fun x _ => ?_
              simp only [List.mem_cons, decide_eq_decide]
              exact not_congr ⟨fun hx => hx.elim (fun hEq => hEq ▸ hOld) id, .inr⟩
            · exact ihUnfinished _ (hUnfinished ▸
                length_unfinished_lt (hWork node List.mem_cons_self) hOld) (h.step hGoal) hNext rfl
          exact ⟨fuel + 1, answer, by rw [search, if_neg (by simp [hGoal]), hRest]⟩

end Correct
end Search
