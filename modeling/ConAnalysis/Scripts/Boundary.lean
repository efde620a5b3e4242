import Mathlib.Data.List.Induction
import ConAnalysis.Library.Regex

/-! The lines of a log that the parsers handle: up to the last one that ends a
block. -/
namespace ConAnalysis.Scripts
open Regex

/-- What `checkBlockIntegrity` computes: the index, counted from one, of the last
line that `blockEnd` accepts, from `baseIndex` on. -/
def lastBlockEnd (blockEnd : Regex) (baseIndex : Nat) (lines : List Text) : Nat :=
  (lines.zipIdx 1).foldl
    (fun boundaryIndex (line, i) =>
      if i ≥ baseIndex ∧ blockEnd.accepts line = true then i else boundaryIndex) baseIndex

/-- The lines that the loops of the parsers handle: those before `baseIndex` are
passed over, and at `boundaryIndex` the loop is left. -/
def handled (baseIndex boundaryIndex : Nat) (lines : List Text) : List Text :=
  (((lines.zipIdx 1).filter fun (_, i) => !decide (i < baseIndex)).takeWhile fun (_, i) =>
    !decide (i ≥ boundaryIndex)).map Prod.fst

section Boundary
variable {blockEnd : Regex} {baseIndex : Nat} {lines : List Text} {line : Text}

/-- The last end of a block is looked for from the start: each end that is met replaces the one
before. -/
theorem lastBlockEnd_concat :
    lastBlockEnd blockEnd baseIndex (lines ++ [line]) =
      if lines.length + 1 ≥ baseIndex ∧ blockEnd.accepts line = true then lines.length + 1
      else lastBlockEnd blockEnd baseIndex lines := by
  rw [lastBlockEnd, List.zipIdx_append, List.foldl_append, Nat.add_comm]
  rfl

/-- Without the end of a block, the boundary stays where it was. -/
theorem lastBlockEnd_of_none (h : ∀ line ∈ lines, blockEnd.accepts line = false) :
    lastBlockEnd blockEnd baseIndex lines = baseIndex := by
  induction lines using List.reverseRecOn with
  | nil => rfl
  | append_singleton lines line ih =>
      rw [lastBlockEnd_concat, if_neg (by simp [h line (by simp)])]
      exact ih fun line' hLine' => h line' (List.mem_append_left _ hLine')

/-- The last line that ends a block is the boundary. -/
theorem lastBlockEnd_of_last (h : blockEnd.accepts line = true) {rest : List Text}
    (hRest : ∀ line ∈ rest, blockEnd.accepts line = false) :
    lastBlockEnd blockEnd 0 (lines ++ line :: rest) = lines.length + 1 := by
  induction rest using List.reverseRecOn with
  | nil => rw [lastBlockEnd_concat, if_pos ⟨Nat.zero_le _, h⟩]
  | append_singleton rest line' ih =>
      rw [← List.cons_append, ← List.append_assoc, lastBlockEnd_concat,
        if_neg (by simp [hRest line' (by simp)])]
      exact ih fun line'' hLine'' => hRest line'' (List.mem_append_left _ hLine'')

theorem lastBlockEnd_le_length : lastBlockEnd blockEnd 0 lines ≤ lines.length := by
  induction lines using List.reverseRecOn with
  | nil => exact Nat.le_refl _
  | append_singleton lines line ih =>
      rw [lastBlockEnd_concat, List.length_append, List.length_singleton]
      split
      · exact Nat.le_refl _
      · exact Nat.le_succ_of_le ih

/-- Reading up to an index takes the lines in front of it. -/
theorem takeWhile_zipIdx_lt (boundaryIndex k : Nat) :
    (((lines.zipIdx k).takeWhile fun (_, i) => !decide (i ≥ boundaryIndex)).map Prod.fst) =
      lines.take (boundaryIndex - k) := by
  induction lines generalizing k with
  | nil => simp
  | cons line lines ih =>
      rw [List.zipIdx_cons, List.takeWhile_cons]
      by_cases hk : k ≥ boundaryIndex
      · rw [Nat.sub_eq_zero_of_le hk]
        simp [hk]
      · obtain ⟨n, hn⟩ : ∃ n, boundaryIndex - k = n + 1 := ⟨boundaryIndex - k - 1, by omega⟩
        rw [if_pos (by simpa using hk), List.map_cons, ih, hn, List.take_succ_cons]
        congr 2
        omega

/-- From the start of the log, all lines before the boundary are handled. -/
theorem handled_zero (boundaryIndex : Nat) :
    handled 0 boundaryIndex lines = lines.take (boundaryIndex - 1) := by
  rw [handled, List.filter_eq_self.mpr (by simp), takeWhile_zipIdx_lt]

theorem handled_self : handled baseIndex baseIndex lines = [] := by
  have hStop : ∀ p ∈ (lines.zipIdx 1).filter fun (_, i) => !decide (i < baseIndex),
      (!decide (p.2 ≥ baseIndex)) = false := by
    intro p hp
    have hIndex := (List.mem_filter.mp hp).2
    simp only [Bool.not_eq_true', decide_eq_false_iff_not, Nat.not_lt] at hIndex
    simpa using hIndex
  rw [handled]
  cases hLines : (lines.zipIdx 1).filter fun (_, i) => !decide (i < baseIndex) with
  | nil => rfl
  | cons p rest =>
      rw [List.takeWhile_cons, if_neg (by simp [hStop p (hLines ▸ List.mem_cons_self)])]
      rfl

end Boundary
end ConAnalysis.Scripts
