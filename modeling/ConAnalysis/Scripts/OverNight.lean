import Mathlib.Logic.Relation
import ConAnalysis.Scripts.CallStacks

/-! `runOverNight` of `tsanOutputParser.py`: the parser polls a log that grows. -/
namespace ConAnalysis.Scripts.Tsan
open Regex

/-- The variables of the outer loop. The position is the number of lines that the
file iteration has consumed since the last `seek`. -/
structure OverNight where
  baseIndex : Nat := 0
  position : Nat := 0
  callStacks : CallStacks := {}
deriving DecidableEq

namespace OverNight

def extract : CallStacks → Text → CallStacks := CallStacks.collect fun _ => false

def singlePass (log : List Text) : CallStacks := log.foldl extract {}

/-- How many lines the inner loop consumes: the one at which it is left is the
last. -/
def consumed (baseIndex boundaryIndex : Nat) (log : List Text) : Nat :=
  match (log.zipIdx 1).find? fun (_, i) => !decide (i < baseIndex) && decide (i ≥ boundaryIndex) with
  | some (_, i) => i
  | none => log.length

/-- One round of the outer loop. The boundary is looked for in the lines behind
the position, although it is counted from the first of them. -/
def poll (log : List Text) (s : OverNight) : OverNight :=
  let boundaryIndex := checkBlockIntegrity s.baseIndex (log.drop s.position)
  let callStacks := (handled s.baseIndex boundaryIndex log).foldl extract s.callStacks
  { baseIndex := if !callStacks.flagBlockStart && !callStacks.flagReadStart then boundaryIndex
      else s.baseIndex
    position := consumed s.baseIndex boundaryIndex log
    callStacks }

/-- The log grows, or it is polled in an allowed state. -/
inductive Step (allowed : List Text → OverNight → Prop) :
    List Text × OverNight → List Text × OverNight → Prop
  | append (log chunk : List Text) (s : OverNight) : Step allowed (log, s) (log ++ chunk, s)
  | poll (log : List Text) (s : OverNight) (h : allowed log s) :
      Step allowed (log, s) (log, s.poll log)

/-- What the parser and the log can become. -/
abbrev Reaches (allowed : List Text → OverNight → Prop) (log : List Text) (s : OverNight) : Prop :=
  Relation.ReflTransGen (Step allowed) ([], {}) (log, s)

/-- The search for the boundary starts at the beginning of the file, or no line
behind the position ends a block. -/
def BoundaryInPlace (log : List Text) (s : OverNight) : Prop :=
  s.position = 0 ∨ ∀ line ∈ log.drop s.position, regBlockBreak.accepts line = false

section Consumed
variable {baseIndex boundaryIndex : Nat} {log : List Text}

/-- The search for the boundary answers with the first index that both tests let through. -/
theorem find?_zipIdx (hBase : baseIndex ≤ boundaryIndex) {k : Nat} (hLog : log ≠ [])
    (hBoundary : boundaryIndex < k + log.length) :
    ((log.zipIdx k).find? fun (_, i) => !decide (i < baseIndex) && decide (i ≥ boundaryIndex)).map
      Prod.snd = some (max k boundaryIndex) := by
  induction log generalizing k with
  | nil => exact absurd rfl hLog
  | cons line log ih =>
      rw [List.zipIdx_cons]
      by_cases hk : k ≥ boundaryIndex
      · rw [List.find?_cons_of_pos (by simp; omega)]
        simp [hk]
      · rw [List.length_cons] at hBoundary
        have hRest : log ≠ [] := by
          rintro rfl
          rw [List.length_nil] at hBoundary
          omega
        rw [List.find?_cons_of_neg (by simp; omega), ih hRest (by omega)]
        congr 1
        omega

/-- The loop is left at the boundary, but not before the first line. -/
theorem consumed_eq (hBase : baseIndex ≤ boundaryIndex) (hLog : log ≠ [])
    (hBoundary : boundaryIndex ≤ log.length) :
    consumed baseIndex boundaryIndex log = max 1 boundaryIndex := by
  obtain ⟨⟨line, i⟩, hFind, hIndex⟩ := Option.map_eq_some_iff.mp
    (find?_zipIdx hBase hLog (show boundaryIndex < 1 + log.length by omega))
  rw [consumed, hFind]
  exact hIndex

end Consumed

/-- A line of equals signs adds nothing to the call stacks, so it may be read twice. -/
theorem extract_blockBreak {line : Text} (h : regBlockBreak.accepts line = true) (s : CallStacks) :
    extract s line = s := by
  rw [extract, CallStacks.collect_eq, blockBreak_iff.mp h]
  rfl

/-- What is known after polls with the boundary in place: nothing has been
handled yet, or everything before a boundary has been handled once. -/
def Inv (log : List Text) (s : OverNight) : Prop :=
  s = {} ∨ ∃ b ≤ log.length, s.callStacks = singlePass (log.take (b - 1)) ∧
    (s.baseIndex = 0 ∨ s.baseIndex = b) ∧ 1 ≤ s.position ∧ s.position ≤ log.length ∧
    (s.position = 1 ∨ s.position = b)

/-- What has been read stays read when the log grows. -/
theorem Inv.append {log chunk : List Text} {s : OverNight} (h : Inv log s) :
    Inv (log ++ chunk) s := by
  refine h.imp_right ?_
  rintro ⟨b, hb, hStacks, hBase, hStart, hEnd, hPosition⟩
  have hLength : log.length ≤ (log ++ chunk).length := by simp
  refine ⟨b, hb.trans hLength, ?_, hBase, hStart, hEnd.trans hLength, hPosition⟩
  rw [hStacks, List.take_append_of_le_length (by omega)]

/-- The first poll handles everything before the last end of a block. -/
theorem poll_init (log : List Text) :
    (poll log {}).callStacks = singlePass (log.take (checkBlockIntegrity 0 log - 1)) := by
  rw [poll]
  simp only [List.drop_zero, handled_zero]
  rfl

/-- A later poll with the boundary in place handles nothing. -/
theorem poll_of_inPlace {log : List Text} {s : OverNight} (hPosition : 1 ≤ s.position)
    (h : BoundaryInPlace log s) :
    poll log s = { s with position := consumed s.baseIndex s.baseIndex log } := by
  have hNone : ∀ line ∈ log.drop s.position, regBlockBreak.accepts line = false :=
    h.resolve_left (by omega)
  have hBoundary : checkBlockIntegrity s.baseIndex (log.drop s.position) = s.baseIndex :=
    lastBlockEnd_of_none hNone
  rw [poll]
  simp only [hBoundary, handled_self, List.foldl_nil, ite_self]

/-- Step lemma: a poll that searches in place reads on to the last end of a block. -/
theorem Inv.poll {log : List Text} {s : OverNight} (h : Inv log s) (hPlace : BoundaryInPlace log s) :
    Inv log (s.poll log) := by
  rcases h with rfl | ⟨b, hb, hStacks, hBase, hStart, hEnd, hPosition⟩
  · by_cases hLog : log = []
    · subst hLog
      exact .inl rfl
    · right
      have hLength : checkBlockIntegrity 0 log ≤ log.length := lastBlockEnd_le_length
      have hConsumed : (OverNight.poll log {}).position = max 1 (checkBlockIntegrity 0 log) :=
        consumed_eq (Nat.zero_le _) hLog hLength
      have hOne : 1 ≤ log.length := List.length_pos_iff.mpr hLog
      refine ⟨checkBlockIntegrity 0 log, hLength, poll_init log, ?_, ?_, ?_, ?_⟩
      · simp only [OverNight.poll, List.drop_zero]
        split
        · exact .inr rfl
        · exact .inl rfl
      · omega
      · omega
      · omega
  · right
    have hLog : log ≠ [] := by
      rintro rfl
      rw [List.length_nil] at hEnd
      omega
    have hConsumed : consumed s.baseIndex s.baseIndex log = max 1 s.baseIndex :=
      consumed_eq (Nat.le_refl _) hLog (by omega)
    rw [poll_of_inPlace hStart hPlace, hConsumed]
    exact ⟨b, hb, hStacks, hBase, by simp only; omega, by simp only; omega, by simp only; omega⟩

/-- Run lemma over all polls so far, whatever has been appended between them. -/
theorem Reaches.inv {log : List Text} {s : OverNight} (h : Reaches BoundaryInPlace log s) :
    Inv log s := by
  suffices hAll : ∀ p, Relation.ReflTransGen (Step BoundaryInPlace) ([], {}) p → Inv p.1 p.2 from
    hAll (log, s) h
  intro p hRun
  induction hRun with
  | refl => exact .inl rfl
  | tail _ hStep ih =>
      cases hStep with
      | append log chunk s => exact ih.append
      | poll log s hPlace => exact ih.poll hPlace

/-- What has been written is the beginning of what a single pass writes. -/
theorem Inv.files_prefix {log : List Text} {s : OverNight} (h : Inv log s) (more : List Text) :
    s.callStacks.files <+: (singlePass (log ++ more)).files := by
  rcases h with rfl | ⟨b, hb, hStacks, -⟩
  · exact List.nil_prefix
  · obtain ⟨rest, hRest⟩ : ∃ rest, log ++ more = log.take (b - 1) ++ rest :=
      ⟨log.drop (b - 1) ++ more, by rw [← List.append_assoc, List.take_append_drop]⟩
    rw [hStacks, hRest, singlePass, singlePass, List.foldl_append]
    exact CallStacks.files_foldl _ _ rest

/-- After the end of a block, a poll with the boundary in place has handled all of
the log. -/
theorem Inv.poll_complete {log : List Text} {line : Text} {s : OverNight}
    (h : Inv (log ++ [line]) s) (hLine : regBlockBreak.accepts line = true)
    (hPlace : BoundaryInPlace (log ++ [line]) s) :
    (s.poll (log ++ [line])).callStacks = singlePass (log ++ [line]) := by
  have hAll : singlePass (log ++ [line]) = singlePass log := by
    rw [singlePass, List.foldl_append, List.foldl_cons, List.foldl_nil, extract_blockBreak hLine]
    rfl
  rw [hAll]
  rcases h with rfl | ⟨b, hb, hStacks, hBase, hStart, hEnd, hPosition⟩
  · have hLast : checkBlockIntegrity 0 (log ++ [line]) = log.length + 1 :=
      lastBlockEnd_of_last hLine (by simp)
    rw [poll_init, hLast, Nat.add_sub_cancel, List.take_left]
  · -- The last line ends a block, so it is not behind the position.
    have hPassed : s.position = log.length + 1 := by
      by_contra hNe
      rw [List.length_append, List.length_singleton] at hEnd
      have hMem : line ∈ (log ++ [line]).drop s.position := by
        rw [List.drop_append_of_le_length (by omega)]
        simp
      rw [(hPlace.resolve_left (by omega)) line hMem] at hLine
      cases hLine
    rw [poll_of_inPlace hStart hPlace]
    simp only [hStacks]
    rw [List.length_append, List.length_singleton] at hb
    rcases hPosition with hOne | hEq
    · have hNil : log = [] := List.eq_nil_of_length_eq_zero (by omega)
      have hZero : b - 1 = 0 := by omega
      rw [hNil, hZero]
      rfl
    · rw [← hEq, hPassed, Nat.add_sub_cancel, List.take_left]

/-- As long as every poll finds the boundary in place, the files written are the
beginning of what a single pass writes, and all of it after two polls of a log
that ends with the end of a block. -/
theorem files_of_reaches {log : List Text} {s : OverNight} (hRun : Reaches BoundaryInPlace log s) :
    (∀ more, s.callStacks.files <+: (singlePass (log ++ more)).files) ∧
    ∀ line ∈ log.getLast?, regBlockBreak.accepts line = true → BoundaryInPlace log s →
      BoundaryInPlace log (s.poll log) →
        ((s.poll log).poll log).callStacks.files = (singlePass log).files := by
  refine ⟨hRun.inv.files_prefix, ?_⟩
  intro line hLast hLine hFirst hSecond
  obtain ⟨init, rfl⟩ := List.getLast?_eq_some_iff.mp hLast
  have hInv : Inv (init ++ [line]) (s.poll (init ++ [line])) := hRun.inv.poll hFirst
  rw [hInv.poll_complete hLine hSecond]

def block : List Text :=
  ["==================\n".toList,
    "WARNING: ThreadSanitizer: data race (pid=1)\n".toList,
    "  Read of size 4 at 0x1 by thread T1:\n".toList,
    "    #0 f /a.c:1:2 (m+0x1)\n".toList,
    "\n".toList,
    "SUMMARY: ThreadSanitizer: data race a.c:1 in f\n".toList,
    "==================\n".toList]

theorem files_of_reaches_block :
    ((OverNight.poll block {}).poll block).callStacks.files = [(0, ["f (a.c:1)\n".toList])] := by
  have hRun : Reaches BoundaryInPlace block {} := .single (.append [] block {})
  have hSecond : BoundaryInPlace block (OverNight.poll block {}) := by
    right
    decide
  rw [(files_of_reaches hRun).2 "==================\n".toList rfl (by decide) (.inl rfl) hSecond]
  decide

/-- The block that is appended after the first poll is never written: its end is
counted from the position and taken for the boundary that is known. -/
theorem second_block_not_written :
    let log := block ++ block
    let s := ((OverNight.poll block {}).poll log).poll log
    Reaches (fun _ _ => True) log s ∧
      (∃ line ∈ log.getLast?, regBlockBreak.accepts line = true) ∧
      s.callStacks.files.length = 1 ∧ (singlePass log).files.length = 2 := by
  refine ⟨?_, ⟨"==================\n".toList, rfl, by decide⟩, by decide,
    by decide⟩
  have hFirst : Reaches (fun _ _ => True) block (OverNight.poll block {}) :=
    (Relation.ReflTransGen.single (.append [] block {})).tail (.poll block _ trivial)
  have hGrown : Reaches (fun _ _ => True) (block ++ block) (OverNight.poll block {}) :=
    hFirst.tail (.append block block _)
  exact (hGrown.tail (.poll _ _ trivial)).tail (.poll _ _ trivial)

end OverNight
end ConAnalysis.Scripts.Tsan
