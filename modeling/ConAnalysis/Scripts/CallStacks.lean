import ConAnalysis.Scripts.TsanLines

/-! The loop body of `runOverNight` and `runNormalConAnalysis` in
`tsanOutputParser.py`, which collects the call stacks of read accesses. -/
namespace ConAnalysis.Scripts.Tsan
open Regex

def fileName (callStackLine : Captures) : Option Text :=
  (callStackLine.lookup 3).map fun path => Posix.basename (Posix.normpath path)

/-- The variables of the loop and the files that it has written, with their
numbers. -/
structure CallStacks where
  flagBlockStart : Bool := false
  flagReadStart : Bool := false
  resultList : List Text := []
  outFileNo : Nat := 0
  files : List (Nat × List Text) := []
deriving DecidableEq

namespace CallStacks

/-- Write the collected call stack, if there is one. -/
def flush (s : CallStacks) : CallStacks :=
  if s.resultList.length > 0 then
    { s with
      outFileNo := s.outFileNo + 1
      files := s.files ++ [(s.outFileNo, s.resultList)]
      resultList := [] }
  else s

/-- The body of the loops, which pass over the frames in the files of `skips`. -/
def collect (skips : Text → Bool) (s : CallStacks) (line : Text) : CallStacks :=
  if regBlockStart.accepts line then { s with flagBlockStart := true }
  else if regReadStart.accepts line then { s with flagReadStart := true, flagBlockStart := true }
  else match regCallStackLine.find? line with
    | some callStackLine =>
        if s.flagReadStart && s.flagBlockStart then
          if (fileName callStackLine).any skips then s
          else { s with resultList := s.resultList ++ (record callStackLine).toList }
        else s
    | none =>
        if regLineBreak.accepts line then { s.flush with flagReadStart := false }
        else if regBlockEnd.accepts line then
          { s with flagBlockStart := false, flagReadStart := false }.flush
        else s

def collectKind (skips : Text → Bool) (s : CallStacks) : Kind → CallStacks
  | .blockStart => { s with flagBlockStart := true }
  | .readStart => { s with flagReadStart := true, flagBlockStart := true }
  | .callStackLine callStackLine =>
      if s.flagReadStart && s.flagBlockStart then
        if (fileName callStackLine).any skips then s
        else { s with resultList := s.resultList ++ (record callStackLine).toList }
      else s
  | .lineBreak => { s.flush with flagReadStart := false }
  | .blockEnd => { s with flagBlockStart := false, flagReadStart := false }.flush
  | .writeStart | .blockBreak | .other => s

/-- What is done with a line depends on its kind only. -/
theorem collect_eq (skips : Text → Bool) (s : CallStacks) (line : Text) :
    collect skips s line = collectKind skips s (kind line) := by
  cases hKind : kind line with
  | callStackLine captures =>
      simp [collect, collectKind, blockStart_iff, readStart_iff, callStackLine_iff.mpr hKind, hKind]
  | _ =>
      have hNone : regCallStackLine.find? line = none := find?_eq_none (by simp [hKind])
      simp [collect, collectKind, blockStart_iff, readStart_iff, lineBreak_iff, blockEnd_iff, hNone,
        hKind]

theorem files_flush (s : CallStacks) : s.files <+: s.flush.files := by
  unfold flush
  split
  · exact List.prefix_append _ _
  · exact List.prefix_rfl

/-- No file is taken back. -/
theorem files_collect (skips : Text → Bool) (s : CallStacks) (line : Text) :
    s.files <+: (collect skips s line).files := by
  rw [collect_eq]
  cases kind line with
  | lineBreak => exact s.files_flush
  | blockEnd =>
      exact { s with flagBlockStart := false, flagReadStart := false : CallStacks }.files_flush
  | callStackLine callStackLine =>
      simp only [collectKind]
      split
      · split <;> exact List.prefix_rfl
      · exact List.prefix_rfl
  | _ => exact List.prefix_rfl

/-- So reading on keeps the files that are there. -/
theorem files_foldl (skips : Text → Bool) (s : CallStacks) (lines : List Text) :
    s.files <+: (lines.foldl (collect skips) s).files := by
  induction lines generalizing s with
  | nil => exact List.prefix_rfl
  | cons line lines ih => exact (files_collect skips s line).trans (ih _)

end CallStacks
end ConAnalysis.Scripts.Tsan
