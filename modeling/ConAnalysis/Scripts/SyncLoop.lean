import ConAnalysis.Scripts.CallStacks

/-! `runNormalSyncLoop` of `tsanOutputParser.py`, which pairs the records of a
write and of a read. -/
namespace ConAnalysis.Scripts.Tsan
open Regex

/-- The values of `--outputtype`. -/
inductive OutputType where
  | conanalysis | syncloop | verifier
deriving DecidableEq, Repr

def sanitizerFile (fileName : Text) : Bool :=
  fileName == "tsan_interceptors.cc".toList ||
    fileName == "sanitizer_common_interceptors.inc".toList ||
    fileName == "tsan_new_delete.cc".toList

/-- The variables of the loop and the files that it has written, with their
numbers. -/
structure SyncLoop where
  flagBlockStart : Bool := false
  flagReadStart : Bool := false
  flagWriteStart : Bool := false
  writeResultList : List Text := []
  readResultList : List Text := []
  outFileNo : Nat := 0
  files : List (Nat × List Text) := []
deriving DecidableEq

namespace SyncLoop

/-- Write the pair, if it is complete. -/
def flush (s : SyncLoop) : SyncLoop :=
  if s.writeResultList.length > 0 && s.readResultList.length > 0 then
    { s with
      outFileNo := s.outFileNo + 1
      files := s.files ++ [(s.outFileNo, s.writeResultList ++ s.readResultList)]
      writeResultList := []
      readResultList := [] }
  else s

def writeFrame (outputtype : OutputType) (s : SyncLoop) (callStackLine : Captures) : SyncLoop :=
  if s.flagWriteStart && s.flagBlockStart then
    if (fileName callStackLine).any sanitizerFile then
      if outputtype != .verifier then { s with flagWriteStart := false, flagBlockStart := false }
      else s
    else if s.writeResultList.length = 0 then
      { s with writeResultList := s.writeResultList ++ (record callStackLine).toList }
    else s
  else s

/-- What a frame does. A frame of the sanitizer in a read section does nothing for
the write section. -/
def frame (outputtype : OutputType) (s : SyncLoop) (callStackLine : Captures) : SyncLoop :=
  if s.flagReadStart && s.flagBlockStart then
    if (fileName callStackLine).any sanitizerFile then
      if outputtype != .verifier then { s with flagReadStart := false, flagBlockStart := false }
      else s
    else if s.readResultList.length = 0 then
      writeFrame outputtype
        { s with readResultList := s.readResultList ++ (record callStackLine).toList } callStackLine
    else writeFrame outputtype s callStackLine
  else writeFrame outputtype s callStackLine

def step (outputtype : OutputType) (s : SyncLoop) (line : Text) : SyncLoop :=
  if regBlockStart.accepts line then { s with flagBlockStart := true }
  else if regWriteStart.accepts line then
    { s with flagWriteStart := true, flagReadStart := false, flagBlockStart := true }
  else if regReadStart.accepts line then { s with flagReadStart := true, flagBlockStart := true }
  else match regCallStackLine.find? line with
    | some callStackLine => s.frame outputtype callStackLine
    | none =>
        if regLineBreak.accepts line then
          { s.flush with flagReadStart := false, flagWriteStart := false }
        else if regBlockBreak.accepts line then
          { s with
            flagReadStart := false
            flagWriteStart := false
            flagBlockStart := false
            writeResultList := []
            readResultList := [] }
        else if regBlockEnd.accepts line then
          { s with
            flagBlockStart := false
            flagReadStart := false
            flagWriteStart := false }.flush
        else s

def stepKind (outputtype : OutputType) (s : SyncLoop) : Kind → SyncLoop
  | .blockStart => { s with flagBlockStart := true }
  | .writeStart => { s with flagWriteStart := true, flagReadStart := false, flagBlockStart := true }
  | .readStart => { s with flagReadStart := true, flagBlockStart := true }
  | .callStackLine callStackLine => s.frame outputtype callStackLine
  | .lineBreak => { s.flush with flagReadStart := false, flagWriteStart := false }
  | .blockBreak =>
      { s with
        flagReadStart := false
        flagWriteStart := false
        flagBlockStart := false
        writeResultList := []
        readResultList := [] }
  | .blockEnd =>
      { s with flagBlockStart := false, flagReadStart := false, flagWriteStart := false }.flush
  | .other => s

/-- What is done with a line depends on its kind only. -/
theorem step_eq (outputtype : OutputType) (s : SyncLoop) (line : Text) :
    s.step outputtype line = s.stepKind outputtype (kind line) := by
  cases hKind : kind line with
  | callStackLine captures =>
      simp [step, stepKind, blockStart_iff, writeStart_iff, readStart_iff,
        callStackLine_iff.mpr hKind, hKind]
  | _ =>
      have hNone : regCallStackLine.find? line = none := find?_eq_none (by simp [hKind])
      simp [step, stepKind, blockStart_iff, writeStart_iff, readStart_iff, lineBreak_iff,
        blockBreak_iff, blockEnd_iff, hNone, hKind]

/-- A frame of a write section leaves the record of the read alone. -/
theorem writeFrame_keeps_read (outputtype : OutputType) (s : SyncLoop) (captures : Captures) :
    (s.writeFrame outputtype captures).readResultList = s.readResultList := by
  unfold writeFrame
  split
  · split
    · split <;> rfl
    · split <;> rfl
  · rfl

/-- A section that has its record takes no other. -/
theorem writeFrame_keeps_write (outputtype : OutputType) (s : SyncLoop) (captures : Captures)
    (h : s.writeResultList ≠ []) :
    (s.writeFrame outputtype captures).writeResultList = s.writeResultList := by
  unfold writeFrame
  split
  · split
    · split <;> rfl
    · rw [if_neg fun hZero => h (List.eq_nil_of_length_eq_zero hZero)]
  · rfl

/-- A record of a read stays. -/
theorem frame_keeps_read (outputtype : OutputType) (s : SyncLoop) (captures : Captures)
    (h : s.readResultList ≠ []) :
    (s.frame outputtype captures).readResultList = s.readResultList := by
  unfold frame
  split
  · split
    · split <;> rfl
    · rw [if_neg fun hZero => h (List.eq_nil_of_length_eq_zero hZero)]
      exact writeFrame_keeps_read outputtype s captures
  · exact writeFrame_keeps_read outputtype s captures

/-- A record of a write stays. -/
theorem frame_keeps_write (outputtype : OutputType) (s : SyncLoop) (captures : Captures)
    (h : s.writeResultList ≠ []) :
    (s.frame outputtype captures).writeResultList = s.writeResultList := by
  unfold frame
  split
  · split
    · split <;> rfl
    · split
      · exact writeFrame_keeps_write outputtype _ captures h
      · exact writeFrame_keeps_write outputtype s captures h
  · exact writeFrame_keeps_write outputtype s captures h

/-- The state after some lines. -/
def run (outputtype : OutputType) (lines : List Text) : SyncLoop :=
  lines.foldl (step outputtype) {}

theorem run_concat (outputtype : OutputType) (lines : List Text) (line : Text) :
    run outputtype (lines ++ [line]) = (run outputtype lines).step outputtype line := by
  rw [run, List.foldl_append]
  rfl

end SyncLoop

def runNormalSyncLoop (outputtype : OutputType) (log : List Text) : SyncLoop :=
  SyncLoop.run outputtype (handled 0 (checkBlockIntegrity 0 log) log)

end ConAnalysis.Scripts.Tsan
