import ConAnalysis.Scripts.ValgrindLines

/-! `runNormalSyncLoop` of `valgrindOutputParser.py`, which pairs the records of a
write and of another access. -/
namespace ConAnalysis.Scripts.Valgrind
open Regex

/-- The variables of the loop and the files that it has written, with their
numbers. -/
structure SyncLoop where
  flagBlockStart : Bool := false
  flagReadStart : Bool := false
  flagWriteStart : Bool := false
  pendingWriteFlag : Bool := false
  writeResultList : List Text := []
  writeResultList2 : List Text := []
  readResultList : List Text := []
  outFileNo : Nat := 0
  files : List (Nat × List Text) := []
deriving DecidableEq

def isWrapper (callStackLine : Captures) : Bool :=
  callStackLine.lookup 2 == some "mythread_wrapper".toList

namespace SyncLoop

def readFrame (s : SyncLoop) (callStackLine : Captures) : SyncLoop :=
  if s.flagReadStart && s.flagBlockStart then
    if !isWrapper callStackLine then
      if s.readResultList.length = 0 then
        { s with readResultList := s.readResultList ++ (record callStackLine).toList }
      else s
    else { s with flagReadStart := false }
  else s

def writeFrame (s : SyncLoop) (callStackLine : Captures) : SyncLoop :=
  if s.flagWriteStart && s.flagBlockStart then
    if !isWrapper callStackLine then
      if s.writeResultList.length = 0 then
        { s with writeResultList := s.writeResultList ++ (record callStackLine).toList }
      else if s.writeResultList.length > 0 && s.pendingWriteFlag && s.writeResultList2.length == 0 then
        { s with writeResultList2 := s.writeResultList2 ++ (record callStackLine).toList }
      else s
    else { s with flagWriteStart := false }
  else s

/-- Write a complete pair at a line break, or wait for a second write. -/
def flush (s : SyncLoop) : SyncLoop :=
  if s.writeResultList.length > 0 then
    if s.readResultList.length > 0 then
      { s with
        outFileNo := s.outFileNo + 1
        pendingWriteFlag := false
        files := s.files ++ [(s.outFileNo, s.writeResultList ++ s.readResultList)]
        writeResultList := []
        readResultList := [] }
    else if s.writeResultList2.length > 0 then
      { s with
        outFileNo := s.outFileNo + 1
        pendingWriteFlag := false
        files := s.files ++ [(s.outFileNo, s.writeResultList ++ s.writeResultList2)]
        writeResultList := []
        writeResultList2 := [] }
    else { s with pendingWriteFlag := true }
  else s

def step (s : SyncLoop) (line : Text) : SyncLoop :=
  if regBlockStart.accepts line then
    { s with
      flagBlockStart := true
      writeResultList := []
      readResultList := []
      flagReadStart := false
      flagWriteStart := false }
  else if regReadStart.accepts line then { s with flagReadStart := true, flagBlockStart := true }
  else if regWriteStart.accepts line then { s with flagWriteStart := true, flagBlockStart := true }
  else if regReadEnd.accepts line then { s with flagReadStart := false, flagWriteStart := false }
  else match regCallStackLine.find? line with
    | some callStackLine => (s.readFrame callStackLine).writeFrame callStackLine
    | none =>
        if regLineBreak.accepts line then
          { s.flush with flagReadStart := false, flagWriteStart := false }
        else s

def stepKind (s : SyncLoop) : Kind → SyncLoop
  | .blockStart =>
      { s with
        flagBlockStart := true
        writeResultList := []
        readResultList := []
        flagReadStart := false
        flagWriteStart := false }
  | .readStart => { s with flagReadStart := true, flagBlockStart := true }
  | .writeStart => { s with flagWriteStart := true, flagBlockStart := true }
  | .readEnd => { s with flagReadStart := false, flagWriteStart := false }
  | .callStackLine callStackLine => (s.readFrame callStackLine).writeFrame callStackLine
  | .lineBreak => { s.flush with flagReadStart := false, flagWriteStart := false }
  | .other => s

/-- What is done with a line depends on its kind only. -/
theorem step_eq (s : SyncLoop) (line : Text) : s.step line = s.stepKind (kind line) := by
  cases hKind : kind line with
  | callStackLine captures =>
      simp [step, stepKind, blockStart_iff, readStart_iff, writeStart_iff, readEnd_iff,
        callStackLine_iff.mpr hKind, hKind]
  | _ =>
      have hNone : regCallStackLine.find? line = none := find?_eq_none (by simp [hKind])
      simp [step, stepKind, blockStart_iff, readStart_iff, writeStart_iff, readEnd_iff, lineBreak_iff,
        hNone, hKind]

/-- The state after some lines. -/
def run (lines : List Text) : SyncLoop := lines.foldl step {}

theorem run_concat (lines : List Text) (line : Text) :
    run (lines ++ [line]) = (run lines).step line := by
  rw [run, List.foldl_append]
  rfl

end SyncLoop

def runNormalSyncLoop (log : List Text) : SyncLoop :=
  SyncLoop.run (handled 0 (checkBlockIntegrity 0 log) log)

end ConAnalysis.Scripts.Valgrind
