import ConAnalysis.Input.ParseInput
import ConAnalysis.Scripts.OverNight
import ConAnalysis.Scripts.Pairing
import ConAnalysis.Scripts.StackExtraction
import ConAnalysis.Scripts.ValgrindSyncLoop

/-! The files that the parsers write for any log, and what the passes and the trigger script
read from them. -/
namespace ConAnalysis.Scripts
open Regex

def StackOfRecords (content : List Text) : Prop :=
  ∃ records : List Record, records ≠ [] ∧ content = records.map Record.written

def PairOfRecords (content : List Text) : Prop :=
  ∃ write read : Record, content = [write.written, read.written]

/-- A buffer that takes one record only. -/
def AtMostOne (resultList : List Text) : Prop :=
  resultList = [] ∨ ∃ r : Record, resultList = [r.written]

theorem AtMostOne.nil : AtMostOne [] := .inl rfl

/-- A buffer that is empty gets the record of the next frame. -/
theorem AtMostOne.append {p : Parser} {line : Text} {captures : Captures} {resultList : List Text}
    (hFrame : p.regCallStackLine.find? line = some captures) (hZero : resultList.length = 0) :
    AtMostOne (resultList ++ (p.record captures).toList) := by
  obtain ⟨r, hr⟩ := Parser.record_eq_text hFrame
  rw [List.eq_nil_of_length_eq_zero hZero, hr]
  exact .inr ⟨r, rfl⟩

/-- A pair is written when both lists have a record. Since neither has two, its file has two
lines. -/
theorem AtMostOne.pairOfRecords {writes reads : List Text} (hWrites : AtMostOne writes)
    (hReads : AtMostOne reads) (hSome : 0 < writes.length) (hSome' : 0 < reads.length) :
    PairOfRecords (writes ++ reads) := by
  obtain rfl | ⟨write, rfl⟩ := hWrites
  · cases hSome
  · obtain rfl | ⟨read, rfl⟩ := hReads
    · cases hSome'
    · exact ⟨write, read, rfl⟩

namespace Tsan

namespace CallStacks

/-- Everything that has been collected is a record. -/
structure Recorded (s : CallStacks) : Prop where
  resultList : ∃ records : List Record, s.resultList = records.map Record.written
  files : ∀ file ∈ s.files, StackOfRecords file.2

variable {s : CallStacks}

/-- Step lemma for the end of a section, where what has been collected becomes a file. -/
theorem Recorded.flush (h : s.Recorded) : s.flush.Recorded := by
  unfold CallStacks.flush
  split
  · next hSome =>
      obtain ⟨records, hRecords⟩ := h.resultList
      refine ⟨⟨[], rfl⟩, fun file hFile => ?_⟩
      rcases List.mem_append.mp hFile with hOld | hNew
      · exact h.files file hOld
      · rw [List.mem_singleton.mp hNew]
        refine ⟨records, ?_, hRecords⟩
        rintro rfl
        simp [hRecords] at hSome
  · exact h

/-- Step lemma: a line adds the record of its frame, which is the text of one. -/
theorem Recorded.collect (h : s.Recorded) (skips : Text → Bool) (line : Text) :
    (s.collect skips line).Recorded := by
  rw [collect_eq]
  cases hKind : kind line with
  | callStackLine captures =>
      have hFrame : regCallStackLine.find? line = some captures := callStackLine_iff.mpr hKind
      simp only [collectKind]
      split
      · split
        · exact h
        · obtain ⟨r, hr⟩ := record_eq_text hFrame
          obtain ⟨records, hRecords⟩ := h.resultList
          exact ⟨⟨records ++ [r], by simp [hr, hRecords, Record.written]⟩, h.files⟩
      · exact h
  | lineBreak => exact ⟨h.flush.resultList, h.flush.files⟩
  | blockEnd => exact Recorded.flush ⟨h.resultList, h.files⟩
  | _ => exact ⟨h.resultList, h.files⟩

theorem Recorded.foldl (h : s.Recorded) (skips : Text → Bool) (lines : List Text) :
    (lines.foldl (CallStacks.collect skips) s).Recorded :=
  List.foldlRecOn lines _ h fun _ hs line _ => hs.collect skips line

theorem recorded_init : ({} : CallStacks).Recorded := ⟨⟨[], rfl⟩, by simp⟩

end CallStacks

/-- However the log grows and whenever it is polled. -/
theorem OverNight.Reaches.recorded {allowed : List Text → OverNight → Prop} {log : List Text}
    {s : OverNight} (h : Reaches allowed log s) : s.callStacks.Recorded := by
  suffices hAll : ∀ p, Relation.ReflTransGen (Step allowed) ([], {}) p → p.2.callStacks.Recorded from
    hAll (log, s) h
  intro p hRun
  induction hRun with
  | refl => exact CallStacks.recorded_init
  | tail _ hStep ih =>
      cases hStep with
      | append => exact ih
      | poll => exact ih.foldl _ _

namespace SyncLoop

/-- Each buffer has at most one record, and each file two. -/
structure Recorded (s : SyncLoop) : Prop where
  write : AtMostOne s.writeResultList
  read : AtMostOne s.readResultList
  files : ∀ file ∈ s.files, PairOfRecords file.2

variable {s : SyncLoop} {line : Text} {captures : Captures}

theorem Recorded.flush (h : s.Recorded) : s.flush.Recorded := by
  unfold SyncLoop.flush
  split
  · next hSome =>
      rw [Bool.and_eq_true, decide_eq_true_eq, decide_eq_true_eq] at hSome
      refine ⟨.nil, .nil, fun file hFile => ?_⟩
      rcases List.mem_append.mp hFile with hOld | hNew
      · exact h.files file hOld
      · rw [List.mem_singleton.mp hNew]
        exact h.write.pairOfRecords h.read hSome.1 hSome.2
  · exact h

/-- Step lemma for a frame: its record is taken only if the buffer is empty. -/
theorem Recorded.writeFrame (h : s.Recorded) (hFrame : regCallStackLine.find? line = some captures)
    (outputtype : OutputType) : (s.writeFrame outputtype captures).Recorded := by
  unfold SyncLoop.writeFrame
  split
  · split
    · split
      · exact ⟨h.write, h.read, h.files⟩
      · exact h
    · split
      · next hZero => exact ⟨.append (p := .tsan) hFrame hZero, h.read, h.files⟩
      · exact h
  · exact h

theorem Recorded.frame (h : s.Recorded) (hFrame : regCallStackLine.find? line = some captures)
    (outputtype : OutputType) : (s.frame outputtype captures).Recorded := by
  unfold SyncLoop.frame
  split
  · split
    · split
      · exact ⟨h.write, h.read, h.files⟩
      · exact h
    · split
      · next hZero =>
          have hRead : Recorded { s with
              readResultList := s.readResultList ++ (record captures).toList } :=
            ⟨h.write, .append (p := .tsan) hFrame hZero, h.files⟩
          exact hRead.writeFrame hFrame outputtype
      · exact h.writeFrame hFrame outputtype
  · exact h.writeFrame hFrame outputtype

theorem Recorded.step (h : s.Recorded) (outputtype : OutputType) (line : Text) :
    (s.step outputtype line).Recorded := by
  rw [step_eq]
  cases hKind : kind line with
  | callStackLine captures => exact h.frame (callStackLine_iff.mpr hKind) outputtype
  | lineBreak => exact ⟨h.flush.write, h.flush.read, h.flush.files⟩
  | blockBreak => exact ⟨.nil, .nil, h.files⟩
  | blockEnd => exact Recorded.flush ⟨h.write, h.read, h.files⟩
  | _ => exact ⟨h.write, h.read, h.files⟩

/-- Run lemma: every file that the parser has written holds two records. -/
theorem recorded_run (outputtype : OutputType) (lines : List Text) :
    (run outputtype lines).Recorded :=
  List.foldlRecOn lines _ ⟨.nil, .nil, by simp⟩ fun _ hs line _ => hs.step outputtype line

end SyncLoop
end Tsan

namespace Valgrind.SyncLoop

/-- Each of the three buffers has at most one record, and each file two. -/
structure Recorded (s : SyncLoop) : Prop where
  write : AtMostOne s.writeResultList
  write2 : AtMostOne s.writeResultList2
  read : AtMostOne s.readResultList
  files : ∀ file ∈ s.files, PairOfRecords file.2

variable {s : SyncLoop} {line : Text} {captures : Captures}

theorem Recorded.flush (h : s.Recorded) : s.flush.Recorded := by
  have hFiles : ∀ {content}, PairOfRecords content →
      ∀ file ∈ s.files ++ [(s.outFileNo, content)], PairOfRecords file.2 := by
    intro content hPair file hFile
    rcases List.mem_append.mp hFile with hOld | hNew
    · exact h.files file hOld
    · rw [List.mem_singleton.mp hNew]
      exact hPair
  unfold SyncLoop.flush
  split
  · next hWrite =>
      split
      · next hRead =>
          exact ⟨.nil, h.write2, .nil, hFiles (h.write.pairOfRecords h.read hWrite hRead)⟩
      · split
        · next hWrite2 =>
            exact ⟨.nil, .nil, h.read, hFiles (h.write.pairOfRecords h.write2 hWrite hWrite2)⟩
        · exact ⟨h.write, h.write2, h.read, h.files⟩
  · exact h

theorem Recorded.readFrame (h : s.Recorded) (hFrame : regCallStackLine.find? line = some captures) :
    (s.readFrame captures).Recorded := by
  unfold SyncLoop.readFrame
  split
  · split
    · split
      · next hZero => exact ⟨h.write, h.write2, .append (p := .valgrind) hFrame hZero, h.files⟩
      · exact h
    · exact ⟨h.write, h.write2, h.read, h.files⟩
  · exact h

theorem Recorded.writeFrame (h : s.Recorded) (hFrame : regCallStackLine.find? line = some captures) :
    (s.writeFrame captures).Recorded := by
  unfold SyncLoop.writeFrame
  split
  · split
    · split
      · next hZero => exact ⟨.append (p := .valgrind) hFrame hZero, h.write2, h.read, h.files⟩
      · split
        · next hPending =>
            simp only [Bool.and_eq_true, beq_iff_eq] at hPending
            exact ⟨h.write, .append (p := .valgrind) hFrame hPending.2, h.read, h.files⟩
        · exact h
    · exact ⟨h.write, h.write2, h.read, h.files⟩
  · exact h

theorem Recorded.step (h : s.Recorded) (line : Text) : (s.step line).Recorded := by
  rw [step_eq]
  cases hKind : kind line with
  | callStackLine captures =>
      have hFrame : regCallStackLine.find? line = some captures := callStackLine_iff.mpr hKind
      exact (h.readFrame hFrame).writeFrame hFrame
  | blockStart => exact ⟨.nil, h.write2, .nil, h.files⟩
  | lineBreak => exact ⟨h.flush.write, h.flush.write2, h.flush.read, h.flush.files⟩
  | _ => exact ⟨h.write, h.write2, h.read, h.files⟩

theorem recorded_run (lines : List Text) : (run lines).Recorded :=
  List.foldlRecOn lines _ ⟨.nil, .nil, .nil, by simp⟩ fun _ hs line _ => hs.step line

end Valgrind.SyncLoop

/-- The files with call stacks: after a normal run over a log, and at any time while a log
is polled over night. -/
inductive WrittenStack (content : List Text) : Prop where
  | normal (log : List Text) (number : Nat)
      (file : (number, content) ∈ (Tsan.runNormalConAnalysis log).files)
  | overNight (allowed : List Text → Tsan.OverNight → Prop) (log : List Text) (s : Tsan.OverNight)
      (reached : Tsan.OverNight.Reaches allowed log s) (number : Nat)
      (file : (number, content) ∈ s.callStacks.files)

inductive WrittenPair (content : List Text) : Prop where
  | tsan (outputtype : Tsan.OutputType) (log : List Text) (number : Nat)
      (file : (number, content) ∈ (Tsan.runNormalSyncLoop outputtype log).files)
  | valgrind (log : List Text) (number : Nat)
      (file : (number, content) ∈ (Valgrind.runNormalSyncLoop log).files)

/-- What the parser writes can be described without the parser. -/
theorem WrittenStack.stackOfRecords {content : List Text} (h : WrittenStack content) :
    StackOfRecords content := by
  cases h with
  | normal log number file =>
      exact (Tsan.CallStacks.recorded_init.foldl Tsan.sanitizerFile _).files _ file
  | overNight allowed log s reached number file => exact reached.recorded.files _ file

theorem WrittenPair.pairOfRecords {content : List Text} (h : WrittenPair content) :
    PairOfRecords content := by
  cases h with
  | tsan outputtype log number file => exact (Tsan.SyncLoop.recorded_run outputtype _).files _ file
  | valgrind log number file => exact (Valgrind.SyncLoop.recorded_run _).files _ file

/-- Every file with a call stack is a list of records, and the pass reads it with all files
and lines, whatever its variables held before, exactly if all of them arrive. -/
theorem stack_read_iff {content : List Text} (h : WrittenStack content) :
    ∃ records : List Record, records ≠ [] ∧ content = records.map Record.written ∧
      ((∀ buffers, ∃ csinput, ConAnalysis.parseInput buffers content.flatten = .ok csinput ∧
        List.Forall₂ Record.Names records csinput) ↔ ∀ r ∈ records, r.Arrives) := by
  obtain ⟨records, hNe, rfl⟩ := h.stackOfRecords
  refine ⟨records, hNe, rfl, ?_⟩
  rw [← List.flatMap_def]
  exact Record.forall_parseInput_iff

theorem stack_read_iff_block : ∃ records : List Record, records ≠ [] ∧
    ["f (a.c:1)\n".toList] = records.map Record.written ∧
      ((∀ buffers, ∃ csinput,
        ConAnalysis.parseInput buffers ["f (a.c:1)\n".toList].flatten = .ok csinput ∧
          List.Forall₂ Record.Names records csinput) ↔ ∀ r ∈ records, r.Arrives) :=
  stack_read_iff (.normal Tsan.OverNight.block 0 (by decide))

/-- Every file with a pair has two records: the trigger script gets both places from it, and
the pass reads both, whatever its variables held before, exactly if both records arrive. -/
theorem pair_read_iff {content : List Text} (h : WrittenPair content) :
    ∃ write read : Record, content = [write.written, read.written] ∧
      content.mapM breakpoint =
        some [(some write.file, some write.line), (some read.file, some read.line)] ∧
      ((∀ buffers, ∃ racingLines,
        ConAnalysis.SyncLoop.parseInput buffers content.flatten = .ok racingLines ∧
          write.Names racingLines.1 ∧ read.Names racingLines.2) ↔ write.Arrives ∧ read.Arrives) := by
  obtain ⟨write, read, rfl⟩ := h.pairOfRecords
  refine ⟨write, read, rfl, ?_, ?_⟩
  · have hBreakpoint : ∀ r : Record, breakpoint r.written = some (some r.file, some r.line) :=
      fun r => r.breakpoint_text
    simp [hBreakpoint]
  · exact Record.forall_parsePair_iff

theorem pair_read_iff_pairLog :
    let content := ["f (a.c:1)\n".toList, "g (a.c:2)\n".toList]
    ∃ write read : Record, content = [write.written, read.written] ∧
      content.mapM breakpoint =
        some [(some write.file, some write.line), (some read.file, some read.line)] ∧
      ((∀ buffers, ∃ racingLines,
        ConAnalysis.SyncLoop.parseInput buffers content.flatten = .ok racingLines ∧
          write.Names racingLines.1 ∧ read.Names racingLines.2) ↔ write.Arrives ∧ read.Arrives) :=
  pair_read_iff (.tsan .syncloop Tsan.pairLog 0 (by decide))

end ConAnalysis.Scripts
