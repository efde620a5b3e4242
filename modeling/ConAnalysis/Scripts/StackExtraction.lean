import ConAnalysis.Scripts.WellFormed

/-! `runNormalConAnalysis` of `tsanOutputParser.py` on well-formed logs. -/
namespace ConAnalysis.Scripts.Tsan
open Regex

def runNormalConAnalysis (log : List Text) : CallStacks :=
  (handled 0 (checkBlockIntegrity 0 log) log).foldl (CallStacks.collect sanitizerFile) {}

def Section.callStack (s : Section) : List Text :=
  s.frames.filterMap fun f => if f.inSanitizer then none else f.record

def Section.readStack (s : Section) : Option (List Text) :=
  if s.access = .read ∧ s.callStack ≠ [] then some s.callStack else none

namespace CallStacks

/-- After some files, with nothing collected. -/
def written (flagBlockStart : Bool) (contents : List (List Text)) : CallStacks :=
  { flagBlockStart, outFileNo := contents.length, files := numbered contents }

theorem flush_written (flagBlockStart flagReadStart : Bool) (contents : List (List Text))
    (stack : List Text) :
    { written flagBlockStart contents with flagReadStart, resultList := stack }.flush =
      { written flagBlockStart (contents ++ if stack = [] then [] else [stack]) with
        flagReadStart } := by
  cases stack with
  | nil => simp [flush, written]
  | cons entry stack => simp [flush, written, numbered_concat]

/-- Outside a read section, frames do nothing. -/
theorem foldl_frames_of_closed {s : CallStacks} (h : (s.flagReadStart && s.flagBlockStart) = false)
    (frames : List Frame) : (frames.map Frame.line).foldl (collect sanitizerFile) s = s := by
  induction frames with
  | nil => rfl
  | cons f frames ih =>
      rw [List.map_cons, List.foldl_cons, collect_eq, f.kind_line]
      simpa [collectKind, h] using ih

/-- In a read section, the frames outside the sanitizer are collected. -/
theorem foldl_frames_of_open {s : CallStacks} (h : (s.flagReadStart && s.flagBlockStart) = true)
    (frames : List Frame) : (frames.map Frame.line).foldl (collect sanitizerFile) s =
      { s with resultList := s.resultList ++
          frames.filterMap fun f => if f.inSanitizer then none else f.record } := by
  induction frames generalizing s with
  | nil => simp
  | cons f frames ih =>
      rw [List.map_cons, List.foldl_cons, collect_eq, f.kind_line]
      obtain ⟨entry, hEntry⟩ := f.record_isSome
      have hRecord : Tsan.record f.captures = some entry := hEntry
      cases hFile : f.inSanitizer with
      | true =>
          have hAny : (fileName f.captures).any sanitizerFile = true := hFile
          rw [List.filterMap_cons_none (by simp [hFile])]
          simpa [collectKind, h, hAny] using ih h
      | false =>
          have hAny : (fileName f.captures).any sanitizerFile = false := hFile
          have hStep : collectKind sanitizerFile s (.callStackLine f.captures) =
              { s with resultList := s.resultList ++ [entry] } := by
            simp [collectKind, h, hAny, hRecord]
          have hRest := ih (s := { s with resultList := s.resultList ++ [entry] }) h
          rw [hStep, hRest, List.filterMap_cons_some (b := entry) (by simp [hFile, hEntry])]
          simp

theorem foldl_lines (s : CallStacks) (sec : Section) :
    sec.lines.foldl (collect sanitizerFile) s =
      collectKind sanitizerFile ((sec.frames.map Frame.line).foldl (collect sanitizerFile)
        (collectKind sanitizerFile s sec.access.kind)) .lineBreak := by
  rw [Section.lines, List.foldl_cons, List.foldl_append, List.foldl_cons, List.foldl_nil, collect_eq,
    collect_eq, sec.header_kind, sec.blank_kind]

/-- A section that is no read adds nothing. -/
theorem foldl_section_of_ne (flagBlockStart : Bool) (contents : List (List Text)) {sec : Section}
    (h : sec.access ≠ .read) :
    sec.lines.foldl (collect sanitizerFile) (written flagBlockStart contents) =
      written flagBlockStart contents := by
  have hHeader : collectKind sanitizerFile (written flagBlockStart contents) sec.access.kind =
      written flagBlockStart contents := by
    cases hAccess : sec.access with
    | read => exact absurd hAccess h
    | _ => rfl
  rw [foldl_lines, hHeader, foldl_frames_of_closed rfl]
  simp [collectKind, flush, written]

/-- A read section adds its call stack. -/
theorem foldl_section_of_read (flagBlockStart : Bool) (contents : List (List Text)) {sec : Section}
    (h : sec.access = .read) :
    sec.lines.foldl (collect sanitizerFile) (written flagBlockStart contents) =
      written true (contents ++ sec.readStack.toList) := by
  have hHeader : collectKind sanitizerFile (written flagBlockStart contents) sec.access.kind =
      { written true contents with flagReadStart := true } := by
    rw [h]
    rfl
  have hFrames : (sec.frames.map Frame.line).foldl (collect sanitizerFile)
      { written true contents with flagReadStart := true } =
      { written true contents with flagReadStart := true, resultList := sec.callStack } :=
    foldl_frames_of_open rfl sec.frames
  have hStack : sec.readStack.toList = if sec.callStack = [] then [] else [sec.callStack] := by
    by_cases hNil : sec.callStack = [] <;> simp [Section.readStack, h, hNil]
  rw [foldl_lines, hHeader, hFrames, hStack]
  exact congrArg (fun t : CallStacks => { t with flagReadStart := false })
    (flush_written true true contents sec.callStack)

/-- The sections of a block leave the stacks of the reads among them, in their order. -/
theorem foldl_sections (flagBlockStart : Bool) (contents : List (List Text))
    (sections : List Section) :
    ∃ flagBlockStart', (sections.flatMap Section.lines).foldl (collect sanitizerFile)
      (written flagBlockStart contents) =
        written flagBlockStart' (contents ++ sections.filterMap Section.readStack) := by
  induction sections generalizing flagBlockStart contents with
  | nil => exact ⟨flagBlockStart, by simp⟩
  | cons sec sections ih =>
      rw [List.flatMap_cons, List.foldl_append]
      by_cases hRead : sec.access = .read
      · rw [foldl_section_of_read flagBlockStart contents hRead]
        obtain ⟨flag, hFlag⟩ := ih true (contents ++ sec.readStack.toList)
        refine ⟨flag, ?_⟩
        rw [hFlag, List.append_assoc]
        cases hStack : sec.readStack <;> simp [hStack]
      · rw [foldl_section_of_ne flagBlockStart contents hRead]
        obtain ⟨flag, hFlag⟩ := ih flagBlockStart contents
        refine ⟨flag, ?_⟩
        rw [hFlag, List.filterMap_cons_none (by simp [Section.readStack, hRead])]

/-- A block leaves the loop as it was before, but for the files of its read
sections. -/
theorem foldl_block (contents : List (List Text)) (b : Block) :
    b.lines.foldl (collect sanitizerFile) (written false contents) =
      written false (contents ++ b.sections.filterMap Section.readStack) := by
  have hOpening : collect sanitizerFile (written false contents) b.opening = written false contents := by
    rw [collect_eq, b.opening_kind]
    rfl
  have hWarning : collect sanitizerFile (written false contents) b.warning = written true contents := by
    rw [collect_eq, b.warning_kind]
    rfl
  obtain ⟨flag, hSections⟩ := foldl_sections true contents b.sections
  rw [Block.lines, List.foldl_cons, List.foldl_cons, hOpening, hWarning, List.foldl_append,
    hSections, List.foldl_cons, List.foldl_cons, List.foldl_nil, collect_eq, collect_eq,
    b.summary_kind, b.closing_kind]
  simp [collectKind, flush, written]

theorem foldl_logOf (blocks : List Block) :
    (logOf blocks).foldl (collect sanitizerFile) {} =
      written false (blocks.flatMap fun b => b.sections.filterMap Section.readStack) := by
  induction blocks using List.reverseRecOn with
  | nil => rfl
  | append_singleton blocks b ih =>
      rw [logOf, List.flatMap_append, List.foldl_append, List.flatMap_singleton]
      rw [logOf] at ih
      rw [ih, foldl_block, List.flatMap_append, List.flatMap_singleton]

/-- The lines that break a block write nothing. -/
theorem foldl_blockBreaks (skips : Text → Bool) (s : CallStacks) {lines : List Text}
    (h : ∀ line ∈ lines, kind line = .blockBreak) : lines.foldl (collect skips) s = s := by
  induction lines with
  | nil => rfl
  | cons line lines ih =>
      rw [List.forall_mem_cons] at h
      rw [List.foldl_cons, collect_eq, h.1]
      exact ih h.2

end CallStacks

/-- For every read section with a frame outside the sanitizer, one file with
exactly these frames is written, in order and with consecutive numbers. -/
theorem runNormalConAnalysis_files (blocks : List Block) :
    (runNormalConAnalysis (logOf blocks)).files =
      numbered (blocks.flatMap fun b => b.sections.filterMap Section.readStack) := by
  obtain ⟨last, hLast, hLog⟩ := handled_logOf blocks
  have hAll := CallStacks.foldl_logOf blocks
  rw [hLog, List.foldl_append, CallStacks.foldl_blockBreaks sanitizerFile _ hLast] at hAll
  rw [runNormalConAnalysis, hAll]
  rfl

end ConAnalysis.Scripts.Tsan
