import ConAnalysis.Scripts.WellFormed

/-! `runNormalSyncLoop` of `tsanOutputParser.py` on well-formed logs. -/
namespace ConAnalysis.Scripts.Tsan
open Regex

/-- The record of the frames of a section. For the verifier, frames of the
sanitizer are passed over; otherwise, such a frame ends the section. -/
def recorded (outputtype : OutputType) (frames : List Frame) : Option Text :=
  if outputtype = .verifier then (frames.find? fun f => !f.inSanitizer).bind Frame.record
  else (frames.head?.filter fun f => !f.inSanitizer).bind Frame.record

def Section.recorded (outputtype : OutputType) (s : Section) : Option Text :=
  Tsan.recorded outputtype s.frames

structure RaceBlock extends Block where
  first : Section
  second : Section
  further : List Section
  sections_eq : sections = first :: second :: further
  first_access : first.access ≠ .other
  second_access : second.access ≠ .other
  further_access : ∀ s ∈ further, s.access = .other

/-- The record of the write, then that of the read, if the block has both. -/
def RaceBlock.pair (outputtype : OutputType) (b : RaceBlock) : Option (List Text) :=
  match b.first.access, b.second.access with
  | .write, .read => do
      return [← b.first.recorded outputtype, ← b.second.recorded outputtype]
  | .read, .write => do
      return [← b.second.recorded outputtype, ← b.first.recorded outputtype]
  | _, _ => none

/-- What a frame does to a buffer while its section is open: whether the section
stays open, and the buffer. -/
def takeFrame (outputtype : OutputType) (buffer : List Text) (f : Frame) : Bool × List Text :=
  if f.inSanitizer then (outputtype == .verifier, buffer)
  else (true, if buffer.length = 0 then buffer ++ f.record.toList else buffer)

def takeFrames (outputtype : OutputType) : List Frame → List Text → Bool × List Text
  | [], buffer => (true, buffer)
  | f :: frames, buffer =>
      match takeFrame outputtype buffer f with
      | (true, buffer) => takeFrames outputtype frames buffer
      | (false, buffer) => (false, buffer)

section Buffer
variable {outputtype : OutputType}

/-- A buffer that holds a record is kept. -/
theorem takeFrames_of_ne_nil {buffer : List Text} (h : buffer ≠ []) (frames : List Frame) :
    (takeFrames outputtype frames buffer).2 = buffer := by
  have hLength : ¬buffer.length = 0 := fun hZero => h (List.eq_nil_of_length_eq_zero hZero)
  induction frames with
  | nil => rfl
  | cons f frames ih =>
      have hBuffer : (takeFrame outputtype buffer f).2 = buffer := by
        cases hFile : f.inSanitizer <;> simp [takeFrame, hFile, hLength]
      rw [takeFrames]
      split
      · next buffer' hTake =>
          rw [hTake] at hBuffer
          obtain rfl : buffer' = buffer := hBuffer
          exact ih
      · next buffer' hTake =>
          rw [hTake] at hBuffer
          exact hBuffer

/-- An empty buffer gets the record of the section. -/
theorem takeFrames_nil (frames : List Frame) :
    (takeFrames outputtype frames []).2 = (recorded outputtype frames).toList := by
  unfold recorded
  induction frames with
  | nil => split <;> rfl
  | cons f frames ih =>
      obtain ⟨entry, hEntry⟩ := f.record_isSome
      cases hFile : f.inSanitizer with
      | false =>
          have hTake : takeFrame outputtype [] f = (true, [entry]) := by
            simp [takeFrame, hFile, hEntry]
          rw [takeFrames, hTake]
          simp only
          rw [takeFrames_of_ne_nil (List.cons_ne_nil _ _)]
          split <;> simp [hFile, hEntry, Option.filter]
      | true =>
          have hTake : takeFrame outputtype [] f = (outputtype == .verifier, []) := by
            simp [takeFrame, hFile]
          rw [takeFrames, hTake]
          by_cases hOut : outputtype = .verifier
          · subst hOut
            simpa [hFile] using ih
          · have hEnds : (outputtype == .verifier) = false := beq_eq_false_iff_ne.mpr hOut
            rw [hEnds, if_neg hOut]
            simp [hFile]

theorem takeFrames_section (s : Section) :
    (takeFrames outputtype s.frames []).2 = (s.recorded outputtype).toList := takeFrames_nil s.frames

/-- The first frame outside the sanitizer is recorded, if the mode passes over
those before it. -/
theorem recorded_append {skipped : List Frame} {f : Frame} (rest : List Frame)
    (hSkipped : ∀ g ∈ skipped, outputtype = .verifier ∧ g.inSanitizer = true)
    (hf : f.inSanitizer = false) : recorded outputtype (skipped ++ f :: rest) = f.record := by
  unfold recorded
  split
  · have hNone : skipped.find? (fun g => !g.inSanitizer) = none := by
      simpa using fun g hg => (hSkipped g hg).2
    rw [List.find?_append, hNone]
    simp [hf]
  · next hOut =>
      cases skipped with
      | nil => simp [hf, Option.filter]
      | cons g skipped => exact absurd (hSkipped g List.mem_cons_self).1 hOut

end Buffer

namespace SyncLoop

section Frames
variable {outputtype : OutputType}

theorem foldl_cons_frame (s : SyncLoop) (f : Frame) (frames : List Frame) :
    ((f :: frames).map Frame.line).foldl (step outputtype) s =
      (frames.map Frame.line).foldl (step outputtype) (s.frame outputtype f.captures) := by
  rw [List.map_cons, List.foldl_cons, step_eq, f.kind_line]
  rfl

/-- Outside the access sections, frames do nothing. -/
theorem foldl_frames_of_closed {s : SyncLoop} (hRead : s.flagReadStart = false)
    (hWrite : s.flagWriteStart = false) (frames : List Frame) :
    (frames.map Frame.line).foldl (step outputtype) s = s := by
  induction frames with
  | nil => rfl
  | cons f frames ih =>
      have hFrame : s.frame outputtype f.captures = s := by
        simp [frame, writeFrame, hRead, hWrite]
      rw [foldl_cons_frame, hFrame, ih]

/-- In the section of a write, a frame works on the buffer of writes. -/
theorem frame_write {s : SyncLoop} (hRead : s.flagReadStart = false)
    (hWrite : s.flagWriteStart = true) (hBlock : s.flagBlockStart = true) (f : Frame) :
    s.frame outputtype f.captures =
      { s with
        flagWriteStart := (takeFrame outputtype s.writeResultList f).1
        flagBlockStart := (takeFrame outputtype s.writeResultList f).1
        writeResultList := (takeFrame outputtype s.writeResultList f).2 } := by
  obtain ⟨flagBlockStart, flagReadStart, flagWriteStart, writes, reads, outFileNo, files⟩ := s
  simp only at hRead hWrite hBlock
  subst hRead hWrite hBlock
  cases hFile : f.inSanitizer with
  | true =>
      have hAny : (fileName f.captures).any sanitizerFile = true := hFile
      by_cases hOut : outputtype = .verifier <;> simp [frame, writeFrame, takeFrame, hFile, hAny, hOut]
  | false =>
      have hAny : (fileName f.captures).any sanitizerFile = false := hFile
      by_cases hEmpty : writes = [] <;>
        simp [frame, writeFrame, takeFrame, hFile, hAny, hEmpty, Frame.record]

/-- In the section of a read, a frame works on the buffer of reads. -/
theorem frame_read {s : SyncLoop} (hRead : s.flagReadStart = true)
    (hWrite : s.flagWriteStart = false) (hBlock : s.flagBlockStart = true) (f : Frame) :
    s.frame outputtype f.captures =
      { s with
        flagReadStart := (takeFrame outputtype s.readResultList f).1
        flagBlockStart := (takeFrame outputtype s.readResultList f).1
        readResultList := (takeFrame outputtype s.readResultList f).2 } := by
  obtain ⟨flagBlockStart, flagReadStart, flagWriteStart, writes, reads, outFileNo, files⟩ := s
  simp only at hRead hWrite hBlock
  subst hRead hWrite hBlock
  cases hFile : f.inSanitizer with
  | true =>
      have hAny : (fileName f.captures).any sanitizerFile = true := hFile
      by_cases hOut : outputtype = .verifier <;> simp [frame, takeFrame, hFile, hAny, hOut]
  | false =>
      have hAny : (fileName f.captures).any sanitizerFile = false := hFile
      by_cases hEmpty : reads = [] <;>
        simp [frame, writeFrame, takeFrame, hFile, hAny, hEmpty, Frame.record]

/-- In a write section the frames fill the buffer of writes, up to one that closes the section. -/
theorem foldl_frames_write {s : SyncLoop} (hRead : s.flagReadStart = false)
    (hWrite : s.flagWriteStart = true) (hBlock : s.flagBlockStart = true) (frames : List Frame) :
    (frames.map Frame.line).foldl (step outputtype) s =
      { s with
        flagWriteStart := (takeFrames outputtype frames s.writeResultList).1
        flagBlockStart := (takeFrames outputtype frames s.writeResultList).1
        writeResultList := (takeFrames outputtype frames s.writeResultList).2 } := by
  induction frames generalizing s with
  | nil =>
      obtain ⟨flagBlockStart, flagReadStart, flagWriteStart, writes, reads, outFileNo, files⟩ := s
      simp only at hWrite hBlock
      subst hWrite hBlock
      rfl
  | cons f frames ih =>
      rw [foldl_cons_frame, frame_write hRead hWrite hBlock, takeFrames]
      rcases hTake : takeFrame outputtype s.writeResultList f with ⟨keep, buffer⟩
      have hAfter : ({ s with
          flagWriteStart := keep
          flagBlockStart := keep
          writeResultList := buffer } : SyncLoop).flagReadStart = false := hRead
      cases keep with
      | true => exact ih hAfter rfl rfl
      | false => exact foldl_frames_of_closed hAfter rfl frames

theorem foldl_frames_read {s : SyncLoop} (hRead : s.flagReadStart = true)
    (hWrite : s.flagWriteStart = false) (hBlock : s.flagBlockStart = true) (frames : List Frame) :
    (frames.map Frame.line).foldl (step outputtype) s =
      { s with
        flagReadStart := (takeFrames outputtype frames s.readResultList).1
        flagBlockStart := (takeFrames outputtype frames s.readResultList).1
        readResultList := (takeFrames outputtype frames s.readResultList).2 } := by
  induction frames generalizing s with
  | nil =>
      obtain ⟨flagBlockStart, flagReadStart, flagWriteStart, writes, reads, outFileNo, files⟩ := s
      simp only at hRead hBlock
      subst hRead hBlock
      rfl
  | cons f frames ih =>
      rw [foldl_cons_frame, frame_read hRead hWrite hBlock, takeFrames]
      rcases hTake : takeFrame outputtype s.readResultList f with ⟨keep, buffer⟩
      have hAfter : ({ s with
          flagReadStart := keep
          flagBlockStart := keep
          readResultList := buffer } : SyncLoop).flagWriteStart = false := hWrite
      cases keep with
      | true => exact ih rfl hAfter rfl
      | false => exact foldl_frames_of_closed rfl hAfter frames

end Frames

/-- Between two sections, with the buffers and the files that have been written. -/
def between (flagBlockStart : Bool) (writes reads : List Text) (contents : List (List Text)) :
    SyncLoop :=
  { flagBlockStart
    writeResultList := writes
    readResultList := reads
    outFileNo := contents.length
    files := numbered contents }

section Sections
variable {outputtype : OutputType} {flagBlockStart : Bool} {writes reads : List Text}
variable {contents : List (List Text)} {sec : Section}

theorem foldl_lines (s : SyncLoop) (sec : Section) :
    sec.lines.foldl (step outputtype) s =
      stepKind outputtype ((sec.frames.map Frame.line).foldl (step outputtype)
        (stepKind outputtype s sec.access.kind)) .lineBreak := by
  rw [Section.lines, List.foldl_cons, List.foldl_append, List.foldl_cons, List.foldl_nil, step_eq,
    step_eq, sec.header_kind, sec.blank_kind]

/-- Write a complete pair. -/
def paired (flagBlockStart : Bool) (writes reads : List Text) (contents : List (List Text)) :
    SyncLoop :=
  if writes ≠ [] ∧ reads ≠ [] then between flagBlockStart [] [] (contents ++ [writes ++ reads])
  else between flagBlockStart writes reads contents

theorem paired_of_or (h : writes = [] ∨ reads = []) :
    paired flagBlockStart writes reads contents = between flagBlockStart writes reads contents :=
  if_neg fun hBoth => h.elim hBoth.1 hBoth.2

/-- A blank line writes a complete pair. -/
theorem stepKind_lineBreak (flagReadStart flagWriteStart : Bool) :
    stepKind outputtype { between flagBlockStart writes reads contents with
      flagReadStart, flagWriteStart } .lineBreak = paired flagBlockStart writes reads contents := by
  cases writes with
  | nil => simp [stepKind, flush, between, paired]
  | cons write writes =>
      cases reads with
      | nil => simp [stepKind, flush, between, paired]
      | cons read reads => simp [stepKind, flush, between, paired, numbered_concat]

variable (outputtype flagBlockStart writes reads contents) in
/-- A write section fills the buffer of writes. -/
theorem foldl_section_write (h : sec.access = .write) :
    ∃ flag, sec.lines.foldl (step outputtype) (between flagBlockStart writes reads contents) =
      paired flag (takeFrames outputtype sec.frames writes).2 reads contents := by
  have hHeader : stepKind outputtype (between flagBlockStart writes reads contents) sec.access.kind =
      { between true writes reads contents with flagWriteStart := true } := by
    rw [h]
    rfl
  rw [foldl_lines, hHeader, foldl_frames_write rfl rfl rfl]
  exact ⟨_, stepKind_lineBreak false (takeFrames outputtype sec.frames writes).1⟩

variable (outputtype flagBlockStart writes reads contents) in
/-- A read section fills the buffer of reads. -/
theorem foldl_section_read (h : sec.access = .read) :
    ∃ flag, sec.lines.foldl (step outputtype) (between flagBlockStart writes reads contents) =
      paired flag writes (takeFrames outputtype sec.frames reads).2 contents := by
  have hHeader : stepKind outputtype (between flagBlockStart writes reads contents) sec.access.kind =
      { between true writes reads contents with flagReadStart := true } := by
    rw [h]
    rfl
  rw [foldl_lines, hHeader, foldl_frames_read rfl rfl rfl]
  exact ⟨_, stepKind_lineBreak (takeFrames outputtype sec.frames reads).1 false⟩

/-- The other sections do nothing. -/
theorem foldl_section_other (h : sec.access = .other) (hBuffers : writes = [] ∨ reads = []) :
    sec.lines.foldl (step outputtype) (between flagBlockStart writes reads contents) =
      between flagBlockStart writes reads contents := by
  have hHeader : stepKind outputtype (between flagBlockStart writes reads contents) sec.access.kind =
      between flagBlockStart writes reads contents := by
    rw [h]
    rfl
  rw [foldl_lines, hHeader, foldl_frames_of_closed rfl rfl]
  exact (stepKind_lineBreak false false).trans (paired_of_or hBuffers)

theorem foldl_sections_other {sections : List Section} (h : ∀ s ∈ sections, s.access = .other)
    (hBuffers : writes = [] ∨ reads = []) :
    (sections.flatMap Section.lines).foldl (step outputtype)
        (between flagBlockStart writes reads contents) =
      between flagBlockStart writes reads contents := by
  induction sections with
  | nil => rfl
  | cons sec sections ih =>
      rw [List.forall_mem_cons] at h
      rw [List.flatMap_cons, List.foldl_append, foldl_section_other h.1 hBuffers, ih h.2]

/-- Two buffers with at most one record each are written if both are full. -/
theorem paired_toList (flag : Bool) (write read : Option Text) :
    ∃ writes reads, paired flag write.toList read.toList contents =
        between flag writes reads (contents ++ (do return [← write, ← read]).toList) ∧
      (writes = [] ∨ reads = []) := by
  cases write with
  | none => exact ⟨[], read.toList, by simp [paired], .inl rfl⟩
  | some write =>
      cases read with
      | none => exact ⟨[write], [], by simp [paired], .inr rfl⟩
      | some read => exact ⟨[], [], by simp [paired], .inl rfl⟩

variable (outputtype flagBlockStart contents) in
/-- The two access sections write the pair of the block, and do not leave two full
buffers. -/
theorem foldl_access_sections (b : RaceBlock) :
    ∃ flag writes reads, (b.first.lines ++ b.second.lines).foldl (step outputtype)
        (between flagBlockStart [] [] contents) =
          between flag writes reads (contents ++ (b.pair outputtype).toList) ∧
      (writes = [] ∨ reads = []) := by
  rw [List.foldl_append, RaceBlock.pair]
  cases hFirst : b.first.access with
  | other => exact absurd hFirst b.first_access
  | write =>
      obtain ⟨flag, hLines⟩ := foldl_section_write outputtype flagBlockStart [] [] contents hFirst
      rw [hLines, takeFrames_section, paired_of_or (.inr rfl)]
      cases hSecond : b.second.access with
      | other => exact absurd hSecond b.second_access
      | write =>
          obtain ⟨flag', hLines'⟩ := foldl_section_write outputtype flag
            (b.first.recorded outputtype).toList [] contents hSecond
          rw [hLines', paired_of_or (.inr rfl)]
          exact ⟨flag', _, [], by rw [Option.toList_none, List.append_nil], .inr rfl⟩
      | read =>
          obtain ⟨flag', hLines'⟩ := foldl_section_read outputtype flag
            (b.first.recorded outputtype).toList [] contents hSecond
          rw [hLines', takeFrames_section]
          exact ⟨flag', paired_toList flag' _ _⟩
  | read =>
      obtain ⟨flag, hLines⟩ := foldl_section_read outputtype flagBlockStart [] [] contents hFirst
      rw [hLines, takeFrames_section, paired_of_or (.inl rfl)]
      cases hSecond : b.second.access with
      | other => exact absurd hSecond b.second_access
      | write =>
          obtain ⟨flag', hLines'⟩ := foldl_section_write outputtype flag []
            (b.first.recorded outputtype).toList contents hSecond
          rw [hLines', takeFrames_section]
          exact ⟨flag', paired_toList flag' _ _⟩
      | read =>
          obtain ⟨flag', hLines'⟩ := foldl_section_read outputtype flag []
            (b.first.recorded outputtype).toList contents hSecond
          rw [hLines', paired_of_or (.inl rfl)]
          exact ⟨flag', [], _, by rw [Option.toList_none, List.append_nil], .inl rfl⟩

/-- A block leaves the loop as it was before, but for the file of its pair. -/
theorem foldl_block (b : RaceBlock) :
    b.lines.foldl (step outputtype) (between false [] [] contents) =
      between false [] [] (contents ++ (b.pair outputtype).toList) := by
  obtain ⟨flag, writes, reads, hAccess, hBuffers⟩ :=
    foldl_access_sections outputtype true contents b
  have hOpening : step outputtype (between false [] [] contents) b.opening =
      between false [] [] contents := by
    rw [step_eq, b.opening_kind]
    rfl
  have hWarning : step outputtype (between false [] [] contents) b.warning =
      between true [] [] contents := by
    rw [step_eq, b.warning_kind]
    rfl
  rw [Block.lines, List.foldl_cons, List.foldl_cons, hOpening, hWarning, List.foldl_append,
    b.sections_eq, List.flatMap_cons, List.flatMap_cons, ← List.append_assoc, List.foldl_append,
    hAccess, foldl_sections_other b.further_access hBuffers, List.foldl_cons, List.foldl_cons,
    List.foldl_nil, step_eq, step_eq, b.summary_kind, b.closing_kind]
  rcases hBuffers with rfl | rfl <;> simp [stepKind, flush, between]

/-- A whole log leaves the pairs of its blocks, in their order. -/
theorem foldl_logOf (outputtype : OutputType) (blocks : List RaceBlock) :
    (logOf (blocks.map RaceBlock.toBlock)).foldl (step outputtype) {} =
      between false [] [] (blocks.filterMap (RaceBlock.pair outputtype)) := by
  induction blocks using List.reverseRecOn with
  | nil => rfl
  | append_singleton blocks b ih =>
      rw [logOf] at ih ⊢
      rw [List.map_append, List.map_singleton, List.flatMap_append, List.foldl_append, ih,
        List.flatMap_singleton, foldl_block, List.filterMap_append]
      cases hPair : b.pair outputtype <;> simp [hPair]

/-- The lines that break a block write nothing. -/
theorem files_foldl_blockBreaks (s : SyncLoop) {lines : List Text}
    (h : ∀ line ∈ lines, kind line = .blockBreak) :
    (lines.foldl (step outputtype) s).files = s.files := by
  induction lines generalizing s with
  | nil => rfl
  | cons line lines ih =>
      rw [List.forall_mem_cons] at h
      rw [List.foldl_cons, ih _ h.2, step_eq, h.1]
      rfl

end Sections
end SyncLoop

/-- For every block with a record for its write and one for its read, one file
with these two is written, in order and with consecutive numbers, and nothing
else. -/
theorem runNormalSyncLoop_files (outputtype : OutputType) (blocks : List RaceBlock) :
    (runNormalSyncLoop outputtype (logOf (blocks.map RaceBlock.toBlock))).files =
      numbered (blocks.filterMap (RaceBlock.pair outputtype)) := by
  obtain ⟨last, hLast, hLog⟩ := handled_logOf (blocks.map RaceBlock.toBlock)
  have hAll := congrArg SyncLoop.files (SyncLoop.foldl_logOf outputtype blocks)
  rw [hLog, List.foldl_append, SyncLoop.files_foldl_blockBreaks _ hLast] at hAll
  exact hAll

end ConAnalysis.Scripts.Tsan
