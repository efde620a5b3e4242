import ConAnalysis.Scripts.WellFormed
import ConAnalysis.Scripts.ValgrindSyncLoop

/-! `runNormalSyncLoop` of `valgrindOutputParser.py` on well-formed logs. -/
namespace ConAnalysis.Scripts.Valgrind
open Regex

/-- A line that is accepted as a call stack line. -/
structure Frame where
  line : Text
  captures : Captures
  entry : Text
  accepted : regCallStackLine.find? line = some captures
  entry_eq : record captures = some entry

inductive Access where
  | write | read
deriving DecidableEq, Repr

def Access.kind : Access → Kind
  | .write => .writeStart
  | .read => .readStart

/-- The lines that may stand behind the first frame of a section: further frames,
the end of the access and lines that the parser passes over. -/
def InSection (line : Text) : Prop :=
  kind line = .readEnd ∨ kind line = .other ∨ ∃ captures, kind line = .callStackLine captures

structure Section where
  access : Access
  header : Text
  preamble : List Text
  first : Frame
  rest : List Text
  blank : Text
  header_kind : kind header = access.kind
  preamble_kind : ∀ line ∈ preamble, kind line = .other
  first_inside : isWrapper first.captures = false
  rest_inside : ∀ line ∈ rest, InSection line
  blank_kind : kind blank = .lineBreak

def Section.body (s : Section) : List Text := s.header :: (s.preamble ++ s.first.line :: s.rest)

def Section.lines (s : Section) : List Text := s.body ++ [s.blank]

structure Block where
  opening : Text
  blank : Text
  first : Section
  second : Section
  opening_kind : kind opening = .blockStart
  blank_kind : kind blank = .lineBreak
  has_write : first.access = .write ∨ second.access = .write

def Block.body (b : Block) : List Text :=
  b.opening :: b.blank :: (b.first.lines ++ b.second.body)

def Block.lines (b : Block) : List Text := b.body ++ [b.second.blank]

def logOf (blocks : List Block) : List Text := blocks.flatMap Block.lines

/-- The record of the first write section, then that of the other section. -/
def Block.pair (b : Block) : List Text :=
  match b.first.access with
  | .write => [b.first.first.entry, b.second.first.entry]
  | .read => [b.second.first.entry, b.first.first.entry]

namespace SyncLoop

/-- Between two sections: the flags of the block and of the pending write, the
buffers and the files that have been written. -/
def between (flagBlockStart pendingWriteFlag : Bool) (writes reads : List Text)
    (contents : List (List Text)) : SyncLoop :=
  { flagBlockStart
    pendingWriteFlag
    writeResultList := writes
    readResultList := reads
    outFileNo := contents.length
    files := Tsan.numbered contents }

/-- The read section, if it is open, has its record. -/
def ReadDone (s : SyncLoop) : Prop := s.flagReadStart = true → s.readResultList ≠ []

/-- The write section, if it is open, has its record, and so has the write that it
is to be paired with. -/
def WriteDone (s : SyncLoop) : Prop :=
  s.flagWriteStart = true →
    s.writeResultList ≠ [] ∧ (s.pendingWriteFlag = true → s.writeResultList2 ≠ [])

section Rest
variable {s : SyncLoop} {captures : Captures}

theorem readFrame_of_done (h : s.ReadDone) (captures : Captures) : ∃ flagReadStart,
    s.readFrame captures = { s with flagReadStart } ∧
      (flagReadStart = true → s.flagReadStart = true) := by
  unfold readFrame
  split
  · next hFlags =>
      have hFlag : s.flagReadStart = true := (Bool.and_eq_true _ _ ▸ hFlags).1
      split
      · rw [if_neg fun hZero => h hFlag (List.eq_nil_of_length_eq_zero hZero)]
        exact ⟨s.flagReadStart, rfl, id⟩
      · exact ⟨false, rfl, nofun⟩
  · exact ⟨s.flagReadStart, rfl, id⟩

theorem writeFrame_of_done (h : s.WriteDone) (captures : Captures) : ∃ flagWriteStart,
    s.writeFrame captures = { s with flagWriteStart } ∧
      (flagWriteStart = true → s.flagWriteStart = true) := by
  unfold writeFrame
  split
  · next hFlags =>
      obtain ⟨hFirst, hSecond⟩ := h (Bool.and_eq_true _ _ ▸ hFlags).1
      split
      · rw [if_neg fun hZero => hFirst (List.eq_nil_of_length_eq_zero hZero), if_neg]
        · exact ⟨s.flagWriteStart, rfl, id⟩
        · intro hWaiting
          rw [Bool.and_eq_true, Bool.and_eq_true, beq_iff_eq] at hWaiting
          exact hSecond hWaiting.1.2 (List.eq_nil_of_length_eq_zero hWaiting.2)
      · exact ⟨false, rfl, nofun⟩
  · exact ⟨s.flagWriteStart, rfl, id⟩

/-- Behind its first frame, the lines of a section close it at most. -/
theorem step_of_done (hRead : s.ReadDone) (hWrite : s.WriteDone) {line : Text}
    (hLine : InSection line) : ∃ flagReadStart flagWriteStart,
      s.step line = { s with flagReadStart, flagWriteStart } ∧
        (flagReadStart = true → s.flagReadStart = true) ∧
        (flagWriteStart = true → s.flagWriteStart = true) := by
  rw [step_eq]
  rcases hLine with hKind | hKind | ⟨captures, hKind⟩
  · rw [hKind]
    exact ⟨false, false, rfl, nofun, nofun⟩
  · rw [hKind]
    exact ⟨s.flagReadStart, s.flagWriteStart, rfl, id, id⟩
  · rw [hKind]
    obtain ⟨flagReadStart, hReadFrame, hReadFlag⟩ := readFrame_of_done hRead captures
    have hWrite' : { s with flagReadStart }.WriteDone := hWrite
    obtain ⟨flagWriteStart, hWriteFrame, hWriteFlag⟩ := writeFrame_of_done hWrite' captures
    refine ⟨flagReadStart, flagWriteStart, ?_, hReadFlag, hWriteFlag⟩
    rw [stepKind, hReadFrame, hWriteFrame]

/-- Behind the frame that has been recorded a section can only change flags. -/
theorem foldl_rest (hRead : s.ReadDone) (hWrite : s.WriteDone) {rest : List Text}
    (hRest : ∀ line ∈ rest, InSection line) : ∃ flagReadStart flagWriteStart,
      rest.foldl step s = { s with flagReadStart, flagWriteStart } := by
  induction rest generalizing s with
  | nil => exact ⟨s.flagReadStart, s.flagWriteStart, rfl⟩
  | cons line rest ih =>
      rw [List.forall_mem_cons] at hRest
      obtain ⟨flagReadStart, flagWriteStart, hStep, hReadFlag, hWriteFlag⟩ :=
        step_of_done hRead hWrite hRest.1
      rw [List.foldl_cons, hStep]
      exact ih (s := { s with flagReadStart, flagWriteStart }) (fun hFlag => hRead (hReadFlag hFlag))
        (fun hFlag => hWrite (hWriteFlag hFlag)) hRest.2

theorem foldl_preamble (s : SyncLoop) {preamble : List Text}
    (h : ∀ line ∈ preamble, kind line = .other) : preamble.foldl step s = s := by
  induction preamble with
  | nil => rfl
  | cons line preamble ih =>
      rw [List.forall_mem_cons] at h
      rw [List.foldl_cons, step_eq, h.1]
      exact ih h.2

end Rest

section Sections
variable {flagBlockStart pendingWriteFlag : Bool} {writes reads : List Text}
variable {contents : List (List Text)} {sec : Section}

/-- What the body of a section leaves: the record in the buffer, and open flags. -/
theorem foldl_body {s : SyncLoop} (recorded : SyncLoop) (sec : Section)
    (hFirst : ((s.stepKind sec.access.kind).readFrame sec.first.captures).writeFrame
      sec.first.captures = recorded)
    (hRead : recorded.ReadDone) (hWrite : recorded.WriteDone) : ∃ flagReadStart flagWriteStart,
      sec.body.foldl step s = { recorded with flagReadStart, flagWriteStart } := by
  have hHeader : s.step sec.header = s.stepKind sec.access.kind := by
    rw [step_eq, sec.header_kind]
  have hFrame : (s.stepKind sec.access.kind).step sec.first.line = recorded := by
    rw [step_eq, callStackLine_iff.mp sec.first.accepted]
    exact hFirst
  rw [Section.body, List.foldl_cons, hHeader, List.foldl_append,
    foldl_preamble _ sec.preamble_kind, List.foldl_cons, hFrame]
  exact foldl_rest hRead hWrite sec.rest_inside

/-- A line break does not depend on the open sections. -/
theorem stepKind_lineBreak (s : SyncLoop) (flagReadStart flagWriteStart : Bool) :
    stepKind { s with flagReadStart, flagWriteStart } .lineBreak = stepKind s .lineBreak := by
  unfold stepKind flush
  simp only
  split
  · split
    · rfl
    · split <;> rfl
  · rfl

theorem foldl_lines {s recorded : SyncLoop} (h : ∃ flagReadStart flagWriteStart,
    sec.body.foldl step s = { recorded with flagReadStart, flagWriteStart }) :
    sec.lines.foldl step s = stepKind recorded .lineBreak := by
  obtain ⟨flagReadStart, flagWriteStart, hBody⟩ := h
  rw [Section.lines, List.foldl_append, hBody, List.foldl_cons, List.foldl_nil, step_eq,
    sec.blank_kind, stepKind_lineBreak]

variable (flagBlockStart contents) in
/-- The first write of a block is recorded. -/
theorem foldl_body_write (reads : List Text) (h : sec.access = .write) :
    ∃ flagReadStart flagWriteStart,
      sec.body.foldl step (between flagBlockStart false [] reads contents) =
        { between true false [sec.first.entry] reads contents with flagReadStart, flagWriteStart } := by
  refine foldl_body { between true false [sec.first.entry] reads contents with
    flagWriteStart := true } sec ?_ (absurd · Bool.false_ne_true) ?_
  · rw [h]
    simp [Access.kind, stepKind, readFrame, writeFrame, between, sec.first_inside, sec.first.entry_eq]
  · exact fun _ => ⟨List.cons_ne_nil _ _, (absurd · Bool.false_ne_true)⟩

variable (flagBlockStart contents) in
/-- A write behind a pending one is recorded as the second. -/
theorem foldl_body_write_pending (write : Text) (h : sec.access = .write) :
    ∃ flagReadStart flagWriteStart,
      sec.body.foldl step (between flagBlockStart true [write] [] contents) =
        { between true true [write] [] contents with
          writeResultList2 := [sec.first.entry], flagReadStart, flagWriteStart } := by
  refine foldl_body { between true true [write] [] contents with
    writeResultList2 := [sec.first.entry], flagWriteStart := true } sec ?_ (absurd · Bool.false_ne_true) ?_
  · rw [h]
    simp [Access.kind, stepKind, readFrame, writeFrame, between, sec.first_inside, sec.first.entry_eq]
  · exact fun _ => ⟨List.cons_ne_nil _ _, fun _ => List.cons_ne_nil _ _⟩

variable (flagBlockStart pendingWriteFlag contents) in
/-- A read is recorded. -/
theorem foldl_body_read (writes : List Text) (h : sec.access = .read) :
    ∃ flagReadStart flagWriteStart,
      sec.body.foldl step (between flagBlockStart pendingWriteFlag writes [] contents) =
        { between true pendingWriteFlag writes [sec.first.entry] contents with
          flagReadStart, flagWriteStart } := by
  refine foldl_body { between true pendingWriteFlag writes [sec.first.entry] contents with
    flagReadStart := true } sec ?_ ?_ (absurd · Bool.false_ne_true)
  · rw [h]
    simp [Access.kind, stepKind, readFrame, writeFrame, between, sec.first_inside, sec.first.entry_eq]
  · exact fun _ => List.cons_ne_nil _ _

/-- The pair of a block is complete before the blank line at its end, which writes
it. -/
theorem foldl_block_body (b : Block) (flagBlockStart : Bool) (contents : List (List Text)) :
    ∃ s, b.body.foldl step (between flagBlockStart false [] [] contents) = s ∧
      s.files = Tsan.numbered contents ∧
      s.step b.second.blank = between true false [] [] (contents ++ [b.pair]) := by
  have hStart : (between flagBlockStart false [] [] contents).step b.opening =
      between true false [] [] contents := by
    rw [step_eq, b.opening_kind]
    rfl
  have hBlank : (between true false [] [] contents).step b.blank =
      between true false [] [] contents := by
    rw [step_eq, b.blank_kind]
    rfl
  rw [Block.body, List.foldl_cons, List.foldl_cons, hStart, hBlank, List.foldl_append]
  refine ⟨_, rfl, ?_⟩
  rw [step_eq, b.second.blank_kind, Block.pair]
  cases hFirst : b.first.access with
  | write =>
      rw [foldl_lines (foldl_body_write true contents [] hFirst)]
      have hPending : stepKind (between true false [b.first.first.entry] [] contents) .lineBreak =
          between true true [b.first.first.entry] [] contents := rfl
      rw [hPending]
      cases hSecond : b.second.access with
      | write =>
          obtain ⟨flagReadStart, flagWriteStart, hBody⟩ :=
            foldl_body_write_pending true contents b.first.first.entry hSecond
          rw [hBody]
          exact ⟨rfl, by simp [stepKind, flush, between, Tsan.numbered_concat]⟩
      | read =>
          obtain ⟨flagReadStart, flagWriteStart, hBody⟩ :=
            foldl_body_read true true contents [b.first.first.entry] hSecond
          rw [hBody]
          exact ⟨rfl, by simp [stepKind, flush, between, Tsan.numbered_concat]⟩
  | read =>
      rw [foldl_lines (foldl_body_read true false contents [] hFirst)]
      have hWaiting : stepKind (between true false [] [b.first.first.entry] contents) .lineBreak =
          between true false [] [b.first.first.entry] contents := rfl
      have hSecond : b.second.access = .write := b.has_write.resolve_left (by simp [hFirst])
      obtain ⟨flagReadStart, flagWriteStart, hBody⟩ :=
        foldl_body_write true contents [b.first.first.entry] hSecond
      rw [hWaiting, hBody]
      exact ⟨rfl, by simp [stepKind, flush, between, Tsan.numbered_concat]⟩

/-- A whole log leaves the pairs of its blocks, up to the flag of the last one. -/
theorem foldl_logOf (blocks : List Block) : ∃ flagBlockStart,
    (logOf blocks).foldl step {} = between flagBlockStart false [] [] (blocks.map Block.pair) := by
  induction blocks using List.reverseRecOn with
  | nil => exact ⟨false, rfl⟩
  | append_singleton blocks b ih =>
      obtain ⟨flagBlockStart, hBlocks⟩ := ih
      obtain ⟨s, hBody, -, hBlank⟩ := foldl_block_body b flagBlockStart (blocks.map Block.pair)
      refine ⟨true, ?_⟩
      rw [logOf, List.flatMap_append, List.foldl_append, List.flatMap_singleton, Block.lines,
        List.foldl_append]
      rw [logOf] at hBlocks
      rw [hBlocks, hBody, List.foldl_cons, List.foldl_nil, hBlank, List.map_append,
        List.map_singleton]

/-- Behind the blocks, blank lines and other lines do nothing. -/
theorem foldl_trailing {flagBlockStart : Bool} {contents : List (List Text)} {lines : List Text}
    (h : ∀ line ∈ lines, kind line = .lineBreak ∨ kind line = .other) :
    lines.foldl step (between flagBlockStart false [] [] contents) =
      between flagBlockStart false [] [] contents := by
  induction lines with
  | nil => rfl
  | cons line lines ih =>
      rw [List.forall_mem_cons] at h
      have hStep : (between flagBlockStart false [] [] contents).step line =
          between flagBlockStart false [] [] contents := by
        rcases h.1 with hKind | hKind <;>
        · rw [step_eq, hKind]
          rfl
      rw [List.foldl_cons, hStep, ih h.2]

end Sections
end SyncLoop

/-- The lines before the last line break are handled. -/
theorem handled_of_last {lines rest : List Text} {line : Text} (hLine : kind line = .lineBreak)
    (hRest : ∀ line ∈ rest, kind line ≠ .lineBreak) :
    handled 0 (checkBlockIntegrity 0 (lines ++ line :: rest)) (lines ++ line :: rest) = lines := by
  have hBoundary : checkBlockIntegrity 0 (lines ++ line :: rest) = lines.length + 1 :=
    lastBlockEnd_of_last (lineBreak_iff.mpr hLine) fun line' hLine' =>
      Bool.eq_false_iff.mpr fun hAccepted => hRest line' hLine' (lineBreak_iff.mp hAccepted)
  rw [hBoundary, handled_zero, Nat.add_sub_cancel, List.take_left]

/-- A log with a blank line has a last one, behind which nothing is closed. -/
theorem exists_last_lineBreak {lines : List Text} (h : ∃ line ∈ lines, kind line = .lineBreak) :
    ∃ before line rest, lines = before ++ line :: rest ∧ kind line = .lineBreak ∧
      ∀ line ∈ rest, kind line ≠ .lineBreak := by
  induction lines with
  | nil =>
      obtain ⟨line, hMem, -⟩ := h
      cases hMem
  | cons line lines ih =>
      by_cases hLater : ∃ line ∈ lines, kind line = .lineBreak
      · obtain ⟨before, line', rest, rfl, hLine, hRest⟩ := ih hLater
        exact ⟨line :: before, line', rest, rfl, hLine, hRest⟩
      · obtain ⟨line', hMem, hLine⟩ := h
        rcases List.mem_cons.mp hMem with rfl | hMem
        · exact ⟨[], line', lines, rfl, hLine, fun line'' hMem hKind => hLater ⟨line'', hMem, hKind⟩⟩
        · exact absurd ⟨line', hMem, hLine⟩ hLater

section Files
variable {trailing : List Text}

/-- With a further line break behind the blocks, all of them are written. -/
theorem files_of_lineBreak (blocks : List Block)
    (hTrailing : ∀ line ∈ trailing, kind line = .lineBreak ∨ kind line = .other)
    (hBreak : ∃ line ∈ trailing, kind line = .lineBreak) :
    (runNormalSyncLoop (logOf blocks ++ trailing)).files = Tsan.numbered (blocks.map Block.pair) := by
  obtain ⟨before, line, rest, rfl, hLine, hRest⟩ := exists_last_lineBreak hBreak
  obtain ⟨flagBlockStart, hBlocks⟩ := SyncLoop.foldl_logOf blocks
  rw [List.forall_mem_append] at hTrailing
  rw [runNormalSyncLoop, ← List.append_assoc, handled_of_last hLine hRest, SyncLoop.run,
    List.foldl_append, hBlocks, SyncLoop.foldl_trailing hTrailing.1]
  rfl

/-- Without one, the last block is left before it is written. -/
theorem files_of_no_lineBreak (blocks : List Block)
    (hTrailing : ∀ line ∈ trailing, kind line ≠ .lineBreak) :
    (runNormalSyncLoop (logOf blocks ++ trailing)).files =
      Tsan.numbered (blocks.dropLast.map Block.pair) := by
  cases blocks using List.reverseRecOn with
  | nil =>
      have hBoundary : checkBlockIntegrity 0 trailing = 0 :=
        lastBlockEnd_of_none fun line hLine =>
          Bool.eq_false_iff.mpr fun hAccepted => hTrailing line hLine (lineBreak_iff.mp hAccepted)
      rw [runNormalSyncLoop, logOf, List.flatMap_nil, List.nil_append, hBoundary, handled_self]
      rfl
  | append_singleton blocks b =>
      have hLog : logOf (blocks ++ [b]) ++ trailing =
          (logOf blocks ++ b.body) ++ b.second.blank :: trailing := by
        simp [logOf, Block.lines]
      obtain ⟨flagBlockStart, hBlocks⟩ := SyncLoop.foldl_logOf blocks
      obtain ⟨s, hBody, hFiles, -⟩ :=
        SyncLoop.foldl_block_body b flagBlockStart (blocks.map Block.pair)
      rw [runNormalSyncLoop, hLog, handled_of_last b.second.blank_kind hTrailing, SyncLoop.run,
        List.foldl_append, hBlocks, hBody, hFiles, List.dropLast_concat]

end Files

/-- Every block is written if, and only if, there is none or a further line break
stands behind the last one. -/
theorem runNormalSyncLoop_files_iff (blocks : List Block) (trailing : List Text)
    (hTrailing : ∀ line ∈ trailing, kind line = .lineBreak ∨ kind line = .other) :
    (runNormalSyncLoop (logOf blocks ++ trailing)).files = Tsan.numbered (blocks.map Block.pair) ↔
      blocks = [] ∨ ∃ line ∈ trailing, kind line = .lineBreak := by
  by_cases hBreak : ∃ line ∈ trailing, kind line = .lineBreak
  · simp [files_of_lineBreak blocks hTrailing hBreak, hBreak]
  · have hNone : ∀ line ∈ trailing, kind line ≠ .lineBreak := fun line hLine hKind =>
      hBreak ⟨line, hLine, hKind⟩
    rw [files_of_no_lineBreak blocks hNone, or_iff_left hBreak]
    constructor
    · intro hFiles
      have hLength := congrArg List.length hFiles
      rw [Tsan.length_numbered, Tsan.length_numbered, List.length_map, List.length_map,
        List.length_dropLast] at hLength
      exact List.eq_nil_of_length_eq_zero (by omega)
    · rintro rfl
      rfl

def readWriteBlock : Block where
  opening := "==1== ----------------\n".toList
  blank := "==1== \n".toList
  first :=
    { access := .read
      header := "==1== Possible data race during read of size 4 at 0x1 by thread #1\n".toList
      preamble := []
      first :=
        { line := "==1==    at 0x1: f (a.c:1)\n".toList
          captures := [(4, "(a.c:1)".toList), (2, "f".toList), (1, "at".toList)]
          entry := "f (a.c:1)\n".toList
          accepted := by decide
          entry_eq := by decide }
      rest := []
      blank := "==1== \n".toList
      header_kind := readStart_iff.mp (by decide)
      preamble_kind := nofun
      first_inside := by decide
      rest_inside := nofun
      blank_kind := lineBreak_iff.mp (by decide) }
  second :=
    { access := .write
      header := "==1== This conflicts with a previous write of size 4 by thread #2\n".toList
      preamble := []
      first :=
        { line := "==1==    at 0x2: g (a.c:2)\n".toList
          captures := [(4, "(a.c:2)".toList), (2, "g".toList), (1, "at".toList)]
          entry := "g (a.c:2)\n".toList
          accepted := by decide
          entry_eq := by decide }
      rest := []
      blank := "==1== \n".toList
      header_kind := writeStart_iff.mp (by decide)
      preamble_kind := nofun
      first_inside := by decide
      rest_inside := nofun
      blank_kind := lineBreak_iff.mp (by decide) }
  opening_kind := blockStart_iff.mp (by decide)
  blank_kind := lineBreak_iff.mp (by decide)
  has_write := .inr rfl

/-- Behind the block there is a further blank line. -/
theorem runNormalSyncLoop_files_iff_readWriteBlock :
    (runNormalSyncLoop (logOf [readWriteBlock] ++ ["==1== \n".toList])).files =
      Tsan.numbered [readWriteBlock.pair] := by
  have hBlank : kind "==1== \n".toList = .lineBreak := lineBreak_iff.mp (by decide)
  refine (runNormalSyncLoop_files_iff [readWriteBlock] _ ?_).mpr (.inr ?_)
  · exact fun line hLine => .inl (List.mem_singleton.mp hLine ▸ hBlank)
  · exact ⟨_, List.mem_singleton_self _, hBlank⟩

/-- The log of one block gives no file. -/
theorem readWriteBlock_not_written :
    (runNormalSyncLoop (logOf [readWriteBlock])).files = [] ∧
      (runNormalSyncLoop (logOf [readWriteBlock])).files ≠
        Tsan.numbered ([readWriteBlock].map Block.pair) := by
  decide

end ConAnalysis.Scripts.Valgrind
