import ConAnalysis.Scripts.ReportFiles
import ConAnalysis.Trigger.Locations

/-! How `trigger.py` gets its locations and its source lines from a file with a pair. -/
namespace ConAnalysis.Trigger
open Scanf (numeral)
open Scripts (Record WrittenPair breakpoint)

/-- Why the script does not come to set a breakpoint. The last three are errors of Python. -/
inductive SetupFault where
  | failToParseInput
  | typeError
  | indexError
  | valueError
deriving DecidableEq, Repr

/-- `int` of a number that `regBreakpoint` has found, which is a text of digits or empty. -/
def int (token : Text) : Except SetupFault Nat :=
  if token ≠ [] ∧ token.all Char.isDigit = true then .ok (numeral token) else .error .valueError

/-- `tokens[0]` and `int(tokens[1])`, after `split(":")`. -/
def splitLocation (filename : Text) : Except SetupFault Location :=
  match filename.splitOn ':' with
  | file :: number :: _ => do
      let line ← int number
      return { file, line }
  | _ => .error .indexError

/-- What a line adds to `filenames` and to `bp_source`. The source line is what `find` and
`sed` print for the file and the number. -/
def readBreakpoint (sourceLine : Text → Text → Text) (line : Text) :
    Except SetupFault (Text × Text) :=
  match breakpoint line with
  | none => .error .failToParseInput
  | some (some file, some number) => .ok (file ++ ':' :: number, sourceLine file number)
  | some _ => .error .typeError

/-- `__lldb_init_module` and `set_trigger`, up to the creation of the breakpoints. The number of
the read is converted first. -/
def initModule (sourceLine : Text → Text → Text) (lines : List Text) :
    Except SetupFault Config := do
  match ← lines.mapM (readBreakpoint sourceLine) with
  | (in_write, writeSource) :: (in_read, readSource) :: _ =>
      let read ← splitLocation in_read
      let write ← splitLocation in_write
      return { bp_source := (writeSource, readSource), bp_location := (write, read) }
  | _ => .error .indexError

def locationOf (r : Record) : Location where
  file := r.file
  line := numeral r.line

def configOf (sourceLine : Text → Text → Text) (write read : Record) : Config where
  bp_source := (sourceLine write.file write.line, sourceLine read.file read.line)
  bp_location := (locationOf write, locationOf read)

section Setup
variable (sourceLine : Text → Text → Text) (r write read : Record)

theorem colon_not_mem_file : ':' ∉ r.file := fun hMem => (r.file_ne ':' hMem).2 rfl

theorem colon_not_mem_line : ':' ∉ r.line := by
  intro hMem
  cases r.line_chars ':' hMem

/-- The line of a record is a number unless it is empty. -/
theorem int_line : int r.line =
    if r.line = [] then .error .valueError else .ok (numeral r.line) := by
  have hDigits : r.line.all Char.isDigit = true := List.all_eq_true.mpr r.line_chars
  by_cases hNil : r.line = []
  · rw [int, if_neg fun h => h.1 hNil, if_pos hNil]
  · rw [int, if_pos ⟨hNil, hDigits⟩, if_neg hNil]

/-- The colon between the file and the number is the only one. -/
theorem splitLocation_record : splitLocation (r.file ++ ':' :: r.line) =
    if r.line = [] then .error .valueError else .ok (locationOf r) := by
  have hSplit : (r.file ++ ':' :: r.line).splitOn ':' = [r.file, r.line] := by
    rw [List.splitOn_append_cons_self_of_not_mem (colon_not_mem_file r),
      List.splitOn_eq_singleton (colon_not_mem_line r)]
  rw [splitLocation, hSplit]
  simp only [int_line, bind, Except.bind, pure, Except.pure]
  by_cases hNil : r.line = []
  · rw [if_pos hNil, if_pos hNil]
  · rw [if_neg hNil, if_neg hNil]
    rfl

/-- The file and the line of a record are found again. -/
theorem breakpoint_written : breakpoint r.written = some (some r.file, some r.line) :=
  r.breakpoint_text

theorem readBreakpoint_written : readBreakpoint sourceLine r.written =
    .ok (r.file ++ ':' :: r.line, sourceLine r.file r.line) := by
  rw [readBreakpoint, breakpoint_written]

/-- The fields of a record are what the script finds in its line. -/
theorem fields_of_written {line file number : Text} (h : line = r.written)
    (hFields : breakpoint line = some (some file, some number)) :
    r.file = file ∧ r.line = number := by
  rw [h, breakpoint_written] at hFields
  simpa using hFields

/-- An empty number of either record is an error, and nothing else is. -/
theorem initModule_pair : initModule sourceLine [write.written, read.written] =
    if write.line = [] ∨ read.line = [] then .error .valueError
    else .ok (configOf sourceLine write read) := by
  unfold initModule
  simp only [List.mapM_cons, List.mapM_nil, readBreakpoint_written, splitLocation_record, bind,
    Except.bind, pure, Except.pure]
  by_cases hRead : read.line = []
  · simp only [if_pos hRead, if_pos (Or.inr hRead : write.line = [] ∨ read.line = [])]
  · rw [if_neg hRead]
    by_cases hWrite : write.line = []
    · simp only [hWrite, true_or, if_true]
    · simp only [hWrite, hRead, or_self, if_false]
      rfl

/-- The script starts exactly if both records have a line, and then with their locations and
source lines. -/
theorem initModule_eq_ok_iff {c : Config} :
    initModule sourceLine [write.written, read.written] = .ok c ↔
      (write.line ≠ [] ∧ read.line ≠ []) ∧ c = configOf sourceLine write read := by
  rw [initModule_pair]
  by_cases hEmpty : write.line = [] ∨ read.line = []
  · rw [if_pos hEmpty]
    exact iff_of_false nofun fun h => hEmpty.elim h.1.1 h.1.2
  · rw [if_neg hEmpty, Except.ok.injEq, eq_comm, iff_and_self]
    exact fun _ => not_or.mp hEmpty

end Setup

/-- Each breakpoint is at one of the two locations. -/
theorem mem_setTrigger_iff {c : Config} {location : Location} {callback : Kind} :
    (location, callback) ∈ setTrigger c ↔ (location = c.bp_location.1 ∧ callback = .write) ∨
      c.bp_source.1 ≠ c.bp_source.2 ∧ location = c.bp_location.2 ∧ callback = .read := by
  by_cases hSource : c.bp_source.1 = c.bp_source.2
  · simp [setTrigger, hSource]
  · simp [setTrigger, hSource]

/-- Where the numbers of the two lines differ, the two accesses are told apart exactly if the
source lines differ as well. -/
theorem distinguishes_iff_source {c : Config}
    (hLine : c.bp_location.1.line ≠ c.bp_location.2.line) :
    Distinguishes c ↔ c.bp_source.1 ≠ c.bp_source.2 := by
  constructor
  · intro h
    obtain ⟨callback, hMem⟩ := h.breaksAt c.bp_location.2 (by simp)
    rcases mem_setTrigger_iff.mp hMem with ⟨hSame, -⟩ | ⟨hSource, -⟩
    · exact absurd (congrArg Location.line hSame.symm) hLine
    · exact hSource
  · intro hSource
    refine distinguishes_of_recordedAs ?_ ?_ ?_
    · intro location hLocation
      rcases List.mem_pair.mp hLocation with rfl | rfl
      · exact ⟨.write, mem_setTrigger_iff.mpr (.inl ⟨rfl, rfl⟩)⟩
      · exact ⟨.read, mem_setTrigger_iff.mpr (.inr ⟨hSource, rfl, rfl⟩)⟩
    · exact fun thd hThd => recordedAs_of_accessAt hThd (accessAt_write hThd)
    · intro thd hThd
      have hAccess := accessAt_read hThd
      rw [if_neg hLine] at hAccess
      exact recordedAs_of_accessAt hThd hAccess

/-- From any file with a pair the script gets to its breakpoints exactly if both records have a
number. They are at the places of the two records, and where the numbers differ the script tells
the write and the read of the race apart exactly if the source lines differ. -/
theorem pair_setUp {content : List Text} (h : WrittenPair content)
    (sourceLine : Text → Text → Text) :
    ∃ write read : Record, content = [write.written, read.written] ∧
      (∀ c, initModule sourceLine content = .ok c ↔
        (write.line ≠ [] ∧ read.line ≠ []) ∧ c = configOf sourceLine write read) ∧
      (∀ location callback, (location, callback) ∈ setTrigger (configOf sourceLine write read) ↔
        (location = locationOf write ∧ callback = .write) ∨
          sourceLine write.file write.line ≠ sourceLine read.file read.line ∧
            location = locationOf read ∧ callback = .read) ∧
      (numeral write.line ≠ numeral read.line →
        (Distinguishes (configOf sourceLine write read) ↔
          sourceLine write.file write.line ≠ sourceLine read.file read.line)) := by
  obtain ⟨write, read, rfl⟩ := h.pairOfRecords
  exact ⟨write, read, rfl, fun _ => initModule_eq_ok_iff sourceLine write read,
    fun _ _ => mem_setTrigger_iff, fun hLine => distinguishes_iff_source hLine⟩

/-- The two lines of `a.c` that the log of a pair names. -/
def sourceOfPair (_ number : Text) : Text :=
  if number = ['1'] then "x = 1;\n".toList else "y = x;\n".toList

/-- The script stops at line 1 and at line 2. -/
theorem pair_setUp_pairLog : ∃ c,
    initModule sourceOfPair ["f (a.c:1)\n".toList, "g (a.c:2)\n".toList] = .ok c ∧
      setTrigger c = [(⟨"a.c".toList, 1⟩, .write), (⟨"a.c".toList, 2⟩, .read)] ∧
      Distinguishes c := by
  have hPair : WrittenPair ["f (a.c:1)\n".toList, "g (a.c:2)\n".toList] :=
    .tsan .syncloop Scripts.Tsan.pairLog 0 (by decide)
  obtain ⟨write, read, hContent, hOk, -, hTold⟩ := pair_setUp hPair sourceOfPair
  obtain ⟨hWrite, hContent⟩ := List.cons.inj hContent
  obtain ⟨hRead, -⟩ := List.cons.inj hContent
  have hWriteFields : write.file = "a.c".toList ∧ write.line = ['1'] :=
    fields_of_written write hWrite (by decide)
  have hReadFields : read.file = "a.c".toList ∧ read.line = ['2'] :=
    fields_of_written read hRead (by decide)
  refine ⟨configOf sourceOfPair write read, (hOk _).mpr ⟨⟨?_, ?_⟩, rfl⟩, ?_, (hTold ?_).mpr ?_⟩
  · simp [hWriteFields]
  · simp [hReadFields]
  · rw [configOf, locationOf, locationOf, hWriteFields.1, hWriteFields.2, hReadFields.1,
      hReadFields.2]
    decide
  · rw [hWriteFields.2, hReadFields.2]
    decide
  · rw [hWriteFields.1, hWriteFields.2, hReadFields.1, hReadFields.2]
    decide

end ConAnalysis.Trigger
