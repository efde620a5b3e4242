import ConAnalysis.Dataflow.Analysis
import ConAnalysis.Scripts.RoundTrip
import Mathlib.Data.List.Forall2

/-! `parseInput` of the passes: the lines of an input file and their fields. -/
namespace ConAnalysis
open Scanf

/-- The lines that `std::getline` extracts until nothing is left. -/
def getlines : Text → List Text
  | [] => []
  | c :: rest =>
      if c = '\n' then [] :: getlines rest
      else match getlines rest with
        | [] => [[c]]
        | line :: lines => (c :: line) :: lines

/-- What `c_str` shows: a null character ends the text. -/
def cStr (line : Text) : Text := line.takeWhile (· != '\x00')

/-- The ways in which a line goes wrong: the assertion on the result of `sscanf`, and a text
that is written beyond its buffer. -/
inductive LineFault where
  | invalidInputLine
  | bufferOverflow
deriving DecidableEq, Repr

/-- A text and the null character behind it fit in a buffer. -/
def fits (size : Nat) : Field → Bool
  | .text t => t.length < size
  | .number _ => true

/-- `sscanf` into buffers of one size. -/
def sscanf (format : List Directive) (size : Nat) (line : Text) : Except LineFault (List Field) :=
  let fields := scan format (cStr line)
  if fields.all (fits size) then .ok fields else .error .bufferOverflow

/-- What the variables hold behind `sscanf`. Those that it does not assign keep what they
held: they are not initialised, so this can be anything. -/
def assigned (buffers : FuncFileLine) : List Field → FuncFileLine
  | [.text funcName, .text fileName, .number lineNum] =>
      (String.ofList funcName, String.ofList fileName, lineNum)
  | [.text funcName, .text fileName] =>
      (String.ofList funcName, String.ofList fileName, buffers.2.2)
  | [.text funcName] => (String.ofList funcName, buffers.2)
  | _ => buffers

/-- The body of the loops in `parseInput` of `ConAnalysis` and of `SyncLoop`. -/
def parseLine (buffers : FuncFileLine) (line : Text) : Except LineFault FuncFileLine :=
  match sscanf Scripts.inputFormat 256 line with
  | .error fault => .error fault
  | .ok [] => .error .invalidInputLine
  | .ok fields => .ok (assigned buffers fields)

/-- `ConAnalysis::parseInput`, for a file that can be opened. The variables of the loop hold
something else at each line. -/
def parseInput (buffers : Nat → FuncFileLine) (file : Text) :
    Except LineFault (List FuncFileLine) :=
  (getlines file).zipIdx.mapM fun line => parseLine (buffers line.2) line.1

/-- `SyncLoop::parseInput`: the write and the read. A line that is not there is empty. -/
def SyncLoop.parseInput (buffers : Nat → FuncFileLine) (file : Text) :
    Except LineFault (FuncFileLine × FuncFileLine) :=
  (parseLine (buffers 0) ((getlines file)[0]?.getD [])).bind fun write =>
    (parseLine (buffers 1) ((getlines file)[1]?.getD [])).map fun read => (write, read)

namespace DOL

/-- The body of the loop in `DOL::parseInput`, where no assertion stands. -/
def parseLine (buffer : String) (line : Text) : Except LineFault String :=
  match sscanf [.string, .space] 300 line with
  | .error fault => .error fault
  | .ok [.text funcName] => .ok (String.ofList funcName)
  | .ok _ => .ok buffer

/-- `DOL::parseInput`: what `danFuncs_` becomes. -/
def parseInput (buffers : Nat → String) (file : Text) : Except LineFault (Finset String) :=
  ((getlines file).zipIdx.mapM fun line => parseLine (buffers line.2) line.1).map List.toFinset

end DOL

section Lines

/-- A line break ends a line. -/
theorem getlines_append {line : Text} (h : '\n' ∉ line) (rest : Text) :
    getlines (line ++ '\n' :: rest) = line :: getlines rest := by
  induction line with
  | nil => exact if_pos rfl
  | cons c line ih =>
      rw [List.mem_cons, not_or] at h
      rw [List.cons_append, getlines, if_neg (Ne.symm h.1), ih h.2]

/-- Lines that are written one after another are read so. -/
theorem getlines_flatMap {lines : List Text} (h : ∀ line ∈ lines, '\n' ∉ line) :
    getlines (lines.flatMap fun line => line ++ ['\n']) = lines := by
  induction lines with
  | nil => rfl
  | cons line lines ih =>
      rw [List.forall_mem_cons] at h
      rw [List.flatMap_cons, List.append_assoc]
      exact (getlines_append h.1 _).trans (congrArg _ (ih h.2))

/-- A loop that ends at the first fault has an answer for each line or none at all. -/
theorem mapM_eq_ok_iff {α β ε : Type} {f : α → Except ε β} {xs : List α} {ys : List β} :
    xs.mapM f = .ok ys ↔ List.Forall₂ (fun x y => f x = .ok y) xs ys := by
  induction xs generalizing ys with
  | nil =>
      rw [List.mapM_nil, List.forall₂_nil_left_iff]
      exact ⟨fun h => (Except.ok.inj h).symm, fun h => h ▸ rfl⟩
  | cons x xs ih =>
      rw [List.mapM_cons, List.forall₂_cons_left_iff]
      cases hx : f x with
      | error fault =>
          refine iff_of_false (fun hEq => ?_) ?_
          · cases hEq
          · rintro ⟨y, ys, hy, -⟩
            cases hy
      | ok y =>
          cases hxs : xs.mapM f with
          | error fault =>
              refine iff_of_false (fun hEq => ?_) ?_
              · cases hEq
              · rintro ⟨y', ys', -, hys, -⟩
                rw [← ih, hxs] at hys
                cases hys
          | ok ys' =>
              constructor
              · rintro ⟨⟩
                exact ⟨y, ys', rfl, ih.mp hxs, rfl⟩
              · rintro ⟨y', ys'', hy, hys, rfl⟩
                rw [← ih, hxs] at hys
                cases hy
                cases hys
                rfl

/-- Numbers are read into 32 bits. -/
theorem number_lt_of_mem_scan {format : List Directive} {text : Text} {n : Nat}
    (h : .number n ∈ scan format text) : n < 2 ^ 32 := by
  induction format generalizing text with
  | nil => cases h
  | cons directive format ih =>
      cases directive with
      | space => exact ih h
      | exactly c =>
          unfold scan at h
          split at h
          · cases h
          · split at h
            · exact ih h
            · cases h
      | string =>
          simp only [scan] at h
          split at h
          · cases h
          · rcases List.mem_cons.mp h with hEq | hMem
            · cases hEq
            · exact ih hMem
      | scanset p =>
          simp only [scan] at h
          split at h
          · cases h
          · rcases List.mem_cons.mp h with hEq | hMem
            · cases hEq
            · exact ih hMem
      | unsigned =>
          simp only [scan] at h
          split at h
          · cases h
          · rcases List.mem_cons.mp h with hEq | hMem
            · cases hEq
              exact unsignedValue_lt ..
            · exact ih hMem

/-- `sscanf` succeeds with what the format reads, as long as no text overruns its buffer. -/
theorem sscanf_eq_ok_iff {format : List Directive} {size : Nat} {line : Text}
    {fields : List Field} : sscanf format size line = .ok fields ↔
      scan format (cStr line) = fields ∧ ∀ field ∈ fields, fits size field = true := by
  simp only [sscanf, List.all_eq_true]
  split
  · next hFits =>
      rw [Except.ok.injEq]
      exact ⟨fun hEq => ⟨hEq, hEq ▸ hFits⟩, And.left⟩
  · next hNot =>
      refine iff_of_false (fun hEq => ?_) ?_
      · cases hEq
      · rintro ⟨rfl, hFits⟩
        exact hNot hFits

/-- A line is accepted if something is assigned, within the buffers. -/
theorem parseLine_eq_ok_iff {buffers : FuncFileLine} {line : Text} {entry : FuncFileLine} :
    parseLine buffers line = .ok entry ↔
      (Scripts.parseInput (cStr line) ≠ [] ∧
        ∀ field ∈ Scripts.parseInput (cStr line), fits 256 field = true) ∧
      entry = assigned buffers (Scripts.parseInput (cStr line)) := by
  unfold parseLine
  cases hScan : sscanf Scripts.inputFormat 256 line with
  | error fault =>
      refine iff_of_false (fun hEq => ?_) ?_
      · cases hEq
      · rintro ⟨⟨-, hFits⟩, -⟩
        have hOk := sscanf_eq_ok_iff.mpr ⟨rfl, hFits⟩
        cases hScan.symm.trans hOk
  | ok fields =>
      obtain ⟨hFields, hFits⟩ := sscanf_eq_ok_iff.mp hScan
      rw [Scripts.parseInput, hFields]
      cases fields with
      | nil =>
          refine iff_of_false (fun hEq => ?_) fun h => h.1.1 rfl
          cases hEq
      | cons field fields =>
          refine (Except.ok.injEq _ _).to_iff.trans ⟨fun hEq => ?_, fun h => h.2.symm⟩
          exact ⟨⟨List.cons_ne_nil _ _, hFits⟩, hEq.symm⟩

/-- The line number is that of the line only if all three fields are assigned. -/
theorem assigned_line (buffers : FuncFileLine) (fields : List Field) :
    (assigned buffers fields).2.2 = buffers.2.2 ∨ ∃ funcName fileName lineNum,
      fields = [.text funcName, .text fileName, .number lineNum] := by
  unfold assigned
  split
  · exact .inr ⟨_, _, _, rfl⟩
  · exact .inl rfl
  · exact .inl rfl
  · exact .inl rfl

end Lines

namespace Scripts.Record
variable (r : Record)

def entry : FuncFileLine := (String.ofList r.word, String.ofList r.file, numeral r.line)

/-- The entry has the file and the line of the record. -/
def Names (entry : FuncFileLine) : Prop :=
  entry.2.1 = String.ofList r.file ∧ r.lineNum = some entry.2.2

/-- The record can be read, its texts fit in their buffers and its number in 32 bits. -/
structure Arrives : Prop where
  readable : r.Readable
  word : r.word.length < 256
  file : r.file.length < 256
  line : numeral r.line < 2 ^ 32

/-- What is written for the record. -/
def written : Text := r.text ++ ['\n']

def fileOf (records : List Record) : Text := records.flatMap written

/-- The characters of a record are those that the scripts' regular expression lets through, and
the marks put between them. -/
theorem not_mem_text {c : Char} (hName : wordOr "_:~<> ()*,&" c = false)
    (hFile : wordOr "_~./-" c = false) (hLine : c.isDigit = false)
    (hMarks : c ∉ [' ', '(', ':', ')']) : c ∉ r.text := by
  intro hMem
  simp only [text, location, List.mem_append, List.mem_cons, List.not_mem_nil, or_false] at hMem
  simp only [List.mem_cons, List.not_mem_nil, or_false, not_or] at hMarks
  rcases hMem with hMem | hEq | hEq | hMem | hEq | hMem | hEq
  · exact ne_of_wordOr (r.name_chars _ hMem) hName rfl
  · exact hMarks.1 hEq
  · exact hMarks.2.1 hEq
  · exact ne_of_wordOr (r.file_chars _ hMem) hFile rfl
  · exact hMarks.2.2.1 hEq
  · rw [r.line_chars _ hMem] at hLine
    cases hLine
  · exact hMarks.2.2.2 hEq

/-- A record has no null character that would cut it short. -/
theorem cStr_text : cStr r.text = r.text := by
  refine List.takeWhile_eq_self_iff.mpr fun c hc => ?_
  rw [bne_iff_ne]
  rintro rfl
  exact r.not_mem_text (by decide) (by decide) (by decide) (by decide) hc

theorem newline_not_mem_text : '\n' ∉ r.text :=
  r.not_mem_text (by decide) (by decide) (by decide) (by decide)

/-- The lines of a report file are its records, one each. -/
theorem getlines_fileOf (records : List Record) : getlines (fileOf records) = records.map text := by
  have hLines : ∀ line ∈ records.map text, '\n' ∉ line := by
    rw [List.forall_mem_map]
    exact fun r _ => r.newline_not_mem_text
  rw [← getlines_flatMap hLines, List.flatMap_map]
  rfl

/-- What the variables held before does not matter for a record that arrives. -/
theorem Arrives.parseLine (h : r.Arrives) (buffers : FuncFileLine) :
    parseLine buffers r.text = .ok r.entry := by
  obtain ⟨⟨funcName, n, hNum, hFields⟩, -⟩ := (r.readBack_iff h.line).mpr h.readable
  obtain ⟨-, hLine, hWord, -⟩ := h.readable
  rw [lineNum, if_neg hLine, Option.some.injEq] at hNum
  have hName := hFields
  rw [r.parseInput_of_word_ne_nil hWord, List.cons.injEq, Field.text.injEq] at hName
  rw [← hName.1, ← hNum] at hFields
  rw [parseLine_eq_ok_iff, cStr_text, hFields]
  refine ⟨⟨List.cons_ne_nil _ _, ?_⟩, rfl⟩
  simp [fits, h.word, h.file]

/-- What is made of a record that arrives has its file and its line. -/
theorem Arrives.names (h : r.Arrives) : r.Names r.entry :=
  ⟨rfl, if_neg h.readable.2.1⟩

/-- Variables that hold another line number than that of the record. -/
def stray : FuncFileLine := ("", "", if r.lineNum = some 0 then 1 else 0)

/-- The number left in such variables is not that of the record. -/
theorem lineNum_ne_stray : r.lineNum ≠ some r.stray.2.2 := by
  intro hEq
  unfold stray at hEq
  by_cases hZero : r.lineNum = some 0
  · rw [if_pos hZero, hZero] at hEq
    cases hEq
  · rw [if_neg hZero] at hEq
    exact hZero hEq

/-- From such variables, the file and the line of the record can only come from its line. -/
theorem arrives_of_stray {entry : FuncFileLine}
    (hParse : ConAnalysis.parseLine r.stray r.text = .ok entry) (hNames : r.Names entry) :
    r.Arrives := by
  obtain ⟨hFile, hNum⟩ := hNames
  obtain ⟨⟨-, hFits⟩, rfl⟩ := parseLine_eq_ok_iff.mp hParse
  rw [cStr_text] at hFits hFile hNum
  rcases assigned_line r.stray (parseInput r.text) with hStray | ⟨funcName, fileName, n, hFields⟩
  · rw [hStray] at hNum
    exact absurd hNum r.lineNum_ne_stray
  · rw [hFields] at hFits hFile hNum
    obtain rfl : fileName = r.file := String.ofList_injective hFile
    have hMem : .number n ∈ scan inputFormat r.text := by
      rw [← parseInput, hFields]
      simp
    have hLt : n < 2 ^ 32 := number_lt_of_mem_scan hMem
    have hLine : numeral r.line < 2 ^ 32 := by
      rw [lineNum] at hNum
      split at hNum
      · cases hNum
      · rwa [Option.some.inj hNum]
    have hReadable : r.Readable :=
      (r.readBack_iff hLine).mp ⟨⟨funcName, n, hNum, hFields⟩, r.breakpoint_text⟩
    rw [r.parseInput_of_word_ne_nil hReadable.2.2.1, List.cons.injEq, Field.text.injEq] at hFields
    simp only [List.forall_mem_cons, fits, decide_eq_true_eq] at hFits
    exact ⟨hReadable, hFields.1 ▸ hFits.1, hFits.2.1, hLine⟩

/-- A file of records that arrive is read whatever the variables hold. -/
theorem parseInput_fileOf {records : List Record} (h : ∀ r ∈ records, r.Arrives)
    (buffers : Nat → FuncFileLine) :
    ConAnalysis.parseInput buffers (fileOf records) = .ok (records.map entry) := by
  have hEntries : records.map entry = (records.zipIdx.map Prod.fst).map entry := by
    rw [List.zipIdx_map_fst]
  rw [ConAnalysis.parseInput, getlines_fileOf, mapM_eq_ok_iff, List.zipIdx_map, hEntries,
    List.map_map, List.forall₂_map_left_iff, List.forall₂_map_right_iff, List.forall₂_same]
  exact fun line hLine => (h line.1 (List.fst_mem_of_mem_zipIdx hLine)).parseLine _ _

/-- A file is read with all its files and lines, whatever the variables of the loop held before,
exactly if all its records arrive. -/
theorem forall_parseInput_iff {records : List Record} :
    (∀ buffers, ∃ csinput, ConAnalysis.parseInput buffers (fileOf records) = .ok csinput ∧
      List.Forall₂ Names records csinput) ↔ ∀ r ∈ records, r.Arrives := by
  constructor
  · intro h r hr
    obtain ⟨csinput, hParse, hNames⟩ := h fun _ => r.stray
    rw [ConAnalysis.parseInput, getlines_fileOf, mapM_eq_ok_iff, List.zipIdx_map,
      List.forall₂_map_left_iff] at hParse
    have hNamed : List.Forall₂ Names (records.zipIdx.map Prod.fst) csinput := by
      rwa [List.zipIdx_map_fst]
    rw [List.forall₂_map_left_iff] at hNamed
    have hArrives : List.Forall₂ (fun line entry => (line.1 = r → r.Arrives) ∧ line.1.Names entry)
        records.zipIdx csinput := by
      refine hParse.mp (fun line entry hLine hName => ⟨?_, hName⟩) hNamed
      rintro rfl
      exact line.1.arrives_of_stray hLine hName
    obtain ⟨i, hi⟩ := List.mem_iff_getElem?.mp hr
    have hMem : (r, i) ∈ records.zipIdx := List.mk_mem_zipIdx_iff_getElem?.mpr hi
    exact ((List.forall₂_and_left _ _).mp hArrives).1 (r, i) hMem rfl
  · intro h buffers
    refine ⟨records.map entry, parseInput_fileOf h buffers, ?_⟩
    rw [List.forall₂_map_right_iff, List.forall₂_same]
    exact fun r hr => (h r hr).names

/-- The two lines of a pair are read one after the other. -/
theorem parsePair_eq (buffers : Nat → FuncFileLine) (write read : Record) :
    SyncLoop.parseInput buffers (fileOf [write, read]) =
      (ConAnalysis.parseLine (buffers 0) write.text).bind fun first =>
        (ConAnalysis.parseLine (buffers 1) read.text).map fun second => (first, second) := by
  rw [SyncLoop.parseInput, getlines_fileOf]
  rfl

/-- The pair of a write and a read that arrive is read whatever the variables hold. -/
theorem parsePair_fileOf {write read : Record} (hWrite : write.Arrives) (hRead : read.Arrives)
    (buffers : Nat → FuncFileLine) :
    SyncLoop.parseInput buffers (fileOf [write, read]) = .ok (write.entry, read.entry) := by
  rw [parsePair_eq, hWrite.parseLine, hRead.parseLine]
  rfl

/-- A pair is read only if both of its lines are. -/
theorem parsePair_eq_ok {buffers : Nat → FuncFileLine} {write read : Record}
    {racingLines : FuncFileLine × FuncFileLine}
    (h : SyncLoop.parseInput buffers (fileOf [write, read]) = .ok racingLines) :
    ConAnalysis.parseLine (buffers 0) write.text = .ok racingLines.1 ∧
      ConAnalysis.parseLine (buffers 1) read.text = .ok racingLines.2 := by
  rw [parsePair_eq] at h
  cases hWrite : ConAnalysis.parseLine (buffers 0) write.text with
  | error fault =>
      rw [hWrite] at h
      cases h
  | ok first =>
      cases hRead : ConAnalysis.parseLine (buffers 1) read.text with
      | error fault =>
          rw [hWrite, hRead] at h
          cases h
      | ok second =>
          rw [hWrite, hRead] at h
          cases h
          exact ⟨rfl, rfl⟩

/-- The same for the two records of a pair. -/
theorem forall_parsePair_iff {write read : Record} :
    (∀ buffers, ∃ racingLines,
      SyncLoop.parseInput buffers (fileOf [write, read]) = .ok racingLines ∧
        write.Names racingLines.1 ∧ read.Names racingLines.2) ↔ write.Arrives ∧ read.Arrives := by
  constructor
  · intro h
    constructor
    · obtain ⟨racingLines, hParse, hNames, -⟩ := h fun _ => write.stray
      exact write.arrives_of_stray (parsePair_eq_ok hParse).1 hNames
    · obtain ⟨racingLines, hParse, -, hNames⟩ := h fun _ => read.stray
      exact read.arrives_of_stray (parsePair_eq_ok hParse).2 hNames
  · rintro ⟨hWrite, hRead⟩ buffers
    exact ⟨_, parsePair_fileOf hWrite hRead buffers, hWrite.names, hRead.names⟩

end Scripts.Record
end ConAnalysis
