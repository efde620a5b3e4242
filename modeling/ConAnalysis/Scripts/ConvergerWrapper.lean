import ConAnalysis.Scripts.PlainNames
import ConAnalysis.Scripts.ReportFiles
import Mathlib.Data.List.Dedup
import Mathlib.Logic.Equiv.List

/-! `convergerWrapper.sh`: the parser is run on four logs, the four folders are merged one
after the other, and of the files with the same content one is left. -/
namespace ConAnalysis.Scripts

namespace Tsan
open Regex

/-- `main` of `tsanOutputParser.py` in the normal mode: the files, with their numbers. -/
def mainNormal (outputtype : OutputType) (log : List Text) : List (Nat × List Text) :=
  if outputtype = .conanalysis then (runNormalConAnalysis log).files
  else (runNormalSyncLoop outputtype log).files

section Numbers

/-- The files that a parser writes are numbered from zero on, without gaps. -/
theorem CallStacks.numbers_flush {s : CallStacks}
    (h : s.files.map Prod.fst = List.range s.outFileNo) :
    s.flush.files.map Prod.fst = List.range s.flush.outFileNo := by
  unfold flush
  split
  · simp [h, List.range_succ]
  · exact h

theorem CallStacks.numbers_collect {s : CallStacks} (skips : Text → Bool) (line : Text)
    (h : s.files.map Prod.fst = List.range s.outFileNo) :
    (s.collect skips line).files.map Prod.fst =
      List.range (s.collect skips line).outFileNo := by
  rw [collect_eq]
  cases kind line with
  | lineBreak => exact numbers_flush h
  | blockEnd =>
      exact @numbers_flush { s with flagBlockStart := false, flagReadStart := false } h
  | callStackLine captures =>
      simp only [collectKind]
      split
      · split <;> exact h
      · exact h
  | _ => exact h

theorem SyncLoop.numbers_flush {s : SyncLoop}
    (h : s.files.map Prod.fst = List.range s.outFileNo) :
    s.flush.files.map Prod.fst = List.range s.flush.outFileNo := by
  unfold flush
  split
  · simp [h, List.range_succ]
  · exact h

theorem SyncLoop.numbers_writeFrame {s : SyncLoop} (outputtype : OutputType) (captures : Captures)
    (h : s.files.map Prod.fst = List.range s.outFileNo) :
    (s.writeFrame outputtype captures).files.map Prod.fst =
      List.range (s.writeFrame outputtype captures).outFileNo := by
  unfold writeFrame
  split
  · split
    · split <;> exact h
    · split <;> exact h
  · exact h

theorem SyncLoop.numbers_step {s : SyncLoop} (outputtype : OutputType) (line : Text)
    (h : s.files.map Prod.fst = List.range s.outFileNo) :
    (s.step outputtype line).files.map Prod.fst =
      List.range (s.step outputtype line).outFileNo := by
  rw [step_eq]
  cases kind line with
  | lineBreak => exact numbers_flush h
  | blockEnd =>
      exact @numbers_flush
        { s with flagBlockStart := false, flagReadStart := false, flagWriteStart := false } h
  | callStackLine captures =>
      simp only [stepKind, frame]
      split
      · split
        · split <;> exact h
        · split <;> exact numbers_writeFrame outputtype captures h
      · exact numbers_writeFrame outputtype captures h
  | _ => exact h

/-- No number is given twice. -/
theorem nodup_mainNormal (outputtype : OutputType) (log : List Text) :
    ((mainNormal outputtype log).map Prod.fst).Nodup := by
  unfold mainNormal
  split
  · have h : (runNormalConAnalysis log).files.map Prod.fst =
        List.range (runNormalConAnalysis log).outFileNo :=
      List.foldlRecOn (motive := fun s : CallStacks =>
        s.files.map Prod.fst = List.range s.outFileNo) _ _ rfl
        fun _ hs line _ => CallStacks.numbers_collect _ line hs
    rw [h]
    exact List.nodup_range
  · have h : (runNormalSyncLoop outputtype log).files.map Prod.fst =
        List.range (runNormalSyncLoop outputtype log).outFileNo :=
      List.foldlRecOn (motive := fun s : SyncLoop =>
        s.files.map Prod.fst = List.range s.outFileNo) _ _ rfl
        fun _ hs line _ => SyncLoop.numbers_step outputtype line hs
    rw [h]
    exact List.nodup_range

end Numbers
end Tsan

namespace Converger

section Runs

/-- A run: its number, the log of the sanitizer, and what the parser logs. -/
structure Run where
  number : Char
  log : List Text
  logged : Text

def Run.reports (outputtype : Tsan.OutputType) (run : Run) : List (Text × Text) :=
  (Tsan.mainNormal outputtype run.log).map fun file =>
    (reportName run.number file.1, file.2.flatten)

theorem reportName_injective (run : Char) : Function.Injective (reportName run) := by
  intro m n h
  simp only [reportName, List.append_cancel_left_eq, List.cons.injEq, true_and,
    List.append_cancel_right_eq] at h
  exact toDigits_injective h

def Run.folder (outputtype : Tsan.OutputType) (run : Run) : Folder Text where
  path := "run".toList ++ [run.number]
  files := run.reports outputtype ++ [(parserLog, run.logged)]
  nodup := by
    have hReports : ((run.reports outputtype).map Prod.fst) =
        ((Tsan.mainNormal outputtype run.log).map Prod.fst).map (reportName run.number) := by
      simp [Run.reports]
    rw [List.map_append, hReports, List.map_singleton, List.nodup_append]
    refine ⟨(Tsan.nodup_mainNormal ..).map (reportName_injective _), List.nodup_singleton _, ?_⟩
    intro name hName other hOther
    obtain ⟨n, -, rfl⟩ := List.mem_map.mp hName
    rw [List.mem_singleton.mp hOther]
    exact reportName_ne_parserLog _ _

/-- A line of a log starts with the date. -/
def Dated (text : Text) : Prop :=
  ∃ year rest, (∀ c ∈ year, c.isDigit = true) ∧ text = year ++ '-' :: rest

/-- A record starts with the name of a function, in which there is no hyphen. -/
theorem Record.not_dated (r : Record) (more : Text) : ¬Dated (r.written ++ more) := by
  rintro ⟨year, rest, hYear, hText⟩
  have hName : '-' ∉ r.name := fun hMem => (r.name_ne '-' hMem).1 rfl
  have hSplit : r.name ++ ' ' :: (r.location ++ '\n' :: more) = year ++ '-' :: rest := by
    rw [← hText]
    simp [Record.written, Record.text]
  rcases List.append_eq_append_iff.mp hSplit with ⟨left, hLeft, hBehind⟩ | ⟨left, hLeft, hBehind⟩
  · cases left with
    | nil => cases (List.cons.inj hBehind).1
    | cons c left =>
        obtain ⟨rfl, -⟩ := List.cons.inj hBehind
        cases hYear ' ' (hLeft ▸ by simp)
  · cases left with
    | nil => cases (List.cons.inj hBehind).1
    | cons c left =>
        obtain ⟨rfl, -⟩ := List.cons.inj hBehind
        exact hName (hLeft ▸ by simp)

/-- No report looks like a log. -/
theorem not_dated_of_mem_reports {outputtype : Tsan.OutputType} {run : Run} {report : Text × Text}
    (h : report ∈ run.reports outputtype) : ¬Dated report.2 := by
  obtain ⟨⟨n, content⟩, hFile, rfl⟩ := List.mem_map.mp h
  unfold Tsan.mainNormal at hFile
  split at hFile
  · obtain ⟨records, hNe, rfl⟩ := (WrittenStack.normal run.log n hFile).stackOfRecords
    obtain ⟨r, records, rfl⟩ := List.exists_cons_of_ne_nil hNe
    exact Record.not_dated r _
  · obtain ⟨write, read, rfl⟩ := (WrittenPair.tsan outputtype run.log n hFile).pairOfRecords
    exact Record.not_dated write _

end Runs

section Merged
variable (sh : Shell Text) (path : Text) (folder1 folder2 : Folder Text)

/-- The folder that `tsanOutputConverger.sh` leaves behind. -/
def mergedFolder : Folder Text where
  path := path
  files := (folder1.names ++ (converge sh folder1 folder2).received.map Prod.fst).dedup.filterMap
    fun name => ((converge sh folder1 folder2).merged name).map fun c => (name, c)
  nodup := by
    rw [List.map_filterMap]
    refine List.Nodup.filterMap ?_ (List.nodup_dedup _)
    intro name name' other hName hName'
    simp only [Option.map_map, Option.mem_def, Option.map_eq_some_iff, Function.comp_apply] at *
    obtain ⟨-, -, rfl⟩ := hName
    obtain ⟨-, -, rfl⟩ := hName'
    rfl

variable {sh path folder1 folder2}

/-- The files of the merged folder are what its names stand for. -/
theorem mem_mergedFolder {name c : Text} :
    (name, c) ∈ (mergedFolder sh path folder1 folder2).files ↔
      (converge sh folder1 folder2).merged name = some c := by
  have hMem : (name, c) ∈ (mergedFolder sh path folder1 folder2).files ↔
      (name ∈ folder1.names ∨ name ∈ (converge sh folder1 folder2).received.map Prod.fst) ∧
        (converge sh folder1 folder2).merged name = some c := by
    simp [mergedFolder, List.mem_filterMap]
  refine hMem.trans (and_iff_right_of_imp fun hMerged => ?_)
  rw [converge_merged, Option.or_eq_some_iff] at hMerged
  rw [converge_received]
  rcases hMerged with hLast | ⟨-, hOld⟩
  · exact .inr (List.mem_map_of_mem (mem_of_lastContent hLast))
  · exact .inl (List.mem_map_of_mem (mem_of_lookup hOld))

/-- With plain files the copies are the files whose content is new. -/
theorem mem_newFiles_plain {md5 : Text → Text} (hMd5 : Function.Injective md5)
    (h₁ : PlainFiles sh md5 folder1) (h₂ : PlainFiles sh md5 folder2) (other : Text × Text) :
    other ∈ newFiles sh folder1 folder2 ↔
      other ∈ folder2.files ∧ other.2 ∉ folder1.contents := by
  rw [h₂.newFiles_eq, List.mem_filter]
  refine and_congr_right fun hOther => ?_
  rw [Bool.not_eq_true', ← Bool.not_eq_true, h₁.found_iff hMd5 h₂ hOther]

/-- Plain files are copied under their own names, which differ. -/
theorem nodup_newFiles_plain {md5 : Text → Text} (folder1 : Folder Text)
    (h₂ : PlainFiles sh md5 folder2) : ((newFiles sh folder1 folder2).map Prod.fst).Nodup := by
  rw [h₂.newFiles_eq]
  exact folder2.nodup.sublist (List.filter_sublist.map Prod.fst)

/-- With plain files: the files whose content is new, and the files of the first folder that have
none of their names. -/
theorem mem_mergedFolder_plain {md5 : Text → Text} (hMd5 : Function.Injective md5)
    (h₁ : PlainFiles sh md5 folder1) (h₂ : PlainFiles sh md5 folder2) {file : Text × Text} :
    file ∈ (mergedFolder sh path folder1 folder2).files ↔
      (file ∈ folder2.files ∧ file.2 ∉ folder1.contents) ∨
      (file ∈ folder1.files ∧
        ∀ other ∈ folder2.files, other.1 = file.1 → other.2 ∈ folder1.contents) := by
  obtain ⟨name, c⟩ := file
  have hNew : ∀ other, other ∈ newFiles sh folder1 folder2 ↔
      other ∈ folder2.files ∧ other.2 ∉ folder1.contents := mem_newFiles_plain hMd5 h₁ h₂
  have hNodup := nodup_newFiles_plain folder1 h₂
  rw [mem_mergedFolder, converge_merged, Option.or_eq_some_iff, ← hNew (name, c)]
  refine or_congr ⟨mem_of_lastContent, lastContent_of_mem hNodup⟩ ?_
  rw [← Folder.content_eq_some, and_comm]
  refine and_congr_right fun _ => ?_
  constructor
  · intro hNone other hOther hName
    by_contra hNot
    have hMem : name ∈ (newFiles sh folder1 folder2).map Prod.fst :=
      List.mem_map.mpr ⟨other, (hNew other).mpr ⟨hOther, hNot⟩, hName⟩
    obtain ⟨c', hSome⟩ := exists_lastContent hMem
    rw [hNone] at hSome
    cases hSome
  · intro hAll
    refine lastContent_eq_none fun hMem => ?_
    obtain ⟨other, hOther, hName⟩ := List.mem_map.mp hMem
    obtain ⟨hFile, hNot⟩ := (hNew other).mp hOther
    exact hNot (hAll other hFile hName)

end Merged

section Chain
variable {sh : Shell Text} {md5 : Text → Text} {folders : List (Folder Text)}
variable {outputtype : Tsan.OutputType} {runs : List Run} {R : Run} {T : Folder Text}

/-- The folder holds each report of the runs, of each of them under one of its names, and
nothing else but a log. -/
structure Holds (outputtype : Tsan.OutputType) (runs : List Run) (T : Folder Text) : Prop where
  own : ∀ file ∈ T.files, (file.1 = parserLog ∧ Dated file.2) ∨
    ∃ run ∈ runs, file ∈ run.reports outputtype
  reports : ∀ run ∈ runs, ∀ report ∈ run.reports outputtype,
    ∃ name, name ≠ parserLog ∧ (name, report.2) ∈ T.files
  logged : ∃ c, (parserLog, c) ∈ T.files

theorem holds_folder (hDated : Dated R.logged) : Holds outputtype [R] (R.folder outputtype) := by
  refine ⟨fun file hFile => ?_, fun run hRun report hReport => ?_, R.logged, by simp [Run.folder]⟩
  · rcases List.mem_append.mp hFile with hReport | hLog
    · exact .inr ⟨R, List.mem_singleton_self _, hReport⟩
    · rw [List.mem_singleton.mp hLog]
      exact .inl ⟨rfl, hDated⟩
  · rw [List.mem_singleton.mp hRun] at hReport
    refine ⟨report.1, ?_, List.mem_append_left _ hReport⟩
    obtain ⟨file, -, rfl⟩ := List.mem_map.mp hReport
    exact reportName_ne_parserLog _ _

theorem Holds.ne_nil (h : Holds outputtype runs T) : T.files ≠ [] := by
  obtain ⟨c, hLog⟩ := h.logged
  exact List.ne_nil_of_mem hLog

/-- All files that are merged have names of runs, which the shell takes as they are. -/
theorem Holds.runName (h : Holds outputtype runs T)
    (hNumbers : ∀ run ∈ runs, run.number.isDigit = true) : ∀ file ∈ T.files, RunName file.1 := by
  intro file hFile
  rcases h.own file hFile with ⟨hLog, -⟩ | ⟨run, hRun, hReport⟩
  · exact .inl hLog
  · obtain ⟨report, -, rfl⟩ := List.mem_map.mp hReport
    exact .inr ⟨run.number, report.1, hNumbers run hRun, rfl⟩

/-- One merge adds the reports of the next run. Of the names only that of the log is taken
twice, and no report is mistaken for a log. -/
theorem Holds.merge (h : Holds outputtype runs T) (hMd5 : Function.Injective md5)
    (h₁ : PlainFiles sh md5 T) (h₂ : PlainFiles sh md5 (R.folder outputtype))
    (hFresh : ∀ run ∈ runs, run.number ≠ R.number) (hDated : Dated R.logged) (path : Text) :
    Holds outputtype (runs ++ [R]) (mergedFolder sh path T (R.folder outputtype)) := by
  have hMem := @mem_mergedFolder_plain sh path T (R.folder outputtype) md5 hMd5 h₁ h₂
  have hKept : ∀ name c, name ≠ parserLog → (name, c) ∈ T.files →
      (name, c) ∈ (mergedFolder sh path T (R.folder outputtype)).files := by
    intro name c hName hOld
    refine hMem.mpr (.inr ⟨hOld, fun other hOther hEq => ?_⟩)
    rcases List.mem_append.mp hOther with hReport | hLog
    · obtain ⟨⟨n, content⟩, -, rfl⟩ := List.mem_map.mp hReport
      rcases h.own _ hOld with ⟨hLog, -⟩ | ⟨run, hRun, hOldReport⟩
      · exact absurd hLog hName
      · obtain ⟨⟨n', content'⟩, -, hFile⟩ := List.mem_map.mp hOldReport
        obtain ⟨rfl, -⟩ := Prod.mk.inj hFile
        simp only [reportName, List.append_cancel_left_eq, List.cons.injEq] at hEq
        exact absurd hEq.1.symm (hFresh run hRun)
    · rw [List.mem_singleton.mp hLog] at hEq
      exact absurd hEq.symm hName
  refine ⟨?_, ?_, ?_⟩
  · intro file hFile
    rcases hMem.mp hFile with ⟨hNew, -⟩ | ⟨hOld, -⟩
    · rcases List.mem_append.mp hNew with hReport | hLog
      · exact .inr ⟨R, by simp, hReport⟩
      · rw [List.mem_singleton.mp hLog]
        exact .inl ⟨rfl, hDated⟩
    · rcases h.own file hOld with hLog | hReport
      · exact .inl hLog
      · obtain ⟨run, hRun, hMade⟩ := hReport
        exact .inr ⟨run, List.mem_append_left _ hRun, hMade⟩
  · intro run hRun report hReport
    rcases List.mem_append.mp hRun with hOld | hNew
    · obtain ⟨name, hName, hFile⟩ := h.reports run hOld report hReport
      exact ⟨name, hName, hKept name _ hName hFile⟩
    · rw [List.mem_singleton.mp hNew] at hReport
      by_cases hFound : report.2 ∈ T.contents
      · obtain ⟨⟨name, c⟩, hFile, hContent⟩ := List.mem_map.mp hFound
        obtain rfl : c = report.2 := hContent
        have hName : name ≠ parserLog := by
          intro hLog
          rcases h.own _ hFile with ⟨-, hDate⟩ | ⟨run', -, hReport'⟩
          · exact not_dated_of_mem_reports hReport hDate
          · obtain ⟨file, -, hEq⟩ := List.mem_map.mp hReport'
            exact reportName_ne_parserLog _ _ ((congrArg Prod.fst hEq).trans hLog)
        exact ⟨name, hName, hKept name _ hName hFile⟩
      · refine ⟨report.1, ?_, hMem.mpr (.inl ⟨List.mem_append_left _ hReport, hFound⟩)⟩
        obtain ⟨file, -, rfl⟩ := List.mem_map.mp hReport
        exact reportName_ne_parserLog _ _
  · obtain ⟨c, hLog⟩ := h.logged
    by_cases hNew : R.logged ∈ T.contents
    · refine ⟨c, hMem.mpr (.inr ⟨hLog, fun other hOther hName => ?_⟩)⟩
      rcases List.mem_append.mp hOther with hReport | hOwn
      · obtain ⟨file, -, rfl⟩ := List.mem_map.mp hReport
        exact absurd hName (reportName_ne_parserLog _ _)
      · rw [List.mem_singleton.mp hOwn]
        exact hNew
    · exact ⟨R.logged, hMem.mpr (.inl ⟨by simp [Run.folder], hNew⟩)⟩

end Chain

/-- What is documented of `fdupes . -dqN`: of the files with the same content one is preserved,
and the others are deleted. -/
structure DocumentedFdupes (fdupes : List (Text × Text) → List (Text × Text)) : Prop where
  subset : ∀ files, fdupes files ⊆ files
  preserved : ∀ files, ∀ file ∈ files, ∃ kept ∈ fdupes files, kept.2 = file.2
  deleted : ∀ files, ∀ kept ∈ fdupes files, ∀ other ∈ fdupes files, kept.2 = other.2 → kept = other

/-- The type of the output, the four logs, and what the parser logs in its four runs. -/
structure WrapperInput where
  outputtype : Tsan.OutputType
  log : Fin 4 → List Text
  logged : Fin 4 → Text

namespace WrapperInput
variable (input : WrapperInput) (sh : Shell Text)
  (fdupes : List (Text × Text) → List (Text × Text))

def run (i : Fin 4) : Run where
  number := Nat.digitChar (i + 1)
  log := input.log i
  logged := input.logged i

/-- `run1` to `run4`. -/
def runFolder (i : Fin 4) : Folder Text := (input.run i).folder input.outputtype

def tmp1 : Folder Text := mergedFolder sh "tmp1".toList (input.runFolder 0) (input.runFolder 1)

def tmp2 : Folder Text := mergedFolder sh "tmp2".toList (input.tmp1 sh) (input.runFolder 2)

def tmp3 : Folder Text := mergedFolder sh "tmp3".toList (input.tmp2 sh) (input.runFolder 3)

/-- `convergerWrapper.sh`: what is in the folder `result` at the end. -/
def convergerWrapper : List (Text × Text) := fdupes (input.tmp3 sh).files

def folders : List (Folder Text) :=
  [input.runFolder 0, input.runFolder 1, input.runFolder 2, input.runFolder 3, input.tmp1 sh,
    input.tmp2 sh]

end WrapperInput

/-- What the four runs report is left with each content exactly once, though the merges copy by
name: every report is a report of one of the runs under its own name, and for each of their
reports one with the same content is there. -/
theorem convergerWrapper_result (input : WrapperInput) {sh : Shell Text} {md5 : Text → Text}
    {fdupes : List (Text × Text) → List (Text × Text)}
    (hDoc : Documented sh md5 (input.folders sh)) (hFdupes : DocumentedFdupes fdupes)
    (hMd5 : Function.Injective md5) (hDated : ∀ i, Dated (input.logged i)) :
    (∀ file ∈ input.convergerWrapper sh fdupes, file.1 ≠ parserLog →
      ∃ i, file ∈ (input.run i).reports input.outputtype) ∧
    ∀ i, ∀ report ∈ (input.run i).reports input.outputtype,
      ∃! file, file ∈ input.convergerWrapper sh fdupes ∧ file.2 = report.2 := by
  have hDigit : ∀ i, (input.run i).number.isDigit = true := by
    have hAll : ∀ i : Fin 4, (Nat.digitChar (i + 1)).isDigit = true := by decide
    exact hAll
  have hPath : ∀ i, ∀ c ∈ (input.runFolder i).path, c.isAlphanum = true := by
    have hAll : ∀ i : Fin 4,
        ("run".toList ++ [Nat.digitChar (i + 1)]).all Char.isAlphanum = true := by decide
    exact fun i => List.all_eq_true.mp (hAll i)
  have hNe : ∀ i j, i ≠ j → (input.run i).number ≠ (input.run j).number := by
    have hAll : ∀ i j : Fin 4, i ≠ j → Nat.digitChar (i + 1) ≠ Nat.digitChar (j + 1) := by decide
    exact hAll
  have hTmp1Path : ∀ c ∈ "tmp1".toList, c.isAlphanum = true :=
    List.all_iff_forall_prop.mp (by decide)
  have hTmp2Path : ∀ c ∈ "tmp2".toList, c.isAlphanum = true :=
    List.all_iff_forall_prop.mp (by decide)
  have hMem : ∀ i, input.runFolder i ∈ input.folders sh
    | 0 | 1 | 2 | 3 => by simp [WrapperInput.folders]
  have hRun : ∀ i, PlainFiles sh md5 (input.runFolder i) := by
    intro i
    have hHolds : Holds input.outputtype [input.run i] (input.runFolder i) :=
      holds_folder (hDated i)
    exact plainFiles hDoc (hMem i) (hPath i) (hHolds.runName (by simp [hDigit])) hHolds.ne_nil
  have hFirst : Holds input.outputtype [input.run 0] (input.runFolder 0) := holds_folder (hDated 0)
  have hSecond : Holds input.outputtype [input.run 0, input.run 1] (input.tmp1 sh) :=
    hFirst.merge hMd5 (hRun 0) (hRun 1) (by simp [hNe]) (hDated 1) _
  have hTmp1 : PlainFiles sh md5 (input.tmp1 sh) :=
    plainFiles hDoc (by simp [WrapperInput.folders]) hTmp1Path
      (hSecond.runName (by simp [hDigit])) hSecond.ne_nil
  have hThird : Holds input.outputtype [input.run 0, input.run 1, input.run 2] (input.tmp2 sh) :=
    hSecond.merge hMd5 hTmp1 (hRun 2) (by simp [hNe]) (hDated 2) _
  have hTmp2 : PlainFiles sh md5 (input.tmp2 sh) :=
    plainFiles hDoc (by simp [WrapperInput.folders]) hTmp2Path
      (hThird.runName (by simp [hDigit])) hThird.ne_nil
  have hFourth : Holds input.outputtype [input.run 0, input.run 1, input.run 2, input.run 3]
      (input.tmp3 sh) :=
    hThird.merge hMd5 hTmp2 (hRun 3) (by simp [hNe]) (hDated 3) _
  refine ⟨fun file hFile hName => ?_, fun i report hReport => ?_⟩
  · rcases hFourth.own file (hFdupes.subset _ hFile) with ⟨hLog, -⟩ | ⟨run, hMem, hReport⟩
    · exact absurd hLog hName
    · simp only [List.mem_cons, List.not_mem_nil, or_false] at hMem
      rcases hMem with rfl | rfl | rfl | rfl
      · exact ⟨0, hReport⟩
      · exact ⟨1, hReport⟩
      · exact ⟨2, hReport⟩
      · exact ⟨3, hReport⟩
  · have hIn : input.run i ∈ [input.run 0, input.run 1, input.run 2, input.run 3] :=
      match i with
      | 0 | 1 | 2 | 3 => by simp
    obtain ⟨name, -, hFile⟩ := hFourth.reports _ hIn report hReport
    obtain ⟨kept, hKept, hContent⟩ := hFdupes.preserved _ (name, report.2) hFile
    refine ⟨kept, ⟨hKept, hContent⟩, ?_⟩
    rintro other ⟨hOther, hSame⟩
    exact hFdupes.deleted _ other hOther kept hKept (hSame.trans hContent.symm)

/-- A checksum without collisions. -/
def checksum (content : Text) : Text :=
  Nat.toDigits 10 (Encodable.encode (content.map Char.toNat))

/-- Texts are numbered, so different texts have different checksums. -/
theorem checksum_injective : Function.Injective checksum :=
  toDigits_injective.comp (Encodable.encode_injective.comp
    (List.map_injective_iff.mpr fun _ _ h => Char.toNat_inj.mp h))

/-- A shell for files that have the same content in every folder. -/
def shellOf (files : List (Text × Text)) : Shell Text where
  words f := [f]
  md5sum path content := checksum content ++ ' ' :: ' ' :: path
  grep patterns lines := patterns.flatMap fun pattern =>
    lines.filter fun line => line.tails.any (matchesAt pattern)
  cp sources := files.filter fun file =>
    sources.any fun source => file.1 = (source.dropWhile (· ≠ '/')).tail

/-- A shell whose words and patterns are plain behaves as documented. -/
theorem documented_shellOf {files : List (Text × Text)} {folders : List (Folder Text)}
    (hNodup : (files.map Prod.fst).Nodup) (hPaths : ∀ F ∈ folders, '/' ∉ F.path)
    (hFiles : ∀ F ∈ folders, F.files ⊆ files) : Documented (shellOf files) checksum folders where
  words _ _ := rfl
  md5sum _ _ _ := rfl
  hexadecimal content := by
    refine ⟨Nat.toDigits_ne_nil, fun c hc => ?_⟩
    simp [Char.isAlphanum, isDigit_toDigits hc]
  grep pattern lines _ := by simp [shellOf]
  cp F hMem file hFile := by
    have hBase : ((F.pathOf file.1).dropWhile (· ≠ '/')).tail = file.1 := by
      have hDir : ∀ c ∈ F.path, decide (c ≠ '/') = true := by
        intro c hc
        rw [decide_eq_true_eq]
        rintro rfl
        exact hPaths F hMem hc
      rw [Folder.pathOf, List.dropWhile_append_of_pos hDir, List.dropWhile_cons_of_neg (by simp)]
      rfl
    have hCopies : (shellOf files).cp [F.pathOf file.1] =
        files.filter fun other => other.1 = file.1 := by
      simp only [shellOf, List.any_cons, List.any_nil, Bool.or_false, hBase]
    rw [hCopies, filter_name_eq hNodup (hFiles F hMem hFile)]

/-- The files have different contents. -/
def Differ (file other : Text × Text) : Prop := file.2 ≠ other.2

instance : DecidableRel Differ := fun file other => inferInstanceAs (Decidable (file.2 ≠ other.2))

instance : Std.Symm Differ := ⟨fun _ _ h => Ne.symm h⟩

/-- Of the files with the same content the first one is left. -/
def keepFirst (files : List (Text × Text)) : List (Text × Text) :=
  (files.reverse.pwFilter Differ).reverse

/-- Keeping the first file of each content is one way to behave as documented. -/
theorem documentedFdupes_keepFirst : DocumentedFdupes keepFirst where
  subset files file hFile := by
    have hMem := List.pwFilter_subset _ (List.mem_reverse.mp hFile)
    exact List.mem_reverse.mp hMem
  preserved files file hFile := by
    by_contra hNone
    have hAll : ∀ kept ∈ files.reverse.pwFilter Differ, Differ file kept :=
      fun kept hKept hEq => hNone ⟨kept, List.mem_reverse.mpr hKept, hEq.symm⟩
    have hTrans : ∀ {a b c : Text × Text}, Differ a c → Differ a b ∨ Differ b c := by
      intro a b c hNe
      exact Decidable.or_iff_not_imp_left.mpr fun hSame hEq => hSame fun hab => hNe (hab.trans hEq)
    have hDiffer := (List.forall_mem_pwFilter (R := Differ) hTrans file files.reverse).mp hAll
    exact hDiffer file (List.mem_reverse.mpr hFile) rfl
  deleted files kept hKept other hOther hEq := by
    by_contra hNe
    exact (List.pairwise_pwFilter files.reverse).forall (List.mem_reverse.mp hKept)
      (List.mem_reverse.mp hOther) hNe hEq

def twoRuns : WrapperInput where
  outputtype := .syncloop
  log i := if i < 2 then Tsan.pairLog else []
  logged _ := "2016-05-01 12:00:00,000 DEBUG Script starts\n".toList

def pairText : Text := "f (a.c:1)\ng (a.c:2)\n".toList

def twoRunsFiles : List (Text × Text) :=
  [("run1_0.race".toList, pairText), ("run2_0.race".toList, pairText),
    (parserLog, "2016-05-01 12:00:00,000 DEBUG Script starts\n".toList)]

/-- Merging with this shell brings in no other files. -/
theorem mergedFolder_subset {files : List (Text × Text)} {folder1 : Folder Text}
    (h : folder1.files ⊆ files) (path : Text) (folder2 : Folder Text) :
    (mergedFolder (shellOf files) path folder1 folder2).files ⊆ files := by
  rintro ⟨name, c⟩ hFile
  rw [mem_mergedFolder, converge_merged, Option.or_eq_some_iff] at hFile
  rcases hFile with hLast | ⟨-, hOld⟩
  · obtain ⟨f, -, hCopy⟩ := List.mem_flatMap.mp (mem_of_lastContent hLast)
    exact List.mem_of_mem_filter hCopy
  · exact h (Folder.content_eq_some.mp hOld)

theorem convergerWrapper_result_twoRuns :
    ∃! file, file ∈ twoRuns.convergerWrapper (shellOf twoRunsFiles) keepFirst ∧
      file.2 = pairText := by
  have hFirst : (twoRuns.runFolder 0).files ⊆ twoRunsFiles := by decide
  have hDoc : Documented (shellOf twoRunsFiles) checksum
      (twoRuns.folders (shellOf twoRunsFiles)) := by
    have hTmp1 : (twoRuns.tmp1 (shellOf twoRunsFiles)).files ⊆ twoRunsFiles :=
      mergedFolder_subset hFirst _ _
    have hTmp2 : (twoRuns.tmp2 (shellOf twoRunsFiles)).files ⊆ twoRunsFiles :=
      mergedFolder_subset hTmp1 _ _
    refine documented_shellOf (by decide) ?_ ?_
    · intro F hF
      simp only [WrapperInput.folders, List.mem_cons, List.not_mem_nil, or_false] at hF
      rcases hF with rfl | rfl | rfl | rfl | rfl | rfl <;> decide
    · intro F hF
      simp only [WrapperInput.folders, List.mem_cons, List.not_mem_nil, or_false] at hF
      rcases hF with rfl | rfl | rfl | rfl | rfl | rfl
      · exact hFirst
      · decide
      · decide
      · decide
      · exact hTmp1
      · exact hTmp2
  have hDated : Dated "2016-05-01 12:00:00,000 DEBUG Script starts\n".toList :=
    ⟨"2016".toList, "05-01 12:00:00,000 DEBUG Script starts\n".toList,
      List.all_iff_forall_prop.mp (by decide), rfl⟩
  obtain ⟨-, hAll⟩ := convergerWrapper_result twoRuns hDoc documentedFdupes_keepFirst
    checksum_injective fun _ => hDated
  exact hAll 0 ("run1_0.race".toList, pairText) (by decide)

/-- `adhocSyncStats.sh`, from `mkdir` on: the copies of the files of the first folder whose
checksum is not found in the second one. -/
def adhocSyncStats (sh : Shell Text) (folder1 folder2 : Folder Text) : Merging Text :=
  folder1.expand.foldl (mergeFile sh folder2 folder1) { merged := fun _ => none }

/-- The script makes the copies that the converger makes for the folders in the other order.
With plain files it leaves the files of the first folder whose content the second one does not
have, each under its own name. -/
theorem adhocSyncStats_iff (sh : Shell Text) (folder1 folder2 : Folder Text) :
    (adhocSyncStats sh folder1 folder2).received = (converge sh folder2 folder1).received ∧
      ∀ md5 : Text → Text, Function.Injective md5 → PlainFiles sh md5 folder1 →
        PlainFiles sh md5 folder2 → ∀ name c,
        ((adhocSyncStats sh folder1 folder2).merged name = some c ↔
          (name, c) ∈ folder1.files ∧ c ∉ folder2.contents) := by
  have hCopies : (adhocSyncStats sh folder1 folder2).received = newFiles sh folder2 folder1 ∧
      ∀ name, (adhocSyncStats sh folder1 folder2).merged name =
        lastContent (newFiles sh folder2 folder1) name := by
    rw [adhocSyncStats, foldl_mergeFile]
    refine ⟨(foldl_receive _).1, fun name => ?_⟩
    exact ((foldl_receive _).2 name).trans (Option.or_none)
  refine ⟨hCopies.1.trans (converge_received sh folder2 folder1).symm, ?_⟩
  intro md5 hMd5 h₁ h₂ name c
  rw [hCopies.2, ← mem_newFiles_plain hMd5 h₂ h₁]
  exact ⟨mem_of_lastContent, lastContent_of_mem (nodup_newFiles_plain folder2 h₁)⟩

/-- The second race has been found in an earlier run under another number. -/
theorem adhocSyncStats_iff_twoRaces :
    let later : Folder Text := ⟨"new".toList, [("0.race".toList, "f:3".toList),
      ("1.race".toList, "g:8".toList)], by decide⟩
    let earlier : Folder Text := ⟨"old".toList, [("0.race".toList, "g:8".toList)], by decide⟩
    (adhocSyncStats (plainShell [later, earlier]) later earlier).merged "0.race".toList =
        some "f:3".toList ∧
      (adhocSyncStats (plainShell [later, earlier]) later earlier).merged "1.race".toList ≠
        some "g:8".toList := by
  intro later earlier
  have h₁ : PlainFiles (plainShell [later, earlier]) id later := by
    constructor <;> decide
  have h₂ : PlainFiles (plainShell [later, earlier]) id earlier := by
    constructor <;> decide
  have hIff := (adhocSyncStats_iff (plainShell [later, earlier]) later earlier).2 id
    Function.injective_id h₁ h₂
  refine ⟨(hIff _ _).mpr (by decide), fun hMerged => ?_⟩
  exact absurd ((hIff _ _).mp hMerged).2 (by decide)

end Converger
end ConAnalysis.Scripts
