import ConAnalysis.Report.RunOnModule
import ConAnalysis.Scripts.ReportFiles
import ConAnalysis.SyncLoop.Derivation
import ConAnalysis.SyncLoop.RunOnModule

/-! From the files that the log parsers write to what the two passes make of them. -/
namespace ConAnalysis
open IR BreakLoop
open Env (Site)
open Scripts (Record WrittenStack WrittenPair)

def Scripts.Record.place (r : Record) : FileLine := r.entry.2

namespace Invocation
variable {p : Invocation} {line : FuncFileLine}

end Invocation

section Stack
variable {content : List Text} {p : Invocation} {danFuncs : Finset String}

end Stack

namespace SyncLoop

/-- The trigger script, which is given the same file, stops at the two places of the message. -/
def BreaksAt (content : List Text) (message : Detected) : Prop :=
  ∃ write read : Text,
    content.mapM Scripts.breakpoint = some
      [(some message.writeLine.2.1.toList, some write),
        (some message.readLine.2.1.toList, some read)] ∧
    Scanf.numeral write = message.writeLine.2.2 ∧ Scanf.numeral read = message.readLine.2.2

/-- A message repeats the two lines. -/
theorem Env.lines_of_mem_runOnModule {env : Env} {LI : LoopInfo env.module} {input : RacingLines}
    {writes reads : List Site} {hReads : reads ≠ []} {message : Detected}
    (h : message ∈ (env.runOnModule LI input writes reads hReads).1) :
    message.writeLine = input.1 ∧ message.readLine = input.2 := by
  unfold runOnModule at h
  split at h
  · cases h
  · unfold adhocSyncAnalysis at h
    split at h
    · rw [analyseReads_eq] at h
      obtain ⟨site, -, hMessage⟩ := List.mem_filterMap.mp h
      have hLines := (causedBy_of_messageOf hMessage).lines
      exact ⟨congrArg Prod.fst hLines, congrArg Prod.snd hLines⟩
    · cases h

variable {content : List Text} {p : Invocation} {racingLines : RacingLines}

/-- Without a manual input the read is on the second line. -/
theorem Invocation.hasRead_iff (hWrite : p.racingWrite = 0) (hRead : p.racingRead = 0) :
    p.HasRead racingLines ↔ ∃ item ∈ p.module.instructionsAt racingLines.2.2,
      Reads p.module (backOf (p.module.instructionsAt racingLines.2.2))
        (p.module.instructionsAt racingLines.1.2).isEmpty item := by
  refine or_iff_right ?_
  rintro ⟨⟨r, n⟩, hFind, -⟩
  have hNumber : n = 0 := by simpa [hWrite, hRead] using List.find?_some hFind
  have hPos : 0 < n := (Inst2Int.positiveNumbers_createMaps p.module).2 r n
    ((p.ins2int.mem_iff r n).mp (List.mem_of_find?_eq_some hFind))
  exact absurd hNumber (Nat.ne_of_gt hPos)

/-- Every file with a pair holds two records. Where both arrive, the pass that is run on the
file, without a manual input, gets to its end exactly if an instruction on the line of the
second one is read. Every message repeats the two records, and the trigger script, which is
given the same file, stops where the message says. -/
theorem pair_analysed (h : WrittenPair content) (hFile : p.raceReport = content.flatten)
    (hWrite : p.racingWrite = 0) (hRead : p.racingRead = 0) (hGeps : p.module.ParsesGeps) :
    (∃ write read : Record, content = [write.written, read.written]) ∧
    ∀ write read : Record, content = [write.written, read.written] →
      write.Arrives → read.Arrives →
      (p.runOnModule.2 = none ↔ ∃ item ∈ p.module.instructionsAt read.place,
        Reads p.module (backOf (p.module.instructionsAt read.place))
          (p.module.instructionsAt write.place).isEmpty item) ∧
      ∀ message ∈ p.runOnModule.1, message.writeLine = write.entry ∧
        message.readLine = read.entry ∧ BreaksAt content message := by
  constructor
  · exact h.pairOfRecords
  · rintro write read rfl hWriteArrives hReadArrives
    have hReport : SyncLoop.parseInput p.raceReportBuffers p.raceReport =
        .ok (write.entry, read.entry) := by
      rw [hFile]
      exact Record.parsePair_fileOf hWriteArrives hReadArrives _
    rcases Invocation.runOnModule_cases hGeps hReport with
      ⟨-, hHas, st, hReads, -, -, hRun⟩ | ⟨hNot, hNil, ⟨abort, hAbort, -⟩, -⟩
    · refine ⟨iff_of_true (congrArg Prod.snd hRun) ((Invocation.hasRead_iff hWrite hRead).mp hHas),
        fun message hMessage => ?_⟩
      rw [hRun] at hMessage
      obtain ⟨hWriteLine, hReadLine⟩ := Env.lines_of_mem_runOnModule hMessage
      refine ⟨hWriteLine, hReadLine, write.line, read.line, ?_, ?_, ?_⟩
      · have hBreakpoint : ∀ r : Record,
            Scripts.breakpoint r.written = some (some r.file, some r.line) :=
          fun r => r.breakpoint_text
        simp [hBreakpoint, hWriteLine, hReadLine, Record.entry]
      · rw [hWriteLine]
        rfl
      · rw [hReadLine]
        rfl
    · refine ⟨iff_of_false (by simp [hAbort]) fun hSome => hNot ⟨?_, ?_⟩, by simp [hNil]⟩
      · obtain ⟨item, hItem, -⟩ := hSome
        exact List.ne_nil_of_mem hItem
      · exact (Invocation.hasRead_iff hWrite hRead).mpr hSome

/-- A race between what `set` stores and what `spin` waits for. -/
def spinLog : List Text :=
  ["==================\n".toList,
    "WARNING: ThreadSanitizer: data race (pid=1)\n".toList,
    "  Write of size 4 at 0x1 by thread T1:\n".toList,
    "    #0 set /spin.c:18:2 (m+0x1)\n".toList,
    "\n".toList,
    "  Previous read of size 4 at 0x1 by thread T2:\n".toList,
    "    #0 spin /spin.c:13:2 (m+0x2)\n".toList,
    "\n".toList,
    "==================\n".toList]

def spinRecord (name line : Text) (hName : ∀ c ∈ name, Scripts.wordOr "_:~<> ()*,&" c = true)
    (hLine : ∀ c ∈ line, c.isDigit = true) : Record where
  name := name
  file := "spin.c".toList
  line := line
  name_chars := hName
  file_chars := List.all_iff_forall_prop.mp (by decide)
  line_chars := hLine

theorem pair_analysed_spinLog : spinRun.runOnModule.2 = none := by
  have hPair : WrittenPair ["set (spin.c:18)\n".toList, "spin (spin.c:13)\n".toList] :=
    .tsan .syncloop spinLog 0 (by decide)
  obtain ⟨-, hAll⟩ := pair_analysed (p := spinRun) hPair rfl rfl rfl (by decide)
  refine (hAll
    (spinRecord "set".toList "18".toList (List.all_iff_forall_prop.mp (by decide))
      (List.all_iff_forall_prop.mp (by decide)))
    (spinRecord "spin".toList "13".toList (List.all_iff_forall_prop.mp (by decide))
      (List.all_iff_forall_prop.mp (by decide))) (by decide) ?_ ?_).1.mpr
    ⟨⟨⟨1, 1, 0⟩, _⟩, List.mem_cons_self, ?_⟩
  · exact ⟨⟨by decide, by decide, by decide, .inl rfl⟩, by decide, by decide, by decide⟩
  · exact ⟨⟨by decide, by decide, by decide, .inl rfl⟩, by decide, by decide, by decide⟩
  · decide

end SyncLoop
end ConAnalysis
