import ConAnalysis.Library.Positions
import ConAnalysis.Scripts.RoundTrip
import ConAnalysis.Scripts.SyncLoop

/-! Where the records of a pair come from that `runNormalSyncLoop` of
`tsanOutputParser.py` writes. -/
namespace ConAnalysis.Scripts.Tsan
open Regex Positions

/-- The lines that end a section: another header, a blank line and the ends of a
block. -/
def SectionEnd (line : Text) : Prop :=
  Accepted regWriteStart line ∨ Accepted regReadStart line ∨ Accepted regLineBreak line ∨
    Accepted regBlockBreak line ∨ Accepted regBlockEnd line

def Kind.endsSection : Kind → Bool
  | .writeStart | .readStart | .lineBreak | .blockBreak | .blockEnd => true
  | .blockStart | .callStackLine _ | .other => false

/-- Lines of the other kinds leave a section open. -/
theorem not_sectionEnd {line : Text} (h : (kind line).endsSection = false) : ¬SectionEnd line := by
  rw [SectionEnd, Accepted, Accepted, Accepted, Accepted, Accepted, writeStart_iff, readStart_iff,
    lineBreak_iff, blockBreak_iff, blockEnd_iff]
  rintro (hAt | hAt | hAt | hAt | hAt) <;>
  · rw [hAt] at h
    cases h

def RecordedAs (entry : Text) (line : Text) : Prop :=
  ∃ captures, regCallStackLine.find? line = some captures ∧ record captures = some entry

/-- The entry is the record of a frame under a header, in a block of a data race. -/
abbrev RecordedUnder (header : Regex) (lines : List Text) (start head frame : Nat) (entry : Text) :
    Prop :=
  Inside (Accepted regBlockStart) (Accepted regBlockBreak) (Accepted header) SectionEnd
    (RecordedAs entry) lines start head frame

/-- Two lines, from a write and from a read section of one block of a data race. -/
def IsPair (lines : List Text) (entries : List Text) : Prop :=
  ∃ start writeHead writeFrame readHead readFrame write read,
    entries = [write, read] ∧ IsLine write ∧ IsLine read ∧
    RecordedUnder regWriteStart lines start writeHead writeFrame write ∧
    RecordedUnder regReadStart lines start readHead readFrame read ∧ writeHead ≠ readHead

/-- The header of a section stands where the flags expect it: in a block of a data
race, and, for a read, not in the section of a write. -/
def HeaderInPlace (seen : List Text) (s : SyncLoop) (line : Text) : Prop :=
  (Accepted regWriteStart line ∨ Accepted regReadStart line →
    ∃ start, OpenSince (Accepted regBlockStart) (Accepted regBlockBreak) seen start) ∧
  (Accepted regReadStart line → s.flagWriteStart = false)

instance : DecidablePred SectionEnd := fun line =>
  inferInstanceAs (Decidable (_ ∨ _ ∨ _ ∨ _ ∨ Accepted regBlockEnd line))

instance (seen : List Text) (s : SyncLoop) (line : Text) : Decidable (HeaderInPlace seen s line) :=
  inferInstanceAs (Decidable (_ ∧ _))

theorem record_isLine {line entry : Text} {captures : Captures}
    (h : regCallStackLine.find? line = some captures) (hRecord : record captures = some entry) :
    IsLine entry := by
  obtain ⟨r, hr⟩ := Tsan.record_eq_text h
  rw [hRecord, Option.some.injEq] at hr
  exact hr ▸ r.isLine

theorem isLine_of_recordedUnder {header : Regex} {lines : List Text} {start head frame : Nat}
    {entry : Text} (h : RecordedUnder header lines start head frame entry) : IsLine entry := by
  obtain ⟨line, -, captures, hFind, hRecord⟩ := h.has
  exact record_isLine hFind hRecord

/-- The section of the header is open in a block of a data race. -/
def InSection (header : Regex) (seen : List Text) : Prop :=
  ∃ start head, start < head ∧ OpenSince (Accepted regBlockStart) (Accepted regBlockBreak) seen start ∧
    OpenSince (Accepted header) SectionEnd seen head

/-- The entry comes from a section of the block that is still open. -/
def HeldUnder (header : Regex) (seen : List Text) (entry : Text) : Prop :=
  ∃ start head frame, RecordedUnder header seen start head frame entry ∧
    OpenSince (Accepted regBlockStart) (Accepted regBlockBreak) seen start

section Extend
variable {header : Regex} {seen : List Text} {line entry : Text}

/-- A section goes on at every line that does not end one. -/
theorem InSection.concat (h : InSection header seen) (hLine : ¬SectionEnd line) :
    InSection header (seen ++ [line]) := by
  obtain ⟨start, head, hLt, hBlock, hSection⟩ := h
  exact ⟨start, head, hLt, hBlock.concat fun hBreak => hLine (.inr (.inr (.inr (.inl hBreak)))),
    hSection.concat hLine⟩

/-- What has been recorded in a block stays recorded in it, up to the line of equals signs. -/
theorem HeldUnder.concat (h : HeldUnder header seen entry) (hLine : ¬Accepted regBlockBreak line) :
    HeldUnder header (seen ++ [line]) entry := by
  obtain ⟨start, head, frame, hRecorded, hBlock⟩ := h
  exact ⟨start, head, frame, hRecorded.append [line], hBlock.concat hLine⟩

/-- A frame of an open section can be recorded. -/
theorem InSection.recorded (h : InSection header seen) (hLine : ¬SectionEnd line)
    {captures : Captures} (hFind : regCallStackLine.find? line = some captures)
    (hRecord : record captures = some entry) : HeldUnder header (seen ++ [line]) entry := by
  obtain ⟨start, head, hLt, hBlock, hSection⟩ := h
  have hBreak : ¬Accepted regBlockBreak line := fun hBreak => hLine (.inr (.inr (.inr (.inl hBreak))))
  exact ⟨start, head, seen.length, .concat hLt hBlock hSection ⟨captures, hFind, hRecord⟩,
    hBlock.concat hBreak⟩

/-- A pair in a log is one in every longer log. -/
theorem IsPair.append {entries : List Text} (h : IsPair seen entries) (more : List Text) :
    IsPair (seen ++ more) entries := by
  obtain ⟨start, writeHead, writeFrame, readHead, readFrame, write, read, hEntries, hWriteLine,
    hReadLine, hWrite, hRead, hNe⟩ := h
  exact ⟨start, writeHead, writeFrame, readHead, readFrame, write, read, hEntries, hWriteLine,
    hReadLine, hWrite.append more, hRead.append more, hNe⟩

/-- Two records of the block that is open are a pair. -/
theorem isPair_of_heldUnder {write read : Text} (hWrite : HeldUnder regWriteStart seen write)
    (hRead : HeldUnder regReadStart seen read) : IsPair seen [write, read] := by
  obtain ⟨start, writeHead, writeFrame, hWrite, hOpen⟩ := hWrite
  obtain ⟨start', readHead, readFrame, hRead, hOpen'⟩ := hRead
  have hNe : writeHead ≠ readHead := by
    rintro rfl
    obtain ⟨line, hLine, hAccepted⟩ := hWrite.headed
    obtain ⟨line', hLine', hAccepted'⟩ := hRead.headed
    rw [hLine, Option.some.injEq] at hLine'
    subst hLine'
    have hKind := writeStart_iff.mp hAccepted
    rw [readStart_iff.mp hAccepted'] at hKind
    cases hKind
  rcases Nat.le_total start start' with hLe | hLe
  · exact ⟨start, writeHead, writeFrame, readHead, readFrame, write, read, rfl,
      isLine_of_recordedUnder hWrite, isLine_of_recordedUnder hRead, hWrite,
      hRead.earlier hLe hOpen, hNe⟩
  · exact ⟨start', writeHead, writeFrame, readHead, readFrame, write, read, rfl,
      isLine_of_recordedUnder hWrite, isLine_of_recordedUnder hRead, hWrite.earlier hLe hOpen',
      hRead, hNe⟩

end Extend

namespace SyncLoop

/-- The buffers hold at most one record each, from a section of the open block, and
the flags say which section is open. -/
structure Inv (seen : List Text) (s : SyncLoop) : Prop where
  write_held : ∀ entry ∈ s.writeResultList, HeldUnder regWriteStart seen entry
  read_held : ∀ entry ∈ s.readResultList, HeldUnder regReadStart seen entry
  write_le : s.writeResultList.length ≤ 1
  read_le : s.readResultList.length ≤ 1
  write_open : s.flagWriteStart = true → InSection regWriteStart seen
  read_open : s.flagReadStart = true → InSection regReadStart seen
  pairs : ∀ file ∈ s.files, IsPair seen file.2

section Preserved
variable {outputtype : OutputType} {seen : List Text} {s : SyncLoop} {line : Text}

/-- Step lemma for the places at which a pair is written if there is one. -/
theorem Inv.flush (h : Inv seen s) : Inv seen s.flush := by
  unfold SyncLoop.flush
  split
  · next hFull =>
      rw [Bool.and_eq_true, decide_eq_true_eq, decide_eq_true_eq] at hFull
      obtain ⟨write, hWrite⟩ := List.length_eq_one_iff.mp (show s.writeResultList.length = 1 by
        have hLe := h.write_le
        omega)
      obtain ⟨read, hRead⟩ := List.length_eq_one_iff.mp (show s.readResultList.length = 1 by
        have hLe := h.read_le
        omega)
      exact
        { write_held := by simp
          read_held := by simp
          write_le := Nat.zero_le _
          read_le := Nat.zero_le _
          write_open := h.write_open
          read_open := h.read_open
          pairs := by
            intro file hFile
            rcases List.mem_append.mp hFile with hFile | hFile
            · exact h.pairs file hFile
            · rw [List.mem_singleton.mp hFile, hWrite, hRead]
              exact isPair_of_heldUnder (h.write_held write (by simp [hWrite]))
                (h.read_held read (by simp [hRead])) }
  · exact h

/-- Closed flags promise nothing. -/
theorem Inv.close (h : Inv seen s) (flagBlockStart : Bool) :
    Inv seen { s with
      flagBlockStart := flagBlockStart, flagReadStart := false, flagWriteStart := false } where
  write_held := h.write_held
  read_held := h.read_held
  write_le := h.write_le
  read_le := h.read_le
  write_open := by simp
  read_open := by simp
  pairs := h.pairs

/-- What is held and written stays so at a line that does not break the block. -/
theorem Inv.concat_of_closed (h : Inv seen s) (hLine : ¬Accepted regBlockBreak line)
    (hWrite : s.flagWriteStart = true → InSection regWriteStart (seen ++ [line]))
    (hRead : s.flagReadStart = true → InSection regReadStart (seen ++ [line])) :
    Inv (seen ++ [line]) s where
  write_held entry hEntry := (h.write_held entry hEntry).concat hLine
  read_held entry hEntry := (h.read_held entry hEntry).concat hLine
  write_le := h.write_le
  read_le := h.read_le
  write_open := hWrite
  read_open := hRead
  pairs file hFile := (h.pairs file hFile).append [line]

/-- Lines that the parser passes over keep the invariant. -/
theorem Inv.concat (h : Inv seen s) (hLine : ¬SectionEnd line) : Inv (seen ++ [line]) s :=
  h.concat_of_closed (fun hBreak => hLine (.inr (.inr (.inr (.inl hBreak)))))
    (fun hFlag => (h.write_open hFlag).concat hLine) fun hFlag => (h.read_open hFlag).concat hLine

/-- Step lemma for a frame: it is recorded under the flag, so the flag has to be right. -/
theorem Inv.writeFrame {captures : Captures} (h : Inv seen s) (hHeld : s.flagWriteStart = true →
    ∀ entry ∈ record captures, HeldUnder regWriteStart seen entry) :
    Inv seen (s.writeFrame outputtype captures) := by
  unfold SyncLoop.writeFrame
  split
  · next hFlags =>
      rw [Bool.and_eq_true] at hFlags
      split
      · split
        · exact { h with write_open := by simp }
        · exact h
      · split
        · next hEmpty =>
            have hNil : s.writeResultList = [] := List.eq_nil_of_length_eq_zero hEmpty
            refine { h with write_held := ?_, write_le := ?_ }
            · intro entry hEntry
              rw [hNil, List.nil_append, Option.mem_toList] at hEntry
              exact hHeld hFlags.1 entry hEntry
            · rw [hNil, List.nil_append]
              cases record captures <;> simp
        · exact h
  · exact h

/-- With both flags, as the source tests them one after the other. -/
theorem Inv.frame {captures : Captures} (h : Inv seen s)
    (hWrite : s.flagWriteStart = true →
      ∀ entry ∈ record captures, HeldUnder regWriteStart seen entry)
    (hRead : s.flagReadStart = true →
      ∀ entry ∈ record captures, HeldUnder regReadStart seen entry) :
    Inv seen (s.frame outputtype captures) := by
  unfold SyncLoop.frame
  split
  · next hFlags =>
      rw [Bool.and_eq_true] at hFlags
      split
      · split
        · exact { h with read_open := by simp }
        · exact h
      · split
        · next hEmpty =>
            have hNil : s.readResultList = [] := List.eq_nil_of_length_eq_zero hEmpty
            refine Inv.writeFrame { h with read_held := ?_, read_le := ?_ } hWrite
            · intro entry hEntry
              rw [hNil, List.nil_append, Option.mem_toList] at hEntry
              exact hRead hFlags.1 entry hEntry
            · rw [hNil, List.nil_append]
              cases record captures <;> simp
        · exact h.writeFrame hWrite
  · exact h.writeFrame hWrite

/-- A header in its place opens its section. -/
theorem inSection_of_header {header : Regex} {start : Nat}
    (hOpen : OpenSince (Accepted regBlockStart) (Accepted regBlockBreak) seen start)
    (hLine : Accepted header line) (hBreak : ¬Accepted regBlockBreak line) :
    InSection header (seen ++ [line]) :=
  ⟨start, seen.length, hOpen.lt_length, hOpen.concat hBreak, .start hLine⟩

/-- One line whose header, if it is one, is in place. -/
theorem Inv.step (h : Inv seen s) (hPlace : HeaderInPlace seen s line) :
    Inv (seen ++ [line]) (s.step outputtype line) := by
  have hBreak : ∀ {k}, kind line = k → k ≠ .blockBreak → ¬Accepted regBlockBreak line :=
    fun hKind hNe hAccepted => hNe (hKind.symm.trans (blockBreak_iff.mp hAccepted))
  rw [step_eq]
  cases hKind : kind line with
  | blockStart =>
      have hNext : Inv (seen ++ [line]) s := h.concat (not_sectionEnd (by rw [hKind]; rfl))
      exact { hNext with }
  | writeStart =>
      have hHeader : Accepted regWriteStart line := writeStart_iff.mpr hKind
      obtain ⟨start, hOpen⟩ := hPlace.1 (.inl hHeader)
      have hOther := hBreak hKind (by simp)
      have hClosed := (h.close true).concat_of_closed hOther (by simp) (by simp)
      exact { hClosed with write_open := fun _ => inSection_of_header hOpen hHeader hOther }
  | readStart =>
      have hHeader : Accepted regReadStart line := readStart_iff.mpr hKind
      obtain ⟨start, hOpen⟩ := hPlace.1 (.inr hHeader)
      have hOther := hBreak hKind (by simp)
      have hClosed := (h.close true).concat_of_closed hOther (by simp) (by simp)
      refine { hClosed with
        write_open := ?_, read_open := fun _ => inSection_of_header hOpen hHeader hOther }
      intro hFlag
      have hOn : s.flagWriteStart = true := hFlag
      rw [hPlace.2 hHeader] at hOn
      cases hOn
  | callStackLine captures =>
      have hFind : regCallStackLine.find? line = some captures := callStackLine_iff.mpr hKind
      have hLine : ¬SectionEnd line := not_sectionEnd (by rw [hKind]; rfl)
      refine (h.concat hLine).frame ?_ ?_
      · exact fun hFlag entry hEntry => (h.write_open hFlag).recorded hLine hFind hEntry
      · exact fun hFlag entry hEntry => (h.read_open hFlag).recorded hLine hFind hEntry
  | lineBreak =>
      exact (h.flush.close _).concat_of_closed (hBreak hKind (by simp)) (by simp) (by simp)
  | blockBreak =>
      exact
        { write_held := by simp [stepKind]
          read_held := by simp [stepKind]
          write_le := Nat.zero_le _
          read_le := Nat.zero_le _
          write_open := by simp [stepKind]
          read_open := by simp [stepKind]
          pairs := fun file hFile => (h.pairs file hFile).append [line] }
  | blockEnd =>
      exact ((h.close false).concat_of_closed (hBreak hKind (by simp)) (by simp) (by simp)).flush
  | other =>
      exact h.concat (not_sectionEnd (by rw [hKind]; rfl))

end Preserved

/-- Run lemma: headers that stand where the flags expect them keep the invariant to the end of
the log. -/
theorem inv_run {outputtype : OutputType} {lines : List Text}
    (h : ∀ seen line rest, lines = seen ++ line :: rest →
      HeaderInPlace seen (run outputtype seen) line) :
    Inv lines (run outputtype lines) := by
  induction lines using List.reverseRecOn with
  | nil =>
      exact
        { write_held := by simp [run]
          read_held := by simp [run]
          write_le := Nat.zero_le _
          read_le := Nat.zero_le _
          write_open := by simp [run]
          read_open := by simp [run]
          pairs := by simp [run] }
  | append_singleton lines line ih =>
      rw [run_concat]
      refine (ih ?_).step (h lines line [] rfl)
      intro seen line' rest hLines
      exact h seen line' (rest ++ [line]) (by rw [hLines]; simp)

end SyncLoop

/-- Every file is a pair if every header that is handled stands in its place. -/
theorem isPair_of_headers_inPlace {outputtype : OutputType} {log : List Text}
    (h : ∀ seen line rest, handled 0 (checkBlockIntegrity 0 log) log = seen ++ line :: rest →
      HeaderInPlace seen (SyncLoop.run outputtype seen) line) :
    ∀ file ∈ (runNormalSyncLoop outputtype log).files, IsPair log file.2 := by
  intro file hFile
  have hPair := (SyncLoop.inv_run h).pairs file hFile
  rw [handled_zero] at hPair
  rw [← List.take_append_drop (checkBlockIntegrity 0 log - 1) log]
  exact hPair.append _

def pairLog : List Text :=
  ["==================\n".toList,
    "WARNING: ThreadSanitizer: data race (pid=1)\n".toList,
    "  Write of size 4 at 0x1 by thread T1:\n".toList,
    "    #0 f /a.c:1:2 (m+0x1)\n".toList,
    "\n".toList,
    "  Previous read of size 4 at 0x1 by thread T2:\n".toList,
    "    #0 g /a.c:2:2 (m+0x2)\n".toList,
    "\n".toList,
    "==================\n".toList]

theorem isPair_of_headers_inPlace_pairLog :
    (runNormalSyncLoop .syncloop pairLog).files =
        [(0, ["f (a.c:1)\n".toList, "g (a.c:2)\n".toList])] ∧
      IsPair pairLog ["f (a.c:1)\n".toList, "g (a.c:2)\n".toList] := by
  have hFiles : (runNormalSyncLoop .syncloop pairLog).files =
      [(0, ["f (a.c:1)\n".toList, "g (a.c:2)\n".toList])] := by decide
  have hPairs : ∀ file ∈ (runNormalSyncLoop .syncloop pairLog).files, IsPair pairLog file.2 :=
    isPair_of_headers_inPlace (forall_split (by decide))
  rw [hFiles] at hPairs
  exact ⟨hFiles, hPairs _ (List.mem_singleton_self _)⟩

/-- The same log without the frame and the blank line of the write section. -/
def joinedLog : List Text := (pairLog.eraseIdx 4).eraseIdx 3

/-- Both lines of the file are the record of the frame under the read header. -/
theorem joinedLog_not_pair :
    ∃ file ∈ (runNormalSyncLoop .syncloop joinedLog).files, ¬IsPair joinedLog file.2 := by
  have hFiles : (runNormalSyncLoop .syncloop joinedLog).files =
      [(0, ["g (a.c:2)\n".toList, "g (a.c:2)\n".toList])] := by decide
  have hNone : ∀ frame ∈ List.range joinedLog.length, HasAt (Accepted regCallStackLine) joinedLog frame →
      ∀ head ∈ List.range frame, HasAt (Accepted regWriteStart) joinedLog head →
        ¬NoneBetween SectionEnd joinedLog head frame := by decide
  refine ⟨(0, ["g (a.c:2)\n".toList, "g (a.c:2)\n".toList]), by rw [hFiles]; simp, ?_⟩
  rintro ⟨start, head, frame, -, -, write, -, -, -, -, hWrite, -⟩
  obtain ⟨line, hLine, captures, hFind, -⟩ := hWrite.has
  have hFrame : HasAt (Accepted regCallStackLine) joinedLog frame :=
    ⟨line, hLine, Option.isSome_iff_exists.mpr ⟨captures, hFind⟩⟩
  exact hNone frame (List.mem_range.mpr hFrame.lt_length) hFrame head
    (List.mem_range.mpr hWrite.head_lt) hWrite.headed hWrite.same_section

end ConAnalysis.Scripts.Tsan
