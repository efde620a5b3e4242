import ConAnalysis.Library.Positions
import ConAnalysis.Scripts.RoundTrip
import ConAnalysis.Scripts.ValgrindSyncLoop

/-! Where the records of a pair come from that `runNormalSyncLoop` of
`valgrindOutputParser.py` writes. -/
namespace ConAnalysis.Scripts.Valgrind
open Regex Positions

def SectionEnd (line : Text) : Prop :=
  Accepted regReadStart line ∨ Accepted regWriteStart line ∨ Accepted regReadEnd line ∨
    Accepted regBlockStart line ∨ Accepted regLineBreak line

/-- The lines behind which a frame is not the first one of the section. -/
def SectionEndOrFrame (line : Text) : Prop :=
  SectionEnd line ∨ Accepted regCallStackLine line

instance : DecidablePred SectionEnd := fun line =>
  inferInstanceAs (Decidable (_ ∨ _ ∨ _ ∨ _ ∨ Accepted regLineBreak line))

instance : DecidablePred SectionEndOrFrame := fun _ => inferInstanceAs (Decidable (_ ∨ _))

def RecordedAs (entry : Text) (line : Text) : Prop :=
  ∃ captures, regCallStackLine.find? line = some captures ∧ record captures = some entry

/-- The entry is the record of the first frame under a header, in a block. -/
abbrev RecordedUnder (header : Regex) (lines : List Text) (start head frame : Nat) (entry : Text) :
    Prop :=
  Inside (Accepted regBlockStart) (Accepted regBlockStart) (Accepted header) SectionEndOrFrame
    (RecordedAs entry) lines start head frame

/-- The block has been open since the position. -/
abbrev BlockSince (lines : List Text) (start : Nat) : Prop :=
  OpenSince (Accepted regBlockStart) (Accepted regBlockStart) lines start

/-- Two lines, from a write section and from another access section of one block. -/
def IsPair (lines : List Text) (entries : List Text) : Prop :=
  ∃ start writeHead writeFrame other head frame write entry,
    entries = [write, entry] ∧ IsLine write ∧ IsLine entry ∧
    RecordedUnder regWriteStart lines start writeHead writeFrame write ∧
    (other = regReadStart ∨ other = regWriteStart) ∧
    RecordedUnder other lines start head frame entry ∧ writeHead ≠ head

/-- The header of a section stands in a block and not in the section of the other
kind of access, and a block starts with no write left over. -/
def InPlace (seen : List Text) (s : SyncLoop) (line : Text) : Prop :=
  (Accepted regReadStart line ∨ Accepted regWriteStart line → ∃ start, BlockSince seen start) ∧
  (Accepted regReadStart line → s.flagWriteStart = false) ∧
  (Accepted regWriteStart line → s.flagReadStart = false) ∧
  (Accepted regBlockStart line → s.pendingWriteFlag = false ∧ s.writeResultList2 = [])

instance (seen : List Text) (s : SyncLoop) (line : Text) : Decidable (InPlace seen s line) :=
  inferInstanceAs (Decidable (_ ∧ _ ∧ _ ∧ _))

/-- The section of the header is open in a block, and has had no frame yet. -/
def Fresh (header : Regex) (seen : List Text) : Prop :=
  ∃ start head, start < head ∧ BlockSince seen start ∧
    OpenSince (Accepted header) SectionEndOrFrame seen head

/-- The entry comes from a section of the block that is still open. -/
def HeldUnder (header : Regex) (seen : List Text) (entry : Text) : Prop :=
  ∃ start head frame, RecordedUnder header seen start head frame entry ∧ BlockSince seen start

/-- The section of the write has been ended. -/
def HeldClosed (seen : List Text) (entry : Text) : Prop :=
  ∃ start head frame stop, RecordedUnder regWriteStart seen start head frame entry ∧
    BlockSince seen start ∧ HasAt SectionEnd seen stop ∧ frame < stop

/-- The entries come from two write sections of the block that is still open. -/
def HeldPair (seen : List Text) (write write2 : Text) : Prop :=
  ∃ start head frame head2 frame2, RecordedUnder regWriteStart seen start head frame write ∧
    RecordedUnder regWriteStart seen start head2 frame2 write2 ∧ BlockSince seen start ∧ head ≠ head2

/-- What has been recorded under a header is one line of text. -/
theorem isLine_of_recordedUnder {header : Regex} {lines : List Text} {start head frame : Nat}
    {entry : Text} (h : RecordedUnder header lines start head frame entry) : IsLine entry := by
  obtain ⟨line, -, captures, hFind, hRecord⟩ := h.has
  obtain ⟨r, hr⟩ := Valgrind.record_eq_text hFind
  rw [hRecord, Option.some.injEq] at hr
  exact hr ▸ r.isLine

section Extend
variable {header : Regex} {seen : List Text} {line entry write write2 read : Text}

/-- A section without a frame so far stays so at lines that are no frames. -/
theorem Fresh.concat (h : Fresh header seen) (hLine : ¬SectionEndOrFrame line) :
    Fresh header (seen ++ [line]) := by
  obtain ⟨start, head, hLt, hBlock, hSection⟩ := h
  exact ⟨start, head, hLt, hBlock.concat fun hStart => hLine (.inl (.inr (.inr (.inr (.inl hStart))))),
    hSection.concat hLine⟩

/-- What has been recorded in a block stays recorded until the next block starts. -/
theorem HeldUnder.concat (h : HeldUnder header seen entry) (hLine : ¬Accepted regBlockStart line) :
    HeldUnder header (seen ++ [line]) entry := by
  obtain ⟨start, head, frame, hRecorded, hBlock⟩ := h
  exact ⟨start, head, frame, hRecorded.append [line], hBlock.concat hLine⟩

theorem HeldClosed.concat (h : HeldClosed seen entry) (hLine : ¬Accepted regBlockStart line) :
    HeldClosed (seen ++ [line]) entry := by
  obtain ⟨start, head, frame, stop, hRecorded, hBlock, hStop, hLt⟩ := h
  exact ⟨start, head, frame, stop, hRecorded.append [line], hBlock.concat hLine, hStop.append [line],
    hLt⟩

/-- The line ends the section. -/
theorem HeldUnder.close (h : HeldUnder regWriteStart seen entry)
    (hLine : ¬Accepted regBlockStart line) (hEnd : SectionEnd line) :
    HeldClosed (seen ++ [line]) entry := by
  obtain ⟨start, head, frame, hRecorded, hBlock⟩ := h
  exact ⟨start, head, frame, seen.length, hRecorded.append [line], hBlock.concat hLine,
    hasAt_concat.mpr hEnd, hRecorded.lt_length⟩

theorem HeldPair.concat (h : HeldPair seen write write2) (hLine : ¬Accepted regBlockStart line) :
    HeldPair (seen ++ [line]) write write2 := by
  obtain ⟨start, head, frame, head2, frame2, hWrite, hWrite2, hBlock, hNe⟩ := h
  exact ⟨start, head, frame, head2, frame2, hWrite.append [line], hWrite2.append [line],
    hBlock.concat hLine, hNe⟩

theorem HeldPair.symm (h : HeldPair seen write write2) : HeldPair seen write2 write := by
  obtain ⟨start, head, frame, head2, frame2, hWrite, hWrite2, hBlock, hNe⟩ := h
  exact ⟨start, head2, frame2, head, frame, hWrite2, hWrite, hBlock, hNe.symm⟩

/-- The first frame of an open section can be recorded. -/
theorem Fresh.recorded (h : Fresh header seen) (hLine : ¬Accepted regBlockStart line)
    (hEntry : RecordedAs entry line) : HeldUnder header (seen ++ [line]) entry := by
  obtain ⟨start, head, hLt, hBlock, hSection⟩ := h
  exact ⟨start, head, seen.length, .concat hLt hBlock hSection hEntry, hBlock.concat hLine⟩

/-- Behind a section that has been ended, it comes from another section. -/
theorem Fresh.recorded_pair (h : Fresh regWriteStart seen) (hClosed : HeldClosed seen write)
    (hLine : ¬Accepted regBlockStart line) (hEntry : RecordedAs entry line) :
    HeldPair (seen ++ [line]) write entry := by
  obtain ⟨start, head2, hLt, hBlock, hSection⟩ := h
  obtain ⟨start', head, frame, stop, hRecorded, hBlock', hStop, hFrame⟩ := hClosed
  obtain rfl : start' = start := hBlock'.unique hBlock
  refine ⟨start', head, frame, head2, seen.length, hRecorded.append [line],
    .concat hLt hBlock hSection hEntry, hBlock.concat hLine, ?_⟩
  rintro rfl
  have hBetween : head < stop := Nat.lt_trans hRecorded.head_lt hFrame
  obtain ⟨other, hOther, hEnd⟩ := hStop
  exact hSection.2 stop hBetween (List.getElem?_eq_some_iff.mp hOther).1 ⟨other, hOther, .inl hEnd⟩

/-- A pair in a log is one in every longer log. -/
theorem IsPair.append {entries : List Text} (h : IsPair seen entries) (more : List Text) :
    IsPair (seen ++ more) entries := by
  obtain ⟨start, writeHead, writeFrame, other, head, frame, write, entry, hEntries, hWriteLine,
    hLine, hWrite, hOther, hEntry, hNe⟩ := h
  exact ⟨start, writeHead, writeFrame, other, head, frame, write, entry, hEntries, hWriteLine, hLine,
    hWrite.append more, hOther, hEntry.append more, hNe⟩

/-- Two writes make a pair as well, if they come from different sections. -/
theorem isPair_of_heldPair (h : HeldPair seen write write2) : IsPair seen [write, write2] := by
  obtain ⟨start, head, frame, head2, frame2, hWrite, hWrite2, -, hNe⟩ := h
  exact ⟨start, head, frame, regWriteStart, head2, frame2, write, write2, rfl,
    isLine_of_recordedUnder hWrite, isLine_of_recordedUnder hWrite2, hWrite, .inr rfl, hWrite2, hNe⟩

theorem isPair_of_heldUnder (hWrite : HeldUnder regWriteStart seen write)
    (hRead : HeldUnder regReadStart seen read) : IsPair seen [write, read] := by
  obtain ⟨start, head, frame, hWrite, hBlock⟩ := hWrite
  obtain ⟨start', head', frame', hRead, hBlock'⟩ := hRead
  obtain rfl : start' = start := hBlock'.unique hBlock
  refine ⟨start', head, frame, regReadStart, head', frame', write, read, rfl,
    isLine_of_recordedUnder hWrite, isLine_of_recordedUnder hRead, hWrite, .inl rfl, hRead, ?_⟩
  rintro rfl
  obtain ⟨line, hLine, hAccepted⟩ := hWrite.headed
  obtain ⟨line', hLine', hAccepted'⟩ := hRead.headed
  rw [hLine, Option.some.injEq] at hLine'
  subst hLine'
  have hKind := writeStart_iff.mp hAccepted
  rw [readStart_iff.mp hAccepted'] at hKind
  cases hKind

end Extend

namespace SyncLoop

/-- What the buffers hold. A write that is waiting for another one comes from a
section that has been ended, and so does a second write without a first one. -/
structure Held (seen : List Text) (s : SyncLoop) : Prop where
  write_held : ∀ entry ∈ s.writeResultList, HeldUnder regWriteStart seen entry
  write2_held : ∀ entry ∈ s.writeResultList2, HeldUnder regWriteStart seen entry
  read_held : ∀ entry ∈ s.readResultList, HeldUnder regReadStart seen entry
  write_le : s.writeResultList.length ≤ 1
  write2_le : s.writeResultList2.length ≤ 1
  read_le : s.readResultList.length ≤ 1
  pending_ne : s.pendingWriteFlag = true → s.writeResultList ≠ []
  pending_closed : s.pendingWriteFlag = true → ∀ write ∈ s.writeResultList, HeldClosed seen write
  idle_closed : s.writeResultList = [] → ∀ write2 ∈ s.writeResultList2, HeldClosed seen write2
  held_pair : ∀ write ∈ s.writeResultList, ∀ write2 ∈ s.writeResultList2, HeldPair seen write write2
  pairs : ∀ file ∈ s.files, IsPair seen file.2

/-- The first write or, when one is waiting, the second can be recorded. -/
def AcceptsWrite (s : SyncLoop) : Prop :=
  s.writeResultList = [] ∨ (s.pendingWriteFlag = true ∧ s.writeResultList2 = [])

/-- While a record can be taken, the section has had no frame yet. -/
structure Inv (seen : List Text) (s : SyncLoop) : Prop extends Held seen s where
  read_block : s.flagReadStart = true → s.flagBlockStart = true
  write_block : s.flagWriteStart = true → s.flagBlockStart = true
  read_fresh : s.flagReadStart = true → s.readResultList = [] → Fresh regReadStart seen
  write_fresh : s.flagWriteStart = true → s.AcceptsWrite → Fresh regWriteStart seen

section Preserved
variable {seen : List Text} {s : SyncLoop} {line : Text}

/-- Lines that start no block keep what is held. -/
theorem Held.concat (h : Held seen s) (hLine : ¬Accepted regBlockStart line) :
    Held (seen ++ [line]) s where
  write_held entry hEntry := (h.write_held entry hEntry).concat hLine
  write2_held entry hEntry := (h.write2_held entry hEntry).concat hLine
  read_held entry hEntry := (h.read_held entry hEntry).concat hLine
  write_le := h.write_le
  write2_le := h.write2_le
  read_le := h.read_le
  pending_ne := h.pending_ne
  pending_closed hPending write hWrite := (h.pending_closed hPending write hWrite).concat hLine
  idle_closed hIdle write2 hWrite2 := (h.idle_closed hIdle write2 hWrite2).concat hLine
  held_pair write hWrite write2 hWrite2 := (h.held_pair write hWrite write2 hWrite2).concat hLine
  pairs file hFile := (h.pairs file hFile).append [line]

/-- The flags say nothing about what is held. -/
theorem Held.flags (h : Held seen s) (flagBlockStart flagReadStart flagWriteStart : Bool) :
    Held seen { s with flagBlockStart, flagReadStart, flagWriteStart } :=
  { h with }

theorem eq_singleton {texts : List Text} (hLe : texts.length ≤ 1) (hPos : texts.length > 0) :
    ∃ text, texts = [text] := List.length_eq_one_iff.mp (by omega)

/-- The buffers when all sections have been ended. -/
theorem Held.flush (h : Held seen s) (hWrite : ∀ write ∈ s.writeResultList, HeldClosed seen write)
    (hWrite2 : ∀ write2 ∈ s.writeResultList2, HeldClosed seen write2) : Held seen s.flush := by
  unfold SyncLoop.flush
  split
  · next hPos =>
      obtain ⟨write, hEq⟩ := eq_singleton h.write_le hPos
      split
      · next hReadPos =>
          obtain ⟨read, hReadEq⟩ := eq_singleton h.read_le hReadPos
          exact
            { write_held := by simp
              write2_held := h.write2_held
              read_held := by simp
              write_le := Nat.zero_le _
              write2_le := h.write2_le
              read_le := Nat.zero_le _
              pending_ne := by simp
              pending_closed := by simp
              idle_closed := fun _ => hWrite2
              held_pair := by simp
              pairs := by
                intro file hFile
                rcases List.mem_append.mp hFile with hFile | hFile
                · exact h.pairs file hFile
                · rw [List.mem_singleton.mp hFile, hEq, hReadEq]
                  exact isPair_of_heldUnder (h.write_held write (by simp [hEq]))
                    (h.read_held read (by simp [hReadEq])) }
      · split
        · next hPos2 =>
            obtain ⟨write2, hEq2⟩ := eq_singleton h.write2_le hPos2
            exact
              { write_held := by simp
                write2_held := by simp
                read_held := h.read_held
                write_le := Nat.zero_le _
                write2_le := Nat.zero_le _
                read_le := h.read_le
                pending_ne := by simp
                pending_closed := by simp
                idle_closed := by simp
                held_pair := by simp
                pairs := by
                  intro file hFile
                  rcases List.mem_append.mp hFile with hFile | hFile
                  · exact h.pairs file hFile
                  · rw [List.mem_singleton.mp hFile, hEq, hEq2]
                    exact isPair_of_heldPair
                      (h.held_pair write (by simp [hEq]) write2 (by simp [hEq2])) }
        · exact { h with
            pending_ne := fun _ => by simp [hEq]
            pending_closed := fun _ => hWrite }
  · exact h

variable {captures : Captures}

/-- The read section keeps to its flag and its buffer. -/
theorem readFrame_eq (s : SyncLoop) (captures : Captures) : ∃ flagReadStart readResultList,
    s.readFrame captures = { s with flagReadStart, readResultList } := by
  unfold readFrame
  split
  · split
    · split
      · exact ⟨_, _, rfl⟩
      · exact ⟨s.flagReadStart, s.readResultList, rfl⟩
    · exact ⟨false, s.readResultList, rfl⟩
  · exact ⟨s.flagReadStart, s.readResultList, rfl⟩

/-- The write section keeps to its flag and its buffers. -/
theorem writeFrame_eq (s : SyncLoop) (captures : Captures) :
    ∃ flagWriteStart writeResultList writeResultList2,
      s.writeFrame captures = { s with flagWriteStart, writeResultList, writeResultList2 } := by
  unfold writeFrame
  split
  · split
    · split
      · exact ⟨s.flagWriteStart, _, s.writeResultList2, rfl⟩
      · split
        · exact ⟨s.flagWriteStart, s.writeResultList, _, rfl⟩
        · exact ⟨s.flagWriteStart, s.writeResultList, s.writeResultList2, rfl⟩
    · exact ⟨false, s.writeResultList, s.writeResultList2, rfl⟩
  · exact ⟨s.flagWriteStart, s.writeResultList, s.writeResultList2, rfl⟩

theorem flagReadStart_of_readFrame (h : (s.readFrame captures).flagReadStart = true) :
    s.flagReadStart = true := by
  unfold SyncLoop.readFrame at h
  split at h
  · next hFlags => exact (Bool.and_eq_true _ _ ▸ hFlags).1
  · exact h

theorem flagWriteStart_of_writeFrame (h : (s.writeFrame captures).flagWriteStart = true) :
    s.flagWriteStart = true := by
  unfold SyncLoop.writeFrame at h
  split at h
  · next hFlags => exact (Bool.and_eq_true _ _ ▸ hFlags).1
  · exact h

/-- Step lemma: a frame is recorded where its flag points. -/
theorem Held.readFrame (h : Held seen s) (hEntry : s.flagReadStart = true → s.readResultList = [] →
    ∀ entry ∈ record captures, HeldUnder regReadStart seen entry) :
    Held seen (s.readFrame captures) := by
  unfold SyncLoop.readFrame
  split
  · next hFlags =>
      rw [Bool.and_eq_true] at hFlags
      split
      · split
        · next hEmpty =>
            have hNil : s.readResultList = [] := List.eq_nil_of_length_eq_zero hEmpty
            refine { h with read_held := ?_, read_le := ?_ }
            · intro entry hMem
              rw [hNil, List.nil_append, Option.mem_toList] at hMem
              exact hEntry hFlags.1 hNil entry hMem
            · rw [hNil, List.nil_append]
              cases record captures <;> simp
        · exact h
      · exact { h with }
  · exact h

/-- The record of a write is taken for the first one of its block, or for the
second one behind a write whose section has been ended. -/
theorem Held.writeFrame (h : Held (seen ++ [line]) s) (hLine : ¬Accepted regBlockStart line)
    (hFind : regCallStackLine.find? line = some captures)
    (hFresh : s.flagWriteStart = true → s.AcceptsWrite → Fresh regWriteStart seen)
    (hPending : s.pendingWriteFlag = true → ∀ write ∈ s.writeResultList, HeldClosed seen write)
    (hIdle : s.writeResultList = [] → ∀ write2 ∈ s.writeResultList2, HeldClosed seen write2) :
    Held (seen ++ [line]) (s.writeFrame captures) := by
  unfold SyncLoop.writeFrame
  split
  · next hFlags =>
      rw [Bool.and_eq_true] at hFlags
      split
      · split
        · next hEmpty =>
            have hNil : s.writeResultList = [] := List.eq_nil_of_length_eq_zero hEmpty
            have hSection := hFresh hFlags.1 (.inl hNil)
            have hNotPending : s.pendingWriteFlag = false :=
              Bool.eq_false_iff.mpr fun hTrue => h.pending_ne hTrue hNil
            rw [hNil, List.nil_append]
            refine { h with
              write_held := ?_
              write_le := ?_
              pending_ne := ?_
              pending_closed := ?_
              idle_closed := ?_
              held_pair := ?_ }
            · intro entry hMem
              exact hSection.recorded hLine ⟨captures, hFind, Option.mem_toList.mp hMem⟩
            · cases record captures <;> simp
            · simp [hNotPending]
            · simp [hNotPending]
            · exact fun _ write2 hWrite2 => (hIdle hNil write2 hWrite2).concat hLine
            · intro write hWrite write2 hWrite2
              exact (hSection.recorded_pair (hIdle hNil write2 hWrite2) hLine
                ⟨captures, hFind, Option.mem_toList.mp hWrite⟩).symm
        · split
          · next hWaiting =>
              rw [Bool.and_eq_true, Bool.and_eq_true, beq_iff_eq] at hWaiting
              obtain ⟨⟨hPos, hTrue⟩, hEmpty⟩ := hWaiting
              have hNil : s.writeResultList2 = [] := List.eq_nil_of_length_eq_zero hEmpty
              have hSection := hFresh hFlags.1 (.inr ⟨hTrue, hNil⟩)
              rw [hNil, List.nil_append]
              refine { h with write2_held := ?_, write2_le := ?_, idle_closed := ?_, held_pair := ?_ }
              · intro entry hMem
                exact hSection.recorded hLine ⟨captures, hFind, Option.mem_toList.mp hMem⟩
              · cases record captures <;> simp
              · exact fun hNone => absurd hNone (h.pending_ne hTrue)
              · intro write hWrite write2 hWrite2
                exact hSection.recorded_pair (hPending hTrue write hWrite) hLine
                  ⟨captures, hFind, Option.mem_toList.mp hWrite2⟩
          · exact h
      · exact { h with }
  · exact h

/-- After a frame, an open read section has a record. -/
theorem readFrame_records (h : s.flagBlockStart = true) {entry : Text}
    (hEntry : record captures = some entry) (hFlag : (s.readFrame captures).flagReadStart = true) :
    (s.readFrame captures).readResultList ≠ [] := by
  unfold readFrame at hFlag ⊢
  split at hFlag
  · next hFlags =>
      rw [if_pos hFlags]
      split at hFlag
      · next hWrapper =>
          rw [if_pos hWrapper]
          split
          · simp [hEntry]
          · next hLength => exact fun hNil => hLength (by rw [hNil]; rfl)
      · cases hFlag
  · next hFlags => exact absurd (by rw [hFlag, h]; rfl) hFlags

/-- After a frame, an open write section takes no further record. -/
theorem not_acceptsWrite_writeFrame (h : s.flagBlockStart = true)
    (hPending : s.pendingWriteFlag = true → s.writeResultList ≠ []) {entry : Text}
    (hEntry : record captures = some entry) (hFlag : (s.writeFrame captures).flagWriteStart = true) :
    ¬(s.writeFrame captures).AcceptsWrite := by
  unfold writeFrame at hFlag ⊢
  split at hFlag
  · next hFlags =>
      rw [if_pos hFlags]
      split at hFlag
      · next hWrapper =>
          rw [if_pos hWrapper]
          split
          · next hEmpty =>
              have hNil : s.writeResultList = [] := List.eq_nil_of_length_eq_zero hEmpty
              have hNotPending : s.pendingWriteFlag = false :=
                Bool.eq_false_iff.mpr fun hTrue => hPending hTrue hNil
              simp [AcceptsWrite, hEntry, hNotPending]
          · next hLength =>
              have hNe : s.writeResultList ≠ [] := fun hNil => hLength (by rw [hNil]; rfl)
              split
              · simp [AcceptsWrite, hEntry, hNe]
              · next hWaiting =>
                  rintro (hNil | ⟨hTrue, hNil⟩)
                  · exact hNe hNil
                  · refine hWaiting ?_
                    simp [hTrue, hNil, List.length_pos_iff.mpr hNe]
      · cases hFlag
  · next hFlags => exact absurd (by rw [hFlag, h]; rfl) hFlags

/-- No section is open. -/
theorem Held.inv_of_closed (h : Held seen s) (hRead : s.flagReadStart = false)
    (hWrite : s.flagWriteStart = false) : Inv seen s :=
  { h with
    read_block := by simp [hRead]
    write_block := by simp [hWrite]
    read_fresh := by simp [hRead]
    write_fresh := by simp [hWrite] }

/-- Step lemma for a frame, which is offered to the read section and then to the write section. -/
theorem Inv.frame (h : Inv seen s) (hLine : ¬Accepted regBlockStart line)
    (hFind : regCallStackLine.find? line = some captures) :
    Inv (seen ++ [line]) ((s.readFrame captures).writeFrame captures) := by
  obtain ⟨r, hr⟩ := Valgrind.record_eq_text hFind
  have hRead : Held (seen ++ [line]) (s.readFrame captures) := by
    refine (h.toHeld.concat hLine).readFrame ?_
    intro hFlag hNil entry hEntry
    exact (h.read_fresh hFlag hNil).recorded hLine ⟨captures, hFind, hEntry⟩
  have hRecords : (s.readFrame captures).flagReadStart = true →
      (s.readFrame captures).readResultList ≠ [] := fun hFlag =>
    readFrame_records (h.read_block (flagReadStart_of_readFrame hFlag)) hr hFlag
  have hReadBlock : (s.readFrame captures).flagReadStart = true → s.flagBlockStart = true :=
    fun hFlag => h.read_block (flagReadStart_of_readFrame hFlag)
  obtain ⟨flagReadStart, readResultList, hEq⟩ := readFrame_eq s captures
  rw [hEq] at hRead hRecords hReadBlock ⊢
  obtain ⟨flagWriteStart, writes, writes2, hEq2⟩ :=
    writeFrame_eq { s with flagReadStart, readResultList } captures
  have hWriteBlock : ({ s with flagReadStart, readResultList }.writeFrame
      captures).flagWriteStart = true → s.flagBlockStart = true :=
    fun hFlag => h.write_block
      (flagWriteStart_of_writeFrame (s := { s with flagReadStart, readResultList }) hFlag)
  have hBlockEq : ({ s with flagReadStart, readResultList }.writeFrame captures).flagBlockStart =
      s.flagBlockStart := by rw [hEq2]
  have hHeld : Held (seen ++ [line]) ({ s with flagReadStart, readResultList }.writeFrame captures) :=
    hRead.writeFrame hLine hFind h.write_fresh h.pending_closed h.idle_closed
  exact
    { hHeld with
      read_block := by
        rw [hEq2]
        exact hReadBlock
      write_block := fun hFlag => hBlockEq.trans (hWriteBlock hFlag)
      read_fresh := by
        rw [hEq2]
        exact fun hFlag hNil => absurd hNil (hRecords hFlag)
      write_fresh := fun hFlag hAccepts =>
        absurd hAccepts (not_acceptsWrite_writeFrame (s := { s with flagReadStart, readResultList })
          (hWriteBlock hFlag) h.pending_ne hr hFlag) }

/-- A header in its place opens its section. -/
theorem fresh_of_header {header : Regex} {start : Nat} (hBlock : BlockSince seen start)
    (hHeader : Accepted header line) (hLine : ¬Accepted regBlockStart line) :
    Fresh header (seen ++ [line]) :=
  ⟨start, seen.length, hBlock.lt_length, hBlock.concat hLine, .start hHeader⟩

/-- One line that stands in its place. -/
theorem Inv.step (h : Inv seen s) (hPlace : InPlace seen s line) :
    Inv (seen ++ [line]) (s.step line) := by
  have hInside : ∀ {k}, kind line = k → k ≠ .blockStart → ¬Accepted regBlockStart line :=
    fun hKind hNe hAccepted => hNe (hKind.symm.trans (blockStart_iff.mp hAccepted))
  rw [step_eq]
  cases hKind : kind line with
  | blockStart =>
      obtain ⟨hPending, hNil⟩ := hPlace.2.2.2 (blockStart_iff.mpr hKind)
      refine Held.inv_of_closed ?_ rfl rfl
      exact
        { write_held := by simp [stepKind]
          write2_held := by simp [stepKind, hNil]
          read_held := by simp [stepKind]
          write_le := Nat.zero_le _
          write2_le := h.write2_le
          read_le := Nat.zero_le _
          pending_ne := by simp [stepKind, hPending]
          pending_closed := by simp [stepKind]
          idle_closed := by simp [stepKind, hNil]
          held_pair := by simp [stepKind]
          pairs := fun file hFile => (h.pairs file hFile).append [line] }
  | readStart =>
      have hHeader : Accepted regReadStart line := readStart_iff.mpr hKind
      have hLine := hInside hKind (by simp)
      obtain ⟨start, hBlock⟩ := hPlace.1 (.inl hHeader)
      have hFlag : s.flagWriteStart = false := hPlace.2.1 hHeader
      exact
        { (h.toHeld.concat hLine).flags true true s.flagWriteStart with
          read_block := fun _ => rfl
          write_block := fun _ => rfl
          read_fresh := fun _ _ => fresh_of_header hBlock hHeader hLine
          write_fresh := by simp [stepKind, hFlag] }
  | writeStart =>
      have hHeader : Accepted regWriteStart line := writeStart_iff.mpr hKind
      have hLine := hInside hKind (by simp)
      obtain ⟨start, hBlock⟩ := hPlace.1 (.inr hHeader)
      have hFlag : s.flagReadStart = false := hPlace.2.2.1 hHeader
      exact
        { (h.toHeld.concat hLine).flags true s.flagReadStart true with
          read_block := fun _ => rfl
          write_block := fun _ => rfl
          read_fresh := by simp [stepKind, hFlag]
          write_fresh := fun _ _ => fresh_of_header hBlock hHeader hLine }
  | readEnd =>
      exact ((h.toHeld.concat (hInside hKind (by simp))).flags s.flagBlockStart false false).inv_of_closed
        rfl rfl
  | callStackLine captures =>
      exact h.frame (hInside hKind (by simp)) (callStackLine_iff.mpr hKind)
  | lineBreak =>
      have hLine := hInside hKind (by simp)
      have hEnd : SectionEnd line := .inr (.inr (.inr (.inr (lineBreak_iff.mpr hKind))))
      have hFlush : Held (seen ++ [line]) s.flush :=
        (h.toHeld.concat hLine).flush
          (fun write hWrite => (h.write_held write hWrite).close hLine hEnd)
          fun write2 hWrite2 => (h.write2_held write2 hWrite2).close hLine hEnd
      exact (hFlush.flags s.flush.flagBlockStart false false).inv_of_closed rfl rfl
  | other =>
      have hOther : ¬SectionEndOrFrame line := by
        rw [SectionEndOrFrame, SectionEnd, readStart_iff, writeStart_iff, readEnd_iff,
          blockStart_iff, lineBreak_iff, hKind]
        rintro ((hAt | hAt | hAt | hAt | hAt) | hFrame)
        · cases hAt
        · cases hAt
        · cases hAt
        · cases hAt
        · cases hAt
        · obtain ⟨captures, hFind⟩ := Option.isSome_iff_exists.mp hFrame
          rw [callStackLine_iff, hKind] at hFind
          cases hFind
      exact
        { h.toHeld.concat (hInside hKind (by simp)) with
          read_block := h.read_block
          write_block := h.write_block
          read_fresh := fun hFlag hNil => (h.read_fresh hFlag hNil).concat hOther
          write_fresh := fun hFlag hAccepts => (h.write_fresh hFlag hAccepts).concat hOther }

end Preserved

/-- Run lemma over the log, as long as every line is in place. -/
theorem inv_run {lines : List Text}
    (h : ∀ seen line rest, lines = seen ++ line :: rest → InPlace seen (run seen) line) :
    Inv lines (run lines) := by
  induction lines using List.reverseRecOn with
  | nil =>
      refine Held.inv_of_closed ?_ rfl rfl
      exact
        { write_held := by simp [run]
          write2_held := by simp [run]
          read_held := by simp [run]
          write_le := Nat.zero_le _
          write2_le := Nat.zero_le _
          read_le := Nat.zero_le _
          pending_ne := by simp [run]
          pending_closed := by simp [run]
          idle_closed := by simp [run]
          held_pair := by simp [run]
          pairs := by simp [run] }
  | append_singleton lines line ih =>
      rw [run_concat]
      refine (ih ?_).step (h lines line [] rfl)
      intro seen line' rest hLines
      exact h seen line' (rest ++ [line]) (by rw [hLines]; simp)

end SyncLoop

/-- Every file is a pair if every line that is handled stands in its place. -/
theorem isPair_of_inPlace {log : List Text}
    (h : ∀ seen line rest, handled 0 (checkBlockIntegrity 0 log) log = seen ++ line :: rest →
      InPlace seen (SyncLoop.run seen) line) :
    ∀ file ∈ (runNormalSyncLoop log).files, IsPair log file.2 := by
  intro file hFile
  have hPair := (SyncLoop.inv_run h).pairs file hFile
  rw [handled_zero] at hPair
  rw [← List.take_append_drop (checkBlockIntegrity 0 log - 1) log]
  exact hPair.append _

def writesLog : List Text :=
  ["==1== ----------------\n".toList,
    "==1== \n".toList,
    "==1== Possible data race during write of size 4 at 0x1 by thread #1\n".toList,
    "==1==    at 0x1: f (a.c:1)\n".toList,
    "==1== \n".toList,
    "==1== This conflicts with a previous write of size 4 by thread #2\n".toList,
    "==1==    at 0x2: g (a.c:2)\n".toList,
    "==1== \n".toList,
    "==1== \n".toList]

theorem isPair_of_inPlace_writesLog :
    (runNormalSyncLoop writesLog).files =
        [(0, ["f (a.c:1)\n".toList, "g (a.c:2)\n".toList])] ∧
      IsPair writesLog ["f (a.c:1)\n".toList, "g (a.c:2)\n".toList] := by
  have hFiles : (runNormalSyncLoop writesLog).files =
      [(0, ["f (a.c:1)\n".toList, "g (a.c:2)\n".toList])] := by decide
  have hPairs : ∀ file ∈ (runNormalSyncLoop writesLog).files, IsPair writesLog file.2 :=
    isPair_of_inPlace (forall_split (by decide))
  rw [hFiles] at hPairs
  exact ⟨hFiles, hPairs _ (List.mem_singleton_self _)⟩

/-- A block with one write section, and then a block with one write section of two
frames. -/
def leftoverLog : List Text :=
  ["==1== ----------------\n".toList,
    "==1== Possible data race during write of size 4 at 0x1 by thread #1\n".toList,
    "==1==    at 0x1: f (a.c:1)\n".toList,
    "==1== \n".toList,
    "==1== ----------------\n".toList,
    "==1== Possible data race during write of size 4 at 0x1 by thread #1\n".toList,
    "==1==    at 0x2: g (a.c:2)\n".toList,
    "==1==    by 0x3: h (a.c:3)\n".toList,
    "==1== \n".toList,
    "==1== \n".toList]

/-- The file has the two frames of the second block, which are of one section. -/
theorem leftoverLog_not_pair :
    ∃ file ∈ (runNormalSyncLoop leftoverLog).files, ¬IsPair leftoverLog file.2 := by
  have hFiles : (runNormalSyncLoop leftoverLog).files =
      [(0, ["g (a.c:2)\n".toList, "h (a.c:3)\n".toList])] := by decide
  have hNone : ∀ frame ∈ List.range leftoverLog.length,
      HasAt (fun line => (regCallStackLine.find? line).bind record = some "h (a.c:3)\n".toList)
        leftoverLog frame →
      ∀ head ∈ List.range frame,
        HasAt (fun line => Accepted regReadStart line ∨ Accepted regWriteStart line) leftoverLog head →
          ¬NoneBetween SectionEndOrFrame leftoverLog head frame := by decide
  refine ⟨(0, ["g (a.c:2)\n".toList, "h (a.c:3)\n".toList]), by rw [hFiles]; simp, ?_⟩
  rintro ⟨start, -, -, other, head, frame, write, entry, hEntries, -, -, -, hOther, hSecond, -⟩
  obtain ⟨line, hLine, captures, hFind, hRecord⟩ := hSecond.has
  obtain ⟨header, hHeader, hAccepted⟩ := hSecond.headed
  have hEntry : "h (a.c:3)\n".toList = entry := by
    simp only [List.cons.injEq, and_true] at hEntries
    exact hEntries.2
  have hFrame : HasAt
      (fun line => (regCallStackLine.find? line).bind record = some "h (a.c:3)\n".toList)
      leftoverLog frame :=
    ⟨line, hLine, by simp only [hFind, hEntry, Option.bind_some, hRecord]⟩
  refine hNone frame (List.mem_range.mpr hFrame.lt_length) hFrame head
    (List.mem_range.mpr hSecond.head_lt) ⟨header, hHeader, ?_⟩ hSecond.same_section
  rcases hOther with rfl | rfl
  · exact .inl hAccepted
  · exact .inr hAccepted

end ConAnalysis.Scripts.Valgrind
