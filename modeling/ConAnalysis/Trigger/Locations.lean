import ConAnalysis.Trigger.Bookkeeping

/-! When the trigger tells the locations of the write and of the read apart. -/
namespace ConAnalysis.Trigger

variable (c : Config)

/-- The thread is stopped at the location. LLDB selects the innermost frame of a
thread that has just stopped. -/
def StoppedAt (thd : Thread) (location : Location) : Prop :=
  thd.selectedFrame = thd.frameAtIndex0 ∧ thd.frameAtIndex0.location = location

/-- Both callbacks record the thread with this kind of access and the addresses on
this source line, if it has any. -/
def RecordedAs (kind : Kind) (source : Text) (thd : Thread) : Prop :=
  ∀ frameOf ∈ [Thread.frameAtIndex0, Thread.selectedFrame], recordedEntry c frameOf thd =
    (getAddr thd.frameAtIndex0 source).map fun addrs => { addrs, kind, id := thd.id }

/-- A breakpoint is set at either location, a thread is recorded for the one at
which it is stopped, and two threads that are held at the two of them on a common
address are paired. -/
structure Distinguishes : Prop where
  breaksAt : ∀ location ∈ [c.bp_location.1, c.bp_location.2], ∃ callback,
    (location, callback) ∈ setTrigger c
  write : ∀ thd, StoppedAt thd c.bp_location.1 → RecordedAs c .write c.bp_source.1 thd
  read : ∀ thd, StoppedAt thd c.bp_location.2 → RecordedAs c .read c.bp_source.2 thd
  paired : ∀ thd thd', StoppedAt thd c.bp_location.1 → StoppedAt thd' c.bp_location.2 →
    ∀ frameOf ∈ [Thread.frameAtIndex0, Thread.selectedFrame],
    ∀ frameOf' ∈ [Thread.frameAtIndex0, Thread.selectedFrame], ∀ arr arr',
      recordedEntry c frameOf thd = .ok arr → recordedEntry c frameOf' thd' = .ok arr' →
      thd.id ≠ thd'.id → ∀ addr ∈ arr.addrs, addr ∈ arr'.addrs → ∀ objArr : List Entry,
        (arr ∈ objArr → (addr, thd.id) ∈ matchEntries c objArr arr') ∧
        (arr' ∈ objArr → (addr, thd'.id) ∈ matchEntries c objArr arr)

variable {c}

/-- The line number of the frame decides. -/
theorem recordedEntry_of_accessAt (frameOf : Thread → Frame) {thd : Thread} {kind : Kind}
    {source : Text} (h : accessAt c (frameOf thd) = .ok (kind, source)) :
    recordedEntry c frameOf thd =
      (getAddr (frameOf thd) source).map fun addrs => { addrs, kind, id := thd.id } := by
  rw [recordedEntry, h]
  simp only [bind, Except.bind]
  cases getAddr (frameOf thd) source <;> rfl

/-- For a thread that has stopped in its own frame, both callbacks look at the same frame. -/
theorem frameOf_eq {thd : Thread} {location : Location} (h : StoppedAt thd location)
    {frameOf : Thread → Frame} (hFrame : frameOf ∈ [Thread.frameAtIndex0, Thread.selectedFrame]) :
    frameOf thd = thd.frameAtIndex0 := by
  rcases List.mem_cons.mp hFrame with rfl | hFrame
  · rfl
  · rw [List.mem_singleton.mp hFrame, h.1]

/-- The entry of a thread is made from the location that the test finds first. -/
theorem recordedAs_of_accessAt {thd : Thread} {location : Location} (h : StoppedAt thd location)
    {kind : Kind} {source : Text} (hAccess : accessAt c thd.frameAtIndex0 = .ok (kind, source)) :
    RecordedAs c kind source thd := by
  intro frameOf hFrame
  have hEq := frameOf_eq h hFrame
  rw [recordedEntry_of_accessAt _ (hEq.symm ▸ hAccess), hEq]

theorem accessAt_write {thd : Thread} (h : StoppedAt thd c.bp_location.1) :
    accessAt c thd.frameAtIndex0 = .ok (.write, c.bp_source.1) := by
  rw [accessAt, h.2, if_pos rfl]

/-- A thread at the read is taken for one at the write if their lines have the same
number. -/
theorem accessAt_read {thd : Thread} (h : StoppedAt thd c.bp_location.2) :
    accessAt c thd.frameAtIndex0 =
      if c.bp_location.1.line = c.bp_location.2.line then .ok (.write, c.bp_source.1)
      else .ok (.read, c.bp_source.2) := by
  rw [accessAt, h.2, if_pos rfl]
  exact if_congr eq_comm rfl rfl

def resolvingFrame (location : Location) : Frame where
  location
  address _ := some []

/-- Addresses depend on the variables of the source line only. -/
theorem getAddr_of_tokens_eq {source source' : Text} (h : tokens source = tokens source')
    (frame : Frame) : getAddr frame source = getAddr frame source' := by
  rw [getAddr, getAddr, h]

/-- Without a token that may name a variable, there are no addresses. -/
theorem getAddr_of_tokens_nil {source : Text} (h : tokens source = []) (frame : Frame) :
    ∃ stop, getAddr frame source = .error stop := by
  rw [getAddr, h]
  split
  · exact ⟨_, rfl⟩
  · exact ⟨_, rfl⟩

theorem getAddr_resolvingFrame {source : Text} (h : tokens source ≠ []) (location : Location) :
    ∃ addrs, getAddr (resolvingFrame location) source = .ok addrs := by
  have hLength : ((tokens source).filterMap (resolvingFrame location).address).length ≠ 0 := by
    obtain ⟨token, rest, hTokens⟩ := List.exists_cons_of_ne_nil h
    rw [hTokens]
    exact Nat.succ_ne_zero _
  rw [getAddr]
  simp only [if_neg hLength]
  exact ⟨_, rfl⟩

/-- The kind of an entry is what the test has found. -/
theorem kind_of_recordedAs {kind : Kind} {source : Text} {thd : Thread}
    (h : RecordedAs c kind source thd) {frameOf : Thread → Frame}
    (hFrame : frameOf ∈ [Thread.frameAtIndex0, Thread.selectedFrame]) {arr : Entry}
    (hArr : recordedEntry c frameOf thd = .ok arr) : arr.kind = kind := by
  rw [h frameOf hFrame] at hArr
  cases hAddrs : getAddr thd.frameAtIndex0 source with
  | error stop =>
      rw [hAddrs] at hArr
      cases hArr
  | ok addrs =>
      rw [hAddrs] at hArr
      cases hArr
      rfl

/-- The entries of two conflicting threads are paired. -/
theorem mem_matchEntries {objArr : List Entry} {obj arr : Entry} (hObj : obj ∈ objArr)
    (hId : obj.id ≠ arr.id) (hKind : obj.kind ≠ arr.kind) {addr : Text} (hAddr : addr ∈ obj.addrs)
    (hAddr' : addr ∈ arr.addrs) : (addr, obj.id) ∈ matchEntries c objArr arr := by
  refine List.mem_flatMap.mpr ⟨obj, hObj, ?_⟩
  rw [if_pos hId, if_pos (.inr hKind)]
  exact List.mem_map_of_mem (List.mem_filter.mpr ⟨hAddr, decide_eq_true hAddr'⟩)

/-- Threads that are recorded for their locations are paired. -/
theorem distinguishes_of_recordedAs
    (hBreaks : ∀ location ∈ [c.bp_location.1, c.bp_location.2], ∃ callback,
      (location, callback) ∈ setTrigger c)
    (hWrite : ∀ thd, StoppedAt thd c.bp_location.1 → RecordedAs c .write c.bp_source.1 thd)
    (hRead : ∀ thd, StoppedAt thd c.bp_location.2 → RecordedAs c .read c.bp_source.2 thd) :
    Distinguishes c where
  breaksAt := hBreaks
  write := hWrite
  read := hRead
  paired thd thd' hThd hThd' frameOf hFrame frameOf' hFrame' arr arr' hArr hArr' hNe addr hAddr
      hAddr' objArr := by
    have hKind : arr.kind = .write := kind_of_recordedAs (hWrite thd hThd) hFrame hArr
    have hKind' : arr'.kind = .read := kind_of_recordedAs (hRead thd' hThd') hFrame' hArr'
    rw [← id_recordedEntry hArr, ← id_recordedEntry hArr'] at hNe ⊢
    constructor
    · exact fun hMem => mem_matchEntries hMem hNe (by simp [hKind, hKind']) hAddr hAddr'
    · exact fun hMem => mem_matchEntries hMem hNe.symm (by simp [hKind, hKind']) hAddr' hAddr

/-- If the two lines have the same number, their source lines must not have any
token that may name a variable. -/
theorem tokens_eq_nil_of_read (hLine : c.bp_location.1.line = c.bp_location.2.line)
    (hRead : ∀ thd, StoppedAt thd c.bp_location.2 → RecordedAs c .read c.bp_source.2 thd) :
    tokens c.bp_source.1 = [] ∧ tokens c.bp_source.2 = [] := by
  have hStopped : StoppedAt ⟨0, true, false, resolvingFrame c.bp_location.2,
      resolvingFrame c.bp_location.2⟩ c.bp_location.2 := ⟨rfl, rfl⟩
  have hAccess := accessAt_read hStopped
  rw [if_pos hLine] at hAccess
  have hEntry := recordedEntry_of_accessAt Thread.frameAtIndex0 hAccess
  rw [hRead _ hStopped _ List.mem_cons_self] at hEntry
  simp only at hEntry
  constructor
  · by_contra hTokens
    obtain ⟨addrs, hAddrs⟩ := getAddr_resolvingFrame hTokens c.bp_location.2
    rw [hAddrs] at hEntry
    cases hOther : getAddr (resolvingFrame c.bp_location.2) c.bp_source.2 with
    | error stop =>
        rw [hOther] at hEntry
        cases hEntry
    | ok addrs' =>
        rw [hOther] at hEntry
        cases hEntry
  · by_contra hTokens
    obtain ⟨addrs, hAddrs⟩ := getAddr_resolvingFrame hTokens c.bp_location.2
    rw [hAddrs] at hEntry
    cases hOther : getAddr (resolvingFrame c.bp_location.2) c.bp_source.1 with
    | error stop =>
        rw [hOther] at hEntry
        cases hEntry
    | ok addrs' =>
        rw [hOther] at hEntry
        cases hEntry

/-- Two locations are told apart if, and only if, their source lines differ and so
do their line numbers, unless neither source line has a token that may name a
variable. -/
theorem distinguishes_iff (hLocations : c.bp_location.1 ≠ c.bp_location.2) :
    Distinguishes c ↔ c.bp_source.1 ≠ c.bp_source.2 ∧
      (c.bp_location.1.line ≠ c.bp_location.2.line ∨
        (tokens c.bp_source.1 = [] ∧ tokens c.bp_source.2 = [])) := by
  constructor
  · intro h
    refine ⟨fun hSame => ?_, ?_⟩
    · obtain ⟨callback, hMem⟩ := h.breaksAt c.bp_location.2 (by simp)
      rw [setTrigger, if_neg (not_not.mpr hSame), List.mem_singleton, Prod.mk.injEq] at hMem
      exact hLocations hMem.1.symm
    · by_cases hLine : c.bp_location.1.line = c.bp_location.2.line
      · exact .inr (tokens_eq_nil_of_read hLine h.read)
      · exact .inl hLine
  · rintro ⟨hSource, hLine⟩
    refine distinguishes_of_recordedAs ?_ ?_ ?_
    · intro location hLocation
      rw [setTrigger, if_pos hSource]
      rcases List.mem_cons.mp hLocation with rfl | hLocation
      · exact ⟨.write, by simp⟩
      · exact ⟨.read, by simp [List.mem_singleton.mp hLocation]⟩
    · exact fun thd hThd => recordedAs_of_accessAt hThd (accessAt_write hThd)
    · intro thd hThd
      have hAccess := accessAt_read hThd
      by_cases hLine' : c.bp_location.1.line = c.bp_location.2.line
      · obtain ⟨hWrite, hRead⟩ := hLine.resolve_left (not_not.mpr hLine')
        rw [if_pos hLine'] at hAccess
        obtain ⟨stop, hStop⟩ := getAddr_of_tokens_nil hRead thd.frameAtIndex0
        intro frameOf hFrame
        rw [recordedAs_of_accessAt hThd hAccess frameOf hFrame,
          getAddr_of_tokens_eq (hWrite.trans hRead.symm), hStop]
        rfl
      · rw [if_neg hLine'] at hAccess
        exact recordedAs_of_accessAt hThd hAccess

theorem distinguishes_iff_twoLines :
    Distinguishes twoLines ↔ twoLines.bp_source.1 ≠ twoLines.bp_source.2 ∧
      (twoLines.bp_location.1.line ≠ twoLines.bp_location.2.line ∨
        (tokens twoLines.bp_source.1 = [] ∧ tokens twoLines.bp_source.2 = [])) :=
  distinguishes_iff (by decide)

/-- The same two source lines, both in line 5, of two files. -/
def twoFiles : Config :=
  { twoLines with bp_location := (⟨"a.c".toList, 5⟩, ⟨"b.c".toList, 5⟩) }

/-- The read is recorded as a write. -/
theorem twoFiles_not_distinguished :
    recordedEntry twoFiles Thread.frameAtIndex0 (stoppedThread 1 ⟨"b.c".toList, 5⟩) =
        .ok ⟨["0x1".toList], .write, 1⟩ ∧
      twoFiles.bp_location.1 ≠ twoFiles.bp_location.2 ∧ ¬Distinguishes twoFiles := by
  have hEntry : recordedEntry twoFiles Thread.frameAtIndex0 (stoppedThread 1 ⟨"b.c".toList, 5⟩) =
      .ok ⟨["0x1".toList], .write, 1⟩ := rfl
  refine ⟨hEntry, by decide, fun h => ?_⟩
  have hRead := h.read (stoppedThread 1 ⟨"b.c".toList, 5⟩) ⟨rfl, rfl⟩
  have hKind := kind_of_recordedAs hRead List.mem_cons_self hEntry
  cases hKind

end ConAnalysis.Trigger
