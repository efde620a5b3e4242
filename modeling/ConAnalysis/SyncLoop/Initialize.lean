import ConAnalysis.Input.RacyInstructions
import ConAnalysis.Input.InitializeCallStack

/-! `SyncLoop::initialize`: from the two lines of a race report to the writes and the
reads. -/
namespace ConAnalysis

/-- The `Inst2Int` numbers in the order of a map that is keyed by pointers. -/
structure Inst2IntMap (M : IR.Module) where
  entries : List (IR.InstRef × Nat)
  nodup : (entries.map Prod.fst).Nodup
  mem_iff : ∀ r n, (r, n) ∈ entries ↔ (Inst2Int.createMaps M).2.ins2int r = some n

def Inst2IntMap.inOrder (M : IR.Module) : Inst2IntMap M where
  entries := (M.allInstructions.map Prod.fst).dedup.filterMap fun r =>
    ((Inst2Int.createMaps M).2.ins2int r).map fun n => (r, n)
  nodup := by
    rw [List.map_filterMap]
    refine (List.nodup_dedup _).filterMap ?_
    intro r r' key hKey hKey'
    obtain ⟨_, hNumber, rfl⟩ := Option.map_eq_some_iff.mp hKey
    obtain ⟨_, hNumber', hEq⟩ := Option.map_eq_some_iff.mp hKey'
    obtain ⟨n, -, rfl⟩ := Option.map_eq_some_iff.mp hNumber
    obtain ⟨n', -, rfl⟩ := Option.map_eq_some_iff.mp hNumber'
    exact hEq.symm
  mem_iff r n := by
    rw [List.mem_filterMap]
    constructor
    · rintro ⟨r', -, hNumber⟩
      obtain ⟨n', hNumber, hEq⟩ := Option.map_eq_some_iff.mp hNumber
      cases hEq
      exact hNumber
    · intro hNumber
      obtain ⟨i, hInst⟩ := Inst2Int.inst?_of_ins2int hNumber
      have hMem : r ∈ M.allInstructions.map Prod.fst :=
        List.mem_map_of_mem (IR.Module.mem_allInstructions.mpr hInst)
      exact ⟨r, List.mem_dedup.mpr hMem, by rw [hNumber]; rfl⟩

namespace SyncLoop
open IR BreakLoop
open ConAnalysis.Env (Site)

/-- `readFuncInstList_`, `writeFuncInstList_` and `finishedVars_`. -/
structure RacingInsts where
  readFuncInstList : List Site := []
  writeFuncInstList : List Site := []
  finishedVars : Finset Value := ∅

inductive InputAbort where
  | readInstructionMissing
  | noMatchingInstructions
deriving DecidableEq, Repr

/-- One instruction of the line of the read. `back` is the last one of the line. -/
def handleRead (M : Module) (back : Option InstRef) (st : RacingInsts)
    (item : InstRef × Instruction) : Round RacingInsts :=
  if item.2.isCallSite then .next st
  else
    match pick M st.finishedVars
        (some item.1 = back && (st.readFuncInstList.isEmpty && st.writeFuncInstList.isEmpty))
        item.2 with
    | .add => .next { st with
        readFuncInstList := st.readFuncInstList ++ [siteOf item.1]
        finishedVars := insert (.instruction item.1) st.finishedVars }
    | .skip true => .next { st with finishedVars := insert (.instruction item.1) st.finishedVars }
    | .skip false => .next st
    | .stop => .leave st

/-- The loop over the instructions of a line. All those of the first line are writes. -/
def handleLine (M : Module) (firstLine : Bool) (insList : List (InstRef × Instruction))
    (st : RacingInsts) : RacingInsts :=
  if firstLine then { st with
    writeFuncInstList := st.writeFuncInstList ++ insList.map fun item => siteOf item.1 }
  else loop (handleRead M (backOf insList)) insList st

def handleReport (M : Module) (sourcetoIRmap : LineMap M) :
    Bool → List FuncFileLine → RacingInsts → Except InputAbort RacingInsts
  | _, [], st => .ok st
  | firstLine, line :: lines, st =>
      match sourcetoIRmap.find line.2 with
      | none =>
          if firstLine then handleReport M sourcetoIRmap false lines st
          else .error .readInstructionMissing
      | some [] => .error .noMatchingInstructions
      | some (item :: items) =>
          handleReport M sourcetoIRmap false lines (handleLine M firstLine (item :: items) st)

/-- The loop over `ins2int_` that looks for the manual input, up to its first `break`. -/
def overwriteLists (write read : Nat) : List (InstRef × Nat) → RacingInsts → RacingInsts
  | [], st => st
  | (r, n) :: entries, st =>
      if n = write then { st with writeFuncInstList := [siteOf r] }
      else if n = read then { st with readFuncInstList := [siteOf r] }
      else overwriteLists write read entries st

/-- `SyncLoop::initialize`, with the options `writeVar` and `readVar`. -/
def initializeRacing (M : Module) (sourcetoIRmap : LineMap M) (ins2int : Inst2IntMap M)
    (racingWrite racingRead : Nat) (csinput : List FuncFileLine) :
    Except InputAbort RacingInsts :=
  (handleReport M sourcetoIRmap true csinput {}).map
    (overwriteLists racingWrite racingRead ins2int.entries)

section Read
variable {M : Module} {back : Option InstRef} {item : InstRef × Instruction}
variable {items : List (InstRef × Instruction)} {st : RacingInsts}

/-- There is a write, and nothing has been added or finished for the read. -/
structure RacingInsts.Fresh (st : RacingInsts) : Prop where
  write : st.writeFuncInstList ≠ []
  read : st.readFuncInstList = []
  finished : st.finishedVars = ∅

/-- As there is a write, the last instruction has no fallback. -/
theorem handleRead_fresh (hst : st.Fresh) : handleRead M back st item =
    if item.2.isCallSite = false ∧ Racy M false item.2 then .next { st with
      readFuncInstList := st.readFuncInstList ++ [siteOf item.1]
      finishedVars := insert (.instruction item.1) st.finishedVars }
    else .next st := by
  unfold handleRead
  cases hCall : item.2.isCallSite with
  | true => simp
  | false =>
      simp only [hst.read, hst.finished, List.isEmpty_eq_false_iff.mpr hst.write, Bool.and_false,
        pick_empty]
      by_cases hRacy : Racy M false item.2 <;> simp [hRacy]

/-- A read stays. -/
theorem read_loop_ne_nil (h : st.readFuncInstList ≠ []) :
    (loop (handleRead M back) items st).readFuncInstList ≠ [] := by
  refine loop_invariant (I := fun st : RacingInsts => st.readFuncInstList ≠ []) h ?_ ?_
  · intro item _ st st' hst hRound
    unfold handleRead at hRound
    split at hRound
    · cases hRound
      exact hst
    · split at hRound <;> cases hRound <;> simp [hst]
  · intro item _ st st' hst hRound
    unfold handleRead at hRound
    split at hRound
    · cases hRound
    · split at hRound <;> cases hRound
      exact hst

/-- On the line of the read every racy instruction but a call is taken. -/
theorem read_loop_iff (hst : st.Fresh) :
    (loop (handleRead M back) items st).readFuncInstList ≠ [] ↔
      ∃ item ∈ items, item.2.isCallSite = false ∧ Racy M false item.2 := by
  induction items with
  | nil => simp [loop, hst.read]
  | cons item items ih =>
      rw [List.exists_mem_cons_iff, loop, handleRead_fresh hst]
      by_cases hRacy : item.2.isCallSite = false ∧ Racy M false item.2
      · rw [if_pos hRacy]
        exact iff_of_true (read_loop_ne_nil (by simp)) (.inl hRacy)
      · rw [if_neg hRacy, or_iff_right hRacy]
        exact ih

end Read
section Numbers
variable {M : Module}

/-- The numbers start at one. -/
theorem number_pos (ins2int : Inst2IntMap M) : ∀ entry ∈ ins2int.entries, 0 < entry.2 := by
  rintro ⟨r, n⟩ hEntry
  exact (Inst2Int.positiveNumbers_createMaps M).2 r n ((ins2int.mem_iff r n).mp hEntry)

/-- Without manual input nothing is overwritten. -/
theorem overwriteLists_zero {entries : List (InstRef × Nat)} (h : ∀ entry ∈ entries, 0 < entry.2)
    (st : RacingInsts) : overwriteLists 0 0 entries st = st := by
  induction entries with
  | nil => rfl
  | cons entry entries ih =>
      obtain ⟨r, n⟩ := entry
      rw [List.forall_mem_cons] at h
      have hNe : n ≠ 0 := Nat.pos_iff_ne_zero.mp h.1
      rw [overwriteLists, if_neg hNe, if_neg hNe, ih h.2]

/-- Without numbers on the command line only the report counts. -/
theorem initializeRacing_zero (sourcetoIRmap : LineMap M) (ins2int : Inst2IntMap M)
    (csinput : List FuncFileLine) : initializeRacing M sourcetoIRmap ins2int 0 0 csinput =
      handleReport M sourcetoIRmap true csinput {} := by
  unfold initializeRacing
  cases handleReport M sourcetoIRmap true csinput {} with
  | error abort => rfl
  | ok st => exact congrArg Except.ok (overwriteLists_zero (number_pos ins2int) st)

end Numbers

/-- Both lines of the report have instructions, and the read line does not end with a call. -/
structure FoundLines (M : Module) (sourcetoIRmap : LineMap M) (writeLine readLine : FuncFileLine)
    (reads : List (InstRef × Instruction)) : Prop where
  write : ∃ item items, sourcetoIRmap.find writeLine.2 = some (item :: items)
  read : sourcetoIRmap.find readLine.2 = some reads
  notEmpty : reads ≠ []
  noLastCall : ∀ item ∈ reads.getLast?, item.2.isCallSite = false

/-- There is a read exactly if an instruction of its line is racy by itself. -/
theorem readFuncInstList_ne_nil_iff {M : Module} {sourcetoIRmap : LineMap M}
    (ins2int : Inst2IntMap M) {writeLine readLine : FuncFileLine}
    {reads : List (InstRef × Instruction)}
    (h : FoundLines M sourcetoIRmap writeLine readLine reads) :
    (∃ st, initializeRacing M sourcetoIRmap ins2int 0 0 [writeLine, readLine] = .ok st ∧
      st.readFuncInstList ≠ []) ↔
        ∃ item ∈ reads, item.2.isCallSite = false ∧ Racy M false item.2 := by
  obtain ⟨write, writes, hWrite⟩ := h.write
  obtain ⟨read, rest, rfl⟩ := List.exists_cons_of_ne_nil h.notEmpty
  have hReport : handleReport M sourcetoIRmap true [writeLine, readLine] {} =
      .ok (handleLine M false (read :: rest) (handleLine M true (write :: writes) {})) := by
    simp only [handleReport, hWrite, h.read]
  rw [initializeRacing_zero, hReport]
  have hFresh : (handleLine M true (write :: writes) {}).Fresh :=
    ⟨by simp [handleLine], rfl, rfl⟩
  have hRead : (handleLine M false (read :: rest)
      (handleLine M true (write :: writes) {})).readFuncInstList ≠ [] ↔
        ∃ item ∈ read :: rest, item.2.isCallSite = false ∧ Racy M false item.2 :=
    read_loop_iff hFresh
  rw [← hRead]
  simp

/-- `publish` sets a flag, `consume` reads it through a local pointer, and then directly. -/
def racingModule : Module where
  functions := [
    { name := "publish"
      blocks := [{
        body := [⟨.store, [.constant 1, .globalVariable 0], some ⟨"q.c", 3⟩⟩]
        terminator := ⟨.ret, [], some ⟨"q.c", 4⟩⟩
        successors := [] }] },
    { name := "consume"
      blocks := [{
        body := [
          ⟨.alloca, [], some ⟨"q.c", 6⟩⟩,
          ⟨.store, [.globalVariable 0, .instruction ⟨1, 0, 0⟩], some ⟨"q.c", 6⟩⟩,
          ⟨.load, [.instruction ⟨1, 0, 0⟩], some ⟨"q.c", 7⟩⟩,
          ⟨.load, [.instruction ⟨1, 0, 2⟩], some ⟨"q.c", 7⟩⟩,
          ⟨.load, [.globalVariable 0], some ⟨"q.c", 8⟩⟩]
        terminator := ⟨.ret, [], some ⟨"q.c", 9⟩⟩
        successors := [] }] }]

def racingLines : LineMap racingModule :=
  Inst2Int.lineMap racingModule (Inst2Int.createMaps racingModule).2

theorem foundLines_pointer : FoundLines racingModule racingLines ("publish", "q.c", 3)
    ("consume", "q.c", 7) [
      (⟨1, 0, 2⟩, ⟨.load, [.instruction ⟨1, 0, 0⟩], some ⟨"q.c", 7⟩⟩),
      (⟨1, 0, 3⟩, ⟨.load, [.instruction ⟨1, 0, 2⟩], some ⟨"q.c", 7⟩⟩)] where
  write := ⟨(⟨0, 0, 0⟩, ⟨.store, [.constant 1, .globalVariable 0], some ⟨"q.c", 3⟩⟩), [],
    by decide⟩
  read := by decide
  notEmpty := by simp
  noLastCall := by simp [IR.Instruction.isCallSite]

/-- No instruction that reads through the local pointer is taken. -/
theorem read_without_instruction : ∃ reads st,
    FoundLines racingModule racingLines ("publish", "q.c", 3) ("consume", "q.c", 7) reads ∧
      initializeRacing racingModule racingLines (.inOrder racingModule) 0 0
        [("publish", "q.c", 3), ("consume", "q.c", 7)] = .ok st ∧
      st.readFuncInstList = [] := by
  obtain ⟨st, hInit, hNone⟩ := Exceptions.exists_ok_of_any
    (x := initializeRacing racingModule racingLines (.inOrder racingModule) 0 0
      [("publish", "q.c", 3), ("consume", "q.c", 7)])
    (P := fun st => st.readFuncInstList = []) (by decide)
  exact ⟨_, st, foundLines_pointer, hInit, hNone⟩

theorem readFuncInstList_ne_nil_iff_global : ∃ st,
    initializeRacing racingModule racingLines (.inOrder racingModule) 0 0
        [("publish", "q.c", 3), ("consume", "q.c", 8)] = .ok st ∧
      st.readFuncInstList ≠ [] := by
  have hFound : FoundLines racingModule racingLines ("publish", "q.c", 3) ("consume", "q.c", 8)
      [(⟨1, 0, 4⟩, ⟨.load, [.globalVariable 0], some ⟨"q.c", 8⟩⟩)] := by
    constructor
    case write => exact foundLines_pointer.write
    case read => decide
    case notEmpty => simp
    case noLastCall => simp [IR.Instruction.isCallSite]
  exact (readFuncInstList_ne_nil_iff (.inOrder racingModule) hFound).mpr
    ⟨_, List.mem_cons_self, rfl, by decide⟩

end SyncLoop
end ConAnalysis
