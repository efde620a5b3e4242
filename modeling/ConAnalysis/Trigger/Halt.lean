import ConAnalysis.Trigger.Bookkeeping

/-! Why the script halts: two threads have been stopped at conflicting accesses to one address,
and both of them are still to be found there. -/
namespace ConAnalysis.Trigger
open Exceptions

/-- `resume_threads`, once every `thread.Resume()` succeeds. -/
def Process.resumeThreads (p : Process) (except_set : List Nat) : Process where
  threads := p.threads.map fun thd =>
    if thd.id ∈ except_set then thd else { thd with isSuspended := false }
  isValid := p.isValid
  isStopped := p.isStopped
  ids_nodup := by
    have hIds : p.threads.map (Thread.id ∘ fun thd =>
        if thd.id ∈ except_set then thd else { thd with isSuspended := false }) =
          p.threads.map Thread.id := by
      refine List.map_congr_left fun thd _ => ?_
      rw [Function.comp_apply]
      split <;> rfl
    rw [List.map_map, hIds]
    exact p.ids_nodup

/-- How `breakpoint_match_check` leaves the process when it has found matches. -/
def State.halt (s : State) (matched : List (Text × Nat)) (id : Nat) : State :=
  { s with process := s.process.resumeThreads (id :: matched.map Prod.snd) }.stopProcess

variable (c : Config)

/-- The entry tells of an access before which the thread has stopped: a frame of the thread is in
the line of the access, and the addresses are those of the variables on the source line. -/
def AccessOf (thd : Thread) (obj : Entry) : Prop :=
  thd.id = obj.id ∧ thd.atBreakpoint = true ∧
    ∃ fr ∈ [thd.frameAtIndex0, thd.selectedFrame],
      (obj.kind = .write ∧ fr.location.line = c.bp_location.1.line ∧
          obj.addrs = (tokens c.bp_source.1).filterMap fr.address) ∨
        obj.kind = .read ∧ fr.location.line = c.bp_location.2.line ∧
          obj.addrs = (tokens c.bp_source.2).filterMap fr.address

/-- One of the threads of the process has stopped before the access. -/
def State.HasStopped (s : State) (obj : Entry) : Prop := ∃ thd ∈ s.process.threads, AccessOf c thd obj

/-- The thread had stopped before the access when its entry was made, and the entry has been there
at all times since then. -/
inductive Tracked (allowed : State → Nat → Prop) (process : Process) (lastBreak : Rat)
    (obj : Entry) : State → Prop
  | recorded {s s' : State} (hReaches : Reaches c allowed process lastBreak s)
      (hStopped : s.HasStopped c obj) (hStep : Step c allowed s s') (hObj : obj ∈ s'.objArr) :
      Tracked allowed process lastBreak obj s'
  | kept {s s' : State} (h : Tracked allowed process lastBreak obj s)
      (hStep : Step c allowed s s') (hObj : obj ∈ s'.objArr) :
      Tracked allowed process lastBreak obj s'

/-- The loop of a callback halts: the entry of one of the threads matches others. -/
inductive HaltsAt (frameOf : Thread → Frame) (r : Readings) : State → List Thread → Entry → State → Prop
  | here {s : State} {thd : Thread} {threads : List Thread} {arr : Entry}
      (hEntry : recordedEntry c frameOf thd = .ok arr) (hMatch : matchEntries c s.objArr arr ≠ []) :
      HaltsAt frameOf r s (thd :: threads) arr (s.suspend thd.id)
  | later {s s' last : State} {thd : Thread} {threads : List Thread} {arr : Entry}
      (hHandle : handle c frameOf r s thd = .ok s') (h : HaltsAt frameOf r s' threads arr last) :
      HaltsAt frameOf r s (thd :: threads) arr last

inductive Halts (s : State) : Entry → State → Prop
  | readCallback {arr : Entry} {last : State} (r : Readings)
      (h : HaltsAt c Thread.frameAtIndex0 r { s.stopProcess with running := false }
        s.untrackedBreakpointCheck arr last) : Halts s arr last
  | writeCallback {arr : Entry} {last : State} (r : Readings) (id : Nat)
      (h : HaltsAt c Thread.selectedFrame r
        (State.deleteEntries { s.stopProcess with running := false } (s.threadLivenessCheck id))
        (s.deleteEntries (s.threadLivenessCheck id)).untrackedBreakpointCheck arr last) :
      Halts s arr last

/-- What has been caught when the script halts: the thread of `arr` and those with matching entries,
all of which had stopped before their accesses. They alone are left suspended. -/
structure Caught (allowed : State → Nat → Prop) (process : Process) (lastBreak : Rat) (s : State)
    (arr : Entry) (last : State) (matched : List (Text × Nat)) : Prop where
  hasStopped : s.HasStopped c arr
  tracked : ∀ obj ∈ last.objArr, Tracked c allowed process lastBreak obj s ∨ s.HasStopped c obj
  nonempty : matched ≠ []
  mem_matched : ∀ addr id, (addr, id) ∈ matched ↔
    ∃ obj ∈ last.objArr, obj.id = id ∧ Matches c obj arr ∧ addr ∈ obj.addrs ∧ addr ∈ arr.addrs
  same_threads : (last.halt matched arr.id).process.threads.map Thread.id =
    s.process.threads.map Thread.id
  isStopped : (last.halt matched arr.id).process.isStopped = true
  isSuspended : ∃ thd ∈ (last.halt matched arr.id).process.threads,
    thd.id = arr.id ∧ thd.isSuspended = true
  resumed : ∀ thd ∈ (last.halt matched arr.id).process.threads, thd.isSuspended = true →
    thd.id = arr.id ∨ ∃ addr, (addr, thd.id) ∈ matched

variable {c}

section Entries
variable {frameOf : Thread → Frame} {r : Readings} {s s' : State} {thd : Thread} {arr : Entry}

/-- The addresses are those of the variables on the source line that the frame knows. -/
theorem getAddr_ok {frame : Frame} {source : Text} {addrs : List Text}
    (h : getAddr frame source = .ok addrs) : addrs = (tokens source).filterMap frame.address := by
  unfold getAddr at h
  split at h
  · cases h
  · dsimp only at h
    split at h
    · cases h
    · exact (Except.ok.inj h).symm

/-- An entry tells of the access that its thread is about to make. -/
theorem accessOf_of_recordedEntry (h : recordedEntry c frameOf thd = .ok arr)
    (hFrame : frameOf ∈ [Thread.frameAtIndex0, Thread.selectedFrame])
    (hAt : thd.atBreakpoint = true) : AccessOf c thd arr := by
  obtain ⟨source, hAccess, hGetAddr, hId⟩ := recordedEntry_ok h
  have hAddrs := getAddr_ok hGetAddr
  have hFr : frameOf thd ∈ [thd.frameAtIndex0, thd.selectedFrame] := by
    simp only [List.mem_cons, List.not_mem_nil, or_false] at hFrame ⊢
    rcases hFrame with rfl | rfl
    · exact .inl rfl
    · exact .inr rfl
  refine ⟨hId.symm, hAt, frameOf thd, hFr, ?_⟩
  unfold accessAt at hAccess
  split at hAccess
  · next hLine =>
      obtain ⟨hKind, rfl⟩ := Prod.mk.inj (Except.ok.inj hAccess)
      exact .inl ⟨hKind.symm, hLine, hAddrs⟩
  · split at hAccess
    · next hLine =>
        obtain ⟨hKind, rfl⟩ := Prod.mk.inj (Except.ok.inj hAccess)
        exact .inr ⟨hKind.symm, hLine, hAddrs⟩
    · cases hAccess

/-- Away from both lines no entry can be made. -/
theorem accessAt_error {fr : Frame} {stop : Stop} (h : accessAt c fr = .error stop) :
    stop = .wrongLine := by
  unfold accessAt at h
  split at h
  · cases h
  · split at h <;> cases h
    rfl

theorem getAddr_error {frame : Frame} {source : Text} {stop : Stop}
    (h : getAddr frame source = .error stop) : stop = .noFrame ∨ stop = .noVariables := by
  unfold getAddr at h
  split at h
  · cases h
    exact .inl rfl
  · dsimp only at h
    split at h <;> cases h
    exact .inr rfl

/-- Making an entry may end the script, but not because of a match. -/
theorem recordedEntry_ne_found {matched : List (Text × Nat)} :
    recordedEntry c frameOf thd ≠ .error (.found matched) := by
  intro h
  rcases bind_eq_error_iff.mp h with hAccess | ⟨access, -, hRest⟩
  · cases accessAt_error hAccess
  · rcases bind_eq_error_iff.mp hRest with hAddrs | ⟨addrs, -, hReturn⟩
    · rcases getAddr_error hAddrs with hStop | hStop <;> cases hStop
    · cases hReturn

/-- Releasing a thread takes entries away and makes none. -/
theorem releaseBp_objArr_subset (draw : Nat) (s : State) :
    (s.releaseBp draw).2.objArr ⊆ s.objArr := by
  rcases s.releaseBp_cases draw with ⟨hSame, -⟩ | ⟨i, obj, -, hReleased⟩
  · rw [hSame]
    exact List.Subset.refl _
  · rw [hReleased]
    exact List.eraseIdx_subset

/-- Only the entry at hand is added. -/
theorem breakpointMatchCheck_objArr (h : breakpointMatchCheck c r s arr = .ok s') :
    s'.objArr ⊆ s.objArr ++ [arr] := by
  obtain ⟨-, recorded, rfl, ⟨-, rfl⟩ | rfl⟩ := breakpointMatchCheck_ok h
  · exact List.Subset.refl _
  · exact releaseBp_objArr_subset _ _

/-- Deleting makes none either. -/
theorem deleteEntries_objArr_subset (places : List Nat) (s : State) :
    (s.deleteEntries places).objArr ⊆ s.objArr := by
  have hErase : ∀ (objArr : List Entry), places.foldl List.eraseIdx objArr ⊆ objArr := by
    induction places with
    | nil => exact fun objArr => List.Subset.refl objArr
    | cons place places ih =>
        intro objArr
        rw [List.foldl_cons]
        exact List.Subset.trans (ih _) List.eraseIdx_subset
  exact hErase s.objArr

/-- Step lemma: an entry that is new tells of the thread that is handled. -/
theorem objArr_handle (hFrame : frameOf ∈ [Thread.frameAtIndex0, Thread.selectedFrame])
    (hAt : thd.atBreakpoint = true) (hs : handle c frameOf r s thd = .ok s') :
    ∀ obj ∈ s'.objArr, obj ∈ s.objArr ∨ AccessOf c thd obj := by
  obtain ⟨arr, hEntry, hCheck⟩ := handle_ok hs
  intro obj hObj
  rcases List.mem_append.mp (breakpointMatchCheck_objArr hCheck hObj) with hOld | hNew
  · exact .inl hOld
  · exact .inr (List.mem_singleton.mp hNew ▸ accessOf_of_recordedEntry hEntry hFrame hAt)

/-- Run lemma over the threads of a callback. -/
theorem objArr_foldlM_handle {threads : List Thread}
    (hFrame : frameOf ∈ [Thread.frameAtIndex0, Thread.selectedFrame])
    (hAt : ∀ thd ∈ threads, thd.atBreakpoint = true)
    (hs : threads.foldlM (handle c frameOf r) s = .ok s') :
    ∀ obj ∈ s'.objArr, obj ∈ s.objArr ∨ ∃ thd ∈ threads, AccessOf c thd obj := by
  refine foldlM_ok_invariant (motive := fun s' =>
    ∀ obj ∈ s'.objArr, obj ∈ s.objArr ∨ ∃ thd ∈ threads, AccessOf c thd obj) hs
      (fun obj hObj => .inl hObj) ?_
  intro thd hThd middle s' hMiddle hHandle obj hObj
  rcases objArr_handle hFrame (hAt thd hThd) hHandle obj hObj with hOld | hNew
  · exact hMiddle obj hOld
  · exact .inr ⟨thd, hThd, hNew⟩

/-- The threads of a callback are those that have stopped at a breakpoint and have no entry. -/
theorem atBreakpoint_of_untracked (h : thd ∈ s.untrackedBreakpointCheck) :
    thd.atBreakpoint = true := by
  have hFilter := (List.mem_filter.mp h).2
  rw [Bool.and_eq_true] at hFilter
  exact hFilter.1

/-- So every entry that a callback adds tells of a thread that has stopped. -/
theorem objArr_handleUntracked (hFrame : frameOf ∈ [Thread.frameAtIndex0, Thread.selectedFrame])
    (hs : handleUntracked c frameOf r s = .ok s') :
    ∀ obj ∈ s'.objArr, obj ∈ s.objArr ∨ s.HasStopped c obj := by
  obtain ⟨middle, hFold, rfl⟩ := handleUntracked_ok hs
  intro obj hObj
  refine (objArr_foldlM_handle hFrame (fun _ => atBreakpoint_of_untracked) hFold obj hObj).imp_right ?_
  rintro ⟨thd, hThd, hAccess⟩
  exact ⟨thd, List.mem_of_mem_filter hThd, hAccess⟩

/-- The timer makes no entry. -/
theorem objArr_releaseAfterWait (t : Tick) (s : State) :
    (releaseAfterWait c t s).objArr ⊆ s.objArr := by
  rcases releaseAfterWait_cases t s with ⟨-, hSame⟩ | ⟨-, released, s', hRelease, hWaited⟩
  · rw [hSame]
    exact List.Subset.refl _
  · have hSubset := releaseBp_objArr_subset t.rand { s with running := false }
    rw [hRelease] at hSubset
    rw [hWaited]
    exact hSubset

theorem objArr_timer {t : Tick} (hs : timer c t s = .ok s') : s'.objArr ⊆ s.objArr := by
  rw [(timer_ok hs).1]
  split
  · exact objArr_releaseAfterWait t s
  · exact List.Subset.refl _

/-- A step keeps entries, gives them up, or makes them for threads at breakpoints. -/
theorem objArr_step {allowed : State → Nat → Prop} (h : Step c allowed s s') :
    ∀ obj ∈ s'.objArr, obj ∈ s.objArr ∨ s.HasStopped c obj := by
  cases h with
  | process => exact fun obj hObj => .inl hObj
  | readCallback r hs =>
      exact objArr_handleUntracked (s := { s.stopProcess with running := false })
        List.mem_cons_self hs
  | writeCallback r id _ hs =>
      intro obj hObj
      refine (objArr_handleUntracked (List.mem_cons_of_mem _ List.mem_cons_self) hs obj hObj).imp_left ?_
      exact fun hKept => deleteEntries_objArr_subset _ _ hKept
  | timer t hs => exact fun obj hObj => .inl (objArr_timer hs hObj)

end Entries

/-- Run lemma: each entry has been there since its thread stopped before the access. -/
theorem tracked_of_reaches {allowed : State → Nat → Prop} {process : Process} {lastBreak : Rat}
    {s : State} (h : Reaches c allowed process lastBreak s) :
    ∀ obj ∈ s.objArr, Tracked c allowed process lastBreak obj s := by
  induction h with
  | refl => exact nofun
  | tail hReaches hStep ih =>
      intro obj hObj
      rcases objArr_step hStep obj hObj with hOld | hStopped
      · exact .kept (ih obj hOld) hStep hObj
      · exact .recorded hReaches hStopped hStep hObj

section Halting
variable {frameOf : Thread → Frame} {r : Readings} {s s' last : State} {thd : Thread}
  {threads : List Thread} {arr : Entry} {matched : List (Text × Nat)}

/-- The matches are the other entries of the opposite access that share an address. -/
theorem mem_matchEntries_iff {objArr : List Entry} {addr : Text} {id : Nat} :
    (addr, id) ∈ matchEntries c objArr arr ↔
      ∃ obj ∈ objArr, obj.id = id ∧ Matches c obj arr ∧ addr ∈ obj.addrs ∧ addr ∈ arr.addrs := by
  rw [matchEntries, List.mem_flatMap]
  refine exists_congr fun obj => and_congr_right fun _ => ?_
  by_cases hId : obj.id = arr.id
  · simp [hId, Matches]
  · by_cases hKind : c.bp_source.1 = c.bp_source.2 ∨ obj.kind ≠ arr.kind
    · rw [if_pos hId, if_pos hKind, List.mem_map]
      constructor
      · rintro ⟨shared, hShared, hPair⟩
        obtain ⟨rfl, rfl⟩ := Prod.mk.inj hPair
        obtain ⟨hObj, hArr⟩ := List.mem_filter.mp hShared
        have hArr := of_decide_eq_true hArr
        exact ⟨rfl, ⟨hId, hKind, shared, hObj, hArr⟩, hObj, hArr⟩
      · rintro ⟨rfl, -, hObj, hArr⟩
        exact ⟨addr, List.mem_filter.mpr ⟨hObj, decide_eq_true hArr⟩, rfl⟩
    · rw [if_pos hId, if_neg hKind]
      exact iff_of_false List.not_mem_nil fun h => hKind h.2.1.2.1

/-- The loop of a callback halts at the first thread whose entry matches another. -/
theorem haltsAt_of_found
    (hs : threads.foldlM (handle c frameOf r) s = .error (.found matched)) :
    ∃ arr last, HaltsAt c frameOf r s threads arr last ∧ matchEntries c last.objArr arr = matched ∧
      matched ≠ [] := by
  induction threads generalizing s with
  | nil =>
      rw [List.foldlM_nil] at hs
      cases hs
  | cons thd threads ih =>
      rw [List.foldlM_cons, bind_eq_error_iff] at hs
      rcases hs with hHandle | ⟨middle, hHandle, hRest⟩
      · rcases bind_eq_error_iff.mp hHandle with hEntry | ⟨arr, hEntry, hCheck⟩
        · exact absurd hEntry recordedEntry_ne_found
        · obtain ⟨hFound, hNe⟩ := breakpointMatchCheck_error hCheck
          obtain rfl := Stop.found.inj hFound
          exact ⟨arr, _, .here hEntry hNe, rfl, hNe⟩
      · obtain ⟨arr, last, hHalts, hMatched⟩ := ih hRest
        exact ⟨arr, last, .later hHandle hHalts, hMatched⟩

theorem haltsAt_of_handleUntracked (hs : handleUntracked c frameOf r s = .error (.found matched)) :
    ∃ arr last, HaltsAt c frameOf r s s.untrackedBreakpointCheck arr last ∧
      matchEntries c last.objArr arr = matched ∧ matched ≠ [] := by
  rcases bind_eq_error_iff.mp hs with hFold | ⟨middle, -, hReturn⟩
  · exact haltsAt_of_found hFold
  · cases hReturn

namespace HaltsAt

/-- That thread has stopped before its access. -/
theorem exists_accessOf (h : HaltsAt c frameOf r s threads arr last)
    (hFrame : frameOf ∈ [Thread.frameAtIndex0, Thread.selectedFrame])
    (hAt : ∀ thd ∈ threads, thd.atBreakpoint = true) : ∃ thd ∈ threads, AccessOf c thd arr := by
  induction h with
  | here hEntry =>
      have hFirst := hAt _ List.mem_cons_self
      exact ⟨_, List.mem_cons_self, accessOf_of_recordedEntry hEntry hFrame hFirst⟩
  | later _ _ ih =>
      obtain ⟨thd, hThd, hAccess⟩ := ih fun thd hThd => hAt thd (List.mem_cons_of_mem _ hThd)
      exact ⟨thd, List.mem_cons_of_mem _ hThd, hAccess⟩

/-- The entries it is compared with tell of threads that have stopped too, in this callback or
before. -/
theorem objArr (h : HaltsAt c frameOf r s threads arr last)
    (hFrame : frameOf ∈ [Thread.frameAtIndex0, Thread.selectedFrame])
    (hAt : ∀ thd ∈ threads, thd.atBreakpoint = true) :
    ∀ obj ∈ last.objArr, obj ∈ s.objArr ∨ ∃ thd ∈ threads, AccessOf c thd obj := by
  induction h with
  | here => exact fun obj hObj => .inl hObj
  | later hHandle _ ih =>
      rw [List.forall_mem_cons] at hAt
      intro obj hObj
      rcases ih hAt.2 obj hObj with hMiddle | ⟨later, hLater, hAccess⟩
      · rcases objArr_handle hFrame hAt.1 hHandle obj hMiddle with hOld | hNew
        · exact .inl hOld
        · exact .inr ⟨_, List.mem_cons_self, hNew⟩
      · exact .inr ⟨later, List.mem_cons_of_mem _ hLater, hAccess⟩

end HaltsAt

/-- Threads are suspended and resumed, but none comes or goes within a callback. -/
theorem ids_setSuspended (p : Process) (id : Nat) (isSuspended : Bool) :
    (p.setSuspended id isSuspended).threads.map Thread.id = p.threads.map Thread.id := by
  unfold Process.setSuspended
  rw [List.map_map]
  refine List.map_congr_left fun thd _ => ?_
  rw [Function.comp_apply]
  split <;> rfl

theorem ids_resumeThreads (p : Process) (except_set : List Nat) :
    (p.resumeThreads except_set).threads.map Thread.id = p.threads.map Thread.id := by
  unfold Process.resumeThreads
  rw [List.map_map]
  refine List.map_congr_left fun thd _ => ?_
  rw [Function.comp_apply]
  split <;> rfl

theorem ids_releaseBp (draw : Nat) (s : State) :
    (s.releaseBp draw).2.process.threads.map Thread.id = s.process.threads.map Thread.id := by
  rcases s.releaseBp_cases draw with ⟨hSame, -⟩ | ⟨i, obj, -, hReleased⟩
  · rw [hSame]
  · rw [hReleased]
    exact ids_setSuspended _ _ _

/-- What is done with one thread keeps the list of threads, up to their suspension. -/
theorem ids_handle (hs : handle c frameOf r s thd = .ok s') :
    s'.process.threads.map Thread.id = s.process.threads.map Thread.id := by
  obtain ⟨arr, -, hCheck⟩ := handle_ok hs
  obtain ⟨-, recorded, rfl, ⟨-, rfl⟩ | rfl⟩ := breakpointMatchCheck_ok hCheck
  · exact ids_setSuspended _ _ _
  · rw [ids_releaseBp]
    exact ids_setSuspended _ _ _

namespace HaltsAt

theorem ids (h : HaltsAt c frameOf r s threads arr last) :
    last.process.threads.map Thread.id = s.process.threads.map Thread.id := by
  induction h with
  | here => exact ids_setSuspended _ _ _
  | later hHandle _ ih => exact ih.trans (ids_handle hHandle)

/-- The thread whose entry matches has just been suspended. -/
theorem suspends (h : HaltsAt c frameOf r s threads arr last) :
    ∀ thd ∈ last.process.threads, thd.id = arr.id → thd.isSuspended = true := by
  induction h with
  | @here _ first _ _ hEntry =>
      intro thd hThd hId
      obtain ⟨old, -, rfl⟩ := List.mem_map.mp hThd
      rw [id_recordedEntry hEntry] at hId
      by_cases hOld : old.id = first.id
      · rw [if_pos hOld]
      · rw [if_neg hOld] at hId
        exact absurd hId hOld
  | later _ _ ih => exact ih

/-- The arguments from the loop of a callback to what has been caught. -/
theorem caught {allowed : State → Nat → Prop} {process : Process} {lastBreak : Rat} {start : State}
    (h : HaltsAt c frameOf r start start.untrackedBreakpointCheck arr last)
    (hReaches : Reaches c allowed process lastBreak s)
    (hFrame : frameOf ∈ [Thread.frameAtIndex0, Thread.selectedFrame])
    (hObjArr : start.objArr ⊆ s.objArr) (hThreads : start.process.threads = s.process.threads)
    (hMatch : matchEntries c last.objArr arr = matched) (hNe : matched ≠ []) :
    Caught c allowed process lastBreak s arr last matched := by
  have hAt : ∀ thd ∈ start.untrackedBreakpointCheck, thd.atBreakpoint = true :=
    fun _ => atBreakpoint_of_untracked
  have hMem : ∀ thd ∈ start.untrackedBreakpointCheck, thd ∈ s.process.threads :=
    fun thd hThd => hThreads ▸ List.mem_of_mem_filter hThd
  obtain ⟨thd, hThd, hAccess⟩ := h.exists_accessOf hFrame hAt
  have hIds : (last.halt matched arr.id).process.threads.map Thread.id =
      s.process.threads.map Thread.id := by
    rw [← hThreads, ← h.ids]
    exact ids_resumeThreads _ _
  refine ⟨⟨thd, hMem thd hThd, hAccess⟩, ?_, hNe, ?_, hIds, rfl, ?_, ?_⟩
  · intro obj hObj
    rcases h.objArr hFrame hAt obj hObj with hOld | ⟨other, hOther, hAccess'⟩
    · exact .inl (tracked_of_reaches hReaches obj (hObjArr hOld))
    · exact .inr ⟨other, hMem other hOther, hAccess'⟩
  · intro addr id
    rw [← hMatch]
    exact mem_matchEntries_iff
  · have hId : arr.id ∈ last.process.threads.map Thread.id := by
      rw [h.ids, hThreads, ← hAccess.1]
      exact List.mem_map_of_mem (hMem thd hThd)
    obtain ⟨kept, hKept, hKeptId⟩ := List.mem_map.mp hId
    refine ⟨kept, List.mem_map.mpr ⟨kept, hKept, ?_⟩, hKeptId, h.suspends kept hKept hKeptId⟩
    rw [if_pos (hKeptId ▸ List.mem_cons_self)]
  · intro left hLeft hSuspended
    obtain ⟨old, -, rfl⟩ := List.mem_map.mp hLeft
    by_cases hExcept : old.id ∈ arr.id :: matched.map Prod.snd
    · rw [if_pos hExcept]
      rcases List.mem_cons.mp hExcept with hArr | hPartner
      · exact .inl hArr
      · obtain ⟨⟨addr, id⟩, hPair, rfl⟩ := List.mem_map.mp hPartner
        exact .inr ⟨addr, hPair⟩
    · rw [if_neg hExcept] at hSuspended
      cases hSuspended

end HaltsAt

/-- Whatever the threads have done, the script halts for a conflict that is there: two threads
have stopped before their accesses to an address, and everything else goes on. -/
theorem halts_at_conflict {allowed : State → Nat → Prop} {process : Process} {lastBreak : Rat}
    (h : Reaches c allowed process lastBreak s)
    (hs : (∃ r, readCallback c r s = .error (.found matched)) ∨
      ∃ r id, writeCallback c r s id = .error (.found matched)) :
    ∃ arr last, Halts c s arr last ∧ Caught c allowed process lastBreak s arr last matched := by
  rcases hs with ⟨r, hs⟩ | ⟨r, id, hs⟩
  · have hHalts := haltsAt_of_handleUntracked (s := { s.stopProcess with running := false }) hs
    obtain ⟨arr, last, hHaltsAt, hMatch, hNe⟩ := hHalts
    exact ⟨arr, last, .readCallback r hHaltsAt,
      hHaltsAt.caught h List.mem_cons_self (List.Subset.refl _) rfl hMatch hNe⟩
  · obtain ⟨arr, last, hHaltsAt, hMatch, hNe⟩ := haltsAt_of_handleUntracked hs
    exact ⟨arr, last, .writeCallback r id hHaltsAt,
      hHaltsAt.caught h (List.mem_cons_of_mem _ List.mem_cons_self)
        (deleteEntries_objArr_subset _ _) rfl hMatch hNe⟩

end Halting

def atBoth : Process where
  threads := [stoppedThread 1 ⟨"a.c".toList, 5⟩, stoppedThread 2 ⟨"a.c".toList, 9⟩]
  ids_nodup := by decide

/-- The second thread is about to read what the first one is about to write. -/
theorem halts_at_conflict_atBoth : ∃ arr last,
    Halts twoLines { process := atBoth, lastBreak := 0 } arr last ∧
      Caught twoLines (fun _ _ => True) atBoth 0 { process := atBoth, lastBreak := 0 } arr last
        [("0x1".toList, 1)] :=
  halts_at_conflict .refl (.inr ⟨⟨fun _ => 0, fun _ => 1⟩, 1, rfl⟩)

end ConAnalysis.Trigger
