import ConAnalysis.Trigger.Halt

/-! The script does not hold threads for ever: a callback that records a thread never leaves all
threads suspended, and the timer releases those that no further breakpoint brings a match for. -/
namespace ConAnalysis.Trigger
open Exceptions

variable (c : Config)

/-- The threads with entries are still there. -/
def State.Alive (s : State) : Prop := s.ids ⊆ s.process.threads.map Thread.id

/-- No breakpoint is hit for some time, in which the timer ticks. The number is that of the ticks
that come after the wait time. -/
inductive Idles (s : State) : State → Nat → Prop
  | start : Idles s s 0
  | process {middle : State} {due : Nat} (h : Idles s middle due) (process : Process)
      (hValid : process.isValid = true) : Idles s { middle with process } due
  | early {middle s' : State} {due : Nat} (h : Idles s middle due) (t : Tick)
      (hWait : ¬t.wait - middle.lastBreak > c.waitTime) (hs : timer c t middle = .ok s') :
      Idles s s' due
  | due {middle s' : State} {due : Nat} (h : Idles s middle due) (t : Tick)
      (hWait : t.wait - middle.lastBreak > c.waitTime) (hs : timer c t middle = .ok s') :
      Idles s s' (due + 1)

variable {c}

section Callbacks
variable {frameOf : Thread → Frame} {r : Readings} {s s' : State} {thd : Thread} {arr : Entry}

/-- The test fails if some thread is not suspended. -/
theorem allBpHit_eq_false_iff :
    s.allBpHit = false ↔ ∃ thd ∈ s.process.threads, thd.isSuspended = false := by
  rw [State.allBpHit, List.all_eq_false]
  simp only [Bool.not_eq_true]

/-- If there are entries, one of their threads is resumed. -/
theorem releaseBp_runnable (draw : Nat) (hValid : s.process.isValid = true) (hAlive : s.Alive)
    (hNe : s.objArr ≠ []) : (s.releaseBp draw).2.allBpHit = false := by
  rcases s.releaseBp_cases draw with ⟨-, hNil⟩ | ⟨i, obj, hObj, hReleased⟩
  · exact absurd (hNil hValid) hNe
  · have hId : obj.id ∈ s.process.threads.map Thread.id :=
      hAlive (List.mem_map_of_mem (List.mem_of_getElem? hObj))
    obtain ⟨thd, hThd, hEq⟩ := List.mem_map.mp hId
    rw [hReleased]
    refine allBpHit_eq_false_iff.mpr ⟨{ thd with isSuspended := false }, ?_, rfl⟩
    refine List.mem_map.mpr ⟨thd, hThd, ?_⟩
    rw [if_pos hEq]

theorem releaseBp_isValid (draw : Nat) (s : State) :
    (s.releaseBp draw).2.process.isValid = s.process.isValid := by
  rcases s.releaseBp_cases draw with ⟨hSame, -⟩ | ⟨i, obj, -, hReleased⟩
  · rw [hSame]
  · rw [hReleased]
    rfl

/-- Releasing a thread leaves no entry of a thread that is gone. -/
theorem releaseBp_alive (draw : Nat) (hAlive : s.Alive) : (s.releaseBp draw).2.Alive := by
  intro id hId
  obtain ⟨obj, hObj, rfl⟩ := List.mem_map.mp hId
  rw [ids_releaseBp]
  exact hAlive (List.mem_map_of_mem (releaseBp_objArr_subset draw s hObj))

/-- Neither does an entry that is made for a thread of the process. -/
theorem record_alive (hAlive : s.Alive) (hArr : arr.id ∈ s.process.threads.map Thread.id)
    (lastBreak : Rat) : { s with lastBreak, objArr := s.objArr ++ [arr] : State }.Alive := by
  intro id hId
  obtain ⟨obj, hObj, rfl⟩ := List.mem_map.mp hId
  rcases List.mem_append.mp hObj with hOld | hNew
  · exact hAlive (List.mem_map_of_mem hOld)
  · exact List.mem_singleton.mp hNew ▸ hArr

/-- After each thread that a callback handles, some thread can run. -/
theorem handle_runnable (hValid : s.process.isValid = true) (hAlive : s.Alive)
    (hThd : thd.id ∈ s.process.threads.map Thread.id) (hs : handle c frameOf r s thd = .ok s') :
    s'.allBpHit = false ∧ s'.process.isValid = true ∧ s'.Alive := by
  obtain ⟨arr, hEntry, hCheck⟩ := handle_ok hs
  have hIds : (s.suspend thd.id).process.threads.map Thread.id =
      s.process.threads.map Thread.id := ids_setSuspended _ _ _
  have hSuspended : (s.suspend thd.id).Alive := fun id hId => hIds ▸ hAlive hId
  have hArr : arr.id ∈ (s.suspend thd.id).process.threads.map Thread.id := by
    rw [hIds, id_recordedEntry hEntry]
    exact hThd
  have hRecorded := record_alive hSuspended hArr (r.now arr.id)
  obtain ⟨-, recorded, rfl, ⟨hHit, rfl⟩ | rfl⟩ := breakpointMatchCheck_ok hCheck
  · exact ⟨hHit, hValid, hRecorded⟩
  · refine ⟨releaseBp_runnable _ hValid hRecorded ?_, ?_, releaseBp_alive _ hRecorded⟩
    · exact List.append_ne_nil_of_right_ne_nil _ (List.cons_ne_nil _ _)
    · rw [releaseBp_isValid]
      exact hValid

/-- The loop of a callback, as soon as it has a thread to handle. -/
theorem foldlM_handle_runnable {threads : List Thread} (hValid : s.process.isValid = true)
    (hAlive : s.Alive) (hThreads : ∀ thd ∈ threads, thd.id ∈ s.process.threads.map Thread.id)
    (hHit : threads = [] → s.allBpHit = false)
    (hs : threads.foldlM (handle c frameOf r) s = .ok s') : s'.allBpHit = false ∧ s'.Alive := by
  obtain ⟨-, -, hAlive', hHit'⟩ := foldlM_ok_induction (motive := fun threads s =>
    (∀ thd ∈ threads, thd.id ∈ s.process.threads.map Thread.id) ∧ s.process.isValid = true ∧
      s.Alive ∧ (threads = [] → s.allBpHit = false)) hs ⟨hThreads, hValid, hAlive, hHit⟩ (by
    rintro thd rest s s' ⟨hThreads, hValid, hAlive, -⟩ hHandle
    rw [List.forall_mem_cons] at hThreads
    obtain ⟨hHit, hValid', hAlive'⟩ := handle_runnable hValid hAlive hThreads.1 hHandle
    refine ⟨?_, hValid', hAlive', fun _ => hHit⟩
    rw [ids_handle hHandle]
    exact hThreads.2)
  exact ⟨hHit' rfl, hAlive'⟩

/-- The loop of a callback leaves a thread that can run if it has had a thread to handle, or if
there was one before. -/
theorem handleUntracked_runnable_iff (hValid : s.process.isValid = true) (hAlive : s.Alive)
    (hs : handleUntracked c frameOf r s = .ok s') :
    ((∃ thd ∈ s'.process.threads, thd.isSuspended = false) ↔
      (∃ thd ∈ s.process.threads, thd.atBreakpoint = true ∧ thd.id ∉ s.ids) ∨
        ∃ thd ∈ s.process.threads, thd.isSuspended = false) ∧ s'.Alive := by
  have hUntracked : s.untrackedBreakpointCheck ≠ [] ↔
      ∃ thd ∈ s.process.threads, thd.atBreakpoint = true ∧ thd.id ∉ s.ids := by
    simp [State.untrackedBreakpointCheck, List.filter_eq_nil_iff]
  rw [← hUntracked]
  obtain ⟨middle, hFold, rfl⟩ := handleUntracked_ok hs
  by_cases hNil : s.untrackedBreakpointCheck = []
  · rw [hNil, List.foldlM_nil] at hFold
    cases hFold
    exact ⟨(or_iff_right (not_not.mpr hNil)).symm, hAlive⟩
  · have hThreads : ∀ thd ∈ s.untrackedBreakpointCheck, thd.id ∈ s.process.threads.map Thread.id :=
      fun thd hThd => List.mem_map_of_mem (List.mem_of_mem_filter hThd)
    obtain ⟨hMiddle, hAlive'⟩ :=
      foldlM_handle_runnable hValid hAlive hThreads (fun h => absurd h hNil) hFold
    exact ⟨iff_of_true (allBpHit_eq_false_iff.mp hMiddle) (.inl hNil), hAlive'⟩

/-- Exactly the entry of the triggering thread is given up. -/
theorem mem_ids_deleteEntries_iff (hNodup : s.ids.Nodup) {id other : Nat} :
    other ∈ (s.deleteEntries (s.threadLivenessCheck id)).ids ↔ other ∈ s.ids ∧ other ≠ id := by
  rcases places_of_nodup hNodup id 0 with ⟨hNot, hPlaces⟩ | ⟨k, obj, hObj, rfl, hPlaces⟩
  · rw [State.threadLivenessCheck, hPlaces]
    refine (and_iff_left_of_imp ?_).symm
    rintro hOther rfl
    exact hNot hOther
  · rw [State.threadLivenessCheck, hPlaces, Nat.zero_add]
    constructor
    · intro hOther
      refine ⟨List.map_subset _ List.eraseIdx_subset hOther, ?_⟩
      rintro rfl
      exact Inv.not_mem_ids_eraseIdx hNodup hObj hOther
    · rintro ⟨hOther, hNe⟩
      obtain ⟨i, hi⟩ := List.mem_iff_getElem?.mp hOther
      have hIds : (s.deleteEntries [k]).ids = s.ids.eraseIdx k := (List.eraseIdx_map _ _ _).symm
      rw [hIds]
      refine List.mem_eraseIdx_iff_getElem?.mpr ⟨i, ?_, hi⟩
      rintro rfl
      rw [State.ids, List.getElem?_map, hObj, Option.map_some] at hi
      exact hNe (Option.some.inj hi).symm

/-- Whatever the threads have done, as long as the threads with entries are alive, a callback
leaves a thread that can run if it finds a stopped thread to record, or if there was one before.
A write callback finds its own thread, unless it has gone on. -/
theorem callback_leaves_runnable {allowed : State → Nat → Prop} {process : Process}
    {lastBreak : Rat} (hReaches : Reaches c allowed process lastBreak s)
    (hValid : s.process.isValid = true) (hAlive : s.Alive) :
    (readCallback c r s = .ok s' →
      ((∃ thd ∈ s'.process.threads, thd.isSuspended = false) ↔
        (∃ thd ∈ s.process.threads, thd.atBreakpoint = true ∧ thd.id ∉ s.ids) ∨
          ∃ thd ∈ s.process.threads, thd.isSuspended = false) ∧ s'.Alive) ∧
      ∀ id, writeCallback c r s id = .ok s' →
        ((∃ thd ∈ s'.process.threads, thd.isSuspended = false) ↔
          (∃ thd ∈ s.process.threads, thd.atBreakpoint = true ∧ (thd.id ∉ s.ids ∨ thd.id = id)) ∨
            ∃ thd ∈ s.process.threads, thd.isSuspended = false) ∧ s'.Alive := by
  constructor
  · intro hs
    exact handleUntracked_runnable_iff (s := { s.stopProcess with running := false }) hValid hAlive hs
  · intro id hs
    have hIds {other : Nat} : other ∉ (s.deleteEntries (s.threadLivenessCheck id)).ids ↔
        other ∉ s.ids ∨ other = id := by
      rw [mem_ids_deleteEntries_iff (entries_of_reaches hReaches).1, Classical.not_and_iff_not_or_not,
        not_not]
    have hAliveStill : (State.deleteEntries { s.stopProcess with running := false }
        (s.threadLivenessCheck id)).Alive :=
      fun other hOther => hAlive (List.map_subset _ (deleteEntries_objArr_subset _ s) hOther)
    have hRunnable := handleUntracked_runnable_iff
      (s := State.deleteEntries { s.stopProcess with running := false } (s.threadLivenessCheck id))
      hValid hAliveStill hs
    rw [hRunnable.1]
    refine ⟨or_congr_left (exists_congr fun thd => ?_), hRunnable.2⟩
    exact and_congr_right fun _ => and_congr_right fun _ => hIds

/-- The other thread can go on while the one at the write is held. -/
theorem callback_leaves_runnable_atWrite :
    (∃ thd ∈ heldAtWrite.process.threads, thd.isSuspended = false) ∧ heldAtWrite.Alive := by
  have hReaches : Reaches twoLines (fun _ _ => True) atWrite 0
      { process := atWrite, lastBreak := 0 } := .refl
  have hRunnable := (callback_leaves_runnable hReaches rfl nofun).2 1 writeCallback_atWrite
  exact ⟨hRunnable.1.mpr (.inl ⟨_, List.mem_cons_self, rfl, .inl nofun⟩), hRunnable.2⟩

end Callbacks

section Waiting
variable {s s' : State} {t : Tick}

/-- Before the waiting time is over the timer does nothing. -/
theorem releaseAfterWait_early (hWait : ¬t.wait - s.lastBreak > c.waitTime) :
    releaseAfterWait c t s = s := by
  rcases releaseAfterWait_cases t s with ⟨-, hSame⟩ | ⟨hDue, -⟩
  · exact hSame
  · exact absurd hDue hWait

/-- A release takes one entry away, which is what makes the entries run out. -/
theorem releaseBp_length (draw : Nat) (hValid : s.process.isValid = true) :
    (s.releaseBp draw).2.objArr.length = s.objArr.length - 1 := by
  rcases s.releaseBp_cases draw with ⟨hSame, hNil⟩ | ⟨i, obj, hObj, hReleased⟩
  · rw [hSame, hNil hValid]
    rfl
  · rw [hReleased]
    exact List.length_eraseIdx_of_lt (List.getElem?_eq_some_iff.mp hObj).1

/-- A tick that comes after the wait time releases one thread. -/
theorem releaseAfterWait_due (hWait : t.wait - s.lastBreak > c.waitTime)
    (hValid : s.process.isValid = true) :
    (releaseAfterWait c t s).objArr.length = s.objArr.length - 1 ∧
      (releaseAfterWait c t s).running = true ∧
      (releaseAfterWait c t s).process.isValid = true := by
  rcases releaseAfterWait_cases t s with ⟨hEarly, -⟩ | ⟨-, released, s', hRelease, hWaited⟩
  · exact absurd hWait hEarly
  · have hLength := releaseBp_length (s := { s with running := false }) t.rand hValid
    have hIsValid := releaseBp_isValid t.rand { s with running := false }
    rw [hRelease] at hLength hIsValid
    rw [hWaited]
    exact ⟨hLength, rfl, hIsValid.trans hValid⟩

/-- With nothing to release, the last break stays where it is. -/
theorem releaseAfterWait_nil (hNil : s.objArr = []) :
    (releaseAfterWait c t s).objArr = [] ∧ (releaseAfterWait c t s).lastBreak = s.lastBreak := by
  rcases releaseAfterWait_cases t s with ⟨-, hSame⟩ | ⟨-, released, s', hRelease, hWaited⟩
  · rw [hSame]
    exact ⟨hNil, rfl⟩
  · rcases State.releaseBp_cases t.rand { s with running := false } with
      ⟨hSame, -⟩ | ⟨i, obj, hObj, -⟩
    · obtain ⟨rfl, rfl⟩ := Prod.mk.inj (hSame.symm.trans hRelease)
      rw [hWaited]
      exact ⟨hNil, rfl⟩
    · rw [hNil] at hObj
      cases hObj

/-- While a process runs, a tick of the timer that goes on has released at most. -/
theorem timer_ok_of_running (hRunning : s.running = true) (hs : timer c t s = .ok s') :
    s' = releaseAfterWait c t s :=
  (timer_ok hs).1.trans (if_pos hRunning)

theorem releaseBp_statusFound (draw : Nat) (s : State) :
    (s.releaseBp draw).2.statusFound = s.statusFound := by
  rcases s.releaseBp_cases draw with ⟨hSame, -⟩ | ⟨i, obj, -, hReleased⟩
  · rw [hSame]
  · rw [hReleased]
    rfl

theorem releaseAfterWait_statusFound (t : Tick) (s : State) :
    (releaseAfterWait c t s).statusFound = s.statusFound := by
  rcases releaseAfterWait_cases t s with ⟨-, hSame⟩ | ⟨-, released, s', hRelease, hWaited⟩
  · rw [hSame]
  · have hStatus := releaseBp_statusFound t.rand { s with running := false }
    rw [hRelease] at hStatus
    rw [hWaited]
    exact hStatus

theorem handle_statusFound {frameOf : Thread → Frame} {r : Readings} {thd : Thread}
    (hs : handle c frameOf r s thd = .ok s') : s'.statusFound = s.statusFound := by
  obtain ⟨arr, -, hCheck⟩ := handle_ok hs
  obtain ⟨-, recorded, rfl, ⟨-, rfl⟩ | rfl⟩ := breakpointMatchCheck_ok hCheck
  · rfl
  · exact releaseBp_statusFound _ _

theorem handleUntracked_statusFound {frameOf : Thread → Frame} {r : Readings}
    (hs : handleUntracked c frameOf r s = .ok s') : s'.statusFound = s.statusFound := by
  obtain ⟨middle, hFold, rfl⟩ := handleUntracked_ok hs
  exact foldlM_ok_invariant (motive := fun s' => s'.statusFound = s.statusFound) hFold rfl
    fun _ _ _ _ hMiddle hHandle => (handle_statusFound hHandle).trans hMiddle

/-- What `breakpoint_match_check` sets is a variable of its own. -/
theorem statusFound_of_reaches {allowed : State → Nat → Prop} {process : Process} {lastBreak : Rat}
    {s : State} (h : Reaches c allowed process lastBreak s) : s.statusFound = false := by
  induction h with
  | refl => rfl
  | tail _ hStep ih =>
      cases hStep with
      | process => exact ih
      | readCallback r hs => exact (handleUntracked_statusFound hs).trans ih
      | writeCallback r id _ hs => exact (handleUntracked_statusFound hs).trans ih
      | timer t hs => exact (timer_ok hs).2

/-- When the timer ends the script although a process runs. -/
theorem timer_error_iff (hRunning : s.running = true) (hStatus : s.statusFound = false) {stop : Stop} :
    timer c t s = .error stop ↔ stop = .noBreakpoints ∧ c.interactive = false ∧
      (releaseAfterWait c t s).objArr = [] ∧
        t.last - (releaseAfterWait c t s).lastBreak > c.killTime := by
  have hKept := (releaseAfterWait_statusFound (c := c) t s).trans hStatus
  unfold timer tick
  rw [if_pos hRunning]
  dsimp only
  split
  · next hKill =>
      rw [Bool.and_eq_true, Bool.and_eq_true, beq_iff_eq, decide_eq_true_eq, Bool.not_eq_true',
        List.length_eq_zero_iff] at hKill
      obtain ⟨⟨hInteractive, hNil⟩, hLate⟩ := hKill
      constructor
      · intro hError
        exact ⟨(Except.error.inj hError).symm, hInteractive, hNil, hLate⟩
      · rintro ⟨rfl, -⟩
        rfl
  · next hKill =>
      simp only [Except.bind, bind]
      rw [if_neg (by rw [hKept]; exact Bool.false_ne_true)]
      refine iff_of_false nofun fun ⟨_, hInteractive, hNil, hLate⟩ => hKill ?_
      rw [hInteractive, hNil, decide_eq_true hLate]
      rfl

/-- In an idle time, one entry goes with each tick that comes after the wait time. -/
theorem Idles.spec {allowed : State → Nat → Prop} {due : Nat} (h : Idles c s s' due)
    (hRunning : s.running = true) (hValid : s.process.isValid = true) :
    s'.running = true ∧ s'.process.isValid = true ∧ s'.objArr.length = s.objArr.length - due ∧
      Relation.ReflTransGen (Step c allowed) s s' := by
  induction h with
  | start => exact ⟨hRunning, hValid, rfl, .refl⟩
  | process _ process hValid' ih =>
      obtain ⟨hRunning', -, hLength, hSteps⟩ := ih
      exact ⟨hRunning', hValid', hLength, hSteps.tail (.process _ process)⟩
  | early _ t hWait hs ih =>
      obtain ⟨hRunning', hValid', hLength, hSteps⟩ := ih
      have hSame := (timer_ok_of_running hRunning' hs).trans (releaseAfterWait_early hWait)
      rw [hSame]
      exact ⟨hRunning', hValid', hLength, hSteps⟩
  | due _ t hWait hs ih =>
      obtain ⟨hRunning', hValid', hLength, hSteps⟩ := ih
      obtain ⟨hLength', hRunning'', hValid''⟩ := releaseAfterWait_due hWait hValid'
      refine ⟨?_, ?_, ?_, hSteps.tail (.timer t hs)⟩
      · rw [timer_ok_of_running hRunning' hs]
        exact hRunning''
      · rw [timer_ok_of_running hRunning' hs]
        exact hValid''
      · rw [timer_ok_of_running hRunning' hs, hLength']
        omega

/-- As long as no breakpoint is hit, each tick after the wait time releases a thread. When there
have been as many of them as entries, no thread is held any more, and from then on the timer ends
the script for lack of breakpoints; it does not do so while more than one thread is held. -/
theorem idle_drains {process : Process} {lastBreak : Rat} {due : Nat}
    (hReaches : Reaches c Triggered process lastBreak s) (hRunning : s.running = true)
    (hValid : s.process.isValid = true) (h : Idles c s s' due) :
    s'.objArr.length = s.objArr.length - due ∧
      (due + 1 < s.objArr.length → ∀ t, ∃ next, timer c t s' = .ok next) ∧
        (s.objArr.length ≤ due → s'.held = [] ∧ ∀ t stop, timer c t s' = .error stop ↔
          stop = .noBreakpoints ∧ c.interactive = false ∧ t.last - s'.lastBreak > c.killTime) := by
  obtain ⟨hRunning', hValid', hLength, hSteps⟩ := h.spec hRunning hValid
  have hReaches' : Reaches c Triggered process lastBreak s' := hReaches.trans hSteps
  have hStatus := statusFound_of_reaches hReaches'
  refine ⟨hLength, ?_, ?_⟩
  · intro hMore t
    cases hTimer : timer c t s' with
    | ok next => exact ⟨next, rfl⟩
    | error stop =>
        obtain ⟨-, -, hNil, -⟩ := (timer_error_iff hRunning' hStatus).mp hTimer
        have hLeft : (releaseAfterWait c t s').objArr.length ≥ s'.objArr.length - 1 := by
          by_cases hWait : t.wait - s'.lastBreak > c.waitTime
          · exact Nat.le_of_eq (releaseAfterWait_due hWait hValid').1.symm
          · rw [releaseAfterWait_early hWait]
            exact Nat.sub_le _ _
        rw [hNil, List.length_nil] at hLeft
        omega
  · intro hLe
    have hNil : s'.objArr = [] := List.length_eq_zero_iff.mp (by omega)
    constructor
    · refine List.eq_nil_iff_forall_not_mem.mpr fun id hId => ?_
      have hTracked := held_tracked_of_reaches hReaches' id hId
      rw [State.ids, hNil] at hTracked
      exact List.not_mem_nil hTracked
    · intro t stop
      obtain ⟨hStill, hLast⟩ := releaseAfterWait_nil (c := c) (t := t) hNil
      rw [timer_error_iff hRunning' hStatus, hLast]
      simp only [hStill, true_and]

/-- Nobody comes to read what the held thread is about to write. -/
theorem idle_drains_heldAtWrite : ∃ s, timer twoLines ⟨2, 2, 2, 0⟩ heldAtWrite = .ok s ∧ s.held = [] := by
  have hReaches : Reaches twoLines Triggered atWrite 0 heldAtWrite :=
    .single (.writeCallback _ 1 nofun writeCallback_atWrite)
  have hOk : (timer twoLines ⟨2, 2, 2, 0⟩ heldAtWrite).toBool = true := by decide +kernel
  cases hTick : timer twoLines ⟨2, 2, 2, 0⟩ heldAtWrite with
  | error stop =>
      rw [hTick] at hOk
      cases hOk
  | ok s =>
      have hIdles : Idles twoLines heldAtWrite s 1 := .due .start ⟨2, 2, 2, 0⟩ (by decide +kernel) hTick
      exact ⟨s, rfl, ((idle_drains hReaches rfl rfl hIdles).2.2 (Nat.le_refl _)).1⟩

end Waiting

end ConAnalysis.Trigger
