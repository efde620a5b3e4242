import ConAnalysis.Library.Exceptions
import ConAnalysis.Trigger.Addresses

/-! The callbacks of `trigger.py` and its timer. Each of them runs to its end, or
ends the script, while it holds `process_lock`. -/
namespace ConAnalysis.Trigger
open Exceptions

/-- The two kinds of access, `"W"` and `"R"`. -/
inductive Kind where
  | write | read
deriving DecidableEq, Repr

/-- The user settings, and what has been read from the report: the source lines and
the locations of the write and of the read. Times are in seconds. -/
structure Config where
  waitTime : Rat := 1 / 2
  killTime : Rat := 5
  termTime : Rat := 20
  interactive : Bool := false
  bp_source : Text × Text
  bp_location : Location × Location

/-- `addrs` with the kind of the access and the thread behind the addresses. -/
structure Entry where
  addrs : List Text
  kind : Kind
  id : Nat
deriving DecidableEq, Repr

/-- What LLDB tells about a thread. -/
structure Thread where
  id : Nat
  atBreakpoint : Bool
  isSuspended : Bool
  frameAtIndex0 : Frame
  selectedFrame : Frame

/-- The process, whose threads have distinct identifiers. -/
structure Process where
  threads : List Thread
  isValid : Bool := true
  isStopped : Bool := false
  ids_nodup : (threads.map Thread.id).Nodup

namespace Process

/-- `thread.Suspend()` and `thread.Resume()`, once they succeed. -/
def setSuspended (p : Process) (id : Nat) (isSuspended : Bool) : Process where
  threads := p.threads.map fun thd => if thd.id = id then { thd with isSuspended } else thd
  isValid := p.isValid
  isStopped := p.isStopped
  ids_nodup := by
    have hIds : p.threads.map (Thread.id ∘ fun thd =>
        if thd.id = id then { thd with isSuspended } else thd) = p.threads.map Thread.id := by
      refine List.map_congr_left fun thd _ => ?_
      rw [Function.comp_apply]
      split <;> rfl
    rw [List.map_map, hIds]
    exact p.ids_nodup

end Process

/-- The global variables. The script itself does not keep `held`: the threads that
a callback has suspended and `release_bp` has not resumed since. -/
structure State where
  objArr : List Entry := []
  running : Bool := false
  statusFound : Bool := false
  lastBreak : Rat := 0
  process : Process
  held : List Nat := []

/-- The breakpoints that `set_trigger` creates, with the kind of callback of each. -/
def setTrigger (c : Config) : List (Location × Kind) :=
  if c.bp_source.1 ≠ c.bp_source.2 then [(c.bp_location.1, .write), (c.bp_location.2, .read)]
  else [(c.bp_location.1, .write)]

/-- What `random.randrange` draws and `time.time` answers while a thread is
recorded. -/
structure Readings where
  rand : Nat → Nat
  now : Nat → Rat

namespace State

/-- The threads that `OBJ_ARR` has entries for. -/
def ids (s : State) : List Nat := s.objArr.map Entry.id

def stopProcess (s : State) : State := { s with process := { s.process with isStopped := true } }

def continueProcess (s : State) : State := { s with process := { s.process with isStopped := false } }

def suspend (s : State) (id : Nat) : State :=
  { s with
    process := s.process.setSuspended id true
    held := id :: s.held }

def resume (s : State) (id : Nat) : State :=
  { s with
    process := s.process.setSuspended id false
    held := s.held.filter (· ≠ id) }

def allBpHit (s : State) : Bool := s.process.threads.all Thread.isSuspended

/-- `release_bp`: whether a thread has been released. The draw is below the number
of entries. -/
def releaseBp (draw : Nat) (s : State) : Bool × State :=
  if !s.process.isValid then (false, s)
  else
    match s.objArr[draw % s.objArr.length]? with
    | none => (false, s)
    | some obj =>
        let resumed := s.stopProcess.resume obj.id
        (true, { resumed with objArr := s.objArr.eraseIdx (draw % s.objArr.length) })

def threadLivenessCheck (s : State) (id : Nat) : List Nat :=
  (s.objArr.zipIdx.filter fun (obj, _) => obj.id = id).map Prod.snd

def deleteEntries (s : State) (thread_list : List Nat) : State :=
  { s with objArr := thread_list.foldl List.eraseIdx s.objArr }

def untrackedBreakpointCheck (s : State) : List Thread :=
  s.process.threads.filter fun thd => thd.atBreakpoint && decide (thd.id ∉ s.ids)

end State

variable (c : Config)

/-- `match`: the addresses that an entry shares with those of other threads and of
the other kind, or of any kind if there is only one source line. -/
def matchEntries (objArr : List Entry) (arr : Entry) : List (Text × Nat) :=
  objArr.flatMap fun obj =>
    if obj.id ≠ arr.id then
      if c.bp_source.1 = c.bp_source.2 ∨ obj.kind ≠ arr.kind then
        (obj.addrs.filter (· ∈ arr.addrs)).map fun addr => (addr, obj.id)
      else []
    else []

def breakpointMatchCheck (r : Readings) (s : State) (arr : Entry) : Except Stop State :=
  match matchEntries c s.objArr arr with
  | [] =>
      let recorded := { s with lastBreak := r.now arr.id, objArr := s.objArr ++ [arr] }
      .ok (if recorded.allBpHit then (recorded.releaseBp (r.rand arr.id)).2 else recorded)
  | pairs => .error (.found pairs)

/-- The kind of access and the source line that a callback takes for a frame. -/
def accessAt (fr : Frame) : Except Stop (Kind × Text) :=
  if fr.location.line = c.bp_location.1.line then .ok (.write, c.bp_source.1)
  else if fr.location.line = c.bp_location.2.line then .ok (.read, c.bp_source.2)
  else .error .wrongLine

def recordedEntry (frameOf : Thread → Frame) (thd : Thread) : Except Stop Entry := do
  let (kind, source) ← accessAt c (frameOf thd)
  let addrs ← getAddr (frameOf thd) source
  return { addrs, kind, id := thd.id }

def handle (frameOf : Thread → Frame) (r : Readings) (s : State) (thd : Thread) :
    Except Stop State := do
  let s := s.suspend thd.id
  breakpointMatchCheck c r s (← recordedEntry c frameOf thd)

/-- What both callbacks do to the threads that are not tracked yet. -/
def handleUntracked (frameOf : Thread → Frame) (r : Readings) (s : State) : Except Stop State := do
  let s ← s.untrackedBreakpointCheck.foldlM (handle c frameOf r) s
  return { s with running := true }.continueProcess

def readCallback (r : Readings) (s : State) : Except Stop State :=
  handleUntracked c Thread.frameAtIndex0 r { s.stopProcess with running := false }

/-- The entries of the triggering thread are given up first. -/
def writeCallback (r : Readings) (s : State) (id : Nat) : Except Stop State :=
  let s := { s.stopProcess with running := false }
  handleUntracked c Thread.selectedFrame r (s.deleteEntries (s.threadLivenessCheck id))

/-- The clock readings of a tick of the timer, in their order, and its draw. -/
structure Tick where
  wait : Rat
  update : Rat
  last : Rat
  rand : Nat

/-- A thread is released when nothing has happened for a while. -/
def releaseAfterWait (t : Tick) (s : State) : State :=
  if t.wait - s.lastBreak > c.waitTime then
    let (released, s) := { s with running := false }.releaseBp t.rand
    let s := if released then { s with lastBreak := t.update } else s
    { s with running := true }.continueProcess
  else s

/-- What `timer` does while it holds the lock. -/
def tick (t : Tick) (s : State) : Except Stop State :=
  if s.running then
    let s := releaseAfterWait c t s
    if !c.interactive && s.objArr.length == 0 && decide (t.last - s.lastBreak > c.killTime) then
      .error .noBreakpoints
    else .ok s
  else if !c.interactive && decide (t.last - s.lastBreak > c.termTime) then .error .notStarted
  else .ok s

def timer (t : Tick) (s : State) : Except Stop State := do
  let s ← tick c t s
  if s.statusFound then .error .statusFound else return s

variable {c}

/-! What each of these functions has done when it comes back. -/
section Inversion
variable {frameOf : Thread → Frame} {r : Readings} {s s' : State} {thd : Thread} {arr : Entry}

/-- `release_bp` resumes the thread of one entry and gives the entry up. It does nothing only if
there is no valid process or no entry. -/
theorem State.releaseBp_cases (draw : Nat) (s : State) :
    s.releaseBp draw = (false, s) ∧ (s.process.isValid = true → s.objArr = []) ∨
      ∃ i obj, s.objArr[i]? = some obj ∧ s.releaseBp draw =
        (true, { s.stopProcess.resume obj.id with objArr := s.objArr.eraseIdx i }) := by
  unfold State.releaseBp
  cases hValid : s.process.isValid with
  | false => exact .inl ⟨rfl, fun h => absurd h Bool.false_ne_true⟩
  | true =>
      cases hObj : s.objArr[draw % s.objArr.length]? with
      | none =>
          refine .inl ⟨rfl, fun _ => ?_⟩
          by_contra hNe
          have hDraw := Nat.mod_lt draw (List.length_pos_iff.mpr hNe)
          exact absurd hDraw (Nat.not_lt.mpr (List.getElem?_eq_none_iff.mp hObj))
      | some obj => exact .inr ⟨_, obj, hObj, rfl⟩

/-- A thread without a match is recorded, and another one may be released for it. -/
theorem breakpointMatchCheck_ok (h : breakpointMatchCheck c r s arr = .ok s') :
    matchEntries c s.objArr arr = [] ∧ ∃ recorded : State,
      recorded = { s with lastBreak := r.now arr.id, objArr := s.objArr ++ [arr] } ∧
        (recorded.allBpHit = false ∧ s' = recorded ∨ s' = (recorded.releaseBp (r.rand arr.id)).2) := by
  unfold breakpointMatchCheck at h
  cases hMatch : matchEntries c s.objArr arr with
  | nil =>
      rw [hMatch] at h
      obtain rfl := Except.ok.inj h
      refine ⟨rfl, _, rfl, ?_⟩
      split
      · exact .inr rfl
      · next hHit => exact .inl ⟨Bool.eq_false_iff.mpr hHit, rfl⟩
  | cons pair pairs =>
      rw [hMatch] at h
      cases h

/-- The script halts with the matches of the entry, if there are any. -/
theorem breakpointMatchCheck_error {stop : Stop} (h : breakpointMatchCheck c r s arr = .error stop) :
    stop = .found (matchEntries c s.objArr arr) ∧ matchEntries c s.objArr arr ≠ [] := by
  unfold breakpointMatchCheck at h
  cases hMatch : matchEntries c s.objArr arr with
  | nil =>
      rw [hMatch] at h
      cases h
  | cons pair pairs =>
      rw [hMatch] at h
      exact ⟨(Except.error.inj h).symm, List.cons_ne_nil _ _⟩

/-- An entry is made from the frame of its thread. -/
theorem recordedEntry_ok (h : recordedEntry c frameOf thd = .ok arr) : ∃ source,
    accessAt c (frameOf thd) = .ok (arr.kind, source) ∧
      getAddr (frameOf thd) source = .ok arr.addrs ∧ arr.id = thd.id := by
  obtain ⟨⟨kind, source⟩, hAccess, hRest⟩ := bind_eq_ok_iff.mp h
  obtain ⟨addrs, hAddrs, hArr⟩ := bind_eq_ok_iff.mp hRest
  obtain rfl := Except.ok.inj hArr
  exact ⟨source, hAccess, hAddrs, rfl⟩

/-- A thread that is handled is suspended, and its entry is compared with the others. -/
theorem handle_ok (h : handle c frameOf r s thd = .ok s') : ∃ arr,
    recordedEntry c frameOf thd = .ok arr ∧
      breakpointMatchCheck c r (s.suspend thd.id) arr = .ok s' :=
  bind_eq_ok_iff.mp h

theorem handleUntracked_ok (h : handleUntracked c frameOf r s = .ok s') : ∃ middle : State,
    s.untrackedBreakpointCheck.foldlM (handle c frameOf r) s = .ok middle ∧
      s' = { middle with running := true }.continueProcess := by
  obtain ⟨middle, hFold, hOk⟩ := bind_eq_ok_iff.mp h
  exact ⟨middle, hFold, (Except.ok.inj hOk).symm⟩

/-- Before the waiting time is over the timer does nothing, and `release_bp` afterwards. -/
theorem releaseAfterWait_cases (t : Tick) (s : State) :
    ¬t.wait - s.lastBreak > c.waitTime ∧ releaseAfterWait c t s = s ∨
      t.wait - s.lastBreak > c.waitTime ∧ ∃ released s',
        { s with running := false }.releaseBp t.rand = (released, s') ∧
          releaseAfterWait c t s = State.continueProcess
            { s' with
              lastBreak := if released then t.update else s'.lastBreak
              running := true } := by
  by_cases hWait : t.wait - s.lastBreak > c.waitTime
  · cases hRelease : { s with running := false }.releaseBp t.rand with
    | mk released s' =>
        refine .inr ⟨hWait, released, s', rfl, ?_⟩
        rw [releaseAfterWait, if_pos hWait, hRelease]
        cases released <;> rfl
  · exact .inl ⟨hWait, if_neg hWait⟩

/-- The timer goes on only while nothing has been found. -/
theorem timer_ok {t : Tick} (h : timer c t s = .ok s') :
    s' = (if s.running then releaseAfterWait c t s else s) ∧ s'.statusFound = false := by
  obtain ⟨ticked, hTick, hRest⟩ := bind_eq_ok_iff.mp h
  have hTicked : ticked = if s.running then releaseAfterWait c t s else s := by
    unfold tick at hTick
    dsimp only at hTick
    split at hTick
    · next hRunning =>
        rw [if_pos hRunning]
        split at hTick
        · cases hTick
        · exact (Except.ok.inj hTick).symm
    · next hRunning =>
        rw [if_neg hRunning]
        split at hTick
        · cases hTick
        · exact (Except.ok.inj hTick).symm
  split at hRest
  · cases hRest
  · next hStatus =>
      obtain rfl := Except.ok.inj hRest
      exact ⟨hTicked, Bool.eq_false_iff.mpr hStatus⟩

end Inversion

end ConAnalysis.Trigger
