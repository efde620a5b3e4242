import ConAnalysis.Input.RacyInstructions
import ConAnalysis.Library.BreakLoop

/-! `ConAnalysis::initializeCallStack`: from the lines of a race report to the racy
instructions of the first line and the calls of the lines behind it. -/
namespace ConAnalysis
open IR BreakLoop
open Env (Site)

def siteOf (r : InstRef) : Site := (r.func, r)

/-- `callStackHead_`, `callStackBody_` and `finishedVars_`. -/
structure CallStacks where
  callStackHead : List Site := []
  callStackBody : List Site := []
  finishedVars : Finset Value := ∅

/-- In the loop over the instructions of a line: is this the first one, and has the first
one been a call? -/
structure LineWalk extends CallStacks where
  begins : Bool := true
  firstInsIsCall : Bool := false

/-- The ways in which the initialisation ends the process. -/
inductive InputAbort where
  | firstInstructionFailed
  | noMatchingInstructions
deriving DecidableEq, Repr

/-- One instruction of a line. `back` is the last instruction of the line. -/
def handleIns (M : Module) (firstLine : Bool) (back : Option InstRef) (w : LineWalk)
    (item : InstRef × Instruction) : Round LineWalk :=
  let w' := { w with begins := false }
  if item.2.isCallSite then
    if callsIntrinsic M item.2 then .next w'
    else if firstLine && w.begins then .next { w' with firstInsIsCall := true }
    else .leave { w' with callStackBody := w.callStackBody ++ [siteOf item.1] }
  else if !firstLine || w.firstInsIsCall then .next w'
  else
    match pick M w.finishedVars (some item.1 = back && w.callStackHead.isEmpty) item.2 with
    | .add => .next { w' with
        callStackHead := w.callStackHead ++ [siteOf item.1]
        finishedVars := insert (.instruction item.1) w.finishedVars }
    | .skip true => .next { w' with finishedVars := insert (.instruction item.1) w.finishedVars }
    | .skip false => .next w'
    | .stop => .leave w'

def backOf (insList : List (InstRef × Instruction)) : Option InstRef :=
  insList.getLast?.map Prod.fst

def handleLine (M : Module) (firstLine : Bool) (insList : List (InstRef × Instruction))
    (st : CallStacks) : CallStacks :=
  (loop (handleIns M firstLine (backOf insList)) insList { st with }).toCallStacks

def handleReport (M : Module) (sourcetoIRmap : LineMap M) :
    Bool → List FuncFileLine → CallStacks → Except InputAbort CallStacks
  | _, [], st => .ok st
  | firstLine, line :: lines, st =>
      match sourcetoIRmap.find line.2 with
      | none =>
          if firstLine then .error .firstInstructionFailed
          else handleReport M sourcetoIRmap false lines st
      | some [] => .error .noMatchingInstructions
      | some (item :: items) =>
          handleReport M sourcetoIRmap false lines (handleLine M firstLine (item :: items) st)

/-- The instruction with this number, if there is a manual input, becomes the head. -/
def overwriteHead (ins2int : List (InstRef × Nat)) (var : Nat) (st : CallStacks) : CallStacks :=
  if var = 0 then st
  else
    match ins2int.find? fun entry => entry.2 = var with
    | some (r, _) => { st with callStackHead := [siteOf r] }
    | none => st

/-- `ConAnalysis::initializeCallStack`, with the entries of `ins2int_` in their order and
the option `CorruptedVariable`. -/
def initializeCallStack (M : Module) (sourcetoIRmap : LineMap M) (ins2int : List (InstRef × Nat))
    (var : Nat) (csinput : List FuncFileLine) : Except InputAbort CallStacks :=
  (handleReport M sourcetoIRmap true csinput {}).map (overwriteHead ins2int var)

/-- A call or an invoke that is not of an intrinsic function. -/
def followed (M : Module) (item : InstRef × Instruction) : Bool :=
  item.2.isCallSite && !callsIntrinsic M item.2

section Lines
variable {M : Module} {sourcetoIRmap : LineMap M} {back : Option InstRef}
variable {item : InstRef × Instruction} {items : List (InstRef × Instruction)} {w w' : LineWalk}

/-- The first call of a line behind the first one. -/
def bodyOf (M : Module) (sourcetoIRmap : LineMap M) (line : FuncFileLine) : Option Site :=
  (sourcetoIRmap.find line.2).bind fun items => (items.find? (followed M)).map fun item => siteOf item.1

/-- On the lines below the first one, the call at the start of the line is the whole frame. -/
theorem handleIns_later : handleIns M false back w item =
    if followed M item then
      .leave { w with begins := false, callStackBody := w.callStackBody ++ [siteOf item.1] }
    else .next { w with begins := false } := by
  unfold handleIns followed
  cases item.2.isCallSite <;> cases callsIntrinsic M item.2 <;> simp

/-- A line behind the first one only goes to the body. -/
theorem handleLine_later (st : CallStacks) : handleLine M false items st =
    { st with callStackBody := st.callStackBody ++
        ((items.find? (followed M)).map fun item => siteOf item.1).toList } := by
  have hLoop : ∀ (back : Option InstRef) (w : LineWalk),
      (loop (handleIns M false back) items w).toCallStacks =
        { w.toCallStacks with callStackBody := w.callStackBody ++
            ((items.find? (followed M)).map fun item => siteOf item.1).toList } := by
    intro back
    induction items with
    | nil => simp [loop]
    | cons item items ih =>
        intro w
        rw [loop, handleIns_later, List.find?_cons]
        cases followed M item with
        | true => simp
        | false => simpa using ih _
  exact hLoop _ _

/-- So each of these lines adds one frame at most. -/
theorem handleReport_later {lines : List FuncFileLine} {st st' : CallStacks}
    (h : handleReport M sourcetoIRmap false lines st = .ok st') :
    st' = { st with callStackBody :=
      st.callStackBody ++ lines.filterMap (bodyOf M sourcetoIRmap) } := by
  induction lines generalizing st with
  | nil =>
      cases h
      simp
  | cons line lines ih =>
      unfold handleReport at h
      split at h
      · next hFind =>
          simp only [Bool.false_eq_true, ↓reduceIte] at h
          have hNone : bodyOf M sourcetoIRmap line = none := by simp [bodyOf, hFind]
          rw [ih h, List.filterMap_cons_none hNone]
      · cases h
      · next item items hFind =>
          rw [ih h, handleLine_later]
          have hBody : bodyOf M sourcetoIRmap line =
              ((item :: items).find? (followed M)).map fun item => siteOf item.1 := by
            simp only [bodyOf, hFind, Option.bind_some]
          rw [List.filterMap_cons, hBody]
          cases ((item :: items).find? (followed M)).map fun item => siteOf item.1 <;> simp

/-- What handling an instruction of the first line does to the walk. -/
inductive Handled (M : Module) (back : Option InstRef) (w : LineWalk)
    (item : InstRef × Instruction) : Round LineWalk → Prop where
  | passed (firstInsIsCall : Bool) :
      Handled M back w item (.next { w with begins := false, firstInsIsCall := firstInsIsCall })
  | called (notFirst : w.begins = false) (isFollowed : followed M item = true) :
      Handled M back w item (.leave { w with
        begins := false, callStackBody := w.callStackBody ++ [siteOf item.1] })
  | added (notCall : item.2.isCallSite = false) (noOperand : w.callStackHead = [] ∨
        ∀ v ∈ item.2.operands, v ∉ w.finishedVars) :
      Handled M back w item (.next { w with
        begins := false
        callStackHead := w.callStackHead ++ [siteOf item.1]
        finishedVars := insert (.instruction item.1) w.finishedVars })
  | finished (notCall : item.2.isCallSite = false) (notEmpty : w.finishedVars ≠ ∅) :
      Handled M back w item (.next { w with
        begins := false, finishedVars := insert (.instruction item.1) w.finishedVars })
  | stopped (notCall : item.2.isCallSite = false) :
      Handled M back w item (.leave { w with begins := false })

/-- What one instruction of the first line can do, in cases. -/
theorem handleIns_handled (M : Module) (back : Option InstRef) (w : LineWalk)
    (item : InstRef × Instruction) :
    Handled M back w item (handleIns M true back w item) := by
  obtain ⟨st, begins, firstInsIsCall⟩ := w
  unfold handleIns
  cases hCall : item.2.isCallSite with
  | true =>
      cases hIntrinsic : callsIntrinsic M item.2 with
      | true => exact .passed firstInsIsCall
      | false =>
          cases begins with
          | true => exact .passed true
          | false => exact .called rfl (by simp [followed, hCall, hIntrinsic])
  | false =>
      cases firstInsIsCall with
      | true => exact .passed true
      | false =>
          simp only [Bool.false_eq_true, ↓reduceIte, Bool.not_true, Bool.or_self]
          cases hPick : pick M st.finishedVars
              (decide (some item.1 = back) && st.callStackHead.isEmpty) item.2 with
          | add =>
              refine .added hCall ((pick_add hPick).imp_left fun hFallback => ?_)
              rw [Bool.and_eq_true, List.isEmpty_iff] at hFallback
              exact hFallback.2
          | skip finished =>
              cases finished with
              | true => exact .finished hCall (pick_skip_true hPick)
              | false => exact .passed false
          | stop => exact .stopped hCall

/-- The heads are instructions of the line without an earlier head among their operands. -/
structure HeadInv (M : Module) (items : List (InstRef × Instruction)) (st : CallStacks) : Prop where
  line : ∀ site ∈ st.callStackHead, ∃ item ∈ items, site = siteOf item.1
  finished : ∀ site ∈ st.callStackHead, .instruction site.2 ∈ st.finishedVars
  operands : st.callStackHead.Pairwise fun earlier head =>
    ∀ i, M.inst? head.2 = some i → .instruction earlier.2 ∉ i.operands
  empty : st.callStackHead = [] → st.finishedVars = ∅

/-- An instruction is seeded only if no operand of it belongs to one that is. -/
theorem HeadInv.add (hInst : M.inst? item.1 = some item.2) (hItem : item ∈ items)
    {st : CallStacks} (h : HeadInv M items st)
    (noOperand : st.callStackHead = [] ∨ ∀ v ∈ item.2.operands, v ∉ st.finishedVars) :
    HeadInv M items { st with
      callStackHead := st.callStackHead ++ [siteOf item.1]
      finishedVars := insert (.instruction item.1) st.finishedVars } := by
  constructor
  case line =>
    intro site hSite
    rcases List.mem_append.mp hSite with hOld | hNew
    · exact h.line site hOld
    · exact ⟨item, hItem, List.mem_singleton.mp hNew⟩
  case finished =>
    intro site hSite
    rcases List.mem_append.mp hSite with hOld | hNew
    · exact Finset.mem_insert_of_mem (h.finished site hOld)
    · rw [List.mem_singleton.mp hNew]
      exact Finset.mem_insert_self ..
  case operands =>
    refine List.pairwise_append.mpr ⟨h.operands, List.pairwise_singleton .., ?_⟩
    intro earlier hEarlier head hHead i hi hMem
    rw [List.mem_singleton.mp hHead] at hi
    cases hInst.symm.trans hi
    rcases noOperand with hEmpty | hNone
    · rw [hEmpty] at hEarlier
      cases hEarlier
    · exact hNone _ hMem (h.finished earlier hEarlier)
  case empty => simp

/-- Step lemma of the loop over the first line. -/
theorem Handled.headInv {r : Round LineWalk} (h : Handled M back w item r)
    (hInst : M.inst? item.1 = some item.2) (hItem : item ∈ items)
    (hw : HeadInv M items w.toCallStacks) (hr : r = .next w' ∨ r = .leave w') :
    HeadInv M items w'.toCallStacks := by
  cases h with
  | passed =>
      cases hr.resolve_right (by simp)
      exact hw
  | called =>
      cases hr.resolve_left (by simp)
      exact ⟨hw.line, hw.finished, hw.operands, hw.empty⟩
  | added notCall noOperand =>
      cases hr.resolve_right (by simp)
      exact hw.add hInst hItem noOperand
  | finished notCall notEmpty =>
      cases hr.resolve_right (by simp)
      refine ⟨hw.line, fun site hSite => ?_, hw.operands, fun hEmpty => absurd (hw.empty hEmpty) notEmpty⟩
      exact Finset.mem_insert_of_mem (hw.finished site hSite)
  | stopped =>
      cases hr.resolve_left (by simp)
      exact hw

theorem headInv_firstLine (hItems : ∀ item ∈ items, M.inst? item.1 = some item.2) :
    HeadInv M items (handleLine M true items {}) := by
  refine loop_invariant (I := fun w : LineWalk => HeadInv M items w.toCallStacks)
    ⟨by simp, by simp, List.Pairwise.nil, fun _ => rfl⟩ ?_ ?_
  · intro item hItem w w' hw hRound
    exact (handleIns_handled ..).headInv (hItems item hItem) hItem hw (.inl hRound)
  · intro item hItem w w' hw hRound
    exact (handleIns_handled ..).headInv (hItems item hItem) hItem hw (.inr hRound)

/-- The walk over the first line gets to a call or an invoke, of no intrinsic function,
that is not the first instruction of the line. -/
def MeetsCall (M : Module) (insList : List (InstRef × Instruction)) : Prop :=
  ∃ before item behind w, insList = before ++ item :: behind ∧ before ≠ [] ∧
    Passes (handleIns M true (backOf insList)) {} before w ∧ followed M item = true

/-- Only the first instruction of a line begins it. -/
theorem Handled.begins {r : Round LineWalk} (h : Handled M back w item r)
    (hr : r = .next w') : w'.begins = false := by
  subst hr
  cases h <;> rfl

/-- Behind the first instruction the walk knows that. -/
theorem begins_of_passes {before : List (InstRef × Instruction)} (hBefore : before ≠ [])
    (h : Passes (handleIns M true back) w before w') : w'.begins = false := by
  induction h with
  | nil => exact absurd rfl hBefore
  | @cons item items s s₁ s₂ first rest ih =>
      cases items with
      | nil =>
          cases rest
          exact (handleIns_handled ..).begins first
      | cons => exact ih (by simp)

/-- The first line leaves no frame in the body exactly if the loop meets no call. -/
theorem body_firstLine_iff :
    (handleLine M true items {}).callStackBody = [] ↔ ¬MeetsCall M items := by
  have hNext : ∀ item ∈ items, ∀ {w w' : LineWalk},
      handleIns M true (backOf items) w item = .next w' → w'.callStackBody = w.callStackBody := by
    intro item _ w w' hRound
    have hHandled := handleIns_handled M (backOf items) w item
    rw [hRound] at hHandled
    cases hHandled <;> rfl
  refine (loop_keeps_iff (fun w : LineWalk => w.callStackBody) hNext).trans ⟨?_, ?_⟩
  · rintro hKeep ⟨before, item, behind, w, hItems, hBefore, hPasses, hFollowed⟩
    have hBegins := begins_of_passes hBefore hPasses
    have hLeave : handleIns M true (backOf items) w item = .leave { w with
        begins := false, callStackBody := w.callStackBody ++ [siteOf item.1] } := by
      rw [followed, Bool.and_eq_true, Bool.not_eq_true'] at hFollowed
      simp [handleIns, hFollowed.1, hFollowed.2, hBegins]
    have hSame := hKeep before item behind w _ hItems hPasses hLeave
    simp at hSame
  · intro hNever before item behind w w' hItems hPasses hLeave
    have hHandled := handleIns_handled M (backOf items) w item
    rw [hLeave] at hHandled
    cases hHandled with
    | stopped => rfl
    | called notFirst isFollowed =>
        refine absurd ⟨before, item, behind, w, hItems, ?_, hPasses, isFollowed⟩ hNever
        rintro rfl
        cases hPasses
        cases notFirst

/-- The instruction is a call or an invoke of the line, and not of an intrinsic function. -/
def CallOn (M : Module) (sourcetoIRmap : LineMap M) (line : FuncFileLine) (site : Site) : Prop :=
  ∃ items item, sourcetoIRmap.find line.2 = some items ∧ item ∈ items ∧ site = siteOf item.1 ∧
    followed M item = true

/-- The heads come from the first line and depend on no earlier one, the body has at most
one call of each of the other lines, in their order. -/
structure WellFormedStack (M : Module) (sourcetoIRmap : LineMap M) (csinput : List FuncFileLine)
    (st : CallStacks) : Prop where
  head_line : ∀ site ∈ st.callStackHead, ∃ line items item, csinput.head? = some line ∧
    sourcetoIRmap.find line.2 = some items ∧ item ∈ items ∧ site = siteOf item.1
  head_operands : st.callStackHead.Pairwise fun earlier head =>
    ∀ i, M.inst? head.2 = some i → .instruction earlier.2 ∉ i.operands
  body_lines : ∃ lines, lines.Sublist csinput.tail ∧
    List.Forall₂ (CallOn M sourcetoIRmap) lines st.callStackBody

/-- The frame of a line is a call on that line. -/
theorem callOn_of_bodyOf {line : FuncFileLine} {site : Site}
    (h : bodyOf M sourcetoIRmap line = some site) : CallOn M sourcetoIRmap line site := by
  obtain ⟨items, hFind, hBody⟩ := Option.bind_eq_some_iff.mp h
  obtain ⟨item, hItem, rfl⟩ := Option.map_eq_some_iff.mp hBody
  exact ⟨items, item, hFind, List.mem_of_find?_eq_some hItem, rfl, List.find?_some hItem⟩

/-- A line with a call gives a frame, though perhaps for another call. -/
theorem CallOn.bodyOf_isSome {line : FuncFileLine} {site : Site}
    (h : CallOn M sourcetoIRmap line site) : (bodyOf M sourcetoIRmap line).isSome = true := by
  obtain ⟨items, item, hFind, hItem, -, hFollowed⟩ := h
  rw [bodyOf, hFind, Option.bind_some, Option.isSome_map, List.find?_isSome]
  exact ⟨item, hItem, hFollowed⟩

/-- Each line that has a call gives one element of the body. -/
theorem forall₂_bodyOf (lines : List FuncFileLine) :
    List.Forall₂ (CallOn M sourcetoIRmap)
      (lines.filter fun line => (bodyOf M sourcetoIRmap line).isSome)
      (lines.filterMap (bodyOf M sourcetoIRmap)) := by
  induction lines with
  | nil => exact .nil
  | cons line lines ih =>
      cases hBody : bodyOf M sourcetoIRmap line with
      | none => simpa [hBody] using ih
      | some site =>
          rw [List.filterMap_cons_some hBody, List.filter_cons_of_pos (by simp [hBody])]
          exact .cons (callOn_of_bodyOf hBody) ih

/-- There are no more frames than lines that give one. -/
theorem length_le_of_forall₂ {lines rest : List FuncFileLine} {body : List Site}
    (hSub : lines.Sublist rest) (h : List.Forall₂ (CallOn M sourcetoIRmap) lines body) :
    body.length ≤ (rest.filterMap (bodyOf M sourcetoIRmap)).length := by
  have hAll : ∀ line ∈ lines, (bodyOf M sourcetoIRmap line).isSome = true := by
    clear hSub
    induction h with
    | nil => simp
    | cons hCall _ ih => exact List.forall_mem_cons.mpr ⟨hCall.bodyOf_isSome, ih⟩
  calc body.length = lines.length := h.length_eq.symm
    _ = (lines.filter fun line => (bodyOf M sourcetoIRmap line).isSome).length := by
        rw [List.filter_eq_self.mpr hAll]
    _ ≤ (rest.filter fun line => (bodyOf M sourcetoIRmap line).isSome).length :=
        (hSub.filter _).length_le
    _ = (rest.filterMap (bodyOf M sourcetoIRmap)).length := (forall₂_bodyOf rest).length_eq

end Lines

/-- Without a number on the command line only the report counts. -/
theorem initializeCallStack_zero (M : Module) (sourcetoIRmap : LineMap M)
    (ins2int : List (InstRef × Nat)) (csinput : List FuncFileLine) :
    initializeCallStack M sourcetoIRmap ins2int 0 csinput =
      handleReport M sourcetoIRmap true csinput {} := by
  unfold initializeCallStack
  cases handleReport M sourcetoIRmap true csinput {} <;> rfl

/-- What the loop over the lines makes of the first one. -/
theorem handleReport_first {M : Module} {sourcetoIRmap : LineMap M} {line : FuncFileLine}
    {lines : List FuncFileLine} {st : CallStacks}
    (h : handleReport M sourcetoIRmap true (line :: lines) {} = .ok st) :
    ∃ items, items ≠ [] ∧ sourcetoIRmap.find line.2 = some items ∧
      st.callStackHead = (handleLine M true items {}).callStackHead ∧
      st.callStackBody = (handleLine M true items {}).callStackBody ++
        lines.filterMap (bodyOf M sourcetoIRmap) := by
  unfold handleReport at h
  split at h
  · cases h
  · cases h
  · next item items hFind =>
      rw [handleReport_later h]
      exact ⟨item :: items, by simp, hFind, rfl, rfl⟩

/-- The call stack is well formed exactly if no call of the first line is met. -/
theorem wellFormedStack_iff {M : Module} {sourcetoIRmap : LineMap M}
    {ins2int : List (InstRef × Nat)} {csinput : List FuncFileLine} {st : CallStacks}
    (h : initializeCallStack M sourcetoIRmap ins2int 0 csinput = .ok st) :
    WellFormedStack M sourcetoIRmap csinput st ↔
      ¬∃ line items, csinput.head? = some line ∧ sourcetoIRmap.find line.2 = some items ∧
        MeetsCall M items := by
  rw [initializeCallStack_zero] at h
  cases csinput with
  | nil =>
      cases h
      refine iff_of_true ⟨by simp, List.Pairwise.nil, [], List.nil_sublist _, .nil⟩ ?_
      rintro ⟨line, items, hLine, -⟩
      cases hLine
  | cons line lines =>
      obtain ⟨items, -, hFind, hHead, hBody⟩ := handleReport_first h
      have hInv := headInv_firstLine (sourcetoIRmap.valid hFind)
      constructor
      · rintro hWellFormed ⟨line', items', hLine, hFind', hMeets⟩
        cases hLine
        cases hFind.symm.trans hFind'
        obtain ⟨lines', hSub, hForall⟩ := hWellFormed.body_lines
        have hLe : st.callStackBody.length ≤ (lines.filterMap (bodyOf M sourcetoIRmap)).length :=
          length_le_of_forall₂ hSub hForall
        rw [hBody, List.length_append] at hLe
        have hEmpty : (handleLine M true items {}).callStackBody = [] :=
          List.eq_nil_of_length_eq_zero (by omega)
        exact body_firstLine_iff.mp hEmpty hMeets
      · intro hNever
        have hEmpty : (handleLine M true items {}).callStackBody = [] :=
          body_firstLine_iff.mpr fun hMeets => hNever ⟨line, items, rfl, hFind, hMeets⟩
        constructor
        case head_line =>
          intro site hSite
          rw [hHead] at hSite
          obtain ⟨item, hItem, hEq⟩ := hInv.line site hSite
          exact ⟨line, items, item, rfl, hFind, hItem, hEq⟩
        case head_operands => exact hHead ▸ hInv.operands
        case body_lines =>
          rw [hBody, hEmpty, List.nil_append]
          exact ⟨_, List.filter_sublist, forall₂_bodyOf lines⟩

/-- `main` passes a local, then a global on, and then only reads the global. -/
def reportModule : Module where
  functions := [
    { name := "main"
      blocks := [{
        body := [
          ⟨.alloca, [], some ⟨"r.c", 3⟩⟩,
          ⟨.load, [.instruction ⟨0, 0, 0⟩], some ⟨"r.c", 5⟩⟩,
          ⟨.call, [.instruction ⟨0, 0, 1⟩, .function 1], some ⟨"r.c", 5⟩⟩,
          ⟨.load, [.globalVariable 0], some ⟨"r.c", 6⟩⟩,
          ⟨.call, [.instruction ⟨0, 0, 3⟩, .function 1], some ⟨"r.c", 6⟩⟩,
          ⟨.load, [.globalVariable 0], some ⟨"r.c", 7⟩⟩]
        terminator := ⟨.ret, [], some ⟨"r.c", 8⟩⟩
        successors := [] }] },
    { name := "use"
      params := 1
      blocks := [{
        body := []
        terminator := ⟨.ret, [], some ⟨"u.c", 2⟩⟩
        successors := [] }] }]

def reportLines : LineMap reportModule :=
  Inst2Int.lineMap reportModule (Inst2Int.createMaps reportModule).2

/-- The call of the only line of the report goes to the body. -/
theorem first_line_in_body : ∃ st,
    initializeCallStack reportModule reportLines [] 0 [("main", "r.c", 6)] = .ok st ∧
      ¬WellFormedStack reportModule reportLines [("main", "r.c", 6)] st := by
  obtain ⟨st, hInit, hBody⟩ := Exceptions.exists_ok_of_any
    (x := initializeCallStack reportModule reportLines [] 0 [("main", "r.c", 6)])
    (P := fun st => st.callStackBody = [(0, ⟨0, 0, 4⟩)]) (by decide)
  refine ⟨st, hInit, fun hWellFormed => ?_⟩
  obtain ⟨lines, hSub, hForall⟩ := hWellFormed.body_lines
  rw [List.sublist_nil.mp hSub, List.forall₂_nil_left_iff, hBody] at hForall
  cases hForall

theorem wellFormedStack_iff_read : ∃ st,
    initializeCallStack reportModule reportLines [] 0 [("main", "r.c", 7), ("main", "r.c", 5)] =
        .ok st ∧ st.callStackHead = [(0, ⟨0, 0, 5⟩)] ∧ st.callStackBody = [(0, ⟨0, 0, 2⟩)] ∧
      WellFormedStack reportModule reportLines [("main", "r.c", 7), ("main", "r.c", 5)] st := by
  obtain ⟨st, hInit, hHead, hBody⟩ := Exceptions.exists_ok_of_any
    (x := initializeCallStack reportModule reportLines [] 0
      [("main", "r.c", 7), ("main", "r.c", 5)])
    (P := fun st => st.callStackHead = [(0, ⟨0, 0, 5⟩)] ∧ st.callStackBody = [(0, ⟨0, 0, 2⟩)])
    (by decide)
  refine ⟨st, hInit, hHead, hBody, (wellFormedStack_iff hInit).mpr ?_⟩
  rintro ⟨line, items, hLine, hFind, before, item, behind, w, hItems, hBefore, -⟩
  cases hLine
  have hOne : reportLines.find ("r.c", 7) =
      some [(⟨0, 0, 5⟩, ⟨.load, [.globalVariable 0], some ⟨"r.c", 7⟩⟩)] := by decide
  cases hOne.symm.trans hFind
  cases before with
  | nil => exact hBefore rfl
  | cons first before => simp at hItems

end ConAnalysis
