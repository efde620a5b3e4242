import ConAnalysis.Input.InitializeCallStack
import ConAnalysis.Report.GetCorruptedIRs

/-! When a race report gives a head, so that the assertion of `getCorruptedIRs` holds. -/
namespace ConAnalysis
open IR BreakLoop

section Head
variable {M : Module} {back : Option InstRef} {item : InstRef × Instruction}
variable {items : List (InstRef × Instruction)} {w : LineWalk}

/-- Before any call of the line there is an instruction that is racy, where the last one
is so in any case. -/
def SeedsHead (M : Module) (insList : List (InstRef × Instruction)) : Prop :=
  ∃ before item behind, insList = before ++ item :: behind ∧
    (∀ earlier ∈ before, followed M earlier = false) ∧ item.2.isCallSite = false ∧
    Racy M (some item.1 = backOf insList) item.2

/-- Nothing has been added or finished, and the first instruction is no call. -/
structure LineWalk.Fresh (w : LineWalk) : Prop where
  head : w.callStackHead = []
  finished : w.finishedVars = ∅
  noCall : w.firstInsIsCall = false

/-- As long as nothing is seeded, a call at the start of the line is noted, a later one ends the
loop, and of the rest only racy instructions are seeded. -/
theorem handleIns_fresh (hw : w.Fresh) : handleIns M true back w item =
    if followed M item then
      if w.begins then .next { w with begins := false, firstInsIsCall := true }
      else .leave { w with
        begins := false, callStackBody := w.callStackBody ++ [siteOf item.1] }
    else if item.2.isCallSite = false ∧ Racy M (some item.1 = back) item.2 then
      .next { w with
        begins := false
        callStackHead := w.callStackHead ++ [siteOf item.1]
        finishedVars := insert (.instruction item.1) w.finishedVars }
    else .next { w with begins := false } := by
  unfold handleIns followed
  cases hCall : item.2.isCallSite with
  | true => cases callsIntrinsic M item.2 <;> simp
  | false =>
      simp only [hw.head, hw.finished, hw.noCall, pick_empty, List.isEmpty_nil, Bool.and_true]
      by_cases hRacy : Racy M (some item.1 = back) item.2 <;> simp [hRacy]

/-- A head stays. -/
theorem head_loop_ne_nil (h : w.callStackHead ≠ []) :
    (loop (handleIns M true back) items w).callStackHead ≠ [] := by
  refine loop_invariant (I := fun w : LineWalk => w.callStackHead ≠ []) h ?_ ?_
  · intro item _ w w' hw hRound
    have hHandled := handleIns_handled M back w item
    rw [hRound] at hHandled
    cases hHandled <;> simp_all
  · intro item _ w w' hw hRound
    have hHandled := handleIns_handled M back w item
    rw [hRound] at hHandled
    cases hHandled <;> exact hw

/-- Behind a call that begins the line, only a further call is looked at. -/
theorem handleIns_of_call (hFirst : w.firstInsIsCall = true) : handleIns M true back w item =
    if followed M item ∧ w.begins = false then .leave { w with
      begins := false, callStackBody := w.callStackBody ++ [siteOf item.1] }
    else .next { w with begins := false, firstInsIsCall := true } := by
  obtain ⟨st, begins, firstInsIsCall⟩ := w
  cases hFirst
  unfold handleIns followed
  cases item.2.isCallSite <;> cases callsIntrinsic M item.2 <;> cases begins <;> simp

/-- Behind a call at the first place no head is added. -/
theorem head_loop_of_call (hFirst : w.firstInsIsCall = true) (hHead : w.callStackHead = []) :
    (loop (handleIns M true back) items w).callStackHead = [] := by
  refine (loop_invariant (I := fun w : LineWalk => w.firstInsIsCall = true ∧ w.callStackHead = [])
    ⟨hFirst, hHead⟩ ?_ ?_).2
  · intro item _ w w' hw hRound
    rw [handleIns_of_call hw.1] at hRound
    split at hRound
    · cases hRound
    · cases hRound
      exact ⟨rfl, hw.2⟩
  · intro item _ w w' hw hRound
    rw [handleIns_of_call hw.1] at hRound
    split at hRound
    · cases hRound
      exact hw
    · cases hRound

/-- The place of the first head, if there is one. -/
theorem head_loop_iff (hw : w.Fresh) :
    (loop (handleIns M true back) items w).callStackHead ≠ [] ↔
      ∃ before item behind, items = before ++ item :: behind ∧
        (∀ earlier ∈ before, followed M earlier = false) ∧ item.2.isCallSite = false ∧
        Racy M (some item.1 = back) item.2 := by
  induction items generalizing w with
  | nil =>
      refine iff_of_false (by simp [loop, hw.head]) ?_
      rintro ⟨before, item, behind, hItems, -⟩
      simp at hItems
  | cons item items ih =>
      cases hFollowed : followed M item with
      | true =>
          have hLoop : (loop (handleIns M true back) (item :: items) w).callStackHead = [] := by
            rw [loop, handleIns_fresh hw, if_pos hFollowed]
            cases w.begins with
            | true => exact head_loop_of_call rfl hw.head
            | false => exact hw.head
          refine iff_of_false (not_not_intro hLoop) ?_
          rintro ⟨before, item', behind, hItems, hBefore, notCall, -⟩
          cases before with
          | nil =>
              cases hItems
              simp [followed, notCall] at hFollowed
          | cons first before =>
              cases hItems
              rw [hBefore item List.mem_cons_self] at hFollowed
              cases hFollowed
      | false =>
          by_cases hRacy : item.2.isCallSite = false ∧ Racy M (some item.1 = back) item.2
          · rw [loop, handleIns_fresh hw, if_neg (by simp [hFollowed]), if_pos hRacy]
            dsimp only
            exact iff_of_true (head_loop_ne_nil (by simp))
              ⟨[], item, items, rfl, by simp, hRacy.1, hRacy.2⟩
          · rw [loop, handleIns_fresh hw, if_neg (by simp [hFollowed]), if_neg hRacy]
            dsimp only
            refine (ih (w := { w with begins := false })
              ⟨hw.head, hw.finished, hw.noCall⟩).trans ⟨?_, ?_⟩
            · rintro ⟨before, item', behind, rfl, hBefore, h⟩
              exact ⟨item :: before, item', behind, rfl,
                List.forall_mem_cons.mpr ⟨hFollowed, hBefore⟩, h⟩
            · rintro ⟨before, item', behind, hItems, hBefore, h⟩
              cases before with
              | nil =>
                  cases hItems
                  exact absurd h hRacy
              | cons first before =>
                  cases hItems
                  exact ⟨before, item', behind, rfl, (List.forall_mem_cons.mp hBefore).2, h⟩

/-- The first line seeds the head exactly if one of its instructions is racy and no call hides
it. -/
theorem head_firstLine_iff :
    (handleLine M true items {}).callStackHead ≠ [] ↔ SeedsHead M items :=
  head_loop_iff ⟨rfl, rfl, rfl⟩

end Head

section Assertion
variable {M : Module} {sourcetoIRmap : LineMap M} {ins2int : List (InstRef × Nat)}

/-- The lines behind the first one only end the process when one is found with no
instructions. -/
theorem exists_handleReport_later {lines : List FuncFileLine} {st : CallStacks} :
    (∃ st', handleReport M sourcetoIRmap false lines st = .ok st') ↔
      ∀ line ∈ lines, sourcetoIRmap.find line.2 ≠ some [] := by
  induction lines generalizing st with
  | nil => simp [handleReport]
  | cons line lines ih =>
      rw [List.forall_mem_cons, handleReport]
      split
      · next hFind => simp [hFind, ih]
      · next hFind => simp [hFind]
      · next hFind => simp [hFind, ih]

/-- The loop over the heads raises no assertion. -/
theorem Env.analyseHeads_ne_callStackHeadIsEmpty (env : Env) (options : Options)
    (body heads : List Env.Site) (session : Session env.module) :
    (env.analyseHeads options body heads session).2 ≠ .error .callStackHeadIsEmpty := by
  induction heads generalizing session with
  | nil => simp [analyseHeads]
  | cons head heads ih =>
      unfold analyseHeads
      split
      · next abort hHead =>
          unfold analyseHead at hHead
          split at hHead
          · cases hHead
            simp
          · split at hHead
            · cases hHead
              simp
            · cases hHead
      · exact ih _

theorem Env.getCorruptedIRs_asserts_iff (env : Env) (options : Options)
    (body heads : List Env.Site) :
    (env.getCorruptedIRs options body heads).2 = .error .callStackHeadIsEmpty ↔ heads = [] := by
  unfold getCorruptedIRs
  split
  · next hEmpty => exact iff_of_true rfl (List.isEmpty_iff.mp hEmpty)
  · next hNe =>
      exact iff_of_false (env.analyseHeads_ne_callStackHeadIsEmpty options body heads {})
        fun hEmpty => hNe (List.isEmpty_iff.mpr hEmpty)

/-- The initialisation ends with a head, and the assertion holds, exactly if there is a
racy instruction before any call of the first line. -/
theorem seeds_iff {env : Env} (options : Options) {sourcetoIRmap : LineMap env.module}
    {ins2int : List (InstRef × Nat)} {line : FuncFileLine} {lines : List FuncFileLine}
    {insList : List (InstRef × Instruction)} (hFind : sourcetoIRmap.find line.2 = some insList)
    (hNe : insList ≠ []) :
    (∃ st, initializeCallStack env.module sourcetoIRmap ins2int 0 (line :: lines) = .ok st ∧
      st.callStackHead ≠ [] ∧
      (env.getCorruptedIRs options st.callStackBody st.callStackHead).2 ≠
        .error .callStackHeadIsEmpty) ↔
    (∀ later ∈ lines, sourcetoIRmap.find later.2 ≠ some []) ∧ SeedsHead env.module insList := by
  obtain ⟨item, items, rfl⟩ := List.exists_cons_of_ne_nil hNe
  have hReport : handleReport env.module sourcetoIRmap true (line :: lines) {} =
      handleReport env.module sourcetoIRmap false lines
        (handleLine env.module true (item :: items) {}) := by
    simp only [handleReport, hFind]
  rw [initializeCallStack_zero, hReport, ← exists_handleReport_later, ← head_firstLine_iff]
  constructor
  · rintro ⟨st, hInit, hHead, -⟩
    refine ⟨⟨st, hInit⟩, ?_⟩
    rw [handleReport_later hInit] at hHead
    exact hHead
  · rintro ⟨⟨st, hInit⟩, hHead⟩
    have hSeed : st.callStackHead ≠ [] := by
      rw [handleReport_later hInit]
      exact hHead
    refine ⟨st, hInit, hSeed, ?_⟩
    rw [Ne, Env.getCorruptedIRs_asserts_iff]
    exact hSeed

end Assertion
/-- The load of the local is passed over, and the loop is left at the call. -/
theorem no_head_for_local : ∃ st,
    initializeCallStack reportModule reportLines [] 0 [("main", "r.c", 5)] = .ok st ∧
      st.callStackHead = [] ∧
      (Env.getCorruptedIRs { module := reportModule } {} st.callStackBody st.callStackHead).2 =
        .error .callStackHeadIsEmpty := by
  obtain ⟨st, hInit, hHead⟩ := Exceptions.exists_ok_of_any
    (x := initializeCallStack reportModule reportLines [] 0 [("main", "r.c", 5)])
    (P := fun st => st.callStackHead = []) (by decide)
  exact ⟨st, hInit, hHead, (Env.getCorruptedIRs_asserts_iff ..).mpr hHead⟩

theorem seeds_iff_global : ∃ st,
    initializeCallStack reportModule reportLines [] 0 [("main", "r.c", 6)] = .ok st ∧
      st.callStackHead ≠ [] ∧
      (Env.getCorruptedIRs { module := reportModule } {} st.callStackBody st.callStackHead).2 ≠
        .error .callStackHeadIsEmpty := by
  have hFind : reportLines.find ("main", "r.c", 6).2 = some [
      (⟨0, 0, 3⟩, ⟨.load, [.globalVariable 0], some ⟨"r.c", 6⟩⟩),
      (⟨0, 0, 4⟩, ⟨.call, [.instruction ⟨0, 0, 3⟩, .function 1], some ⟨"r.c", 6⟩⟩)] := by
    decide
  refine (@seeds_iff { module := reportModule } {} reportLines [] ("main", "r.c", 6) [] _ hFind
    (by simp)).mpr ⟨by simp, [], _, _, rfl, by simp, rfl, ?_⟩
  decide

end ConAnalysis
