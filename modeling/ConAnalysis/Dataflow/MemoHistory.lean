import ConAnalysis.Dataflow.Growth
import ConAnalysis.Dataflow.History
import ConAnalysis.Dataflow.Memo

/-! What the entries of `funcEnterExitValMap_` say about the past of a replay, and hence which
calls are jumped over. -/
namespace ConAnalysis
open IR CallSweep

namespace Env
variable {env : Env}

/-- At the point an analysis of `g` is asked for. -/
def Enters (env : Env) (p : Point) (g : FuncRef) : Prop :=
  ∃ item items callee l s, p.items = item :: items ∧
    env.visit p.call item p.locals p.state = .ok (.enter callee l s) ∧ callee.func = g

/-- What is done at the point corrupts nothing, callees included. -/
def FindsNothing (env : Env) (p : Point) : Prop :=
  ∀ q, env.analyzer.Handles p q → q.state.corruptedIR = p.state.corruptedIR

/-- An entry of a function that is not being analysed. Equal sizes mean that no analysis has
found anything, and then the size is that of the last one. -/
structure MemoRecorded (env : Env) (past : Set Point) (g : FuncRef) (funcVal : EnterExitVal) : Prop where
  quiet : funcVal.enterVal = funcVal.exitVal →
    (∀ q ∈ past, Enters env q g → FindsNothing env q) ∧
      ∃ q ∈ past, Enters env q g ∧ q.state.corruptedIR.card = funcVal.enterVal ∧
        ∀ q' ∈ past, Enters env q' g → q'.state.corruptedIR ⊆ q.state.corruptedIR
  found : funcVal.enterVal ≠ funcVal.exitVal → funcVal.enterVal < funcVal.exitVal ∧
    ∃ q ∈ past, Enters env q g ∧ ¬FindsNothing env q

/-- The table against the past. Frames with a null instruction are those of the callees that are
being analysed. -/
structure MemoLaw (env : Env) (past : Set Point) (s : State) : Prop where
  subset : ∀ q ∈ past, q.state.corruptedIR ⊆ s.corruptedIR
  none_iff : ∀ g, s.funcEnterExitValMap g = none ↔ ∀ q ∈ past, ¬Enters env q g
  bounded : ∀ g funcVal, s.funcEnterExitValMap g = some funcVal →
    funcVal.enterVal ≤ s.corruptedIR.card ∧ funcVal.exitVal ≤ s.corruptedIR.card
  recorded : ∀ g funcVal, s.funcEnterExitValMap g = some funcVal → (g, none) ∉ s.callStack →
    MemoRecorded env past g funcVal

section Entries
variable {past : Set Point} {s t : State}

/-- Steps that leave the table alone keep the law. -/
theorem MemoLaw.of_same (h : MemoLaw env past s)
    (hMemo : t.funcEnterExitValMap = s.funcEnterExitValMap)
    (hStack : ∀ g, (g, none) ∈ s.callStack → (g, none) ∈ t.callStack)
    (hSubset : s.corruptedIR ⊆ t.corruptedIR) : MemoLaw env past t where
  subset q hq := (h.subset q hq).trans hSubset
  none_iff g := by rw [hMemo, h.none_iff]
  bounded g funcVal hEntry := by
    rw [hMemo] at hEntry
    have hCard := Finset.card_le_card hSubset
    obtain ⟨hEnter, hExit⟩ := h.bounded g funcVal hEntry
    exact ⟨hEnter.trans hCard, hExit.trans hCard⟩
  recorded g funcVal hEntry hNot := by
    rw [hMemo] at hEntry
    exact h.recorded g funcVal hEntry fun hMem => hNot (hStack g hMem)

/-- Points at which the function is not entered do not matter. -/
theorem MemoRecorded.insert {g : FuncRef} {funcVal : EnterExitVal}
    (h : MemoRecorded env past g funcVal) {q : Point} (hNone : ¬Enters env q g) :
    MemoRecorded env (insert q past) g funcVal where
  quiet hEq := by
    obtain ⟨hAll, q', hq', hEnters, hCard, hLast⟩ := h.quiet hEq
    refine ⟨Set.forall_mem_insert.mpr ⟨fun hIs => absurd hIs hNone, hAll⟩,
      q', .inr hq', hEnters, hCard, ?_⟩
    exact Set.forall_mem_insert.mpr ⟨fun hIs => absurd hIs hNone, hLast⟩
  found hNe := by
    obtain ⟨hLt, q', hq', hFound⟩ := h.found hNe
    exact ⟨hLt, q', .inr hq', hFound⟩

/-- Points that enter nothing do not count for the table. -/
theorem MemoLaw.insert_of_not_enters (h : MemoLaw env past s) {q : Point}
    (hNone : ∀ g, ¬Enters env q g) (hSubset : q.state.corruptedIR ⊆ s.corruptedIR) :
    MemoLaw env (insert q past) s where
  subset := Set.forall_mem_insert.mpr ⟨hSubset, h.subset⟩
  none_iff g := by
    rw [h.none_iff, Set.forall_mem_insert]
    exact (and_iff_right (hNone g)).symm
  bounded := h.bounded
  recorded g funcVal hEntry hNot := (h.recorded g funcVal hEntry hNot).insert (hNone g)

/-- Below the bound the counters of the table are the sizes themselves. -/
theorem toUInt32_of_lt {n : Nat} (h : n < 2 ^ 32) : toUInt32 n = n := Nat.mod_eq_of_lt h

/-- The question about one callee writes no entry of another. -/
theorem checkMemo_of_ne {callee g : FuncRef} (h : g ≠ callee) (s : State) :
    (env.checkMemo callee s).2.funcEnterExitValMap g = s.funcEnterExitValMap g := by
  unfold checkMemo
  split
  · simp [Function.update_of_ne h]
  · split
    · split
      · simp [Function.update_of_ne h]
      · rfl
    · rfl

/-- The size at which a callee is entered is filed, unless it has found something before. -/
theorem MemoLaw.checkMemo (h : MemoLaw env past s) {g : FuncRef} (hNot : (g, none) ∉ s.callStack)
    (hSize : s.corruptedIR.card < 2 ^ 32) : ∃ funcVal,
    (env.checkMemo g s).2.funcEnterExitValMap g = some funcVal ∧
      funcVal.exitVal ≤ s.corruptedIR.card ∧
      (funcVal.enterVal = s.corruptedIR.card ∧
          (∀ q ∈ past, Enters env q g → FindsNothing env q) ∨
        funcVal.enterVal < funcVal.exitVal ∧ ∃ q ∈ past, Enters env q g ∧ ¬FindsNothing env q) := by
  unfold Env.checkMemo
  cases hEntry : s.funcEnterExitValMap g with
  | none =>
      refine ⟨⟨s.corruptedIR.card, 0⟩, by simp [hEntry, toUInt32_of_lt hSize], Nat.zero_le _, .inl ⟨rfl, ?_⟩⟩
      exact fun q hq hEnters => absurd hEnters ((h.none_iff g).mp hEntry q hq)
  | some funcVal =>
      obtain ⟨hEnterLe, hExitLe⟩ := h.bounded g funcVal hEntry
      have hRecorded := h.recorded g funcVal hEntry hNot
      dsimp only
      split
      · next hEq =>
          obtain ⟨hAll, -⟩ := hRecorded.quiet hEq
          split
          · refine ⟨⟨s.corruptedIR.card, funcVal.exitVal⟩, ?_, hExitLe, .inl ⟨rfl, hAll⟩⟩
            simp [hEntry, toUInt32_of_lt hSize]
          · next hNotLt =>
              exact ⟨funcVal, hEntry, hExitLe,
                .inl ⟨Nat.le_antisymm hEnterLe (Nat.le_of_not_lt hNotLt), hAll⟩⟩
      · next hNe => exact ⟨funcVal, hEntry, hExitLe, .inr (hRecorded.found hNe)⟩

/-- A function without analyses in progress is jumped over when it has been analysed with the same
corrupted values, and has never found anything. -/
theorem MemoLaw.skips_iff (h : MemoLaw env past s) (memoSkip : env.memoSkip = true) {g : FuncRef}
    (hNot : (g, none) ∉ s.callStack) : (env.checkMemo g s).1 = true ↔
      (∃ q ∈ past, Enters env q g ∧ q.state.corruptedIR = s.corruptedIR) ∧
        ∀ q ∈ past, Enters env q g → FindsNothing env q := by
  unfold Env.checkMemo
  cases hEntry : s.funcEnterExitValMap g with
  | none =>
      constructor
      · rintro ⟨⟩
      · rintro ⟨⟨q, hq, hEnters, -⟩, -⟩
        exact absurd hEnters ((h.none_iff g).mp hEntry q hq)
  | some funcVal =>
      have hRecorded := h.recorded g funcVal hEntry hNot
      by_cases hEq : funcVal.enterVal = funcVal.exitVal
      · obtain ⟨hAll, last, hLastMem, hLastEnters, hCard, hLast⟩ := hRecorded.quiet hEq
        have hSkip : funcVal.enterVal = s.corruptedIR.card ↔
            ∃ q ∈ past, Enters env q g ∧ q.state.corruptedIR = s.corruptedIR := by
          constructor
          · intro hSame
            refine ⟨last, hLastMem, hLastEnters, ?_⟩
            exact Finset.eq_of_subset_of_card_le (h.subset last hLastMem)
              (hCard.trans hSame).ge
          · rintro ⟨q, hq, hEnters, hSet⟩
            have hUpper := Finset.card_le_card (h.subset last hLastMem)
            have hLower := Finset.card_le_card (hLast q hq hEnters)
            rw [hSet] at hLower
            omega
        rw [← hSkip, and_iff_left hAll]
        dsimp only
        rw [if_pos hEq]
        split
        · next hLt => simp [hLt.ne]
        · simp [memoSkip]
      · obtain ⟨-, q, hq, hEnters, hFound⟩ := hRecorded.found hEq
        dsimp only
        rw [if_neg hEq]
        constructor
        · rintro ⟨⟩
        · rintro ⟨-, hAll⟩
          exact absurd (hAll q hq hEnters) hFound

end Entries

section Steps
variable {call callee : Call} {item : InstRef × Instruction} {l l' : Locals} {s s' s'' : State}

/-- Only calls write the table. -/
theorem Effect.funcEnterExitValMap (h : Effect env item l s l' s') :
    s'.funcEnterExitValMap = s.funcEnterExitValMap := by
  cases h <;> simp

theorem Seed.funcEnterExitValMap {f : FuncRef} {ins : Option InstRef} {rv : Bool}
    {items : List (InstRef × Instruction)} (h : Seed env f s ins rv items s') :
    s'.funcEnterExitValMap = s.funcEnterExitValMap := by
  cases h <;> simp

theorem handleParams_funcEnterExitValMap {f : FuncRef} {corruptedparams : CorruptedArgs}
    {atEnd : Bool} {ks : List Nat} (h : handleParams f corruptedparams atEnd ks s = some s') :
    s'.funcEnterExitValMap = s.funcEnterExitValMap := by
  refine handleParams_rel (R := fun s s' : State =>
    s'.funcEnterExitValMap = s.funcEnterExitValMap) (fun _ => rfl) (fun h₁ h₂ => h₂.trans h₁) ?_ h
  intro k _ actual _ t
  unfold bindArg State.copyGepIdx
  grind [State.add2CrptList_funcEnterExitValMap]

/-- Neither the seed nor the parameters touch the table. -/
theorem start_funcEnterExitValMap {items : List (InstRef × Instruction)}
    (h : env.start call s = .ok (.body items l s')) :
    s'.funcEnterExitValMap = s.funcEnterExitValMap ∧ s'.callStack = s.callStack := by
  obtain ⟨s₁, hSeed, -, hParams⟩ := start_body h
  exact ⟨(handleParams_funcEnterExitValMap hParams).trans hSeed.funcEnterExitValMap,
    (handleParams_callStack hParams).trans hSeed.callStack⟩

/-- A declaration returns at once, with the table and the stack as they were. -/
theorem start_returned_funcEnterExitValMap {rv : Bool}
    (h : env.start call s = .ok (.returned rv s')) :
    s'.funcEnterExitValMap = s.funcEnterExitValMap ∧ s'.callStack = s.callStack := by
  obtain ⟨-, rv', hSeed⟩ := start_returned h
  exact ⟨hSeed.funcEnterExitValMap, hSeed.callStack⟩

/-- When a callee is entered, the table is as the look-up has left it. -/
theorem EntersCallee.funcEnterExitValMap (h : EntersCallee env call item l s callee l' s') :
    s'.funcEnterExitValMap =
      (env.checkMemo callee.func (env.checkedState call item l s)).2.funcEnterExitValMap := by
  rw [h.state_eq]
  cases callee.ctrlDep <;> rfl

/-- A function that is being analysed is not entered again. -/
theorem EntersCallee.not_mem (h : EntersCallee env call item l s callee l' s') :
    (callee.func, none) ∉ s.callStack := fun hMem => h.func_ne hMem rfl rfl

/-- Coming back, the size reached is filed as that of the exit. -/
theorem leave_funcEnterExitValMap (rv : Bool) : (leave callee item rv s).funcEnterExitValMap =
    Function.update s.funcEnterExitValMap callee.func
      (some { (s.funcEnterExitValMap callee.func).getD ⟨0, 0⟩ with
        exitVal := toUInt32 (leave callee item rv s).corruptedIR.card }) := by
  cases rv <;> simp [leave]

theorem leave_callStack (rv : Bool) :
    (leave callee item rv s).callStack = s.callStack.tail := by
  cases rv <;> simp [leave]

/-- As long as a function is on the call stack its entry does not change. -/
theorem analyzer_keepsEntry (g : FuncRef) :
    env.analyzer.RespectsUnder (fun _ _ => True) State.callStack
      (fun _ stack => (g, none) ∈ stack)
      (fun s t => t.funcEnterExitValMap g = s.funcEnterExitValMap g) where
  refl _ := rfl
  trans h₁ h₂ := h₂.trans h₁
  safe hSafe visited := by
    rw [(visit_enter visited).state_eq]
    simp [checkedState, hSafe]
  done _ _ visited := by
    rw [(visit_done visited).funcEnterExitValMap]
    simp [checkedState]
  returned _ hSafe visited started := by
    have hEnter := visit_enter visited
    rw [(start_returned_funcEnterExitValMap started).1, hEnter.funcEnterExitValMap,
      checkMemo_of_ne (hEnter.func_ne hSafe rfl)]
    simp [checkedState]
  body _ hSafe visited started := by
    have hEnter := visit_enter visited
    rw [(start_funcEnterExitValMap started).1, hEnter.funcEnterExitValMap,
      checkMemo_of_ne (hEnter.func_ne hSafe rfl)]
    simp [checkedState]
  leave result s'' _ hSafe visited := by
    have hNe := (visit_enter visited).func_ne hSafe rfl
    cases result <;> simp [analyzer, Env.leave, Function.update_of_ne hNe]

/-- The analysis of a callee leaves the entry of the callee itself alone. -/
theorem runs_keepsEntry {rv : Bool} (h : EntersCallee env call item l s callee l' s')
    (analysed : env.analyzer.Runs callee s' rv s'') :
    s''.funcEnterExitValMap callee.func = s'.funcEnterExitValMap callee.func := by
  refine analyzer_balanced.runs_under (fun _ _ _ => trivial) (analyzer_keepsEntry callee.func)
    ?_ ?_ ?_ analysed
  · intro rv' t started
    rw [(start_returned_funcEnterExitValMap started).1]
  · intro items lb t started
    rw [(start_funcEnterExitValMap started).1]
  · rw [h.state_eq]
    simp

/-- Nowhere in its analysis a callee is entered once more. -/
theorem not_enters_of_visited (h : EntersCallee env call item l s callee l' s') {q : Point}
    (hq : q ∈ env.analyzer.visited callee s') : ¬Enters env q callee.func := by
  rintro ⟨item', items', callee', l₁, t, -, visited', hFunc⟩
  obtain ⟨⟨body, lb, t', started, hReach⟩, -⟩ := hq
  have hStack : (callee.func, none) ∈ t'.callStack := by
    rw [(start_funcEnterExitValMap started).2, h.state_eq]
    simp
  have hSafe := (analyzer_balanced.reaches_under (fun _ _ _ => trivial)
    (analyzer_keepsEntry callee.func) (fun _ _ => trivial) hStack hReach).2
  exact (visit_enter visited').func_ne hSafe rfl hFunc.symm

end Steps

section Law
variable {past : Set Point} {call callee : Call} {item : InstRef × Instruction}
variable {items : List (InstRef × Instruction)} {l l' : Locals} {s s' s'' t : State}

/-- At a point one function at most is entered. -/
theorem enters_iff (visited : env.visit call item l s = .ok (.enter callee l' s')) {g : FuncRef} :
    Enters env ⟨call, item :: items, l, s⟩ g ↔ g = callee.func := by
  constructor
  · rintro ⟨_, _, callee', _, _, hItems, visited', rfl⟩
    cases hItems
    cases visited.symm.trans visited'
    rfl
  · rintro rfl
    exact ⟨item, items, callee, l', s', rfl, visited, rfl⟩

theorem not_enters_of_done (visited : env.visit call item l s = .ok (.done l' s')) (g : FuncRef) :
    ¬Enters env ⟨call, item :: items, l, s⟩ g := by
  rintro ⟨_, _, callee', _, _, hItems, visited', -⟩
  cases hItems
  cases visited.symm.trans visited'

/-- Whether a call has found anything can be seen when it is left. -/
theorem findsNothing_iff {rv : Bool}
    (visited : env.visit call item l s = .ok (.enter callee l' s'))
    (analysed : env.analyzer.Runs callee s' rv s'') :
    FindsNothing env ⟨call, item :: items, l, s⟩ ↔
      (leave callee item rv s'').corruptedIR = s.corruptedIR := by
  constructor
  · intro h
    exact h _ (.called visited analysed)
  · intro h q hHandles
    cases hHandles with
    | done visited' => cases visited.symm.trans visited'
    | called visited' analysed' =>
        cases visited.symm.trans visited'
        obtain ⟨rfl, rfl⟩ := analysed.deterministic analysed'
        exact h

/-- What is known of the entry of a callee while it is being analysed. -/
theorem MemoLaw.entry_of_enter (h : MemoLaw env past s) (hSize : s.corruptedIR.card < 2 ^ 32)
    (hEnter : EntersCallee env call item l s callee l' s') : ∃ funcVal,
    s'.funcEnterExitValMap callee.func = some funcVal ∧ funcVal.exitVal ≤ s.corruptedIR.card ∧
      (funcVal.enterVal = s.corruptedIR.card ∧
          (∀ q ∈ past, Enters env q callee.func → FindsNothing env q) ∨
        funcVal.enterVal < funcVal.exitVal ∧
          ∃ q ∈ past, Enters env q callee.func ∧ ¬FindsNothing env q) := by
  have hChecked : MemoLaw env past (env.checkedState call item l s) :=
    h.of_same (by simp [checkedState]) (by simp [checkedState]) (by simp [checkedState])
  rw [hEnter.funcEnterExitValMap]
  have hEntry := hChecked.checkMemo (by simpa [checkedState] using hEnter.not_mem)
    (by simpa [checkedState] using hSize)
  simpa [checkedState] using hEntry

/-- The callee is on the stack from here on, so that nothing is asked of its entry until it is
left. -/
theorem MemoLaw.enter (h : MemoLaw env past s) (hSize : s.corruptedIR.card < 2 ^ 32)
    (visited : env.visit call item l s = .ok (.enter callee l' s'))
    (hMemo : t.funcEnterExitValMap = s'.funcEnterExitValMap) (hStack : t.callStack = s'.callStack)
    (hSubset : s.corruptedIR ⊆ t.corruptedIR) :
    MemoLaw env (insert ⟨call, item :: items, l, s⟩ past) t := by
  have hEnter := visit_enter visited
  obtain ⟨funcVal, hEntry, hExit, hCases⟩ := h.entry_of_enter hSize hEnter
  have hCard := Finset.card_le_card hSubset
  have hOther : ∀ g, g ≠ callee.func → t.funcEnterExitValMap g = s.funcEnterExitValMap g := by
    intro g hNe
    rw [hMemo, hEnter.funcEnterExitValMap, checkMemo_of_ne hNe]
    simp [checkedState]
  have hOwn : (callee.func, none) ∈ t.callStack := by
    rw [hStack, hEnter.state_eq]
    simp
  constructor
  · exact Set.forall_mem_insert.mpr ⟨hSubset, fun q hq => (h.subset q hq).trans hSubset⟩
  · intro g
    rw [Set.forall_mem_insert, enters_iff visited]
    by_cases hFunc : g = callee.func
    · subst hFunc
      rw [hMemo, hEntry]
      simp
    · rw [hOther g hFunc, h.none_iff, and_iff_right hFunc]
  · intro g funcVal' hEntry'
    by_cases hFunc : g = callee.func
    · subst hFunc
      rw [hMemo, hEntry] at hEntry'
      cases hEntry'
      rcases hCases with ⟨hEq, -⟩ | ⟨hLt, -⟩ <;> omega
    · rw [hOther g hFunc] at hEntry'
      have hBounded := h.bounded g funcVal' hEntry'
      omega
  · intro g funcVal' hEntry' hNot
    have hFunc : g ≠ callee.func := by
      rintro rfl
      exact hNot hOwn
    rw [hOther g hFunc] at hEntry'
    refine (h.recorded g funcVal' hEntry' fun hMem => hNot ?_).insert
      fun hIs => hFunc ((enters_iff visited).mp hIs)
    rw [hStack, hEnter.state_eq]
    simp [checkedState, hMem]

/-- The return from a callee completes its entry. -/
theorem MemoLaw.leave {rv : Bool} (h : MemoLaw env past s)
    (visited : env.visit call item l s = .ok (.enter callee l' s'))
    (analysed : env.analyzer.Runs callee s' rv s'')
    (hCallee : MemoLaw env (past ∪ env.analyzer.passed ⟨call, item :: items, l, s⟩) s'')
    (hSize : (Env.leave callee item rv s'').corruptedIR.card < 2 ^ 32) :
    MemoLaw env (past ∪ env.analyzer.passed ⟨call, item :: items, l, s⟩)
      (Env.leave callee item rv s'') := by
  have hEnter := visit_enter visited
  have hBefore : s.corruptedIR ⊆ s''.corruptedIR := by
    have hRun := (runs_extends analysed).subset
    rw [hEnter.state_eq] at hRun
    simpa [checkedState] using hRun
  have hLeave : s''.corruptedIR ⊆ (Env.leave callee item rv s'').corruptedIR :=
    (leave_extends ..).subset
  have hCardBefore := Finset.card_le_card hBefore
  have hCardLeave := Finset.card_le_card hLeave
  obtain ⟨funcVal, hEntry, hExit, hCases⟩ := h.entry_of_enter (by omega) hEnter
  rw [← runs_keepsEntry hEnter analysed] at hEntry
  have hStack : s''.callStack = (callee.func, none) :: s.callStack := by
    rw [analyzer_balanced.runs analysed, hEnter.state_eq]
    simp [checkedState]
  have hPassed : env.analyzer.passed ⟨call, item :: items, l, s⟩ =
      insert ⟨call, item :: items, l, s⟩ (env.analyzer.visited callee s') :=
    Analyzer.passed_of_enter visited
  have hOwn : Enters env ⟨call, item :: items, l, s⟩ callee.func := (enters_iff visited).mpr rfl
  have hMem : (⟨call, item :: items, l, s⟩ : Point) ∈
      past ∪ env.analyzer.passed ⟨call, item :: items, l, s⟩ :=
    .inr (hPassed ▸ Set.mem_insert ..)
  have hAll : ∀ q ∈ past ∪ env.analyzer.passed ⟨call, item :: items, l, s⟩,
      Enters env q callee.func → q ∈ past ∨ q = ⟨call, item :: items, l, s⟩ := by
    intro q hq hIs
    rcases hq with hq | hq
    · exact .inl hq
    · rw [hPassed] at hq
      exact hq.elim .inr fun hq => absurd hIs (not_enters_of_visited hEnter hq)
  have hMemo : (Env.leave callee item rv s'').funcEnterExitValMap =
      Function.update s''.funcEnterExitValMap callee.func
        (some ⟨funcVal.enterVal, (Env.leave callee item rv s'').corruptedIR.card⟩) := by
    rw [leave_funcEnterExitValMap, hEntry, toUInt32_of_lt hSize]
    rfl
  constructor
  · exact fun q hq => (hCallee.subset q hq).trans hLeave
  · intro g
    by_cases hFunc : g = callee.func
    · subst hFunc
      rw [hMemo, Function.update_self]
      simp only [reduceCtorEq, false_iff, not_forall, not_not]
      exact ⟨_, hMem, hOwn⟩
    · rw [hMemo, Function.update_of_ne hFunc]
      exact hCallee.none_iff g
  · intro g funcVal' hEntry'
    by_cases hFunc : g = callee.func
    · subst hFunc
      rw [hMemo, Function.update_self] at hEntry'
      cases hEntry'
      rcases hCases with ⟨hEq, -⟩ | ⟨hLt, -⟩ <;> dsimp only <;> omega
    · rw [hMemo, Function.update_of_ne hFunc] at hEntry'
      have hBounded := hCallee.bounded g funcVal' hEntry'
      omega
  · intro g funcVal' hEntry' hNot
    by_cases hFunc : g = callee.func
    · subst hFunc
      rw [hMemo, Function.update_self] at hEntry'
      cases hEntry'
      rcases hCases with ⟨hEq, hQuiet⟩ | ⟨hLt, q, hq, hFound⟩
      · constructor
        · intro hSame
          have hSet : (Env.leave callee item rv s'').corruptedIR = s.corruptedIR :=
            (Finset.eq_of_subset_of_card_le (hBefore.trans hLeave)
              (hSame.symm.trans hEq).le).symm
          have hNothing : FindsNothing env ⟨call, item :: items, l, s⟩ :=
            (findsNothing_iff visited analysed).mpr hSet
          refine ⟨fun q hq hIs => ?_, _, hMem, hOwn, hEq.symm, fun q hq hIs => ?_⟩
          · exact (hAll q hq hIs).elim (fun hq => hQuiet q hq hIs) fun hq => hq ▸ hNothing
          · exact (hAll q hq hIs).elim (h.subset q) fun hq => hq ▸ Finset.Subset.refl _
        · intro hNe
          refine ⟨Nat.lt_of_le_of_ne (by dsimp only; omega) hNe, _, hMem, hOwn, fun hNothing => hNe ?_⟩
          rw [(findsNothing_iff visited analysed).mp hNothing]
          exact hEq
      · have hLess : funcVal.enterVal < (Env.leave callee item rv s'').corruptedIR.card := by omega
        exact ⟨fun hSame => absurd hSame hLess.ne, fun _ => ⟨hLess, q, .inl hq, hFound⟩⟩
    · rw [hMemo, Function.update_of_ne hFunc] at hEntry'
      refine hCallee.recorded g funcVal' hEntry' fun hIn => hNot ?_
      rw [hStack] at hIn
      have hTail : (g, none) ∈ s.callStack :=
        (List.mem_cons.mp hIn).resolve_left fun hEq => hFunc (congrArg Prod.fst hEq)
      rwa [leave_callStack, hStack, List.tail_cons]

/-- The law, as long as the sizes fit into 32 bits. -/
def SizedLaw (env : Env) (past : Set Point) (s : State) : Prop :=
  s.corruptedIR.card < 2 ^ 32 → MemoLaw env past s

/-- Step rule over a whole call. The law is kept as long as the size fits the counters. -/
theorem analyzer_memoLaw : env.analyzer.Annals (fun _ _ => True) (SizedLaw env) where
  done {past call item items l s l' s'} _ h visited hSize := by
    have hEffect := visit_done visited
    have hSubset : s.corruptedIR ⊆ s'.corruptedIR := by
      simpa [checkedState] using hEffect.extends.subset
    have hLaw : MemoLaw env past s' := by
      refine (h ((Finset.card_le_card hSubset).trans_lt hSize)).of_same ?_ ?_ hSubset
      · rw [hEffect.funcEnterExitValMap]
        simp [checkedState]
      · rw [analyzer_balanced.done visited]
        exact fun _ => id
    exact hLaw.insert_of_not_enters (not_enters_of_done visited) hSubset
  returned {past call item items l s callee l' s' rv s''} _ h visited started hSize := by
    have hSubset : s.corruptedIR ⊆ s''.corruptedIR := by
      have hRun := (runs_extends (.returned started)).subset
      rw [(visit_enter visited).state_eq] at hRun
      simpa [checkedState] using hRun
    have hSame := start_returned_funcEnterExitValMap started
    have hBefore := (Finset.card_le_card hSubset).trans_lt hSize
    exact (h hBefore).enter hBefore visited hSame.1 hSame.2 hSubset
  body {past call item items l s callee l' s' body lb s''} _ h visited started hSize := by
    have hSubset : s.corruptedIR ⊆ s''.corruptedIR := by
      have hStart := ((analyzer_extends fun _ _ => True).body started).subset
      rw [(visit_enter visited).state_eq] at hStart
      simpa [checkedState] using hStart
    have hSame := start_funcEnterExitValMap started
    have hBefore := (Finset.card_le_card hSubset).trans_lt hSize
    exact (h hBefore).enter hBefore visited hSame.1 hSame.2 hSubset
  leave {past call item items l s callee l' s' rv s''} _ h visited analysed hCallee hSize := by
    have hLeave : s''.corruptedIR ⊆ (Env.leave callee item rv s'').corruptedIR :=
      (leave_extends ..).subset
    have hInner := (Finset.card_le_card hLeave).trans_lt hSize
    have hBefore : s.corruptedIR ⊆ s''.corruptedIR := by
      have hRun := (runs_extends analysed).subset
      rw [(visit_enter visited).state_eq] at hRun
      simpa [checkedState] using hRun
    have hOuter := (Finset.card_le_card hBefore).trans_lt hInner
    exact (h hOuter).leave visited analysed (hCallee hInner) hSize

/-- Steps that leave the table alone keep the law under the bound as well. -/
theorem SizedLaw.of_same (h : SizedLaw env past s)
    (hMemo : t.funcEnterExitValMap = s.funcEnterExitValMap)
    (hStack : ∀ g, (g, none) ∈ s.callStack → (g, none) ∈ t.callStack)
    (hSubset : s.corruptedIR ⊆ t.corruptedIR) : SizedLaw env past t := fun hSize =>
  (h ((Finset.card_le_card hSubset).trans_lt hSize)).of_same hMemo hStack hSubset

/-- The start of a call reads and writes nothing of the table. -/
theorem SizedLaw.start (h : SizedLaw env past s)
    (started : env.start call s = .ok (.body items l t)) : SizedLaw env past t := by
  obtain ⟨hMemo, hStack⟩ := start_funcEnterExitValMap started
  exact h.of_same hMemo (fun g => by rw [hStack]; exact id)
    ((analyzer_extends fun _ _ => True).body started).subset

theorem SizedLaw.resume (h : SizedLaw env past s) (addFuncRet : Bool) :
    SizedLaw env past (resumeCaller addFuncRet s) := by
  unfold resumeCaller
  split
  · exact h.of_same (by simp) (by simp) (by simp)
  · exact h

end Law

section Replay
variable {layers : List FuncInst} {s₀ : State}

/-- The layers of a replay are no callees: popping one does not end an analysis that is
recorded. -/
theorem ReplayPath.memoLaw (hStack : s₀.callStack = layers) (hIns : ∀ loc ∈ layers, loc.2 ≠ none)
    (h₀ : SizedLaw env ∅ s₀) {past : Set Point} {c : List FuncInst × State}
    (h : ReplayPath env layers s₀ past c) : SizedLaw env past c.2 ∧ c.2.callStack = c.1 := by
  induction h with
  | refl => exact ⟨h₀, hStack⟩
  | @frame loc below past s s' addFuncRet prior analysed ih =>
      obtain ⟨hLaw, hLayers⟩ := ih
      have hLoc : loc.2 ≠ none := hIns loc (prior.layers_suffix.subset List.mem_cons_self)
      have hAfter : s'.callStack = loc :: below :=
        (intraDataflowAnalysis_callStack analysed).trans hLayers
      have hFrame : SizedLaw env (past ∪ env.analyzer.visited (frameCall loc) s) s' := by
        cases env.analyzer.runs_of_run analysed with
        | returned started => exact absurd started (env.start_frameCall_ne_returned loc s _ _)
        | swept started swept =>
            rw [Analyzer.visited_of_body started]
            exact analyzer_memoLaw.sweeps (fun _ _ _ => trivial) _ (fun _ _ => trivial)
              (hLaw.start started) swept
      have hPop : SizedLaw env (past ∪ env.analyzer.visited (frameCall loc) s) s'.popFrame := by
        refine hFrame.of_same rfl (fun g hMem => ?_) (Finset.Subset.refl _)
        rw [hAfter] at hMem
        rw [State.popFrame, hAfter]
        refine (List.mem_cons.mp hMem).resolve_left fun hEq => hLoc ?_
        rw [← hEq]
      refine ⟨hPop.resume addFuncRet, ?_⟩
      rw [resumeCaller_callStack, State.popFrame, hAfter, List.tail_cons]

/-- Run lemma: the law holds at every point of a replay that starts with it. -/
theorem ReplayPoint.memoLaw (hStack : s₀.callStack = layers) (hIns : ∀ loc ∈ layers, loc.2 ≠ none)
    (h₀ : SizedLaw env ∅ s₀) {chain : List Point} {past : Set Point} {p : Point}
    (h : ReplayPoint env layers s₀ chain past p) : SizedLaw env past p.state := by
  cases h with
  | sweep layer started path =>
      exact analyzer_memoLaw.path (fun _ _ _ => trivial) (fun _ _ => trivial)
        ((layer.memoLaw hStack hIns h₀).1.start started) path

/-- The table is emptied for a new head, and nothing has been entered yet. -/
theorem beginHead_memoLaw (body : List Site) (head : Site) (s : State) :
    SizedLaw env ∅ (beginHead body head s) := fun _ =>
  { subset := fun _ hq => hq.elim
    none_iff := fun _ => ⟨fun _ _ hq => hq.elim, fun _ => rfl⟩
    bounded := fun _ _ hEntry => nomatch hEntry
    recorded := fun _ _ hEntry _ => nomatch hEntry }

/-- A direct call that is followed unless the table says otherwise. -/
structure Followable (env : Env) (p : Point) (item : InstRef × Instruction) (g : FuncRef) :
    Prop where
  next : item ∈ p.items.head?
  isCall : item.2.opcode = .call
  direct : item.2.calledFunction = some g
  notIntrinsic : (env.func g).isIntrinsic = false
  notOnCallStack : env.onCallStack g p.state = false
  notExternal : ((env.func g).isDeclaration && paramsCorrupted item.2 p.state) = false

/-- A call that could be followed is entered exactly if the look-up does not skip it. -/
theorem Followable.enters_iff {p : Point} {item : InstRef × Instruction} {g : FuncRef}
    (h : Followable env p item g) : Enters env p g ↔ (env.checkMemo g
      (env.checkedState p.call item p.locals p.state)).1 = false := by
  obtain ⟨items, hItems⟩ := List.head?_eq_some_iff.mp h.next
  constructor
  · rintro ⟨item', items', callee, l, s, hItems', visited, rfl⟩
    cases hItems.symm.trans hItems'
    exact (visit_enter visited).notSkipped
  · intro hMemo
    have hVisit : env.visit p.call item p.locals p.state = _ := visit_of_call h.isCall
    have hParams : paramsCorrupted item.2 (env.checkedState p.call item p.locals p.state) =
        paramsCorrupted item.2 p.state :=
      paramsCorrupted_congr (by simp [checkedState]) (by simp [checkedState])
    have hOnStack : env.onCallStack g (env.checkedState p.call item p.locals p.state) = false := by
      rw [← h.notOnCallStack]
      simp [onCallStack, checkedState]
    unfold visitCall at hVisit
    rw [h.direct] at hVisit
    simp only [h.notIntrinsic, hOnStack, hParams, h.notExternal, Bool.false_eq_true,
      if_false] at hVisit
    generalize env.checkMemo g (env.checkedState p.call item p.locals p.state) = looked at *
    obtain ⟨skip, s'⟩ := looked
    subst hMemo
    exact ⟨item, items, _, _, _, hItems, hVisit, rfl⟩

/-- In the replay of a head, a callee is jumped over exactly when an analysis of it was entered
before with the same corrupted values, and none of its analyses has found anything. -/
theorem not_enters_iff_seen_before (memoSkip : env.memoSkip = true) {body : List Site}
    {head : Site} {chain : List Point} {past : Set Point} {p : Point}
    (h : ReplayPoint env ((head :: body).map Site.layer) (beginHead body head s₀) chain past p)
    (hSize : p.state.corruptedIR.card < 2 ^ 32) {item : InstRef × Instruction} {g : FuncRef}
    (hFollow : Followable env p item g) : ¬Enters env p g ↔
      (∃ q ∈ past, Enters env q g ∧ q.state.corruptedIR = p.state.corruptedIR) ∧
        ∀ q ∈ past, Enters env q g → FindsNothing env q := by
  have hIns : ∀ loc ∈ (head :: body).map Site.layer, loc.2 ≠ none := by
    intro loc hLoc
    obtain ⟨site, -, rfl⟩ := List.mem_map.mp hLoc
    exact Option.some_ne_none _
  have hLaw := h.memoLaw rfl hIns (beginHead_memoLaw body head s₀) hSize
  have hChecked : MemoLaw env past (env.checkedState p.call item p.locals p.state) :=
    hLaw.of_same (by simp [checkedState]) (by simp [checkedState]) (by simp [checkedState])
  have hNot : (g, none) ∉ (env.checkedState p.call item p.locals p.state).callStack := by
    intro hMem
    have hOnStack := hFollow.notOnCallStack
    simp only [onCallStack, List.any_eq_false, decide_eq_true_eq] at hOnStack
    exact hOnStack (g, none) (by simpa [checkedState] using hMem) rfl
  rw [hFollow.enters_iff, Bool.not_eq_false, hChecked.skips_iff memoSkip hNot]
  simp [checkedState]

end Replay

/-- The second call of `g`, which does nothing but return. -/
theorem not_enters_iff_seen_before_settled : ∃ chain past p,
    ReplayPoint settledEnv ([(0, ⟨0, 0, 0⟩)].map Site.layer) (beginHead [] (0, ⟨0, 0, 0⟩) {})
      chain past p ∧
    ¬Enters settledEnv p 1 ∧
      (∃ q ∈ past, Enters settledEnv q 1 ∧ q.state.corruptedIR = p.state.corruptedIR) ∧
      ∀ q ∈ past, Enters settledEnv q 1 → FindsNothing settledEnv q := by
  obtain ⟨items, l, s₁, chain, past, p, started, hPath, hItem, hStack, hSize, hMemo⟩ :
      ∃ items l s₁ chain past p,
        settledEnv.analyzer.start (frameCall (0, some ⟨0, 0, 0⟩))
          (beginHead [] (0, ⟨0, 0, 0⟩) {}) = .ok (.body items l s₁) ∧
        settledEnv.analyzer.Path ⟨frameCall (0, some ⟨0, 0, 0⟩), items, l, s₁⟩ chain past p ∧
        p.items.head? = some (⟨0, 0, 2⟩, ⟨.call, [.function 1], none⟩) ∧
        settledEnv.onCallStack 1 p.state = false ∧ p.state.corruptedIR.card = 1 ∧
        (settledEnv.checkMemo 1 (settledEnv.checkedState p.call
          (⟨0, 0, 2⟩, ⟨.call, [.function 1], none⟩) p.locals p.state)).1 = true :=
    settledEnv.analyzer.exists_path_of_eval 3 [.handle, .handle] (by decide)
  have hFollow : Followable settledEnv p (⟨0, 0, 2⟩, ⟨.call, [.function 1], none⟩) 1 :=
    ⟨hItem, rfl, rfl, rfl, hStack, rfl⟩
  have hSkipped : ¬Enters settledEnv p 1 := by
    rw [hFollow.enters_iff, hMemo]
    simp
  have hPoint : ReplayPoint settledEnv ([(0, ⟨0, 0, 0⟩)].map Site.layer)
      (beginHead [] (0, ⟨0, 0, 0⟩) {}) chain (∅ ∪ past) p := .sweep .refl started hPath
  exact ⟨chain, _, p, hPoint, hSkipped,
    (not_enters_iff_seen_before rfl hPoint (by omega) hFollow).mp hSkipped⟩

end Env
end ConAnalysis
