import ConAnalysis.Dataflow.Agreement

/-! The look-up in `funcEnterExitValMap_` that jumps over a callee, against the
analysis without it. -/
namespace ConAnalysis
open IR CallSweep Exceptions

namespace Env
variable {env : Env}

/-- The same analysis with the jump taken out. -/
def withoutMemo (env : Env) : Env := { env with memoSkip := false }

/-- A direct call in the body of the first call's function that is followed,
if the state is the same at that point. The flag is passed on. -/
inductive Follows (env : Env) : Call × State → Call × State → Prop where
  | call {call : Call} {s : State} {item : InstRef × Instruction} {g : FuncRef}
      (hItem : item ∈ env.module.instructions call.func) (isCall : item.2.opcode = .call)
      (direct : item.2.calledFunction = some g) (notIntrinsic : (env.func g).isIntrinsic = false)
      (notOnCallStack : env.onCallStack g s = false)
      (notExternal : ((env.func g).isDeclaration && paramsCorrupted item.2 s) = false) :
      Follows env (call, s)
        ({ func := g, corruptedparams := coparams item.2 s, ctrlDep := call.ctrlDep },
          s.pushFrame (g, none))

/-- The state holds everything that the call could add to it in its own body. -/
structure Quiet (env : Env) (call : Call) (s : State) : Prop where
  bound : ∀ k < (env.func call.func).params, ∀ actual, call.corruptedparams k = some actual →
    (actual ∈ s.corruptedIR → .argument call.func k ∈ s.corruptedIR) ∧
      ∀ entries, s.corruptedPtr actual = some entries →
        s.corruptedPtr (.argument call.func k) = some entries
  external : ∀ item ∈ env.module.instructions call.func, item.2.opcode = .call →
    ∀ g, item.2.calledFunction = some g → (env.func g).isIntrinsic = false →
      env.onCallStack g s = false → (env.func g).isDeclaration = true →
      paramsCorrupted item.2 s = true → .instruction item.1 ∈ s.corruptedIR
  operand : ∀ item ∈ env.module.instructions call.func, item.2.opcode ≠ .call →
    ∀ v ∈ item.2.operands, v ∈ s.corruptedIR → .instruction item.1 ∈ s.corruptedIR
  record : ∀ item ∈ env.module.instructions call.func, item.2.opcode = .getElementPtr →
    ∀ base entries idx, item.2.operands[0]? = some base → s.corruptedPtr base = some entries →
      gepIdx item.2 = some idx → idx ∈ entries → .instruction item.1 ∈ s.corruptedIR
  dangerous : ∀ item ∈ env.module.instructions call.func, call.ctrlDep = true →
    ∀ loc, item.2.dbg = some loc →
      (loc.fileLine ∈ env.labels.danPtrOpsMap → loc.fileLine ∈ s.interCtrlDepPtr) ∧
        (loc.fileLine ∉ env.labels.danPtrOpsMap → loc.fileLine ∈ env.labels.danFuncOpsMap →
          loc.fileLine ∈ s.interCtrlDepFunc)

/-- Neither the call nor any call that is followed below it finds anything to
add to the state. -/
def Settled (env : Env) (call : Call) (s : State) : Prop :=
  ∀ c, Relation.ReflTransGen env.Follows (call, s) c → Quiet env c.1 c.2

/-- A settled call corrupts nothing at any instruction of its own. -/
theorem Settled.quiet {call : Call} {s : State} (h : Settled env call s) : Quiet env call s :=
  h _ .refl

theorem Settled.follow {call callee : Call} {s s' : State} (h : Settled env call s)
    (hFollow : env.Follows (call, s) (callee, s')) : Settled env callee s' :=
  fun c hReach => h c (.head hFollow hReach)

@[simp] theorem checkMemo_withoutMemo (callee : FuncRef) (s : State) :
    (env.withoutMemo.checkMemo callee s).1 = false := by
  unfold checkMemo
  split
  · rfl
  · split
    · split
      · rfl
      · simp [withoutMemo]
    · rfl

/-- A quiet call files nothing that has not been filed. -/
theorem Quiet.checkDangerousOp {call : Call} {s t : State} (h : Quiet env call s)
    (hAgrees : s.Agrees t) {item : InstRef × Instruction}
    (hItem : item ∈ env.module.instructions call.func) (within : Bool) :
    s.Agrees (env.checkDangerousOp call.ctrlDep within item.2 t) := by
  have hInsert : ∀ {m n : Finmap fun _ : FileLine => List InstRef} {a : FileLine}
      {b : List InstRef}, n.keys = m.keys → a ∈ m → (n.insert a b).keys = m.keys := by
    intro m n a b hKeys hMem
    ext x
    rw [Finmap.mem_keys, Finmap.mem_insert, ← Finmap.mem_keys, hKeys, Finmap.mem_keys]
    exact or_iff_right_of_imp fun hEq => hEq ▸ hMem
  unfold Env.checkDangerousOp
  split
  · exact hAgrees
  · next loc hLoc =>
      split
      · next hFlag =>
          obtain ⟨hPtr, hFunc⟩ := h.dangerous item hItem hFlag.1 loc hLoc
          simp only
          split
          · next hMem =>
              exact ⟨hAgrees.1, hAgrees.2, hAgrees.3, hAgrees.4, hAgrees.5,
                hInsert hAgrees.6 (hPtr hMem), hAgrees.7⟩
          · next hNotPtr =>
              split
              · next hMem =>
                  exact ⟨hAgrees.1, hAgrees.2, hAgrees.3, hAgrees.4, hAgrees.5, hAgrees.6,
                    hInsert hAgrees.7 (hFunc hNotPtr hMem)⟩
              · exact hAgrees
      · exact hAgrees

/-- Binding parameters that are bound already does nothing. -/
theorem Quiet.handleParams {call : Call} {s t : State} (h : Quiet env call s)
    (hAgrees : s.Agrees t) (atEnd : Bool) (hEnd : atEnd = true → ∀ k, call.corruptedparams k = none)
    {ks : List Nat} (hKs : ∀ k ∈ ks, k < (env.func call.func).params) :
    handleParams call.func call.corruptedparams atEnd ks t = some t := by
  induction ks with
  | nil => rfl
  | cons k ks ih =>
      rw [List.forall_mem_cons] at hKs
      unfold Env.handleParams
      split
      · exact ih hKs.2
      · next actual hActual =>
          split
          · next hAtEnd => simp [hEnd hAtEnd k] at hActual
          · obtain ⟨hMem, hEntries⟩ := h.bound k hKs.1 actual hActual
            have hSame : bindArg call.func k actual t = t :=
              bindArg_eq_self (by rwa [hAgrees.corruptedIR]) (by rwa [hAgrees.corruptedPtr])
            rw [hSame]
            exact ih hKs.2

/-- Local variables of a sweep that has found nothing so far. -/
def Locals.Idle (l : Locals) : Prop := l.rv = false ∧ l.localCorruptedBr = []

/-- Where no branch has been corrupted, nothing is under its control. -/
theorem checkedLocals_idle {call : Call} {item : InstRef × Instruction} {l : Locals}
    (h : Locals.Idle l) : Locals.Idle (env.checkedLocals call item l) ∧
      env.influenced call.func item.1 l = false := by
  refine ⟨⟨h.1, h.2⟩, ?_⟩
  simp [influenced, h.2]

/-- In a quiet call a further call is done without a trace or leads into its callee. A callee
that is only declared is passed nothing. -/
theorem Quiet.visitCall {call : Call} {s t : State} (h : Quiet env call s) (hAgrees : s.Agrees t)
    {item : InstRef × Instruction} (hItem : item ∈ env.module.instructions call.func)
    (isCall : item.2.opcode = .call) {l : Locals} (hWithin : l.ctrlDepWithinCurFunc = false) :
    (∃ t', env.withoutMemo.visitCall call item.1 item.2 l t = .done l t' ∧ s.Agrees t') ∨
      ∃ callee s' t', env.withoutMemo.visitCall call item.1 item.2 l t = .enter callee l t' ∧
        env.Follows (call, s) (callee, s') ∧ s'.Agrees t' ∧
        ((env.func callee.func).isDeclaration = true → ∀ k, callee.corruptedparams k = none) := by
  have hParams := paramsCorrupted_congr (i := item.2) hAgrees.corruptedIR hAgrees.corruptedPtr
  have hCoparams := coparams_congr (i := item.2) hAgrees.corruptedIR hAgrees.corruptedPtr
  unfold Env.visitCall
  cases direct : item.2.calledFunction with
  | none => exact .inl ⟨t, rfl, hAgrees⟩
  | some g =>
      have hStack : env.withoutMemo.onCallStack g t = env.onCallStack g s := by
        unfold onCallStack
        rw [hAgrees.callStack]
        rfl
      simp only [hStack, hParams, hCoparams]
      by_cases hIntrinsic : (env.func g).isIntrinsic = true
      · exact .inl ⟨t, if_pos hIntrinsic, hAgrees⟩
      · rw [if_neg (show ¬(env.withoutMemo.func g).isIntrinsic = true from hIntrinsic)]
        by_cases hOnStack : env.onCallStack g s = true
        · exact .inl ⟨t, if_pos hOnStack, hAgrees⟩
        · rw [if_neg hOnStack]
          rw [Bool.not_eq_true] at hIntrinsic hOnStack
          by_cases hExternal : ((env.func g).isDeclaration && paramsCorrupted item.2 s) = true
          · rw [if_pos (show ((env.withoutMemo.func g).isDeclaration && _) = true from hExternal)]
            rw [Bool.and_eq_true] at hExternal
            have hMem := h.external item hItem isCall g direct hIntrinsic hOnStack hExternal.1
              hExternal.2
            rw [State.add2CrptList_of_mem (by rwa [hAgrees.corruptedIR])]
            exact .inl ⟨t, rfl, hAgrees⟩
          · rw [if_neg (show ¬((env.withoutMemo.func g).isDeclaration && _) = true from hExternal)]
            rw [Bool.not_eq_true] at hExternal
            have hMemo : (env.withoutMemo.checkMemo g t).1 = false := checkMemo_withoutMemo g t
            generalize hLooked : env.withoutMemo.checkMemo g t = looked at hMemo
            have hMemoState : s.Agrees looked.2 :=
              hAgrees.trans (hLooked ▸ State.Agrees.checkMemo env.withoutMemo g t)
            obtain ⟨skip, t'⟩ := looked
            simp only at hMemo
            subst hMemo
            simp only [hWithin, Bool.or_false]
            refine .inr ⟨_, _, _, rfl,
              .call hItem isCall direct hIntrinsic hOnStack hExternal,
              (hMemoState.symm.enterCallee item.1 g call.ctrlDep).symm, ?_⟩
            intro declared
            exact coparams_eq_none (by simpa [declared] using hExternal)

/-- Without the jump, a visit in a quiet state changes nothing that is compared
and follows calls only. -/
theorem Quiet.visit {call : Call} {s t : State} (h : Quiet env call s) (hAgrees : s.Agrees t)
    {item : InstRef × Instruction} (hItem : item ∈ env.module.instructions call.func) {l : Locals}
    (hIdle : Locals.Idle l) : ∃ l', Locals.Idle l' ∧
      ((∃ t', env.withoutMemo.visit call item l t = .ok (.done l' t') ∧ s.Agrees t') ∨
        ∃ callee s' t', env.withoutMemo.visit call item l t = .ok (.enter callee l' t') ∧
          env.Follows (call, s) (callee, s') ∧ s'.Agrees t' ∧
          ((env.func callee.func).isDeclaration = true → ∀ k, callee.corruptedparams k = none)) := by
  have hIdle' : Locals.Idle (env.checkedLocals call item l) := (checkedLocals_idle hIdle).1
  have hWithin : env.influenced call.func item.1 l = false := (checkedLocals_idle hIdle).2
  refine ⟨env.checkedLocals call item l, hIdle', ?_⟩
  have hChecked : s.Agrees (env.withoutMemo.checkedState call item l t) :=
    h.checkDangerousOp hAgrees hItem _
  by_cases isCall : item.2.opcode = .call
  · rw [visit_of_call isCall]
    rcases h.visitCall hChecked hItem isCall (l := env.checkedLocals call item l) hWithin with
      ⟨t', hVisit, hDone⟩ | ⟨callee, s', t', hVisit, hRest⟩
    · exact .inl ⟨t', congrArg _ hVisit, hDone⟩
    · exact .inr ⟨callee, s', t', congrArg _ hVisit, hRest⟩
  · left
    have hClosed : ¬((∃ v ∈ item.2.operands, v ∈ s.corruptedIR) ∧
        .instruction item.1 ∉ s.corruptedIR) := by
      rintro ⟨⟨v, hv, hMem⟩, hNew⟩
      exact hNew (h.operand item hItem isCall v hv hMem)
    rw [← hChecked.corruptedIR] at hClosed
    by_cases isGep : item.2.opcode = .getElementPtr
    · have hSame : visitGetElementPtr item.1 item.2 (env.withoutMemo.checkedState call item l t) =
          .ok (env.withoutMemo.checkedState call item l t) := by
        unfold visitGetElementPtr
        cases hIdx : gepIdx item.2 with
        | none => simp only [if_neg hClosed]
        | some idx =>
            simp only
            split
            · next hRecord =>
                rw [hChecked.corruptedPtr] at hRecord
                cases hBase : item.2.operands[0]? with
                | none => simp [hBase] at hRecord
                | some base =>
                    cases hEntries : s.corruptedPtr base with
                    | none => simp [hBase, hEntries] at hRecord
                    | some entries =>
                        rw [hBase, Option.bind_some, hEntries, Option.getD_some] at hRecord
                        have hMem := h.record item hItem isGep base entries idx hBase hEntries hIdx
                          hRecord
                        rw [State.add2CrptList_of_mem (by rwa [hChecked.corruptedIR]),
                          if_neg hClosed]
            · rfl
      rw [visit_of_getElementPtr isGep, hSame]
      exact ⟨_, rfl, hChecked⟩
    · rw [visit_of_other isCall isGep]
      unfold visitOther
      rw [if_neg hClosed]
      exact ⟨_, rfl, hChecked⟩

/-- Without the jump, the analysis of a settled call ends and adds nothing. -/
theorem Settled.run {fuel : Nat} {call : Call} {s t : State} (h : Settled env call s)
    (hAgrees : s.Agrees t) (noStart : call.ins = none)
    (hBody : (env.func call.func).isDeclaration = true → ∀ k, call.corruptedparams k = none)
    (hFuel : (env.withoutMemo.enterable t.callStack).card < fuel) :
    ∃ t', env.withoutMemo.intraDataflowAnalysis fuel call t = .ok (false, t') ∧ s.Agrees t' := by
  induction fuel generalizing call s t with
  | zero => omega
  | succ fuel ih =>
      have hSweep : ∀ items l t, (∀ item ∈ items, item ∈ env.module.instructions call.func) →
          Locals.Idle l → s.Agrees t → (env.withoutMemo.enterable t.callStack).card ≤ fuel →
          ∃ l' t', env.withoutMemo.analyzer.sweep (env.withoutMemo.analyzer.run fuel) call items l t =
            .ok (l', t') ∧ l'.rv = false ∧ s.Agrees t' := by
        intro items
        induction items with
        | nil => exact fun l t _ hIdle hAgrees _ => ⟨l, t, rfl, hIdle.1, hAgrees⟩
        | cons item items ihItems =>
            intro l t hItems hIdle hAgrees hDepth
            rw [List.forall_mem_cons] at hItems
            unfold Analyzer.sweep
            obtain ⟨l₁, hIdle₁, ⟨t₁, hVisit, hDone⟩ | ⟨callee, s₁, t₁, hVisit, hFollow, hEnter, hNone⟩⟩ :=
              h.quiet.visit hAgrees hItems.1 hIdle
            · have hVisit : env.withoutMemo.analyzer.visit call item l t = .ok (.done l₁ t₁) := hVisit
              have hStack := analyzer_balanced.done hVisit
              simp only [hVisit]
              exact ihItems l₁ t₁ hItems.2 hIdle₁ hDone (by rwa [hStack])
            · have hVisit : env.withoutMemo.analyzer.visit call item l t = .ok (.enter callee l₁ t₁) :=
                hVisit
              have hLower := analyzer_balanced.enter hVisit
              obtain ⟨t₂, hRun, hSettled⟩ := ih (h.follow hFollow) hEnter
                (visit_enter hVisit).noStart hNone (by omega)
              have hBack : (leave callee item false t₂).callStack = t.callStack :=
                analyzer_balanced.leave hVisit (analyzer_balanced.runs
                  (env.withoutMemo.analyzer.runs_of_run hRun))
              have hLeft : s.Agrees (leave callee item false t₂) := by
                cases hFollow
                exact hSettled.leave_of_pushFrame _ item
              unfold intraDataflowAnalysis at hRun
              simp only [hVisit, hRun]
              exact ihItems l₁ _ hItems.2 hIdle₁ hLeft (by
                change (env.withoutMemo.enterable (leave callee item false t₂).callStack).card ≤ fuel
                rwa [hBack])
      have hStart : env.withoutMemo.start call t =
          .ok (.body (env.module.instructions call.func) {} t) := by
        have hSeed : env.withoutMemo.startAt call.func none t =
            .ok (false, env.module.instructions call.func, t) := rfl
        have hParams : Env.handleParams call.func call.corruptedparams
            (env.module.instructions call.func).isEmpty
            (List.range (env.withoutMemo.func call.func).params) t = some t :=
          h.quiet.handleParams hAgrees (env.module.instructions call.func).isEmpty
            (fun hEmpty => hBody (((env.func call.func).instructions_eq_nil_iff call.func).mp
              (List.isEmpty_iff.mp hEmpty)))
            (fun k (hk : k ∈ List.range (env.func call.func).params) => List.mem_range.mp hk)
        unfold start
        simp only [noStart, hSeed, hParams]
      obtain ⟨l', t', hSwept, hRv, hAgrees'⟩ := hSweep (env.module.instructions call.func) {} t
        (fun _ => id) ⟨rfl, rfl⟩ hAgrees (by omega)
      refine ⟨t', ?_, hAgrees'⟩
      unfold intraDataflowAnalysis Analyzer.run
      have hStart : env.withoutMemo.analyzer.start call t =
          .ok (.body (env.module.instructions call.func) {} t) := hStart
      simp only [hStart, hSwept]
      rw [← hRv]
      rfl

/-- A call that would be followed but for the look-up. -/
structure SkipsCallee (env : Env) (call : Call) (item : InstRef × Instruction) (l : Locals)
    (s : State) (callee : Call) : Prop where
  isCall : item.2.opcode = .call
  direct : item.2.calledFunction = some callee.func
  notIntrinsic : (env.func callee.func).isIntrinsic = false
  notOnCallStack : env.onCallStack callee.func s = false
  notExternal : ((env.func callee.func).isDeclaration && paramsCorrupted item.2 s) = false
  skipped : (env.checkMemo callee.func (env.checkedState call item l s)).1 = true
  params : callee.corruptedparams = coparams item.2 s
  flag : callee.ctrlDep = (call.ctrlDep || env.influenced call.func item.1 l)
  noStart : callee.ins = none

/-- If the next item is a call that is jumped over, its analysis with its own
arguments and its own flag would find nothing to add. -/
def SkipsSettled (env : Env) (p : Point) : Prop :=
  ∀ item ∈ p.items.head?, ∀ callee, SkipsCallee env p.call item p.locals p.state callee →
    Settled env callee
      ((env.checkedState p.call item p.locals p.state).pushFrame (callee.func, none))

/-- The analysis of a call that is jumped over, from a state like the present. -/
theorem SkipsCallee.run {call callee : Call} {item : InstRef × Instruction} {l : Locals}
    {s t : State} (h : SkipsCallee env call item l s callee)
    (hSettled : Settled env callee
      ((env.checkedState call item l s).pushFrame (callee.func, none)))
    (hAgrees : ((env.checkedState call item l s).pushFrame (callee.func, none)).Agrees t)
    {fuel : Nat} (hFuel : (env.withoutMemo.enterable t.callStack).card < fuel) :
    ∃ t', env.withoutMemo.intraDataflowAnalysis fuel callee t = .ok (false, t') ∧
      ((env.checkedState call item l s).pushFrame (callee.func, none)).Agrees t' := by
  refine hSettled.run hAgrees h.noStart ?_ hFuel
  intro declared
  have hClean : paramsCorrupted item.2 s = false := by simpa [declared] using h.notExternal
  rw [h.params]
  exact coparams_eq_none hClean

/-- Step of the simulation: with and without the look-up a call instruction leads to states that
agree. The skipped callee is where the condition is used. -/
theorem visitCall_same {call : Call} {item : InstRef × Instruction} {l : Locals} {s t : State}
    (isCall : item.2.opcode = .call)
    (hSkips : ∀ callee, SkipsCallee env call item l s callee → Settled env callee
      ((env.checkedState call item l s).pushFrame (callee.func, none)))
    (hAgrees : s.Agrees t) : Analyzer.SameVisit State.Agrees
      (env.withoutMemo.analyzer.InertFrom State.callStack
        (fun stack => (env.withoutMemo.enterable stack).card) State.Agrees item)
      (env.visit call item l s) (env.withoutMemo.visit call item l t) := by
  have hChecked : (env.checkedState call item l s).Agrees
      (env.withoutMemo.checkedState call item l t) := checkDangerousOp_agrees hAgrees ..
  rw [visit_of_call isCall, visit_of_call isCall]
  have hLocals : env.withoutMemo.checkedLocals call item l = env.checkedLocals call item l := rfl
  have hParams : paramsCorrupted item.2 (env.withoutMemo.checkedState call item l t) =
      paramsCorrupted item.2 s :=
    paramsCorrupted_congr (by simp [checkedState, hAgrees.1]) (by simp [checkedState, hAgrees.3])
  have hParams' : paramsCorrupted item.2 (env.checkedState call item l s) =
      paramsCorrupted item.2 s :=
    paramsCorrupted_congr (by simp [checkedState]) (by simp [checkedState])
  have hCoparams : coparams item.2 (env.withoutMemo.checkedState call item l t) =
      coparams item.2 s :=
    coparams_congr (by simp [checkedState, hAgrees.1]) (by simp [checkedState, hAgrees.3])
  have hCoparams' : coparams item.2 (env.checkedState call item l s) = coparams item.2 s :=
    coparams_congr (by simp [checkedState]) (by simp [checkedState])
  unfold Env.visitCall
  rw [hLocals, hParams, hParams', hCoparams, hCoparams']
  cases direct : item.2.calledFunction with
  | none => exact .done hChecked
  | some g =>
      have hStack : env.withoutMemo.onCallStack g (env.withoutMemo.checkedState call item l t) =
          env.onCallStack g s := by
        simp only [onCallStack, checkedState, checkDangerousOp_callStack, hAgrees.callStack]
        rfl
      have hStack' : env.onCallStack g (env.checkedState call item l s) = env.onCallStack g s := by
        simp [onCallStack, checkedState]
      have hFunc : env.withoutMemo.func g = env.func g := rfl
      simp only [hStack, hStack', hFunc]
      by_cases hIntrinsic : (env.func g).isIntrinsic = true
      · rw [if_pos hIntrinsic, if_pos hIntrinsic]
        exact .done hChecked
      · rw [if_neg hIntrinsic, if_neg hIntrinsic]
        by_cases hOnStack : env.onCallStack g s = true
        · rw [if_pos hOnStack, if_pos hOnStack]
          exact .done hChecked
        · rw [if_neg hOnStack, if_neg hOnStack]
          by_cases hExternal : ((env.func g).isDeclaration && paramsCorrupted item.2 s) = true
          · rw [if_pos hExternal, if_pos hExternal]
            exact .done (hChecked.add2CrptList _)
          · rw [if_neg hExternal, if_neg hExternal]
            rw [Bool.not_eq_true] at hIntrinsic hOnStack hExternal
            have hMemo : (env.withoutMemo.checkMemo g
                (env.withoutMemo.checkedState call item l t)).1 = false :=
              checkMemo_withoutMemo g _
            have hLookedB := State.Agrees.checkMemo env.withoutMemo g
              (env.withoutMemo.checkedState call item l t)
            generalize env.withoutMemo.checkMemo g (env.withoutMemo.checkedState call item l t) =
              looked at hMemo hLookedB
            obtain ⟨skip, t'⟩ := looked
            simp only at hMemo
            subst hMemo
            have hLookedA := State.Agrees.checkMemo env g (env.checkedState call item l s)
            cases hLooked : env.checkMemo g (env.checkedState call item l s) with
            | mk skip s' =>
                rw [hLooked] at hLookedA
                have hAgrees' : s'.Agrees t' := hLookedA.symm.trans (hChecked.trans hLookedB)
                cases skip with
                | false =>
                    exact .enter ((hAgrees'.enterCallee ..).trans
                      ((State.Agrees.refl t').enterCallee ..).symm)
                | true =>
                    -- only the analysis without the jump enters the callee
                    have hSame := env.checkMemo_skip g (env.checkedState call item l s)
                      (by rw [hLooked])
                    rw [hLooked] at hSame
                    simp only at hSame
                    have hSkip : SkipsCallee env call item l s
                        { func := g, corruptedparams := coparams item.2 s
                          ctrlDep := call.ctrlDep || env.influenced call.func item.1 l } :=
                      ⟨isCall, direct, hIntrinsic, hOnStack, hExternal, by rw [hLooked], rfl, rfl, rfl⟩
                    refine .skip ?_
                    intro fuel hFuel
                    obtain ⟨t'', hRun, hEnd⟩ := hSkip.run (hSkips _ hSkip)
                      ((hChecked.trans hLookedB).symm.enterCallee item.1 g _).symm hFuel
                    rw [hSame]
                    exact ⟨false, t'', hRun, hEnd.leave_of_pushFrame _ item⟩

/-- Without the jump the analysis takes the same steps, and enters a settled
callee where the other one jumps. -/
theorem simulates_withoutMemo : env.analyzer.Simulates env.withoutMemo.analyzer
    (SkipsSettled env) State.callStack (fun stack => (env.withoutMemo.enterable stack).card)
    State.Agrees where
  start hAgrees := start_agrees hAgrees _
  visit {call item items l s t} hSkips hAgrees := by
    by_cases isCall : item.2.opcode = .call
    · exact visitCall_same isCall (hSkips item rfl) hAgrees
    · have hChecked : (env.checkedState call item l s).Agrees
          (env.withoutMemo.checkedState call item l t) := checkDangerousOp_agrees hAgrees ..
      by_cases isGep : item.2.opcode = .getElementPtr
      · have hFirst : env.analyzer.visit call item l s = _ := visit_of_getElementPtr isGep
        have hSecond : env.withoutMemo.analyzer.visit call item l t = _ := visit_of_getElementPtr isGep
        rw [hFirst, hSecond]
        rcases visitGetElementPtr_agrees hChecked item.1 item.2 with
          ⟨reason, hS, hT⟩ | ⟨s', t', hS, hT, hRel⟩
        · rw [hS, hT]
          exact .error reason
        · rw [hS, hT]
          exact .done hRel
      · have hFirst : env.analyzer.visit call item l s = _ := visit_of_other isCall isGep
        have hSecond : env.withoutMemo.analyzer.visit call item l t = _ := visit_of_other isCall isGep
        rw [hFirst, hSecond]
        obtain ⟨hLocals, hRel⟩ := visitOther_agrees hChecked item.1 item.2
          (env.checkedLocals call item l)
        have hSameLocals : env.withoutMemo.checkedLocals call item l =
            env.checkedLocals call item l := rfl
        rw [hSameLocals, hLocals]
        exact .done hRel
  leave hAgrees := hAgrees.leave ..
  result _ := rfl

/-- If every call that the look-up jumps over is settled at that point, the
analysis ends as it would without the jump, up to what the look-up and the
bookkeeping of calls and branches file, and the analysis of each call that is
jumped over adds nothing. -/
theorem memo_transparent {call : Call} {s : State}
    (hSkips : ∀ p, env.analyzer.Visits call s p → SkipsSettled env p) :
    Analyzer.SameAnswer State.Agrees (env.intraDataflowAnalysis env.recursionFuel call s)
      (env.withoutMemo.intraDataflowAnalysis env.recursionFuel call s) ∧
    ∀ p, env.analyzer.Visits call s p → ∀ item ∈ p.items.head?, ∀ callee,
      SkipsCallee env p.call item p.locals p.state callee →
        ∃ t, env.withoutMemo.intraDataflowAnalysis env.recursionFuel callee
            ((env.checkedState p.call item p.locals p.state).pushFrame (callee.func, none)) =
            .ok (false, t) ∧
          ((env.checkedState p.call item p.locals p.state).pushFrame (callee.func, none)).Agrees t := by
  refine ⟨?_, ?_⟩
  · exact simulates_withoutMemo.run analyzer_balanced (State.Agrees.refl s)
      (enterable_card_lt_recursionFuel env.withoutMemo s.callStack) hSkips
  · intro p hVisits item hItem callee hSkip
    exact hSkip.run (hSkips p hVisits item hItem callee hSkip) (.refl _)
      (enterable_card_lt_recursionFuel env.withoutMemo _)

/-- `main` calls a function twice that does nothing but return. -/
def settledEnv : Env where
  module := {
    functions := [
      { name := "main"
        blocks := [{
          body := [⟨.load, [.globalVariable 0], none⟩, ⟨.call, [.function 1], none⟩,
            ⟨.call, [.function 1], none⟩]
          terminator := ⟨.ret, [], none⟩
          successors := [] }] },
      { name := "g"
        blocks := [{
          body := []
          terminator := ⟨.ret, [], none⟩
          successors := [] }] }] }

/-- The second call is jumped over. -/
theorem memo_transparent_settled :
    Analyzer.SameAnswer State.Agrees
      (settledEnv.intraDataflowAnalysis settledEnv.recursionFuel
        { func := 0, ins := some ⟨0, 0, 0⟩ } { callStack := [(0, some ⟨0, 0, 0⟩)] })
      (settledEnv.withoutMemo.intraDataflowAnalysis settledEnv.recursionFuel
        { func := 0, ins := some ⟨0, 0, 0⟩ } { callStack := [(0, some ⟨0, 0, 0⟩)] }) := by
  refine (memo_transparent ?_).1
  intro p hVisits item hItem callee hSkip
  have hMem : item ∈ settledEnv.module.instructions p.call.func :=
    hVisits.good analyzer_supplies item (List.mem_of_mem_head? hItem)
  have hCalls : ∀ f < 2, ∀ item ∈ settledEnv.module.instructions f, item.2.opcode = .call →
      item.2.calledFunction = some 1 := by decide
  have hFunc : callee.func = 1 := by
    have hDirect := hCalls _ (Module.lt_of_mem_instructions hMem) item hMem hSkip.isCall
    rw [hSkip.direct, Option.some.injEq] at hDirect
    exact hDirect
  have noCalls : ∀ item ∈ settledEnv.module.instructions 1, item.2.opcode ≠ .call := by decide
  have hPlain : ∀ item ∈ settledEnv.module.instructions 1,
      item.2.operands = [] ∧ item.2.dbg = none := by decide
  intro c hReach
  rcases hReach.cases_head with rfl | ⟨d, hFollow, -⟩
  · refine ⟨?_, ?_, ?_, ?_, ?_⟩ <;> simp only [hFunc]
    · intro k hk
      exact absurd hk (Nat.not_lt_zero k)
    · exact fun item hItem isCall => absurd isCall (noCalls item hItem)
    · intro item hItem _ v hv
      rw [(hPlain item hItem).1] at hv
      cases hv
    · intro item hItem _ base entries idx hBase
      rw [(hPlain item hItem).1] at hBase
      cases hBase
    · intro item hItem _ loc hLoc
      rw [(hPlain item hItem).2] at hLoc
      cases hLoc
  · cases hFollow with
    | call hItem isCall =>
        rw [hFunc] at hItem
        exact absurd isCall (noCalls _ hItem)

/-- `main` calls `g` with a constant first and then with a corrupted value. -/
def otherArgumentEnv : Env where
  module := {
    functions := [
      { name := "main"
        blocks := [{
          body := [⟨.load, [.globalVariable 0], none⟩,
            ⟨.call, [.constant 0, .function 1], none⟩,
            ⟨.call, [.instruction ⟨0, 0, 0⟩, .function 1], none⟩]
          terminator := ⟨.ret, [], none⟩
          successors := [] }] },
      { name := "g"
        params := 1
        blocks := [{
          body := [⟨.binary, [.argument 1 0, .constant 1], none⟩]
          terminator := ⟨.ret, [], none⟩
          successors := [] }] }] }

/-- The first analysis of `g` adds nothing, so the second call is jumped over
although its argument is corrupted. -/
theorem memo_skips_corrupted_argument :
    ∃ a b, otherArgumentEnv.intraDataflowAnalysis otherArgumentEnv.recursionFuel
        { func := 0, ins := some ⟨0, 0, 0⟩ } { callStack := [(0, some ⟨0, 0, 0⟩)] } = .ok a ∧
      otherArgumentEnv.withoutMemo.intraDataflowAnalysis otherArgumentEnv.recursionFuel
        { func := 0, ins := some ⟨0, 0, 0⟩ } { callStack := [(0, some ⟨0, 0, 0⟩)] } = .ok b ∧
      .argument 1 0 ∉ a.2.corruptedIR ∧ .argument 1 0 ∈ b.2.corruptedIR := by
  have hWith : ∃ a, otherArgumentEnv.intraDataflowAnalysis otherArgumentEnv.recursionFuel
      { func := 0, ins := some ⟨0, 0, 0⟩ } { callStack := [(0, some ⟨0, 0, 0⟩)] } = .ok a ∧
      .argument 1 0 ∉ a.2.corruptedIR := exists_ok_of_eval (by decide)
  have hWithout : ∃ b, otherArgumentEnv.withoutMemo.intraDataflowAnalysis
      otherArgumentEnv.recursionFuel { func := 0, ins := some ⟨0, 0, 0⟩ }
      { callStack := [(0, some ⟨0, 0, 0⟩)] } = .ok b ∧
      .argument 1 0 ∈ b.2.corruptedIR := exists_ok_of_eval (by decide)
  obtain ⟨a, hA, hMissed⟩ := hWith
  obtain ⟨b, hB, hFound⟩ := hWithout
  exact ⟨a, b, hA, hB, hMissed, hFound⟩

end Env
end ConAnalysis
