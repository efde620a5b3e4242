import ConAnalysis.Dataflow.Growth

/-! What a callee's formal arguments take over from the actual ones, and that
they keep it for as long as the callee is on the call stack. -/
namespace ConAnalysis
open IR CallSweep

namespace Env
variable {env : Env}

/-- The corrupted parameters of a call are instructions. -/
theorem coparams_isInstruction {i : Instruction} {s : State} {k : Nat} {v : Value}
    (h : coparams i s k = some v) : v.isInstruction = true := by
  simp only [coparams, Option.filter_eq_some_iff, corruptedOperand, Bool.and_eq_true] at h
  exact h.2.1

/-- What is handed to a callee at a position: the operand there, if it is an instruction and
corrupted itself or through a field. -/
theorem coparams_eq_some {i : Instruction} {s : State} {k : Nat} {v : Value} :
    coparams i s k = some v ↔
      i.operands[k]? = some v ∧ v.isInstruction = true ∧
        (v ∈ s.corruptedIR ∨ (s.corruptedPtr v).isSome = true) := by
  simp [coparams, Option.filter_eq_some_iff, corruptedOperand]

/-- A call without corrupted parameters has none to hand over. -/
theorem coparams_eq_none {i : Instruction} {s : State} (h : paramsCorrupted i s = false) (k : Nat) :
    coparams i s k = none := by
  rw [Option.eq_none_iff_forall_ne_some]
  intro v hv
  obtain ⟨hOperand, hCorrupted⟩ := Option.filter_eq_some_iff.mp hv
  rw [paramsCorrupted, List.any_eq_false] at h
  exact h v (List.mem_of_getElem? hOperand) hCorrupted

/-- One binding changes nothing but its formal argument. -/
theorem bindArg_of_ne {f : FuncRef} {k : Nat} {v : Value} (actual : Value) (s : State)
    (h : v ≠ .argument f k) : (v ∈ (bindArg f k actual s).corruptedIR ↔ v ∈ s.corruptedIR) ∧
      (bindArg f k actual s).corruptedPtr v = s.corruptedPtr v := by
  unfold bindArg
  split <;> simp [h]

/-- What one parameter gets: the corruption of its actual, and its field entries if it has some. -/
theorem bindArg_self (f : FuncRef) (k : Nat) (actual : Value) (s : State) :
    (.argument f k ∈ (bindArg f k actual s).corruptedIR ↔
      .argument f k ∈ s.corruptedIR ∨ actual ∈ s.corruptedIR) ∧
      (bindArg f k actual s).corruptedPtr (.argument f k) =
        (s.corruptedPtr actual).or (s.corruptedPtr (.argument f k)) := by
  unfold bindArg
  split
  · next hMem => simp [hMem]
  · next hMem => simp [hMem]

/-- A formal argument that is bound already stays as it is. -/
theorem bindArg_eq_self {f : FuncRef} {k : Nat} {actual : Value} {s : State}
    (hMem : actual ∈ s.corruptedIR → .argument f k ∈ s.corruptedIR)
    (hEntries : ∀ entries, s.corruptedPtr actual = some entries →
      s.corruptedPtr (.argument f k) = some entries) : bindArg f k actual s = s := by
  unfold bindArg
  split
  · next hActual =>
      rw [State.add2CrptList_of_mem (hMem hActual)]
      exact State.copyGepIdx_eq_self hEntries
  · exact State.copyGepIdx_eq_self hEntries

/-- Parameters are bound one at a time; no other value is touched by the loop. -/
theorem handleParams_of_ne {f : FuncRef} {corruptedparams : CorruptedArgs} {atEnd : Bool}
    {ks : List Nat} {s s' : State} {v : Value} (hv : ∀ k ∈ ks, v ≠ .argument f k)
    (h : handleParams f corruptedparams atEnd ks s = some s') :
    (v ∈ s'.corruptedIR ↔ v ∈ s.corruptedIR) ∧ s'.corruptedPtr v = s.corruptedPtr v := by
  refine handleParams_rel (R := fun s s' => (v ∈ s'.corruptedIR ↔ v ∈ s.corruptedIR) ∧
    s'.corruptedPtr v = s.corruptedPtr v) (fun s => ⟨Iff.rfl, rfl⟩) ?_ ?_ h
  · exact fun h₁ h₂ => ⟨h₂.1.trans h₁.1, h₂.2.trans h₁.2⟩
  · exact fun k hk _ _ s => bindArg_of_ne _ s (hv k hk)

/-- What the binding loop leaves at one formal argument. The actual arguments
are instructions, so no binding changes the source of another one. -/
theorem handleParams_argument {f : FuncRef} {corruptedparams : CorruptedArgs} {atEnd : Bool}
    {ks : List Nat} {s s' : State} (hNodup : ks.Nodup)
    (hInst : ∀ k v, corruptedparams k = some v → v.isInstruction = true)
    (h : handleParams f corruptedparams atEnd ks s = some s') {k : Nat} (hk : k ∈ ks) :
    (.argument f k ∈ s'.corruptedIR ↔ .argument f k ∈ s.corruptedIR ∨
      ∃ actual, corruptedparams k = some actual ∧ actual ∈ s.corruptedIR) ∧
      s'.corruptedPtr (.argument f k) =
        ((corruptedparams k).bind s.corruptedPtr).or (s.corruptedPtr (.argument f k)) := by
  induction ks generalizing s with
  | nil => cases hk
  | cons j ks ih =>
      rw [List.nodup_cons] at hNodup
      unfold handleParams at h
      split at h
      · next hNone =>
          rcases List.mem_cons.mp hk with rfl | hk
          · have hSame := handleParams_of_ne (v := .argument f k) (by
              rintro m hm hEq
              cases hEq
              exact hNodup.1 hm) h
            simpa [hNone] using hSame
          · exact ih hNodup.2 h hk
      · next actual hActual =>
          split at h
          · cases h
          · rcases List.mem_cons.mp hk with rfl | hTail
            · have hSame := handleParams_of_ne (v := .argument f k) (by
                rintro m hm hEq
                cases hEq
                exact hNodup.1 hm) h
              have hBound := bindArg_self f k actual s
              rw [hSame.1, hSame.2, hBound.1, hBound.2]
              simp [hActual]
            · have hNe : Value.argument f k ≠ .argument f j := by
                rintro hEq
                cases hEq
                exact hNodup.1 hTail
              have hKept := bindArg_of_ne actual s hNe
              obtain ⟨hMem, hPtr⟩ := ih hNodup.2 h hTail
              have hActuals : ∀ v, corruptedparams k = some v →
                  (v ∈ (bindArg f j actual s).corruptedIR ↔ v ∈ s.corruptedIR) ∧
                    (bindArg f j actual s).corruptedPtr v = s.corruptedPtr v := by
                intro v hv
                refine bindArg_of_ne _ s ?_
                rintro rfl
                cases hInst k _ hv
              rw [hMem, hPtr, hKept.1, hKept.2]
              cases hParam : corruptedparams k with
              | none => simp
              | some v => simp [hActuals v hParam]

/-- A callee starts with the state of the call, apart from its own formal
arguments, the memo and the bookkeeping of the call. -/
theorem start_of_enters {call callee : Call} {item : InstRef × Instruction} {l l' lb : Locals}
    {s s' s₂ : State} {body : List (InstRef × Instruction)}
    (visited : env.visit call item l s = .ok (.enter callee l' s'))
    (started : env.start callee s' = .ok (.body body lb s₂)) :
    body = env.module.instructions callee.func ∧ s'.corruptedIR = s.corruptedIR ∧
      s'.corruptedPtr = s.corruptedPtr ∧
      handleParams callee.func (coparams item.2 s) body.isEmpty
        (List.range (env.func callee.func).params) s' = some s₂ := by
  have hEnter := visit_enter visited
  obtain ⟨s₁, hSeed, -, hParams⟩ := start_body started
  rw [hEnter.noStart] at hSeed
  obtain ⟨-, hBody, rfl⟩ := hSeed.of_none
  refine ⟨hBody, ?_, ?_, by rw [← hEnter.params]; exact hParams⟩
  · simp [hEnter.state_eq, checkedState]
  · simp [hEnter.state_eq, checkedState]

/-- Index records of a value are only added to. -/
def KeepsEntries (v : Value) (s t : State) : Prop :=
  s.corruptedIR ⊆ t.corruptedIR ∧ ∀ entries, s.corruptedPtr v = some entries →
    ∃ more, t.corruptedPtr v = some (entries ++ more)

/-- Growing the corrupted values does not matter as long as the field entries stay. -/
theorem KeepsEntries.of_eq {v : Value} {s t : State} (hSet : s.corruptedIR ⊆ t.corruptedIR)
    (hPtr : t.corruptedPtr v = s.corruptedPtr v) : KeepsEntries v s t :=
  ⟨hSet, fun entries hEntries => ⟨[], by rw [hPtr, hEntries, List.append_nil]⟩⟩

/-- Entries that are kept by each step are kept by a run. -/
theorem KeepsEntries.trans {v : Value} {s t u : State} (h₁ : KeepsEntries v s t)
    (h₂ : KeepsEntries v t u) : KeepsEntries v s u := by
  refine ⟨h₁.1.trans h₂.1, ?_⟩
  intro entries hEntries
  obtain ⟨first, hFirst⟩ := h₁.2 entries hEntries
  obtain ⟨second, hSecond⟩ := h₂.2 _ hFirst
  exact ⟨first ++ second, by rw [hSecond, List.append_assoc]⟩

/-- Recording an access adds to the entries of its key and keeps those of all others. -/
theorem KeepsEntries.recordGepIdx (v key : Value) (idx : GepIdx) (s : State) :
    KeepsEntries v s (s.recordGepIdx key idx) := by
  refine ⟨Finset.Subset.refl _, ?_⟩
  intro entries hEntries
  by_cases hKey : v = key
  · subst hKey
    exact ⟨[idx], by simp [hEntries]⟩
  · exact ⟨[], by simp [hKey, hEntries]⟩

/-- No instruction takes field entries away from a value. -/
theorem Effect.keepsEntries {item : InstRef × Instruction} {l l' : Locals} {s s' : State} (v : Value)
    (h : Effect env item l s l' s') : KeepsEntries v s s' := by
  have hSet := h.extends.subset
  cases h with
  | gepOperand =>
      exact (KeepsEntries.of_eq (State.Extends.add _ s).subset (by simp)).trans (.recordGepIdx ..)
  | unchanged => exact .of_eq hSet rfl
  | external => exact .of_eq hSet (by simp)
  | gepRecord => exact .of_eq hSet (by simp)
  | store => exact .of_eq hSet (by simp)
  | branch => exact .of_eq hSet (by simp)
  | plain => exact .of_eq hSet (by simp)

/-- As long as a function is on the call stack it is not entered again, so its
formal arguments are not bound again. -/
theorem analyzer_keepsEntries (Good : Call → InstRef × Instruction → Prop) (g : FuncRef) (k : Nat) :
    env.analyzer.RespectsUnder Good State.callStack (fun _ stack => ∃ layer ∈ stack, layer.1 = g)
      (KeepsEntries (.argument g k)) where
  refl s := .of_eq (Finset.Subset.refl _) rfl
  trans := .trans
  safe hSafe visited := by
    obtain ⟨layer, hLayer, hFunc⟩ := hSafe
    rw [(visit_enter visited).state_eq]
    exact ⟨layer, by simp [checkedState, hLayer], hFunc⟩
  done _ _ visited :=
    KeepsEntries.trans (.of_eq (by simp [checkedState]) (by simp [checkedState]))
      ((visit_done visited).keepsEntries _)
  returned _ _ visited started := by
    have hEnter := visit_enter visited
    obtain ⟨-, rv, hSeed⟩ := start_returned started
    rw [hEnter.noStart] at hSeed
    obtain ⟨-, -, rfl⟩ := hSeed.of_none
    exact .of_eq (by simp [hEnter.state_eq, checkedState]) (by simp [hEnter.state_eq, checkedState])
  body _ hSafe visited started := by
    obtain ⟨-, hSet, hPtr, hParams⟩ := start_of_enters visited started
    obtain ⟨layer, hLayer, hFunc⟩ := hSafe
    have hNe : g ≠ _ := (visit_enter visited).func_ne hLayer hFunc
    have hKept := handleParams_of_ne (v := .argument g k) (by
      rintro m - hEq
      cases hEq
      exact hNe rfl) hParams
    refine .of_eq ?_ (hKept.2.trans (by rw [hPtr]))
    rw [← hSet]
    exact (handleParams_extends hParams).subset
  leave result s'' _ _ _ := .of_eq (leave_extends ..).subset (by cases result <;> simp [analyzer, leave])

/-- The formal argument at position `k` of the callee that starts at `q` has
what the actual one had at the call: it is corrupted if that was, and it holds
its index records, throughout the sweep of the callee. -/
def ArgumentPassed (env : Env) (s : State) (actual : Value) (k : Nat)
    (q : Point) : Prop :=
  (actual ∈ s.corruptedIR →
    ∀ t, env.analyzer.Reaches q t → .argument q.call.func k ∈ t.state.corruptedIR) ∧
  ∀ entries, s.corruptedPtr actual = some entries →
    q.state.corruptedPtr (.argument q.call.func k) = some entries ∧
    ∀ t, env.analyzer.Reaches q t → ∃ more,
      t.state.corruptedPtr (.argument q.call.func k) = some (entries ++ more)

/-- What a callee starts with stays with it, so only its start matters. -/
theorem argumentPassed_iff {s : State} {actual : Value} {k : Nat}
    {p q : Point} (hEnters : env.analyzer.Enters p q) :
    ArgumentPassed env s actual k q ↔
      (actual ∈ s.corruptedIR → .argument q.call.func k ∈ q.state.corruptedIR) ∧
      ∀ entries, s.corruptedPtr actual = some entries →
        q.state.corruptedPtr (.argument q.call.func k) = some entries := by
  constructor
  · intro h
    exact ⟨fun hMem => h.1 hMem q .refl, fun entries hEntries => (h.2 entries hEntries).1⟩
  · intro h
    have hKeeps : ∀ t, env.analyzer.Reaches q t →
        KeepsEntries (.argument q.call.func k) q.state t.state := by
      intro t hReach
      have hOnStack : ∃ layer ∈ q.state.callStack, layer.1 = q.call.func := by
        cases hEnters with
        | body visited started =>
            have hStack := analyzer_balanced.body started
            rw [hStack, (visit_enter visited).state_eq]
            exact ⟨(_, none), by simp, rfl⟩
      exact (analyzer_balanced.reaches_under (fun _ _ _ => trivial)
        (analyzer_keepsEntries (fun _ _ => True) q.call.func k) (fun _ _ => trivial) hOnStack
        hReach).1
    refine ⟨fun hMem t hReach => (hKeeps t hReach).1 (h.1 hMem), ?_⟩
    intro entries hEntries
    exact ⟨h.2 entries hEntries, fun t hReach => (hKeeps t hReach).2 _ (h.2 entries hEntries)⟩

/-- Exactly the actual arguments that are instructions are handed over. For an
argument of the caller, a global variable or any other value it is left to
chance whether the formal argument has what it should have already. -/
theorem argument_passed_iff_isInstruction {p q : Point}
    {item : InstRef × Instruction} {items : List (InstRef × Instruction)} {actual : Value} {k : Nat}
    (hEnters : env.analyzer.Enters p q) (hItems : p.items = item :: items)
    (hParam : k < (env.func q.call.func).params) (hActual : item.2.operands[k]? = some actual) :
    ArgumentPassed env p.state actual k q ↔ actual.isInstruction = true ∨
      (actual ∈ p.state.corruptedIR → .argument q.call.func k ∈ p.state.corruptedIR) ∧
      ∀ entries, p.state.corruptedPtr actual = some entries →
        p.state.corruptedPtr (.argument q.call.func k) = some entries := by
  rw [argumentPassed_iff hEnters]
  cases hEnters with
  | @body call callee item' items' body l l' lb s s' s₂ visited started =>
      cases hItems
      obtain ⟨-, hSet, hPtr, hParams⟩ := start_of_enters visited started
      obtain ⟨hMem, hEntries⟩ := handleParams_argument List.nodup_range
        (fun _ _ => coparams_isInstruction) hParams (List.mem_range.mpr hParam)
      simp only [hSet, hPtr] at hMem hEntries
      simp only [hMem, hEntries]
      by_cases hInst : actual.isInstruction = true
      · -- the actual is handed over if it is corrupted or has index records
        refine iff_of_true ⟨?_, ?_⟩ (.inl hInst)
        · intro hActualMem
          exact .inr ⟨actual, coparams_eq_some.mpr ⟨hActual, hInst, .inl hActualMem⟩, hActualMem⟩
        · intro entries hActualEntries
          have hGiven : coparams item.2 s k = some actual :=
            coparams_eq_some.mpr ⟨hActual, hInst, .inr (by simp [hActualEntries])⟩
          simp [hGiven, hActualEntries]
      · have hGiven : coparams item.2 s k = none := by
          rw [Option.eq_none_iff_forall_ne_some]
          intro v hv
          obtain ⟨hOperand, hValue, -⟩ := coparams_eq_some.mp hv
          rw [hActual, Option.some.injEq] at hOperand
          exact hInst (by rw [hOperand]; exact hValue)
        simp [hGiven, hInst]

/-- `main` stores a corrupted value in a global variable and calls `h` with the
address of the global variable, and then with the value itself. -/
def globalArgEnv : Env where
  module := {
    functions := [
      { name := "main"
        blocks := [{
          body := [⟨.load, [.globalVariable 0], none⟩,
            ⟨.store, [.instruction ⟨0, 0, 0⟩, .globalVariable 1], none⟩,
            ⟨.call, [.globalVariable 1, .instruction ⟨0, 0, 0⟩, .function 1], none⟩]
          terminator := ⟨.ret, [], none⟩
          successors := [] }] },
      { name := "h"
        params := 2
        blocks := [{
          body := []
          terminator := ⟨.ret, [], some ⟨"a.c", 9⟩⟩
          successors := [] }] }] }

/-- The value itself is handed over. -/
theorem argument_passed_iff_isInstruction_second :
    ∃ p q : Point, globalArgEnv.analyzer.Visits { func := 0, ins := some ⟨0, 0, 0⟩ }
        { callStack := [(0, some ⟨0, 0, 0⟩)] } p ∧
      ArgumentPassed globalArgEnv p.state (.instruction ⟨0, 0, 0⟩) 1 q := by
  have hEval : ∃ p : Point, globalArgEnv.analyzer.Visits { func := 0, ins := some ⟨0, 0, 0⟩ }
      { callStack := [(0, some ⟨0, 0, 0⟩)] } p ∧
      ∃ q ∈ globalArgEnv.analyzer.entered p, ∃ item ∈ p.items.head?,
        1 < (globalArgEnv.func q.call.func).params ∧
        item.2.operands[1]? = some (.instruction ⟨0, 0, 0⟩) :=
    globalArgEnv.analyzer.exists_visits_of_eval 3 4 (by decide)
  obtain ⟨p, hVisits, q, hEntered, item, hItem, hParam, hActual⟩ := hEval
  exact ⟨p, q, hVisits,
    (argument_passed_iff_isInstruction (globalArgEnv.analyzer.enters_of_entered hEntered)
      (List.eq_cons_of_mem_head? hItem) hParam hActual).mpr (.inl rfl)⟩

/-- The global variable is corrupted at the call, the formal argument is not. -/
theorem argument_passed_fails_for_global :
    ∃ p q : Point, globalArgEnv.analyzer.Visits { func := 0, ins := some ⟨0, 0, 0⟩ }
        { callStack := [(0, some ⟨0, 0, 0⟩)] } p ∧ globalArgEnv.analyzer.Enters p q ∧
      (∃ item items, p.items = item :: items ∧
        item.2.operands[0]? = some (.globalVariable 1)) ∧
      .globalVariable 1 ∈ p.state.corruptedIR ∧ .argument q.call.func 0 ∉ q.state.corruptedIR ∧
      ¬ArgumentPassed globalArgEnv p.state (.globalVariable 1) 0 q := by
  have hEval : ∃ p : Point, globalArgEnv.analyzer.Visits { func := 0, ins := some ⟨0, 0, 0⟩ }
      { callStack := [(0, some ⟨0, 0, 0⟩)] } p ∧
      ∃ q ∈ globalArgEnv.analyzer.entered p, ∃ item ∈ p.items.head?,
        item.2.operands[0]? = some (.globalVariable 1) ∧
        .globalVariable 1 ∈ p.state.corruptedIR ∧ .argument q.call.func 0 ∉ q.state.corruptedIR :=
    globalArgEnv.analyzer.exists_visits_of_eval 3 4 (by decide)
  obtain ⟨p, hVisits, q, hEntered, item, hItem, hActual, hMem, hFormal⟩ := hEval
  refine ⟨p, q, hVisits, globalArgEnv.analyzer.enters_of_entered hEntered,
    ⟨item, _, List.eq_cons_of_mem_head? hItem, hActual⟩, hMem, hFormal, ?_⟩
  intro hPassed
  exact hFormal (hPassed.1 hMem q .refl)

end Env
end ConAnalysis
