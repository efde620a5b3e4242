import ConAnalysis.Dataflow.Arguments

/-! Every element of the ordered corrupted list is justified by elements before
it, apart from the instructions that the replay is seeded with. -/
namespace ConAnalysis
open IR CallSweep Exceptions

namespace Env
variable {env : Env}

def Occurs (env : Env) (layers : List FuncInst) (s₀ : State) (p : Point) : Prop :=
  ∃ loc below s, env.ReplayReaches (layers, s₀) (loc :: below, s) ∧
    env.analyzer.Visits (frameCall loc) s p

/-- An instruction that the replay was started at. Layers that continue behind
a call do not count. -/
def Seeded (env : Env) (layers : List FuncInst) (r : InstRef) : Prop :=
  (∃ layer ∈ layers, layer.2 = some r) ∧ ∃ i, env.module.inst? r = some i ∧ i.opcode ≠ .call

/-- `CallsWith c g k v`: the call `c` of `g` has the operand `v` at position `k`. -/
def CallsWith (env : Env) (c : InstRef) (g : FuncRef) (k : Nat) (v : Value) : Prop :=
  ∃ i, env.module.inst? c = some i ∧ i.opcode = .call ∧ i.calledFunction = some g ∧
    i.operands[k]? = some v

/-- The index record is kept for the value on behalf of a GEP in `earlier`: of
its base when the replay was seeded with it, of its first index otherwise. A
binding of parameters copies it to the formal argument. -/
inductive Recorded (env : Env) (layers : List FuncInst) (earlier : List Value) :
    Value → GepIdx → Prop where
  | seed {r : InstRef} {i : Instruction} {base : Value} {idx : GepIdx}
      (seeded : Seeded env layers r) (hInst : env.module.inst? r = some i)
      (isGep : i.opcode = .getElementPtr) (hBase : i.operands[0]? = some base)
      (hIdx : gepIdx i = some idx) (hMem : .instruction r ∈ earlier) :
      Recorded env layers earlier base idx
  | operand {r : InstRef} {i : Instruction} {key : Value} {idx : GepIdx}
      (hInst : env.module.inst? r = some i) (isGep : i.opcode = .getElementPtr)
      (hKey : i.operands[1]? = some key) (hIdx : gepIdx i = some idx)
      (hMem : .instruction r ∈ earlier) : Recorded env layers earlier key idx
  | copied {c : InstRef} {g : FuncRef} {k : Nat} {actual : Value} {idx : GepIdx}
      (called : CallsWith env c g k actual) (source : Recorded env layers earlier actual idx) :
      Recorded env layers earlier (.argument g k) idx

/-- The reasons for which a replay adds a value behind the `earlier` ones. -/
inductive Justified (env : Env) (layers : List FuncInst) (s₀ : State) (earlier : List Value) :
    Value → Prop where
  | operand {r : InstRef} {i : Instruction} {v : Value} (hInst : env.module.inst? r = some i)
      (notCall : i.opcode ≠ .call) (hOperand : v ∈ i.operands) (hMem : v ∈ earlier) :
      Justified env layers s₀ earlier (.instruction r)
  | pointer {r : InstRef} {i : Instruction} {pointer : Value}
      (hInst : env.module.inst? r = some i) (isStore : i.opcode = .store)
      (hPointer : i.operands[1]? = some pointer) (hMem : .instruction r ∈ earlier) :
      Justified env layers s₀ earlier pointer
  | gep {r : InstRef} {i : Instruction} {base : Value} {idx : GepIdx}
      (hInst : env.module.inst? r = some i) (isGep : i.opcode = .getElementPtr)
      (hBase : i.operands[0]? = some base) (hIdx : gepIdx i = some idx)
      (hRecord : Recorded env layers earlier base idx) :
      Justified env layers s₀ earlier (.instruction r)
  | formal {c : InstRef} {g : FuncRef} {k : Nat} {actual : Value}
      (called : CallsWith env c g k actual) (hMem : actual ∈ earlier) :
      Justified env layers s₀ earlier (.argument g k)
  | external {c : InstRef} {g : FuncRef} {k : Nat} {v : Value} (called : CallsWith env c g k v)
      (declared : (env.func g).isDeclaration = true)
      (hArgument : v ∈ earlier ∨ ∃ idx, Recorded env layers earlier v idx) :
      Justified env layers s₀ earlier (.instruction c)
  | returned {p : Point} {item : InstRef × Instruction} {items : List (InstRef × Instruction)}
      {callee : Call} {l : Locals} {t t' : State} {v : Value} (occurs : Occurs env layers s₀ p)
      (hItems : p.items = item :: items)
      (visited : env.visit p.call item p.locals p.state = .ok (.enter callee l t))
      (analysed : env.analyzer.Runs callee t true t') (hList : t'.orderedcorruptedIR = earlier)
      (hMem : v ∈ earlier) (new : v ∉ t.orderedcorruptedIR) :
      Justified env layers s₀ earlier (.instruction item.1)
  | resumed {loc : FuncInst} {f : FuncRef} {callSite : InstRef} {below : List FuncInst}
      {t t' : State} {v : Value}
      (reached : env.ReplayReaches (layers, s₀) (loc :: (f, some callSite) :: below, t))
      (analysed : env.analyseFrame loc t = .ok (true, t')) (hList : t'.orderedcorruptedIR = earlier)
      (hMem : v ∈ earlier) (new : v ∉ t.orderedcorruptedIR) :
      Justified env layers s₀ earlier (.instruction callSite)

/-- A recorded access stays one when more values are corrupted. -/
theorem Recorded.append {layers : List FuncInst} {earlier more : List Value} {v : Value}
    {idx : GepIdx} (h : Recorded env layers earlier v idx) :
    Recorded env layers (earlier ++ more) v idx := by
  induction h with
  | seed seeded hInst isGep hBase hIdx hMem =>
      exact .seed seeded hInst isGep hBase hIdx (List.mem_append_left _ hMem)
  | operand hInst isGep hKey hIdx hMem =>
      exact .operand hInst isGep hKey hIdx (List.mem_append_left _ hMem)
  | copied called _ ih => exact .copied called ih

/-- Each element of the list is a seed or justified by the elements before it. -/
def Derived (env : Env) (layers : List FuncInst) (s₀ : State) (list : List Value) : Prop :=
  ∀ earlier x later, list = earlier ++ x :: later →
    (∃ r, x = .instruction r ∧ Seeded env layers r) ∨ Justified env layers s₀ earlier x

/-- A corrupted value may be justified by the values before it, which is what makes the
justification well founded. -/
theorem Derived.snoc {layers : List FuncInst} {s₀ : State} {list : List Value} {x : Value}
    (h : Derived env layers s₀ list)
    (hx : (∃ r, x = .instruction r ∧ Seeded env layers r) ∨ Justified env layers s₀ list x) :
    Derived env layers s₀ (list ++ [x]) := by
  intro earlier y later hList
  rcases List.eq_nil_or_concat later with rfl | ⟨rest, z, rfl⟩
  · obtain ⟨rfl, hEq⟩ := List.append_inj' hList rfl
    cases hEq
    exact hx
  · rw [List.concat_eq_append, ← List.cons_append, ← List.append_assoc] at hList
    exact h earlier y rest (List.append_inj_left' hList rfl)

/-- The invariant of the replay. -/
structure Explained (env : Env) (layers : List FuncInst) (s₀ s : State) : Prop where
  inStep : s.InStep
  derived : Derived env layers s₀ s.orderedcorruptedIR
  recorded : ∀ v entries, s.corruptedPtr v = some entries →
    entries ≠ [] ∧ ∀ idx ∈ entries, Recorded env layers s.orderedcorruptedIR v idx

namespace Explained
variable {layers : List FuncInst} {s₀ s t : State}

/-- Operations that leave the containers alone need no new justification. -/
theorem of_eq (h : Explained env layers s₀ s) (hSet : t.corruptedIR = s.corruptedIR)
    (hList : t.orderedcorruptedIR = s.orderedcorruptedIR) (hPtr : t.corruptedPtr = s.corruptedPtr) :
    Explained env layers s₀ t where
  inStep := h.inStep.extends (.of_eq hSet hList)
  derived := by rw [hList]; exact h.derived
  recorded := by rw [hList, hPtr]; exact h.recorded

/-- A value that is already corrupted is not added again and needs none. -/
theorem add (h : Explained env layers s₀ s) {x : Value}
    (hx : x ∉ s.corruptedIR → (∃ r, x = .instruction r ∧ Seeded env layers r) ∨
      Justified env layers s₀ s.orderedcorruptedIR x) :
    Explained env layers s₀ (s.add2CrptList x) := by
  by_cases hMem : x ∈ s.corruptedIR
  · rw [State.add2CrptList_of_mem hMem]
    exact h
  · refine ⟨h.inStep.extends (.add x s), ?_, ?_⟩
    · rw [State.add2CrptList_orderedcorruptedIR hMem]
      exact h.derived.snoc (hx hMem)
    · intro v entries hEntries
      rw [State.add2CrptList_corruptedPtr] at hEntries
      rw [State.add2CrptList_orderedcorruptedIR hMem]
      obtain ⟨hNe, hRecorded⟩ := h.recorded v entries hEntries
      exact ⟨hNe, fun idx hIdx => (hRecorded idx hIdx).append⟩

/-- A new field entry must come from an access whose instruction is corrupted. -/
theorem recordGepIdx (h : Explained env layers s₀ s) {key : Value} {idx : GepIdx}
    (hRecord : Recorded env layers s.orderedcorruptedIR key idx) :
    Explained env layers s₀ (s.recordGepIdx key idx) := by
  refine ⟨h.inStep.extends (.of_eq rfl rfl), h.derived, ?_⟩
  intro v entries hEntries
  by_cases hKey : v = key
  · subst hKey
    simp only [State.recordGepIdx, Function.update_self, Option.some.injEq] at hEntries
    subst hEntries
    refine ⟨by simp, ?_⟩
    intro other hOther
    rcases List.mem_append.mp hOther with hOld | hNew
    · cases hPtr : s.corruptedPtr v with
      | none => simp [hPtr] at hOld
      | some old =>
          rw [hPtr, Option.getD_some] at hOld
          exact (h.recorded v old hPtr).2 other hOld
    · rw [List.mem_singleton.mp hNew]
      exact hRecord
  · refine h.recorded v entries ?_
    simpa [hKey] using hEntries

/-- A parameter is justified by the actual at a call that really passes it. -/
theorem bindArg (h : Explained env layers s₀ s) {c : InstRef} {g : FuncRef} {k : Nat}
    {actual : Value} (called : CallsWith env c g k actual) :
    Explained env layers s₀ (bindArg g k actual s) := by
  have hAdded : Explained env layers s₀
      (if actual ∈ s.corruptedIR then s.add2CrptList (.argument g k) else s) := by
    split
    · next hMem => exact h.add fun _ => .inr (.formal called ((h.inStep.mem_iff actual).mpr hMem))
    · exact h
  unfold Env.bindArg
  generalize (if actual ∈ s.corruptedIR then s.add2CrptList (.argument g k) else s) = t at hAdded
  refine ⟨hAdded.inStep.extends (.of_eq (by simp) (by simp)), by simpa using hAdded.derived, ?_⟩
  intro v entries hEntries
  simp only [State.copyGepIdx_corruptedPtr, State.copyGepIdx_orderedcorruptedIR] at hEntries ⊢
  by_cases hFormal : v = .argument g k
  · subst hFormal
    rw [Function.update_self, Option.or_eq_some_iff] at hEntries
    rcases hEntries with hActual | ⟨-, hOld⟩
    · obtain ⟨hNe, hRecorded⟩ := hAdded.recorded actual entries hActual
      exact ⟨hNe, fun idx hIdx => .copied called (hRecorded idx hIdx)⟩
    · exact hAdded.recorded _ entries hOld
  · rw [Function.update_of_ne hFormal] at hEntries
    exact hAdded.recorded v entries hEntries

/-- A corrupted operand of a call is an earlier element or has a record. -/
theorem corruptedOperand (h : Explained env layers s₀ s) {v : Value}
    (hv : corruptedOperand s v = true) : v ∈ s.orderedcorruptedIR ∨
      ∃ idx, Recorded env layers s.orderedcorruptedIR v idx := by
  simp only [Env.corruptedOperand, Bool.and_eq_true, Bool.or_eq_true, decide_eq_true_eq] at hv
  rcases hv.2 with hMem | hKey
  · exact .inl ((h.inStep.mem_iff v).mpr hMem)
  · obtain ⟨entries, hEntries⟩ := Option.isSome_iff_exists.mp hKey
    obtain ⟨hNe, hRecorded⟩ := h.recorded v entries hEntries
    obtain ⟨idx, rest, rfl⟩ := List.exists_cons_of_ne_nil hNe
    exact .inr ⟨idx, hRecorded idx List.mem_cons_self⟩

end Explained

section Steps
variable {layers : List FuncInst} {s₀ : State}

/-- Step lemma: whatever one instruction corrupts is justified by what was corrupted before it. -/
theorem Effect.explained {item : InstRef × Instruction} {l l' : Locals} {s s' : State}
    (hInst : env.module.inst? item.1 = some item.2) (h : Effect env item l s l' s')
    (hs : Explained env layers s₀ s) : Explained env layers s₀ s' := by
  have hOperand : ∀ {v}, item.2.opcode ≠ .call → v ∈ item.2.operands → v ∈ s.corruptedIR →
      Justified env layers s₀ s.orderedcorruptedIR (.instruction item.1) :=
    fun notCall hv hMem => .operand hInst notCall hv ((hs.inStep.mem_iff _).mpr hMem)
  cases h with
  | unchanged => exact hs
  | @external callee isCall direct declared corrupted =>
      obtain ⟨v, hv, hCorrupted⟩ := List.any_eq_true.mp corrupted
      obtain ⟨k, hk⟩ := List.getElem?_of_mem hv
      exact hs.add fun _ => .inr (.external (c := item.1) ⟨item.2, hInst, isCall, direct, hk⟩ declared
        (hs.corruptedOperand hCorrupted))
  | gepRecord isGep hBase hEntries hIdx hMem new =>
      exact hs.add fun _ =>
        .inr (.gep hInst isGep hBase hIdx ((hs.recorded _ _ hEntries).2 _ hMem))
  | gepOperand isGep operand corrupted new hKey hIdx =>
      have hAdded := hs.add (x := .instruction item.1)
        fun _ => .inr (hOperand (by simp [isGep]) operand corrupted)
      refine hAdded.recordGepIdx (.operand hInst isGep hKey hIdx ?_)
      rw [State.add2CrptList_orderedcorruptedIR new]
      simp
  | store isStore operand corrupted new hPointer =>
      have hAdded := hs.add (x := .instruction item.1)
        fun _ => .inr (hOperand (by simp [isStore]) operand corrupted)
      refine hAdded.add fun _ => .inr (.pointer hInst isStore hPointer ?_)
      rw [State.add2CrptList_orderedcorruptedIR new]
      simp
  | branch isBr operand corrupted new =>
      exact (hs.add (x := .instruction item.1)
        fun _ => .inr (hOperand (by simp [isBr]) operand corrupted)).of_eq rfl rfl rfl
  | plain notCall _ _ _ operand corrupted new =>
      exact hs.add fun _ => .inr (hOperand notCall operand corrupted)

/-- Entering a callee binds its formal arguments at a call of it. -/
theorem explained_of_enter {call callee : Call} {item : InstRef × Instruction} {l l' : Locals}
    {s s' : State} (hInst : env.module.inst? item.1 = some item.2)
    (visited : env.visit call item l s = .ok (.enter callee l' s'))
    (hs : Explained env layers s₀ s) : Explained env layers s₀ s' ∧
      ∀ k actual, callee.corruptedparams k = some actual →
        CallsWith env item.1 callee.func k actual := by
  have hEnter := visit_enter visited
  constructor
  · rw [hEnter.state_eq]
    exact hs.of_eq (by simp [checkedState]) (by simp [checkedState]) (by simp [checkedState])
  · intro k actual hActual
    rw [hEnter.params] at hActual
    exact ⟨item.2, hInst, hEnter.isCall, hEnter.direct, (coparams_eq_some.mp hActual).1⟩

theorem explained_of_handleParams {c : InstRef} {f : FuncRef} {corruptedparams : CorruptedArgs}
    {atEnd : Bool} {ks : List Nat} {s s' : State}
    (hCalls : ∀ k actual, corruptedparams k = some actual → CallsWith env c f k actual)
    (h : handleParams f corruptedparams atEnd ks s = some s') (hs : Explained env layers s₀ s) :
    Explained env layers s₀ s' :=
  handleParams_rel (R := fun s s' => Explained env layers s₀ s → Explained env layers s₀ s')
    (fun _ => id) (fun h₁ h₂ => h₂ ∘ h₁)
    (fun _ _ _ hActual _ hs => hs.bindArg (hCalls _ _ hActual)) h hs

/-- A callee is never left before its sweep: without a body and with corrupted
parameters it is not entered. -/
theorem not_returned_of_enter {call callee : Call} {item : InstRef × Instruction} {l l' : Locals}
    {s s' s'' : State} {rv : Bool} (visited : env.visit call item l s = .ok (.enter callee l' s')) :
    env.start callee s' ≠ .ok (.returned rv s'') := by
  intro started
  have hEnter := visit_enter visited
  unfold start at started
  rw [hEnter.noStart] at started
  simp only [startAt] at started
  split at started
  · next hParams =>
      have hEmpty : env.module.instructions callee.func = [] := by
        cases hItems : env.module.instructions callee.func with
        | nil => rfl
        | cons item items =>
            rw [hItems] at hParams
            exact absurd hParams (handleParams_ne_none _ _ _ _)
      have declared : (env.func callee.func).isDeclaration = true :=
        ((env.func callee.func).instructions_eq_nil_iff callee.func).mp hEmpty
      have hClean : paramsCorrupted item.2 s = false := by
        simpa [declared] using hEnter.notExternal
      have hNone : ∀ k, callee.corruptedparams k = none := by
        rw [hEnter.params]
        exact coparams_eq_none hClean
      rw [handleParams_of_none hNone] at hParams
      cases hParams
  · cases started

/-- A complete run, started where the invariant holds, that returns `true`. -/
theorem exists_new_of_runs {call : Call} {s s' : State} (hs : s.InStep)
    (h : env.analyzer.Runs call s true s')
    (hBody : ∀ rv s'', env.start call s ≠ .ok (.returned rv s'')) :
    ∃ v ∈ s'.orderedcorruptedIR, v ∉ s.orderedcorruptedIR := by
  have hStep := hs.extends (runs_extends h)
  generalize hRv : true = rv at h
  cases h with
  | returned started => exact absurd started (hBody _ _)
  | swept started swept =>
      obtain ⟨v, hMem, new⟩ := swept_rv_new started swept hRv.symm
      exact ⟨v, (hStep.mem_iff v).mpr hMem, fun hOld => new ((hs.mem_iff v).mp hOld)⟩

/-- What follows a point of the replay is a point of the replay. -/
theorem Occurs.advance {p q : Point} (h : Occurs env layers s₀ p)
    (hAdvance : env.analyzer.Advances p q) : Occurs env layers s₀ q := by
  obtain ⟨loc, below, s, hReplay, items, l, s₁, started, hReach⟩ := h
  exact ⟨loc, below, s, hReplay, items, l, s₁, started, hReach.tail hAdvance⟩

theorem Occurs.inst? {call : Call} {item : InstRef × Instruction}
    {items : List (InstRef × Instruction)} {l : Locals} {s : State}
    (h : Occurs env layers s₀ ⟨call, item :: items, l, s⟩) :
    env.module.inst? item.1 = some item.2 := by
  obtain ⟨loc, below, t, -, hVisits⟩ := h
  exact (Module.mem_instructions.mp (hVisits.good analyzer_supplies item List.mem_cons_self)).2

/-- The list and the set of corrupted values have the same members all along. -/
theorem Occurs.inStep {p : Point} (h : Occurs env layers s₀ p) (hStart : s₀.InStep) :
    p.state.InStep := by
  obtain ⟨loc, below, s, hReplay, hVisits⟩ := h
  exact (hStart.extends (replayReaches_extends hReplay)).extends (visits_extends hVisits)

/-- The invariant survives every sweep of the replay. -/
theorem explained_of_sweeps (hStart : s₀.InStep) {call : Call}
    {items : List (InstRef × Instruction)} {l l' : Locals} {s s' : State}
    (hOccurs : Occurs env layers s₀ ⟨call, items, l, s⟩)
    (h : env.analyzer.Sweeps call items l s l' s') (hs : Explained env layers s₀ s) :
    Explained env layers s₀ s' := by
  refine Analyzer.Sweeps.invariant (fun h => h.advance) ?_ ?_ ?_ ?_ h hOccurs hs
  · intro call item items l s l' s' hOccurs hs visited
    refine (visit_done visited).explained hOccurs.inst? (hs.of_eq ?_ ?_ ?_) <;> simp [checkedState]
  · intro call item items l s callee l' s' rv s'' hOccurs hs visited started
    exact absurd started (not_returned_of_enter visited)
  · intro call item items l s callee l' s' body lb s'' hOccurs hs visited started
    obtain ⟨hEntered, hCalls⟩ := explained_of_enter hOccurs.inst? visited hs
    obtain ⟨s₁, hSeed, -, hParams⟩ := start_body started
    rw [(visit_enter visited).noStart] at hSeed
    obtain ⟨-, -, rfl⟩ := hSeed.of_none
    exact explained_of_handleParams hCalls hParams hEntered
  · intro call item items l s callee l' s' rv s'' hOccurs visited analysed hs
    cases rv with
    | false => exact hs.of_eq rfl rfl rfl
    | true =>
        have hStep : s'.InStep := by
          have hBefore := hOccurs.inStep hStart
          rw [(visit_enter visited).state_eq]
          exact hBefore.extends (.of_eq (by simp [checkedState]) (by simp [checkedState]))
        obtain ⟨v, hMem, new⟩ :=
          exists_new_of_runs hStep analysed fun _ _ => not_returned_of_enter visited
        have hAdded := hs.add (x := .instruction item.1) fun _ =>
          .inr (.returned hOccurs rfl visited analysed rfl hMem new)
        exact hAdded.of_eq rfl rfl rfl

/-- The seed of a layer is exempt, and the record made for it is its own. -/
theorem Seed.explained {loc : FuncInst} {s s' : State} {rv : Bool}
    {items : List (InstRef × Instruction)} (hLayer : loc ∈ layers)
    (h : Seed env loc.1 s loc.2 rv items s') (hs : Explained env layers s₀ s) :
    Explained env layers s₀ s' := by
  obtain ⟨f, ins⟩ := loc
  have hSeeded : ∀ {r i rest}, ins = some r → (r, i) :: rest <:+ env.module.instructions f →
      i.opcode ≠ .call → Seeded env layers r ∧ env.module.inst? r = some i := by
    intro r i rest hIns suffix notCall
    have hInst := (Module.mem_instructions.mp (suffix.subset List.mem_cons_self)).2
    exact ⟨⟨⟨_, hLayer, hIns⟩, i, hInst, notCall⟩, hInst⟩
  cases h with
  | whole => exact hs
  | resume => exact hs
  | known => exact hs
  | gep suffix isGep new hBase hIdx =>
      obtain ⟨seeded, hInst⟩ := hSeeded rfl suffix (by simp [isGep])
      refine (hs.add fun _ => .inl ⟨_, rfl, seeded⟩).recordGepIdx
        (.seed seeded hInst isGep hBase hIdx ?_)
      rw [State.add2CrptList_orderedcorruptedIR new]
      simp
  | plain suffix notCall =>
      exact hs.add fun _ => .inl ⟨_, rfl, (hSeeded rfl suffix notCall).1⟩

/-- One layer of the replay keeps the invariant. -/
theorem explained_of_analyseFrame (hStart : s₀.InStep) {loc : FuncInst} {below : List FuncInst}
    {s s' : State} {rv : Bool} (hLayer : loc ∈ layers)
    (hReach : env.ReplayReaches (layers, s₀) (loc :: below, s))
    (h : env.analyseFrame loc s = .ok (rv, s')) (hs : Explained env layers s₀ s) :
    Explained env layers s₀ s' ∧ (rv = true →
      ∃ v ∈ s'.orderedcorruptedIR, v ∉ s.orderedcorruptedIR) := by
  have hRuns := env.analyzer.runs_of_run h
  have hBody := env.start_frameCall_ne_returned loc s
  refine ⟨?_, fun hRv => exists_new_of_runs hs.inStep (by rwa [hRv] at hRuns) hBody⟩
  cases hRuns with
  | returned started => exact absurd started (hBody _ _)
  | swept started swept =>
      obtain ⟨s₁, hSeed, -, hParams⟩ := start_body started
      rw [handleParams_of_none (by simp [frameCall]), Option.some.injEq] at hParams
      subst hParams
      exact explained_of_sweeps hStart ⟨loc, below, s, hReach, _, _, _, started, .refl⟩ swept
        (hSeed.explained hLayer hs)

end Steps

/-- Replaying layers keeps the invariant from one layer to the next. -/
theorem explained_of_replayReaches {layers rest : List FuncInst} {s₀ s : State}
    (hStart : Explained env layers s₀ s₀) (hStack : s₀.callStack = layers)
    (h : env.ReplayReaches (layers, s₀) (rest, s)) :
    Explained env layers s₀ s ∧ rest <:+ layers ∧ s.callStack = rest := by
  generalize hConfig : (rest, s) = config at h
  induction h generalizing rest s with
  | refl =>
      cases hConfig
      exact ⟨hStart, List.suffix_refl _, hStack⟩
  | @tail middle last hReach step ih =>
      cases step with
      | @frame loc below t t' rv analysed =>
          cases hConfig
          obtain ⟨ht, hSuffix, hLayers⟩ := ih rfl
          have hBelow : t'.popFrame.callStack = rest := by
            simp [intraDataflowAnalysis_callStack analysed, hLayers]
          obtain ⟨hFrame, hNew⟩ := explained_of_analyseFrame hStart.inStep
            (hSuffix.subset List.mem_cons_self) hReach analysed ht
          have hPop : Explained env layers s₀ t'.popFrame := hFrame.of_eq rfl rfl rfl
          refine ⟨?_, (List.suffix_cons _ _).trans hSuffix, by rw [resumeCaller_callStack, hBelow]⟩
          unfold resumeCaller
          split
          · next f callSite layers hCaller =>
              rw [hBelow] at hCaller
              subst hCaller
              obtain ⟨v, hMem, new⟩ := hNew rfl
              exact hPop.add fun _ => .inr (.resumed hReach analysed rfl hMem new)
          · exact hPop

/-- Every element of the ordered corrupted list that a replay of a call stack
ends with is the instruction that some layer was seeded with, or justified by
the elements before it. -/
theorem replayHead_derived {body : List Site} {head : Site} {s s' : State}
    (h : env.replayHead body head s = .ok s') :
    Derived env ((head :: body).map Site.layer) (beginHead body head s) s'.orderedcorruptedIR := by
  have hStart : Explained env ((head :: body).map Site.layer) (beginHead body head s)
      (beginHead body head s) := by
    refine ⟨⟨List.nodup_nil, by simp [beginHead]⟩, ?_, by simp [beginHead]⟩
    intro earlier x later hList
    simp [beginHead] at hList
  have hLoop : env.replayFrames ((head :: body).map Site.layer) (beginHead body head s) = .ok s' := by
    rw [replayHead, popLoop_eq_replayFrames (by simp [beginHead])] at h
    exact h
  exact (explained_of_replayReaches hStart rfl (replayReaches_of_replayFrames hLoop)).1.derived

/-- The store is justified by the loaded value, the global variable by the store
and the formal argument by the loaded value. -/
theorem replayHead_derived_globalArg :
    ∃ s', globalArgEnv.replayHead [] (0, ⟨0, 0, 0⟩) {} = .ok s' ∧
      s'.orderedcorruptedIR = [.instruction ⟨0, 0, 0⟩, .instruction ⟨0, 0, 1⟩, .globalVariable 1,
        .argument 1 1] ∧
      Derived globalArgEnv [(0, some ⟨0, 0, 0⟩)] (beginHead [] (0, ⟨0, 0, 0⟩) {})
        s'.orderedcorruptedIR := by
  have hEval : ∃ s', globalArgEnv.replayHead [] (0, ⟨0, 0, 0⟩) {} = .ok s' ∧
      s'.orderedcorruptedIR = [.instruction ⟨0, 0, 0⟩, .instruction ⟨0, 0, 1⟩, .globalVariable 1,
        .argument 1 1] := exists_ok_of_eval (by decide)
  obtain ⟨s', hRun, hList⟩ := hEval
  exact ⟨s', hRun, hList, replayHead_derived hRun⟩

end Env
end ConAnalysis
