import ConAnalysis.Dataflow.Termination

/-! The corrupted set and its ordered list only grow, and they grow together.
This holds for every part of the analysis and hence for every run. -/
namespace ConAnalysis
open IR CallSweep

namespace State

/-- `t` continues `s`: the list got new elements at its end, none of them
twice, and the set got exactly these. -/
def Extends (s t : State) : Prop :=
  ∃ added : List Value, t.orderedcorruptedIR = s.orderedcorruptedIR ++ added ∧ added.Nodup ∧
    (∀ v ∈ added, v ∉ s.corruptedIR) ∧ ∀ v, v ∈ t.corruptedIR ↔ v ∈ s.corruptedIR ∨ v ∈ added

/-- Nothing corrupted between the two states is the empty extension. -/
theorem Extends.of_eq {s t : State} (hSet : t.corruptedIR = s.corruptedIR)
    (hList : t.orderedcorruptedIR = s.orderedcorruptedIR) : s.Extends t :=
  ⟨[], by simp [hList], List.nodup_nil, by simp, by simp [hSet]⟩

theorem Extends.refl (s : State) : s.Extends s := .of_eq rfl rfl

/-- Extensions compose: the values of the second step are new to the first one as well. -/
theorem Extends.trans {s t u : State} (h₁ : s.Extends t) (h₂ : t.Extends u) : s.Extends u := by
  obtain ⟨first, hList₁, hNodup₁, hNew₁, hSet₁⟩ := h₁
  obtain ⟨second, hList₂, hNodup₂, hNew₂, hSet₂⟩ := h₂
  refine ⟨first ++ second, by rw [hList₂, hList₁, List.append_assoc], ?_, ?_, ?_⟩
  · rw [List.nodup_append]
    refine ⟨hNodup₁, hNodup₂, ?_⟩
    intro v hv w hw hEq
    subst hEq
    exact hNew₂ v hw ((hSet₁ v).mpr (.inr hv))
  · intro v hv hMem
    rcases List.mem_append.mp hv with hv | hv
    · exact hNew₁ v hv hMem
    · exact hNew₂ v hv ((hSet₁ v).mpr (.inl hMem))
  · intro v
    rw [hSet₂, hSet₁, List.mem_append, or_assoc]

/-- `add2CrptList` appends one new value, or nothing if it is there. -/
theorem Extends.add (v : Value) (s : State) : s.Extends (s.add2CrptList v) := by
  by_cases h : v ∈ s.corruptedIR
  · rw [add2CrptList_of_mem h]
    exact .refl s
  · refine ⟨[v], by simp [add2CrptList, h], List.nodup_singleton v, by simpa using h, ?_⟩
    intro w
    simp [or_comm]

/-- Corruption is never taken back. -/
theorem Extends.subset {s t : State} (h : s.Extends t) : s.corruptedIR ⊆ t.corruptedIR := by
  obtain ⟨added, -, -, -, hSet⟩ := h
  exact fun v hv => (hSet v).mpr (.inl hv)

/-- The list and the set hold the same elements, each once. -/
structure InStep (s : State) : Prop where
  nodup : s.orderedcorruptedIR.Nodup
  mem_iff : ∀ v, v ∈ s.orderedcorruptedIR ↔ v ∈ s.corruptedIR

/-- The set and the list stay in step when both are extended by the same values. -/
theorem InStep.extends {s t : State} (hs : s.InStep) (h : s.Extends t) : t.InStep := by
  obtain ⟨added, hList, hNodup, hNew, hSet⟩ := h
  constructor
  · rw [hList, List.nodup_append]
    refine ⟨hs.nodup, hNodup, ?_⟩
    intro v hv w hw hEq
    subst hEq
    exact hNew v hw ((hs.mem_iff v).mp hv)
  · intro v
    rw [hList, List.mem_append, hs.mem_iff, hSet]

/-- One insertion puts a value that is not corrupted yet at the end of the list and into the
set. Whatever else is done leaves both alone. -/
inductive Insertion : State → State → Prop where
  | corrupt {s : State} {v : Value} (new : v ∉ s.corruptedIR) : Insertion s (s.add2CrptList v)
  | other {s t : State} (hSet : t.corruptedIR = s.corruptedIR)
      (hList : t.orderedcorruptedIR = s.orderedcorruptedIR) : Insertion s t

/-- One insertion at most lengthens the list by its value. -/
theorem Insertion.extends {s t : State} (h : Insertion s t) : s.Extends t := by
  cases h with
  | corrupt => exact .add _ s
  | other hSet hList => exact .of_eq hSet hList

/-- `t` continues `s` by insertions. -/
def Grows : State → State → Prop := Relation.ReflTransGen Insertion

/-- Growing is reflexive and transitive, so that calls inside calls need no bound on their
steps. -/
theorem Grows.refl (s : State) : s.Grows s := Relation.ReflTransGen.refl

theorem Grows.trans {s t u : State} (h₁ : s.Grows t) (h₂ : t.Grows u) : s.Grows u :=
  Relation.ReflTransGen.trans h₁ h₂

/-- A step that writes other members only is one of the chain too. -/
theorem Grows.of_eq {s t : State} (hSet : t.corruptedIR = s.corruptedIR)
    (hList : t.orderedcorruptedIR = s.orderedcorruptedIR) : s.Grows t := .single (.other hSet hList)

/-- Adding a value that is there already changes nothing, which counts as a step as well. -/
theorem Grows.add (v : Value) (s : State) : s.Grows (s.add2CrptList v) := by
  by_cases h : v ∈ s.corruptedIR
  · rw [add2CrptList_of_mem h]
    exact .refl s
  · exact .single (.corrupt h)

/-- A chain of insertions extends the list by the values inserted. -/
theorem Grows.extends {s t : State} (h : s.Grows t) : s.Extends t := by
  induction h with
  | refl => exact .refl s
  | tail _ last ih => exact ih.trans last.extends

end State

namespace Env
variable {env : Env}

/-- Step lemma: whatever the opcode, one instruction only inserts. -/
theorem Effect.grows {item : InstRef × Instruction} {l l' : Locals} {s s' : State}
    (h : Effect env item l s l' s') : s.Grows s' := by
  cases h with
  | unchanged => exact .refl s
  | external => exact .add _ s
  | gepRecord => exact .add _ s
  | gepOperand => exact (State.Grows.add _ s).trans (.of_eq rfl rfl)
  | store => exact (State.Grows.add _ s).trans (.add _ _)
  | branch => exact (State.Grows.add _ s).trans (.of_eq rfl rfl)
  | plain => exact .add _ s

/-- The same with the order of the insertions forgotten. -/
theorem Effect.extends {item : InstRef × Instruction} {l l' : Locals} {s s' : State}
    (h : Effect env item l s l' s') : s.Extends s' := h.grows.extends

/-- A visit enters its own instruction, and reports that unless it is a call or
a GEP, and a store also enters one of its operands. -/
theorem Effect.mem {item : InstRef × Instruction} {l l' : Locals} {s s' : State} {v : Value}
    (h : Effect env item l s l' s') (hMem : v ∈ s'.corruptedIR) :
    v ∈ s.corruptedIR ∨
      v = .instruction item.1 ∧
        (item.2.opcode = .call ∨ item.2.opcode = .getElementPtr ∨ l'.rv = true) ∨
      v ∈ item.2.operands := by
  cases h with
  | unchanged => exact .inl hMem
  | external isCall =>
      rw [State.add2CrptList_corruptedIR, Finset.mem_insert] at hMem
      exact hMem.elim (fun hEq => .inr (.inl ⟨hEq, .inl isCall⟩)) .inl
  | gepRecord isGep =>
      rw [State.add2CrptList_corruptedIR, Finset.mem_insert] at hMem
      exact hMem.elim (fun hEq => .inr (.inl ⟨hEq, .inr (.inl isGep)⟩)) .inl
  | gepOperand isGep =>
      rw [State.recordGepIdx, State.add2CrptList_corruptedIR, Finset.mem_insert] at hMem
      exact hMem.elim (fun hEq => .inr (.inl ⟨hEq, .inr (.inl isGep)⟩)) .inl
  | store isStore operand corrupted new hPointer =>
      rw [State.add2CrptList_corruptedIR, State.add2CrptList_corruptedIR, Finset.mem_insert,
        Finset.mem_insert] at hMem
      rcases hMem with rfl | hEq | hMem
      · exact .inr (.inr (List.mem_of_getElem? hPointer))
      · exact .inr (.inl ⟨hEq, .inr (.inr rfl)⟩)
      · exact .inl hMem
  | branch isBr =>
      rw [State.add2CrptList_corruptedIR, Finset.mem_insert] at hMem
      exact hMem.elim (fun hEq => .inr (.inl ⟨hEq, .inr (.inr rfl)⟩)) .inl
  | plain =>
      rw [State.add2CrptList_corruptedIR, Finset.mem_insert] at hMem
      exact hMem.elim (fun hEq => .inr (.inl ⟨hEq, .inr (.inr rfl)⟩)) .inl

/-- Starting at an instruction corrupts it if it is not corrupted yet. -/
theorem Seed.grows {f : FuncRef} {ins : Option InstRef} {s s' : State} {rv : Bool}
    {items : List (InstRef × Instruction)} (h : Seed env f s ins rv items s') : s.Grows s' := by
  cases h with
  | whole => exact .refl s
  | resume => exact .refl s
  | known => exact .refl s
  | gep => exact (State.Grows.add _ s).trans (.of_eq rfl rfl)
  | plain => exact .add _ s

theorem bindArg_grows (f : FuncRef) (k : Nat) (actual : Value) (s : State) :
    s.Grows (bindArg f k actual s) := by
  unfold bindArg
  split
  · exact (State.Grows.add (.argument f k) s).trans (.of_eq (by simp) (by simp))
  · exact .of_eq (by simp) (by simp)

theorem handleParams_grows {f : FuncRef} {corruptedparams : CorruptedArgs} {atEnd : Bool}
    {ks : List Nat} {s s' : State} (h : handleParams f corruptedparams atEnd ks s = some s') :
    s.Grows s' :=
  handleParams_rel .refl .trans (fun _ _ _ _ _ => bindArg_grows ..) h

/-- Coming back from a callee inserts the call at most. -/
theorem leave_grows (callee : Call) (item : InstRef × Instruction) (addFuncRet : Bool)
    (s : State) : s.Grows (leave callee item addFuncRet s) := by
  cases addFuncRet with
  | false => exact .of_eq rfl rfl
  | true => exact (State.Grows.add _ s).trans (.of_eq rfl rfl)

/-- All that a sweep does are insertions, so every run of the analysis grows. -/
theorem analyzer_grows (Good : Call → InstRef × Instruction → Prop) :
    env.analyzer.Respects Good State.Grows where
  refl := .refl
  trans := .trans
  returned h := by
    obtain ⟨-, rv, hSeed⟩ := start_returned h
    exact hSeed.grows
  body h := by
    obtain ⟨s₁, hSeed, -, hParams⟩ := start_body h
    exact hSeed.grows.trans (handleParams_grows hParams)
  done _ h :=
    State.Grows.trans (.of_eq (by simp [checkedState]) (by simp [checkedState]))
      (visit_done h).grows
  enter _ h := by
    rw [(visit_enter h).state_eq]
    exact .of_eq (by simp [checkedState]) (by simp [checkedState])
  leave _ _ _ _ := leave_grows ..

/-- The start of a frame extends what the frames before it have corrupted. -/
theorem Seed.extends {f : FuncRef} {ins : Option InstRef} {s s' : State} {rv : Bool}
    {items : List (InstRef × Instruction)} (h : Seed env f s ins rv items s') : s.Extends s' :=
  h.grows.extends

theorem bindArg_extends (f : FuncRef) (k : Nat) (actual : Value) (s : State) :
    s.Extends (bindArg f k actual s) := (bindArg_grows f k actual s).extends

/-- The parameters that become corrupted are appended in their order. -/
theorem handleParams_extends {f : FuncRef} {corruptedparams : CorruptedArgs} {atEnd : Bool}
    {ks : List Nat} {s s' : State} (h : handleParams f corruptedparams atEnd ks s = some s') :
    s.Extends s' := (handleParams_grows h).extends

/-- The call instruction is appended behind what its callee corrupted. -/
theorem leave_extends (callee : Call) (item : InstRef × Instruction) (addFuncRet : Bool)
    (s : State) : s.Extends (leave callee item addFuncRet s) :=
  (leave_grows callee item addFuncRet s).extends

/-- Run rule for extensions, from the one for insertions. -/
theorem analyzer_extends (Good : Call → InstRef × Instruction → Prop) :
    env.analyzer.Respects Good State.Extends where
  refl := .refl
  trans := .trans
  returned h := ((analyzer_grows Good).returned h).extends
  body h := ((analyzer_grows Good).body h).extends
  done hGood h := ((analyzer_grows Good).done hGood h).extends
  enter hGood h := ((analyzer_grows Good).enter hGood h).extends
  leave _ _ _ _ := leave_extends ..

/-- A whole analysis, callees included, appends to what it starts from. -/
theorem runs_extends {call : Call} {s s' : State} {rv : Bool}
    (h : env.analyzer.Runs call s rv s') : s.Extends s' :=
  (analyzer_extends fun _ _ => True).runs (fun _ _ _ => trivial) h

theorem sweeps_extends {call : Call} {items : List (InstRef × Instruction)} {l l' : Locals}
    {s s' : State} (h : env.analyzer.Sweeps call items l s l' s') : s.Extends s' :=
  (analyzer_extends fun _ _ => True).sweeps (fun _ _ _ => trivial) (fun _ _ => trivial) h

/-- A visit that sets the return value has entered its instruction. -/
theorem Effect.rv_new {item : InstRef × Instruction} {l l' : Locals} {s s' : State}
    (h : Effect env item l s l' s') (hRv : l'.rv = true) :
    l.rv = true ∨ .instruction item.1 ∉ s.corruptedIR ∧ .instruction item.1 ∈ s'.corruptedIR := by
  cases h with
  | unchanged => exact .inl hRv
  | external => exact .inl hRv
  | gepRecord => exact .inl hRv
  | gepOperand => exact .inl hRv
  | store _ _ _ new => exact .inr ⟨new, by simp⟩
  | branch _ _ _ new => exact .inr ⟨new, by simp⟩
  | plain _ _ _ _ _ _ new => exact .inr ⟨new, by simp⟩

/-- The start answers true only if its instruction was not corrupted before. -/
theorem Seed.rv_new {f : FuncRef} {ins : Option InstRef} {s s' : State}
    {items : List (InstRef × Instruction)} (h : Seed env f s ins true items s') :
    ∃ v ∈ s'.corruptedIR, v ∉ s.corruptedIR := by
  cases h with
  | gep _ _ new => exact ⟨_, by simp, new⟩
  | plain _ _ _ new => exact ⟨_, by simp, new⟩

/-- A sweep that turns the answer to true has corrupted something new. -/
theorem sweeps_rv_new {call : Call} {items : List (InstRef × Instruction)} {l l' : Locals}
    {s s' : State} (h : env.analyzer.Sweeps call items l s l' s') (hRv : l'.rv = true) :
    l.rv = true ∨ ∃ v ∈ s'.corruptedIR, v ∉ s.corruptedIR := by
  induction h with
  | nil => exact .inl hRv
  | @done call item items l l₁ l₂ s s₁ s₂ visited rest ih =>
      rcases ih hRv with hRv | ⟨v, hMem, new⟩
      · refine ((visit_done visited).rv_new hRv).imp_right ?_
        rintro ⟨new, hMem⟩
        exact ⟨_, (sweeps_extends rest).subset hMem, by simpa [checkedState] using new⟩
      · refine .inr ⟨v, hMem, fun hOld => new ((visit_done visited).extends.subset ?_)⟩
        simpa [checkedState] using hOld
  | returned visited started rest ih =>
      have hEnter := visit_enter visited
      refine (ih hRv).imp (fun hRv => by rw [hEnter.locals_eq] at hRv; exact hRv) ?_
      rintro ⟨v, hMem, new⟩
      refine ⟨v, hMem, fun hOld => new ?_⟩
      refine (leave_extends ..).subset ((runs_extends (.returned started)).subset ?_)
      simpa [hEnter.state_eq, checkedState] using hOld
  | entered visited started swept rest _ ih =>
      have hEnter := visit_enter visited
      refine (ih hRv).imp (fun hRv => by rw [hEnter.locals_eq] at hRv; exact hRv) ?_
      rintro ⟨v, hMem, new⟩
      refine ⟨v, hMem, fun hOld => new ?_⟩
      refine (leave_extends ..).subset ((runs_extends (.swept started swept)).subset ?_)
      simpa [hEnter.state_eq, checkedState] using hOld

/-- A call of `intraDataflowAnalysis` that gets to its sweep and returns `true`
has corrupted something new. -/
theorem swept_rv_new {call : Call} {items : List (InstRef × Instruction)} {l l' : Locals}
    {s s₁ s' : State} (started : env.start call s = .ok (.body items l s₁))
    (swept : env.analyzer.Sweeps call items l s₁ l' s') (hRv : l'.rv = true) :
    ∃ v ∈ s'.corruptedIR, v ∉ s.corruptedIR := by
  obtain ⟨s₂, hSeed, -, hParams⟩ := start_body started
  have hGrow := hSeed.extends.subset
  rcases sweeps_rv_new swept hRv with hSeedRv | ⟨v, hMem, new⟩
  · rw [hSeedRv] at hSeed
    obtain ⟨v, hMem, new⟩ := hSeed.rv_new
    exact ⟨v, (sweeps_extends swept).subset ((handleParams_extends hParams).subset hMem), new⟩
  · exact ⟨v, hMem, fun hOld => new ((handleParams_extends hParams).subset (hGrow hOld))⟩

/-- Popping a frame corrupts the next call site at most. -/
theorem resumeCaller_extends (addFuncRet : Bool) (s : State) :
    s.Extends (resumeCaller addFuncRet s) := by
  unfold resumeCaller
  split
  · exact .add ..
  · exact .refl _

/-- At each point visited on the way nothing of the start is lost. -/
theorem visits_extends {call : Call} {s : State} {p : Point} (h : env.analyzer.Visits call s p) :
    s.Extends p.state :=
  (analyzer_extends fun _ _ => True).visits (fun _ _ _ => trivial) h

theorem replayReaches_extends {c c' : List FuncInst × State} (h : env.ReplayReaches c c') :
    c.2.Extends c'.2 := by
  induction h with
  | refl => exact .refl _
  | tail _ last ih =>
      cases last with
      | @frame loc below s s' addFuncRet analysed =>
          have hRun := runs_extends (env.analyzer.runs_of_run analysed)
          have hPop : s'.Extends s'.popFrame := .of_eq rfl rfl
          exact ih.trans (hRun.trans (hPop.trans (resumeCaller_extends _ _)))

end Env
end ConAnalysis
