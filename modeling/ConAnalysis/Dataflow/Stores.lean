import ConAnalysis.Dataflow.FieldTable

/-! Corrupted stores and the memory they write to. A store that is corrupted through an
operand corrupts its pointer operand as well. -/
namespace ConAnalysis
open IR CallSweep

variable {item : InstRef × Instruction} {l l' : Locals} {s s' : State}

/-- The doors through which a visit lets values into the corrupted set, and what the
sweep remembers of branches. -/
structure Visited (item : InstRef × Instruction) (l : Locals) (s : State) (l' : Locals)
    (s' : State) : Prop where
  subset : s.corruptedIR ⊆ s'.corruptedIR
  added : ∀ v ∈ s'.corruptedIR, v ∈ s.corruptedIR ∨ v = .instruction item.1 ∨
    item.2.opcode = .store ∧ item.2.operands[1]? = some v
  pointer : item.2.opcode = .store → .instruction item.1 ∈ s'.corruptedIR →
    .instruction item.1 ∉ s.corruptedIR → ∀ v, item.2.operands[1]? = some v → v ∈ s'.corruptedIR
  remembered : l'.localCorruptedBr = l.localCorruptedBr ∨
    item.2.opcode = .br ∧ .instruction item.1 ∉ s.corruptedIR ∧
      l'.localCorruptedBr = l.localCorruptedBr ++ [item.1]
  branch : item.2.opcode = .br → .instruction item.1 ∈ s'.corruptedIR →
    .instruction item.1 ∉ s.corruptedIR → item.1 ∈ l'.localCorruptedBr

theorem Visited.unchanged : Visited item l s l s where
  subset := Finset.Subset.refl _
  added _ hv := .inl hv
  pointer _ hMem new := absurd hMem new
  remembered := .inl rfl
  branch _ hMem new := absurd hMem new

/-- Only the instruction is entered. -/
theorem Visited.add (noPointer : item.2.opcode = .store → item.2.operands[1]? = none)
    (notBr : item.2.opcode ≠ .br)
    (hSet : s'.corruptedIR = insert (.instruction item.1) s.corruptedIR)
    (hBr : l'.localCorruptedBr = l.localCorruptedBr) : Visited item l s l' s' where
  subset := hSet ▸ Finset.subset_insert ..
  added v hv := by
    rw [hSet, Finset.mem_insert] at hv
    exact hv.symm.imp_right .inl
  pointer isStore _ _ v hv := by simp [noPointer isStore] at hv
  remembered := .inl hBr
  branch isBr := absurd isBr notBr

theorem Visited.getElementPtr (isGep : item.2.opcode = .getElementPtr)
    (h : Env.visitGetElementPtr item.1 item.2 s = .ok s') :
    Visited item l s l s' := by
  rcases visitGetElementPtr_spec isGep h with rfl | rfl | ⟨key, idx, -, rfl⟩
  · exact .unchanged
  · exact .add (by simp [isGep]) (by simp [isGep]) (State.add2CrptList_corruptedIR ..) rfl
  · exact .add (by simp [isGep]) (by simp [isGep]) (State.add2CrptList_corruptedIR ..) rfl

theorem Visited.store {pointer : Value} (isStore : item.2.opcode = .store)
    (hPointer : item.2.operands[1]? = some pointer)
    (hSet : s'.corruptedIR = insert pointer (insert (.instruction item.1) s.corruptedIR))
    (hBr : l'.localCorruptedBr = l.localCorruptedBr) : Visited item l s l' s' where
  subset := hSet ▸ (Finset.subset_insert ..).trans (Finset.subset_insert ..)
  added v hv := by
    rw [hSet, Finset.mem_insert, Finset.mem_insert] at hv
    rcases hv with rfl | rfl | hv
    · exact .inr (.inr ⟨isStore, hPointer⟩)
    · exact .inr (.inl rfl)
    · exact .inl hv
  pointer _ _ _ v hv := by
    cases hPointer.symm.trans hv
    exact hSet ▸ Finset.mem_insert_self ..
  remembered := .inl hBr
  branch isBr := by simp [isStore] at isBr

theorem Visited.br (isBr : item.2.opcode = .br) (new : .instruction item.1 ∉ s.corruptedIR)
    (hSet : s'.corruptedIR = insert (.instruction item.1) s.corruptedIR)
    (hBr : l'.localCorruptedBr = l.localCorruptedBr ++ [item.1]) : Visited item l s l' s' where
  subset := hSet ▸ Finset.subset_insert ..
  added v hv := by
    rw [hSet, Finset.mem_insert] at hv
    exact hv.symm.imp_right .inl
  pointer isStore := by simp [isBr] at isStore
  remembered := .inr ⟨isBr, new, hBr⟩
  branch _ _ _ := by simp [hBr]

/-- The remaining opcodes use no other doors. -/
theorem Visited.other : Visited item l s (Env.visitOther item.1 item.2 l s).1
    (Env.visitOther item.1 item.2 l s).2 := by
  unfold Env.visitOther
  split
  · next hOperand =>
      split
      · next isStore =>
          cases hPointer : item.2.operands[1]? with
          | none =>
              exact .add (fun _ => hPointer) (by simp [isStore])
                (State.add2CrptList_corruptedIR ..) rfl
          | some pointer => exact .store isStore hPointer (by simp) rfl
      · next isBr => exact .br isBr hOperand.2 (by simp) rfl
      · next notStore notBr =>
          exact .add (fun isStore => absurd isStore notStore) notBr (State.add2CrptList_corruptedIR ..) rfl
  · exact .unchanged

@[simp] theorem Env.visitOther_corruptedPtr (r : InstRef) (i : Instruction) (l : Locals) (s : State) :
    (Env.visitOther r i l s).2.corruptedPtr = s.corruptedPtr := by
  unfold Env.visitOther
  split
  · split
    · split <;> simp
    · simp
    · simp
  · rfl

/-- A visit of the pass that follows calls. -/
theorem Env.Effect.visited {env : Env} (h : Env.Effect env item l s l' s') :
    Visited item l s l' s' := by
  cases h with
  | unchanged => exact .unchanged
  | external isCall =>
      exact .add (by simp [isCall]) (by simp [isCall]) (State.add2CrptList_corruptedIR ..) rfl
  | gepRecord isGep =>
      exact .add (by simp [isGep]) (by simp [isGep]) (State.add2CrptList_corruptedIR ..) rfl
  | gepOperand isGep =>
      exact .add (by simp [isGep]) (by simp [isGep]) (State.add2CrptList_corruptedIR ..) rfl
  | store isStore _ _ _ hPointer => exact .store isStore hPointer (by simp) rfl
  | branch isBr _ _ new => exact .br isBr new (State.add2CrptList_corruptedIR ..) rfl
  | plain _ _ notBr noPointer =>
      exact .add noPointer notBr (State.add2CrptList_corruptedIR ..) rfl

/-- The corrupted stores among some instructions have corrupted what they write to. -/
def StoresPass (items : List (InstRef × Instruction)) (s : State) : Prop :=
  ∀ item ∈ items, item.2.opcode = .store → .instruction item.1 ∈ s.corruptedIR →
    ∀ pointer, item.2.operands[1]? = some pointer → pointer ∈ s.corruptedIR

/-- If the instruction is a store that is not corrupted yet, what it writes to is. -/
def PointerKnown (item : InstRef × Instruction) (s : State) : Prop :=
  item.2.opcode = .store → .instruction item.1 ∉ s.corruptedIR →
    ∀ pointer, item.2.operands[1]? = some pointer → pointer ∈ s.corruptedIR

section Steps
variable {M : Module} {items : List (InstRef × Instruction)}

theorem IR.Module.item_eq {a b : InstRef × Instruction} (ha : M.inst? a.1 = some a.2)
    (hb : M.inst? b.1 = some b.2) (hRef : a.1 = b.1) : a = b := by
  rw [hRef] at ha
  exact Prod.ext hRef (Option.some.inj (ha.symm.trans hb))

/-- Stores that are corrupted anew have to bring their pointers along, those corrupted before
have them already. -/
theorem StoresPass.mono (h : StoresPass items s) (hSub : s.corruptedIR ⊆ s'.corruptedIR)
    (hNew : ∀ item ∈ items, item.2.opcode = .store → .instruction item.1 ∈ s'.corruptedIR →
      .instruction item.1 ∉ s.corruptedIR →
        ∀ pointer, item.2.operands[1]? = some pointer → pointer ∈ s'.corruptedIR) :
    StoresPass items s' := by
  intro item hItem isStore hMem pointer hPointer
  by_cases hOld : .instruction item.1 ∈ s.corruptedIR
  · exact hSub (h item hItem isStore hOld pointer hPointer)
  · exact hNew item hItem isStore hMem hOld pointer hPointer

/-- Only the corrupted values count. -/
theorem StoresPass.congr (h : StoresPass items s) (hSet : s'.corruptedIR = s.corruptedIR) :
    StoresPass items s' :=
  h.mono (hSet ▸ Finset.Subset.refl _) fun _ _ _ hMem new => absurd (hSet ▸ hMem) new

/-- Nothing but a value that is no store is entered. -/
theorem StoresPass.add {v : Value} (h : StoresPass items s)
    (hSet : s'.corruptedIR ⊆ insert v s.corruptedIR) (hSub : s.corruptedIR ⊆ s'.corruptedIR)
    (hv : ∀ item ∈ items, v = .instruction item.1 → item.2.opcode ≠ .store) :
    StoresPass items s' := by
  refine h.mono hSub fun item hItem isStore hMem new => ?_
  rcases Finset.mem_insert.mp (hSet hMem) with hEq | hOld
  · exact absurd isStore (hv item hItem hEq.symm)
  · exact absurd hOld new

/-- A visit corrupts no other store, because a store is nobody's operand. -/
theorem StoresPass.visited (hItems : ∀ item ∈ items, M.inst? item.1 = some item.2)
    (hItem : M.inst? item.1 = some item.2) (hs : StoresPass items s)
    (h : Visited item l s l' s') : StoresPass items s' := by
  refine hs.mono h.subset fun store hStore isStore hMem new pointer hPointer => ?_
  rcases h.added _ hMem with hOld | hEq | ⟨-, hOperand⟩
  · exact absurd hOld new
  · obtain rfl := Module.item_eq (hItems _ hStore) hItem (Value.instruction.inj hEq)
    exact h.pointer isStore hMem new pointer hPointer
  · have hVoid := Module.operand_not_void hItem (List.mem_of_getElem? hOperand) (hItems _ hStore)
    simp [isStore, Opcode.isVoid] at hVoid

/-- A store is entered without a look at its operands. -/
theorem StoresPass.enter (hItems : ∀ item ∈ items, M.inst? item.1 = some item.2)
    (hItem : M.inst? item.1 = some item.2) (hs : StoresPass items s) (hKnown : PointerKnown item s)
    (hSet : s'.corruptedIR = insert (.instruction item.1) s.corruptedIR) :
    StoresPass items s' := by
  refine hs.mono (hSet ▸ Finset.subset_insert ..) fun store hStore isStore hMem new => ?_
  rw [hSet, Finset.mem_insert] at hMem
  obtain rfl := Module.item_eq (hItems _ hStore) hItem (Value.instruction.inj (hMem.resolve_right new))
  exact fun pointer hPointer =>
    hSet ▸ Finset.mem_insert_of_mem (hKnown isStore new pointer hPointer)

end Steps

section Analysis
open Env
variable {env : Env} {items : List (InstRef × Instruction)}

def sweptItems (M : Module) (f : FuncRef) : Option InstRef → List (InstRef × Instruction)
  | none => M.instructions f
  | some start => (M.instructions f).dropWhile fun item => item.1 ≠ start

theorem sweptItems_inst? {M : Module} {f : FuncRef} {ins : Option InstRef}
    {item : InstRef × Instruction} (h : item ∈ sweptItems M f ins) :
    M.inst? item.1 = some item.2 := by
  have hMem : item ∈ M.instructions f := by
    cases ins with
    | none => exact h
    | some start => exact (List.dropWhile_suffix _).subset h
  exact (Module.mem_instructions.mp hMem).2

theorem StoresPass.bindArg {f : FuncRef} {k : Nat} {actual : Value} (h : StoresPass items s) :
    StoresPass items (bindArg f k actual s) := by
  have hSet : (Env.bindArg f k actual s).corruptedIR ⊆ insert (.argument f k) s.corruptedIR := by
    unfold Env.bindArg
    split <;> simp [Finset.subset_insert]
  refine h.add hSet (bindArg_extends ..).subset fun _ _ hEq => ?_
  cases hEq

/-- A start instruction is entered without a look at its operands, too. -/
theorem StoresPass.seed {f : FuncRef} {ins : Option InstRef} {rv : Bool}
    {body : List (InstRef × Instruction)}
    (hItems : ∀ item ∈ items, env.module.inst? item.1 = some item.2) (hs : StoresPass items s)
    (hKnown : ∀ r i, ins = some r → env.module.inst? r = some i → PointerKnown (r, i) s)
    (h : Seed env f s ins rv body s') : StoresPass items s' := by
  cases h with
  | whole => exact hs
  | resume => exact hs
  | known => exact hs
  | gep suffix =>
      have hInst := (Module.mem_instructions.mp (suffix.subset List.mem_cons_self)).2
      exact hs.enter hItems hInst (hKnown _ _ rfl hInst) (State.add2CrptList_corruptedIR ..)
  | plain suffix =>
      have hInst := (Module.mem_instructions.mp (suffix.subset List.mem_cons_self)).2
      exact hs.enter hItems hInst (hKnown _ _ rfl hInst) (State.add2CrptList_corruptedIR ..)

/-- The start instruction may be a store itself. Its pointer is not taken along, so it has to be
known. -/
theorem StoresPass.start {call : Call} {body : List (InstRef × Instruction)}
    (hItems : ∀ item ∈ items, env.module.inst? item.1 = some item.2) (hs : StoresPass items s)
    (hKnown : ∀ r i, call.ins = some r → env.module.inst? r = some i → PointerKnown (r, i) s)
    (h : env.start call s = .ok (.body body l s')) : StoresPass items s' := by
  obtain ⟨s₁, hSeed, -, hParams⟩ := start_body h
  exact handleParams_rel (R := fun s s' => StoresPass items s → StoresPass items s')
    (fun _ => id) (fun h₁ h₂ => h₂ ∘ h₁) (fun _ _ _ _ _ => StoresPass.bindArg) hParams
    (hs.seed hItems hKnown hSeed)

/-- Only calls are entered when a callee is left. -/
theorem StoresPass.leave {call callee : Call} {addFuncRet : Bool}
    (hItems : ∀ item ∈ items, env.module.inst? item.1 = some item.2)
    (hItem : env.module.inst? item.1 = some item.2) {t t' : State}
    (visited : env.visit call item l t = .ok (.enter callee l' t')) (hs : StoresPass items s) :
    StoresPass items (Env.leave callee item addFuncRet s) := by
  have hSet : (Env.leave callee item addFuncRet s).corruptedIR ⊆
      insert (.instruction item.1) s.corruptedIR := by
    unfold Env.leave
    split <;> simp [Finset.subset_insert]
  refine hs.add hSet (leave_extends ..).subset fun store hStore hEq => ?_
  rw [Module.item_eq (hItems _ hStore) hItem (Value.instruction.inj hEq).symm,
    (visit_enter visited).isCall]
  simp

/-- Rule for the sweep. A store that is corrupted because of a branch is the second place where
the pointer is left out. -/
theorem Env.storesPass_chronicles (hItems : ∀ item ∈ items, env.module.inst? item.1 = some item.2) :
    env.analyzer.Chronicles (fun call item => item ∈ env.module.instructions call.func)
      fun _ s => StoresPass items s where
  done hItem hs visited := by
    refine StoresPass.visited hItems (Module.mem_instructions.mp hItem).2 ?_
      (visit_done visited).visited
    exact hs.congr (by simp [checkedState])
  returned _ hs visited started := by
    obtain ⟨-, rv, hSeed⟩ := start_returned started
    rw [(visit_enter visited).noStart] at hSeed
    obtain ⟨-, -, rfl⟩ := hSeed.of_none
    exact hs.congr (by simp [(visit_enter visited).state_eq, checkedState])
  body _ hs visited started := by
    have hEntered := visit_enter visited
    refine StoresPass.start hItems (hs.congr ?_) ?_ started
    · simp [hEntered.state_eq, checkedState]
    · simp [hEntered.noStart]
  leave hItem hs visited _ := hs.leave hItems (Module.mem_instructions.mp hItem).2 visited

/-- The corrupted stores behind the start have corrupted what they write to when the
analysis returns, unless the start itself is a store that has not. -/
theorem Env.storesPass_of_intraDataflowAnalysis {fuel : Nat} {call : Call} {rv : Bool}
    (hs : StoresPass (sweptItems env.module call.func call.ins) s)
    (hKnown : ∀ r i, call.ins = some r → env.module.inst? r = some i → PointerKnown (r, i) s)
    (h : env.intraDataflowAnalysis fuel call s = .ok (rv, s')) :
    StoresPass (sweptItems env.module call.func call.ins) s' := by
  have hItems : ∀ item ∈ sweptItems env.module call.func call.ins,
      env.module.inst? item.1 = some item.2 := fun _ => sweptItems_inst?
  cases env.analyzer.runs_of_run h with
  | returned started =>
      obtain ⟨-, rv, hSeed⟩ := start_returned started
      exact hs.seed hItems hKnown hSeed
  | swept started sweeps =>
      exact (Env.storesPass_chronicles hItems).sweeps analyzer_supplies ∅ (analyzer_supplies started)
        (hs.start hItems hKnown started) sweeps

end Analysis
end ConAnalysis
