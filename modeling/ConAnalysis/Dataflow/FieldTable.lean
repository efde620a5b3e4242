import ConAnalysis.Dataflow.History
import ConAnalysis.Dataflow.Growth

/-! The table `corruptedPtr_` of the fields that corrupted GEPs access. A GEP that the
analysis starts at is filed under its base, like the look-up expects; a GEP that is
corrupted through an operand is filed under its first index. -/
namespace ConAnalysis
open IR CallSweep

/-- A corrupted GEP with this base accesses the field, or the value is a formal
argument that such a base has been bound to. -/
inductive Accessed (M : Module) (bound : Value → Value → Prop) (corrupted : Finset Value)
    (idx : GepIdx) : Value → Prop where
  | base {r : InstRef} {i : Instruction} {v : Value} (hInst : M.inst? r = some i)
      (isGep : i.opcode = .getElementPtr) (hMem : .instruction r ∈ corrupted)
      (hBase : i.operands[0]? = some v) (hIdx : gepIdx i = some idx) :
      Accessed M bound corrupted idx v
  | formal {f : FuncRef} {k : Nat} {v : Value} (hBound : bound (.argument f k) v)
      (source : Accessed M bound corrupted idx v) :
      Accessed M bound corrupted idx (.argument f k)

/-- An access stays one when more is bound and more is corrupted. -/
theorem Accessed.mono {M : Module} {bound bound' : Value → Value → Prop}
    {corrupted corrupted' : Finset Value} {idx : GepIdx} {v : Value}
    (hBound : ∀ formal actual, bound formal actual → bound' formal actual)
    (hSub : corrupted ⊆ corrupted') (h : Accessed M bound corrupted idx v) :
    Accessed M bound' corrupted' idx v := by
  induction h with
  | base hInst isGep hMem hBase hIdx => exact .base hInst isGep (hSub hMem) hBase hIdx
  | formal hFormal _ ih => exact .formal (hBound _ _ hFormal) ih

/-- Every key has entries, and every entry is for a field that is accessed. -/
def FieldTable (M : Module) (bound : Value → Value → Prop) (s : State) : Prop :=
  ∀ v entries, s.corruptedPtr v = some entries →
    entries ≠ [] ∧ ∀ idx ∈ entries, Accessed M bound s.corruptedIR idx v

/-- The GEP is going to be filed under its first index: it is new, an operand of it is
corrupted, and the table has no entry for the field of its base. -/
structure FilesOperand (item : InstRef × Instruction) (s : State) (key : Value) (idx : GepIdx) :
    Prop where
  isGep : item.2.opcode = .getElementPtr
  new : .instruction item.1 ∉ s.corruptedIR
  operand : ∃ v ∈ item.2.operands, v ∈ s.corruptedIR
  hKey : item.2.operands[1]? = some key
  hIdx : gepIdx item.2 = some idx
  noEntry : idx ∉ (item.2.operands[0]?.bind s.corruptedPtr).getD []

/-- Filing a GEP under its first index does no harm: this is its base too, or the
field of this value is filed already, or a corrupted GEP accesses it. -/
def HarmlessKey (M : Module) (item : InstRef × Instruction) (s : State) : Prop :=
  ∀ key idx, FilesOperand item s key idx →
    item.2.operands[0]? = some key ∨ idx ∈ (s.corruptedPtr key).getD [] ∨
      ∃ r i, M.inst? r = some i ∧ i.opcode = .getElementPtr ∧ .instruction r ∈ s.corruptedIR ∧
        i.operands[0]? = some key ∧ gepIdx i = some idx

/-- Whether the key is harmless depends only on the two containers. -/
theorem HarmlessKey.congr {M : Module} {item : InstRef × Instruction} {s t : State}
    (hSet : t.corruptedIR = s.corruptedIR) (hPtr : t.corruptedPtr = s.corruptedPtr)
    (h : HarmlessKey M item s) : HarmlessKey M item t := by
  intro key idx hFiles
  rw [hSet, hPtr]
  refine h key idx ⟨hFiles.isGep, ?_, ?_, hFiles.hKey, hFiles.hIdx, ?_⟩
  · rw [← hSet]
    exact hFiles.new
  · rw [← hSet]
    exact hFiles.operand
  · rw [← hPtr]
    exact hFiles.noEntry

/-- An instruction that is corrupted already makes no entry. -/
theorem HarmlessKey.of_mem {M : Module} {item : InstRef × Instruction} {s : State}
    (hMem : .instruction item.1 ∈ s.corruptedIR) : HarmlessKey M item s :=
  fun _ _ hFiles => absurd hMem hFiles.new

/-- What the visit of a GEP does to the state. -/
theorem visitGetElementPtr_spec {item : InstRef × Instruction} {s s' : State}
    (isGep : item.2.opcode = .getElementPtr)
    (h : Env.visitGetElementPtr item.1 item.2 s = .ok s') :
    s' = s ∨ s' = s.add2CrptList (.instruction item.1) ∨ ∃ key idx, FilesOperand item s key idx ∧
      s' = (s.add2CrptList (.instruction item.1)).recordGepIdx key idx := by
  unfold Env.visitGetElementPtr at h
  cases hIdx : gepIdx item.2 with
  | none =>
      simp only [hIdx] at h
      split at h
      · split at h <;> simp_all
      · cases h
        exact .inl rfl
  | some idx =>
      by_cases hEntry : idx ∈ (item.2.operands[0]?.bind s.corruptedPtr).getD []
      · simp only [hIdx, hEntry, ↓reduceIte, State.add2CrptList_corruptedIR,
          Finset.mem_insert_self, not_true_eq_false, and_false, Except.ok.injEq] at h
        exact .inr (.inl h.symm)
      · simp only [hIdx, hEntry, ↓reduceIte] at h
        split at h
        · next hCorrupted =>
            split at h
            · next key idx' hKey hSome =>
                cases hSome
                cases h
                exact .inr (.inr ⟨key, idx,
                  ⟨isGep, hCorrupted.2, hCorrupted.1, hKey, hIdx, hEntry⟩, rfl⟩)
            · cases h
        · cases h
          exact .inl rfl

namespace FieldTable
variable {M : Module} {bound bound' : Value → Value → Prop} {s s' : State}

theorem of_empty (h : ∀ v, s.corruptedPtr v = none) : FieldTable M bound s := by
  intro v entries hEntries
  rw [h v] at hEntries
  cases hEntries

/-- Steps that leave the table alone keep it true, since bindings and corruption only grow. -/
theorem keep (h : FieldTable M bound s)
    (hBound : ∀ formal actual, bound formal actual → bound' formal actual)
    (hSub : s.corruptedIR ⊆ s'.corruptedIR) (hPtr : s'.corruptedPtr = s.corruptedPtr) :
    FieldTable M bound' s' := by
  intro v entries hEntries
  rw [hPtr] at hEntries
  obtain ⟨hNe, hAccessed⟩ := h v entries hEntries
  exact ⟨hNe, fun idx hIdx => (hAccessed idx hIdx).mono hBound hSub⟩

/-- An entry may be written if each of its accesses has a reason. -/
theorem update {key : Value} {entries : List GepIdx} (h : FieldTable M bound s)
    (hNe : entries ≠ []) (hKey : ∀ idx ∈ entries, Accessed M bound s.corruptedIR idx key) :
    FieldTable M bound
      { s with corruptedPtr := Function.update s.corruptedPtr key (some entries) } := by
  intro v entries' hEntries
  have hUpdate : Function.update s.corruptedPtr key (some entries) v = some entries' := hEntries
  by_cases hv : v = key
  · subst hv
    rw [Function.update_self, Option.some.injEq] at hUpdate
    subst hUpdate
    exact ⟨hNe, hKey⟩
  · rw [Function.update_of_ne hv] at hUpdate
    exact h v entries' hUpdate

theorem recordGepIdx {key : Value} {idx : GepIdx} (h : FieldTable M bound s)
    (hKey : Accessed M bound s.corruptedIR idx key) :
    FieldTable M bound (s.recordGepIdx key idx) := by
  refine h.update (by simp) fun idx' hMem => ?_
  rcases List.mem_append.mp hMem with hOld | hNew
  · cases hList : s.corruptedPtr key with
    | none => simp [hList] at hOld
    | some old =>
        rw [hList, Option.getD_some] at hOld
        exact (h key old hList).2 idx' hOld
  · rw [List.mem_singleton.mp hNew]
    exact hKey

/-- The entries of an actual are copied to the parameter that it is bound to. -/
theorem copyGepIdx {f : FuncRef} {k : Nat} {actual : Value} (h : FieldTable M bound s)
    (hBound : bound (.argument f k) actual) :
    FieldTable M bound (s.copyGepIdx (.argument f k) actual) := by
  unfold State.copyGepIdx
  split
  · next entries hActual =>
      obtain ⟨hNe, hAccessed⟩ := h actual entries hActual
      exact h.update hNe fun idx hIdx => .formal hBound (hAccessed idx hIdx)
  · exact h

theorem add2CrptList (h : FieldTable M bound s) (v : Value) :
    FieldTable M bound (s.add2CrptList v) :=
  h.keep (fun _ _ => id) (State.Extends.add v s).subset (State.add2CrptList_corruptedPtr ..)

/-- A GEP keeps the table in order if the key it is filed under does no harm. -/
theorem visitGetElementPtr {item : InstRef × Instruction} (h : FieldTable M bound s)
    (hInst : M.inst? item.1 = some item.2) (isGep : item.2.opcode = .getElementPtr)
    (hKey : HarmlessKey M item s) (hVisit : Env.visitGetElementPtr item.1 item.2 s = .ok s') :
    FieldTable M bound s' := by
  rcases visitGetElementPtr_spec isGep hVisit with rfl | rfl | ⟨key, idx, hFiles, rfl⟩
  · exact h
  · exact h.add2CrptList _
  · refine (h.add2CrptList _).recordGepIdx ?_
    rw [State.add2CrptList_corruptedIR]
    rcases hKey key idx hFiles with hBase | hEntry | ⟨r, i, hOther, isGep', hMem, hBase, hIdx⟩
    · exact .base hInst isGep (Finset.mem_insert_self ..) hBase hFiles.hIdx
    · cases hList : s.corruptedPtr key with
      | none => simp [hList] at hEntry
      | some entries =>
          rw [hList, Option.getD_some] at hEntry
          exact ((h key entries hList).2 idx hEntry).mono (fun _ _ => id) (Finset.subset_insert ..)
    · exact .base hOther isGep' (Finset.mem_insert_of_mem hMem) hBase hIdx

/-- A value counts as corrupted through the table only for a field access. -/
theorem exists_accessed {v : Value} (h : FieldTable M bound s)
    (hv : (s.corruptedPtr v).isSome = true) : ∃ idx, Accessed M bound s.corruptedIR idx v := by
  obtain ⟨entries, hEntries⟩ := Option.isSome_iff_exists.mp hv
  obtain ⟨hNe, hAccessed⟩ := h v entries hEntries
  obtain ⟨idx, hIdx⟩ := List.exists_mem_of_ne_nil entries hNe
  exact ⟨idx, hAccessed idx hIdx⟩

end FieldTable

namespace Env
variable {env : Env}

/-- The actual arguments that have been bound to formal ones. -/
def boundIn (env : Env) (past : Set Point) (formal actual : Value) : Prop :=
  ∃ p ∈ past, ∃ item items callee l s k, p.items = item :: items ∧
    env.visit p.call item p.locals p.state = .ok (.enter callee l s) ∧
    formal = .argument callee.func k ∧ callee.corruptedparams k = some actual

theorem boundIn_insert {past : Set Point} (p : Point) (formal actual : Value)
    (h : env.boundIn past formal actual) : env.boundIn (insert p past) formal actual := by
  obtain ⟨q, hq, hBound⟩ := h
  exact ⟨q, Set.mem_insert_of_mem _ hq, hBound⟩

def HarmlessAt (env : Env) (p : Point) : Prop :=
  ∀ item, p.items.head? = some item → HarmlessKey env.module item p.state

/-- The invariant, as long as no point that has been passed does harm. -/
def TableLaw (env : Env) (past : Set Point) (s : State) : Prop :=
  (∀ p ∈ past, env.HarmlessAt p) → FieldTable env.module (env.boundIn past) s

theorem Effect.corruptedPtr_eq {item : InstRef × Instruction} {l l' : Locals} {s s' : State}
    (h : Effect env item l s l' s') (notGep : item.2.opcode ≠ .getElementPtr) :
    s'.corruptedPtr = s.corruptedPtr := by
  cases h with
  | gepOperand isGep => exact absurd isGep notGep
  | _ => simp

theorem FieldTable.bindArg {M : Module} {bound : Value → Value → Prop} {f : FuncRef} {k : Nat}
    {actual : Value} {s : State} (h : FieldTable M bound s)
    (hBound : bound (.argument f k) actual) : FieldTable M bound (bindArg f k actual s) := by
  unfold Env.bindArg
  split
  · exact (h.add2CrptList _).copyGepIdx hBound
  · exact h.copyGepIdx hBound

/-- Step lemma of the sweep, by the opcode of the instruction. -/
theorem TableLaw.done {past : Set Point} {call : Call} {item : InstRef × Instruction}
    {items : List (InstRef × Instruction)} {l l' : Locals} {s s' : State}
    (hs : TableLaw env past s) (hItem : item ∈ env.module.instructions call.func)
    (h : env.visit call item l s = .ok (.done l' s')) :
    TableLaw env (insert ⟨call, item :: items, l, s⟩ past) s' := by
  intro hHarmless
  have hTable : FieldTable env.module (env.boundIn (insert ⟨call, item :: items, l, s⟩ past))
      (env.checkedState call item l s) :=
    (hs fun p hp => hHarmless p (Set.mem_insert_of_mem _ hp)).keep (boundIn_insert _)
      (by simp [checkedState]) (by simp [checkedState])
  by_cases isGep : item.2.opcode = .getElementPtr
  · have hKey : HarmlessKey env.module item s := hHarmless _ (Set.mem_insert ..) item rfl
    rw [visit_of_getElementPtr isGep] at h
    cases hVisit : visitGetElementPtr item.1 item.2 (env.checkedState call item l s) with
    | error reason => simp [hVisit, Except.map] at h
    | ok t =>
        simp only [hVisit, Except.map, Except.ok.injEq, Outcome.done.injEq] at h
        obtain ⟨-, rfl⟩ := h
        refine hTable.visitGetElementPtr (Module.mem_instructions.mp hItem).2 isGep ?_ hVisit
        exact hKey.congr (by simp [checkedState]) (by simp [checkedState])
  · have hEffect := visit_done h
    exact hTable.keep (fun _ _ => id) hEffect.extends.subset (hEffect.corruptedPtr_eq isGep)

/-- Entering a callee changes neither the set nor the table. -/
theorem TableLaw.enter {past : Set Point} {call callee : Call} {item : InstRef × Instruction}
    {items : List (InstRef × Instruction)} {l l' : Locals} {s s' : State}
    (hs : TableLaw env past s) (h : env.visit call item l s = .ok (.enter callee l' s')) :
    TableLaw env (insert ⟨call, item :: items, l, s⟩ past) s' := by
  intro hHarmless
  have hEnter := visit_enter h
  exact (hs fun p hp => hHarmless p (Set.mem_insert_of_mem _ hp)).keep (boundIn_insert _)
    (by simp [hEnter.state_eq, checkedState]) (by simp [hEnter.state_eq, checkedState])

/-- The bindings of the callee are those of the point at which it is entered. -/
theorem TableLaw.body {past : Set Point} {call callee : Call} {item : InstRef × Instruction}
    {items body : List (InstRef × Instruction)} {l l' lb : Locals} {s s' s'' : State}
    (hs : TableLaw env past s) (h : env.visit call item l s = .ok (.enter callee l' s'))
    (started : env.start callee s' = .ok (.body body lb s'')) :
    TableLaw env (insert ⟨call, item :: items, l, s⟩ past) s'' := by
  intro hHarmless
  obtain ⟨s₁, hSeed, -, hParams⟩ := start_body started
  rw [(visit_enter h).noStart] at hSeed
  obtain ⟨-, -, rfl⟩ := hSeed.of_none
  have hTable := hs.enter h hHarmless
  refine handleParams_rel (R := fun s s' => FieldTable env.module _ s → FieldTable env.module _ s')
    (fun _ => id) (fun h₁ h₂ => h₂ ∘ h₁) (fun k _ actual hActual s hs => ?_) hParams hTable
  exact FieldTable.bindArg hs
    ⟨_, Set.mem_insert .., item, items, callee, l', s₁, k, rfl, h, rfl, hActual⟩

/-- The law holds along the whole history of a call, callees included. -/
theorem tableLaw_chronicles : env.analyzer.Chronicles
    (fun call item => item ∈ env.module.instructions call.func) (TableLaw env) where
  done hItem hs visited := hs.done hItem visited
  returned _ hs visited started := by
    obtain ⟨-, rv, hSeed⟩ := start_returned started
    rw [(visit_enter visited).noStart] at hSeed
    obtain ⟨-, -, rfl⟩ := hSeed.of_none
    exact hs.enter visited
  body _ hs visited started := hs.body visited started
  leave {past call item l s callee l' s' result s''} _ hs _ _ hHarmless := by
    have hTable := hs hHarmless
    cases result with
    | false => exact hTable.keep (fun _ _ => id) (leave_extends ..).subset rfl
    | true => exact hTable.keep (fun _ _ => id) (leave_extends ..).subset (by simp [analyzer, leave])

/-- A GEP that a layer is started at is filed under its base. -/
theorem Seed.fieldTable {bound : Value → Value → Prop} {f : FuncRef} {ins : Option InstRef}
    {s s' : State} {rv : Bool} {items : List (InstRef × Instruction)}
    (h : Seed env f s ins rv items s') (hs : FieldTable env.module bound s) :
    FieldTable env.module bound s' := by
  cases h with
  | whole => exact hs
  | resume => exact hs
  | known => exact hs
  | @gep r i items base idx suffix isGep new hBase hIdx =>
      have hInst := (Module.mem_instructions.mp (suffix.subset List.mem_cons_self)).2
      refine (hs.add2CrptList _).recordGepIdx ?_
      exact .base hInst isGep (by simp) hBase hIdx
  | plain => exact hs.add2CrptList _

/-- The law is carried over the borders of the frames of a replay. -/
theorem tableLaw_replays {layers : List FuncInst} : env.Replays layers (TableLaw env) where
  start _ hs started hHarmless := by
    obtain ⟨s₁, hSeed, -, hParams⟩ := start_body started
    rw [handleParams_of_none (by simp [frameCall]), Option.some.injEq] at hParams
    rw [← hParams]
    exact hSeed.fieldTable (hs hHarmless)
  popFrame hs hHarmless := (hs hHarmless).keep (fun _ _ => id) (Finset.Subset.refl _) rfl
  resume _ hs hHarmless := (hs hHarmless).add2CrptList _

/-- In every state that a replay reaches, the table is in order if no GEP that has been
passed did harm. -/
theorem ReplayPoint.fieldTable {body : List Site} {head : Site} {s₀ : State}
    {chain : List Point} {past : Set Point} {q : Point}
    (h : ReplayPoint env ((head :: body).map Site.layer) (beginHead body head s₀) chain past q)
    (hHarmless : ∀ p ∈ past, env.HarmlessAt p) :
    FieldTable env.module (env.boundIn past) q.state := by
  exact h.chronicle tableLaw_chronicles tableLaw_replays
    (fun _ => FieldTable.of_empty fun _ => rfl) hHarmless

end Env
end ConAnalysis
