import ConAnalysis.IR.Layout
import ConAnalysis.SyncLoop.AdhocSync

/-! Why the sync-loop pass corrupts a value, and with it, why it reports a loop: there is a chain
of data and control dependences that begins at the racing read. -/
namespace ConAnalysis.SyncLoop
open IR CallSweep Exceptions
open ConAnalysis.Env (Site)

namespace Env

/-- The second value depends on the first one: as an operand, through memory that a store or
two accesses of one field share, or because a branch decides whether it is computed. -/
inductive Dependence (env : Env) (F : FuncRef) : Value → Value → Prop where
  | operand {r : InstRef} {i : Instruction} {v : Value}
      (hInst : (r, i) ∈ env.module.instructions F) (hOperand : v ∈ i.operands) :
      Dependence env F v (.instruction r)
  | pointer {r : InstRef} {i : Instruction} {v : Value}
      (hInst : (r, i) ∈ env.module.instructions F) (isStore : i.opcode = .store)
      (hPointer : i.operands[1]? = some v) : Dependence env F (.instruction r) v
  | field {r t : InstRef} {i j : Instruction} {key : Value} {idx : GepIdx}
      (hFirst : (r, i) ∈ env.module.instructions F) (hSecond : (t, j) ∈ env.module.instructions F)
      (isGep : i.opcode = .getElementPtr) (isGep' : j.opcode = .getElementPtr)
      (hKey : i.operands[1]? = some key) (hBase : j.operands[0]? = some key)
      (hIdx : gepIdx i = some idx) (hIdx' : gepIdx j = some idx) (hLt : LayoutLt r t) :
      Dependence env F (.instruction r) (.instruction t)
  | control {b r : InstRef} {i j : Instruction} (hBranch : (b, i) ∈ env.module.instructions F)
      (isBr : i.opcode = .br) (hInst : (r, j) ∈ env.module.instructions F)
      (hInfluences : (env.graphs F).any (·.influences b.block r.block) = true)
      (hLt : LayoutLt b r) : Dependence env F (.instruction b) (.instruction r)

def DependsOn (env : Env) (F : FuncRef) (ins : InstRef) : Value → Prop :=
  Relation.ReflTransGen (Dependence env F) (.instruction ins)

/-- All that is corrupted has a cause, and what the sweep remembers lies before what it still has
to sweep. -/
structure Caused (env : Env) (F : FuncRef) (ins : InstRef) (items : List (InstRef × Instruction))
    (l : Locals) (s : State) : Prop where
  values : ∀ v ∈ s.corruptedIR, DependsOn env F ins v
  branches : ∀ b ∈ l.localCorruptedBr, .instruction b ∈ s.corruptedIR ∧
    (∃ i, (b, i) ∈ env.module.instructions F ∧ i.opcode = .br) ∧
      ∀ item ∈ items, LayoutLt b item.1
  fields : ∀ key entries, s.corruptedPtr key = some entries → ∀ idx ∈ entries,
    ∃ r i, (r, i) ∈ env.module.instructions F ∧ i.opcode = .getElementPtr ∧
      i.operands[1]? = some key ∧ gepIdx i = some idx ∧ .instruction r ∈ s.corruptedIR ∧
      ∀ item ∈ items, LayoutLt r item.1

section Steps
variable {env : Env} {F : FuncRef} {ins : InstRef} {item : InstRef × Instruction}
variable {items : List (InstRef × Instruction)} {l l' : Locals} {s s' : State}

/-- A value may be corrupted if it depends on the read. -/
theorem Caused.add (h : Caused env F ins items l s) {v : Value} (hv : DependsOn env F ins v) :
    Caused env F ins items l (s.add2CrptList v) where
  values := by
    rw [State.add2CrptList_corruptedIR]
    exact Finset.forall_mem_insert _ _ _ |>.mpr ⟨hv, h.values⟩
  branches b hb := by
    obtain ⟨hMem, hRest⟩ := h.branches b hb
    rw [State.add2CrptList_corruptedIR]
    exact ⟨Finset.mem_insert_of_mem hMem, hRest⟩
  fields key entries hEntries idx hIdx := by
    rw [State.add2CrptList_corruptedPtr] at hEntries
    obtain ⟨r, i, hInst, isGep, hKey, hGep, hMem, hLt⟩ := h.fields key entries hEntries idx hIdx
    rw [State.add2CrptList_corruptedIR]
    exact ⟨r, i, hInst, isGep, hKey, hGep, Finset.mem_insert_of_mem hMem, hLt⟩

/-- A sweep that goes on has less ahead. -/
theorem Caused.tail (h : Caused env F ins (item :: items) l s) : Caused env F ins items l s where
  values := h.values
  branches b hb := by
    obtain ⟨hMem, hBr, hLt⟩ := h.branches b hb
    exact ⟨hMem, hBr, fun other hOther => hLt other (List.mem_cons_of_mem _ hOther)⟩
  fields key entries hEntries idx hIdx := by
    obtain ⟨r, i, hInst, isGep, hKey, hGep, hMem, hLt⟩ := h.fields key entries hEntries idx hIdx
    exact ⟨r, i, hInst, isGep, hKey, hGep, hMem,
      fun other hOther => hLt other (List.mem_cons_of_mem _ hOther)⟩

/-- What uses a corrupted value depends on the read through it. -/
theorem Caused.of_operand (h : Caused env F ins items l s)
    (hItem : item ∈ env.module.instructions F) {v : Value} (hOperand : v ∈ item.2.operands)
    (hMem : v ∈ s.corruptedIR) : DependsOn env F ins (.instruction item.1) :=
  (h.values v hMem).tail (.operand hItem hOperand)

/-- A field is entered by an access that is corrupted, behind which the sweep goes on. -/
theorem Caused.recordGepIdx (h : Caused env F ins items l s) (hItem : item ∈ env.module.instructions F)
    (isGep : item.2.opcode = .getElementPtr) {key : Value} {idx : GepIdx}
    (hKey : item.2.operands[1]? = some key) (hIdx : gepIdx item.2 = some idx)
    (hMem : .instruction item.1 ∈ s.corruptedIR) (hAhead : ∀ other ∈ items, LayoutLt item.1 other.1) :
    Caused env F ins items l (s.recordGepIdx key idx) where
  values := h.values
  branches := h.branches
  fields key' entries hEntries idx' hIdx' := by
    by_cases hEq : key' = key
    · subst hEq
      simp only [State.recordGepIdx, Function.update_self, Option.some.injEq] at hEntries
      subst hEntries
      rcases List.mem_append.mp hIdx' with hOld | hNew
      · cases hPtr : s.corruptedPtr key' with
        | none => simp [hPtr] at hOld
        | some old =>
            rw [hPtr, Option.getD_some] at hOld
            exact h.fields key' old hPtr idx' hOld
      · rw [List.mem_singleton.mp hNew]
        exact ⟨item.1, item.2, hItem, isGep, hKey, hIdx, hMem, hAhead⟩
    · refine h.fields key' entries ?_ idx' hIdx'
      simpa [hEq] using hEntries

/-- An influenced instruction hangs on a branch that has been swept. -/
theorem Caused.checkInfluence (h : Caused env F ins (item :: items) l s)
    (hItem : item ∈ env.module.instructions F) :
    Caused env F ins (item :: items) l (env.checkInfluence F item.1 l s) := by
  unfold Env.checkInfluence
  split
  · next hInfluenced =>
      refine h.add ?_
      unfold influenced at hInfluenced
      split at hInfluenced
      · cases hInfluenced
      · next cdg hGraph =>
          obtain ⟨b, hb, hInfluences⟩ := List.any_eq_true.mp hInfluenced
          obtain ⟨hMem, ⟨i, hBranch, isBr⟩, hLt⟩ := h.branches b hb
          exact (h.values _ hMem).tail
            (.control hBranch isBr hItem (by simpa [hGraph] using hInfluences)
              (hLt item List.mem_cons_self))
  · exact h

/-- Step lemma for an access: by an operand, or by an earlier access to the same field. -/
theorem Caused.visitGetElementPtr (h : Caused env F ins (item :: items) l s)
    (hItem : item ∈ env.module.instructions F) (hAhead : ∀ other ∈ items, LayoutLt item.1 other.1)
    (isGep : item.2.opcode = .getElementPtr)
    (hVisit : ConAnalysis.Env.visitGetElementPtr item.1 item.2 s = .ok s') :
    Caused env F ins items l s' := by
  obtain ⟨l', hEffect⟩ : ∃ l', ConAnalysis.Env.Effect { module := env.module } item l s l' s' :=
    ⟨l, ConAnalysis.Env.visitGetElementPtr_ok isGep hVisit⟩
  cases hEffect with
  | unchanged => exact h.tail
  | external isCall => simp [isGep] at isCall
  | gepRecord _ hBase hEntries hIdx hMem =>
      obtain ⟨r, i, hInst, isGep', hKey, hIdx', hCorrupted, hLt⟩ := h.fields _ _ hEntries _ hMem
      exact h.tail.add ((h.values _ hCorrupted).tail
        (.field hInst hItem isGep' isGep hKey hBase hIdx' hIdx (hLt item List.mem_cons_self)))
  | gepOperand _ operand corrupted _ hKey hIdx =>
      refine (h.tail.add (h.of_operand hItem operand corrupted)).recordGepIdx hItem isGep hKey hIdx
        ?_ hAhead
      simp
  | store isStore => simp [isGep] at isStore
  | branch isBr => simp [isGep] at isBr
  | plain _ notGep => exact absurd isGep notGep

/-- Step lemma for the other opcodes, where a store hands the dependence on to its pointer. -/
theorem Caused.visitOther (h : Caused env F ins (item :: items) l s)
    (hItem : item ∈ env.module.instructions F) (hAhead : ∀ other ∈ items, LayoutLt item.1 other.1) :
    Caused env F ins items (ConAnalysis.Env.visitOther item.1 item.2 l s).1
      (ConAnalysis.Env.visitOther item.1 item.2 l s).2 := by
  unfold ConAnalysis.Env.visitOther
  split
  · next hOperand =>
      obtain ⟨⟨v, hv, hMem⟩, -⟩ := hOperand
      have hOwn := h.of_operand hItem hv hMem
      have hAdded := h.tail.add hOwn
      split
      · next isStore =>
          cases hPointer : item.2.operands[1]? with
          | none => exact ⟨hAdded.values, hAdded.branches, hAdded.fields⟩
          | some pointer =>
              have hStored := hAdded.add (hOwn.tail (.pointer hItem isStore hPointer))
              exact ⟨hStored.values, hStored.branches, hStored.fields⟩
      · next isBr =>
          refine ⟨hAdded.values, fun b hb => ?_, hAdded.fields⟩
          rcases List.mem_append.mp hb with hOld | hNew
          · exact hAdded.branches b hOld
          · obtain rfl := List.mem_singleton.mp hNew
            exact ⟨by simp, ⟨item.2, hItem, isBr⟩, hAhead⟩
      · exact ⟨hAdded.values, hAdded.branches, hAdded.fields⟩
  · exact h.tail

theorem Caused.visit {site : Site} (h : Caused env site.1 ins (item :: items) l s)
    (hSuffix : item :: items <:+ env.module.instructions site.1)
    (visited : env.visit site item l s = .ok (.done l' s')) :
    Caused env site.1 ins items l' s' := by
  have hItem : item ∈ env.module.instructions site.1 := hSuffix.subset List.mem_cons_self
  have hAhead : ∀ other ∈ items, LayoutLt item.1 other.1 := fun other hOther =>
    List.rel_of_pairwise_cons
      (((env.module.func site.1).pairwise_instructions site.1).sublist hSuffix.sublist) hOther
  have hChecked := h.checkInfluence hItem
  by_cases isGep : item.2.opcode = .getElementPtr
  · obtain ⟨rfl, hVisit⟩ := visit_done_getElementPtr isGep visited
    exact hChecked.visitGetElementPtr hItem hAhead isGep hVisit
  · rw [visit_of_other isGep] at visited
    cases visited
    exact hChecked.visitOther hItem hAhead

theorem Caused.sweeps {site : Site} (hSuffix : items <:+ env.module.instructions site.1)
    (hs : Caused env site.1 ins items l s) (h : env.analyzer.Sweeps site items l s l' s') :
    Caused env site.1 ins [] l' s' := by
  induction h with
  | nil => exact hs
  | done visited _ ih => exact ih ((List.suffix_cons _ _).trans hSuffix) (hs.visit hSuffix visited)
  | returned visited => exact absurd visited visit_ne_enter
  | entered visited => exact absurd visited visit_ne_enter

end Steps

/-- All that the analysis of a read corrupts depends on the read. -/
theorem CorruptedFrom.dependsOn {env : Env} {site : Site} {r : InstRef}
    (h : env.CorruptedFrom site r) : DependsOn env site.1 site.2 (.instruction r) := by
  obtain ⟨rv, s', hRun, hMem⟩ := h
  cases env.analyzer.runs_of_run hRun with
  | returned started => exact absurd started start_ne_returned
  | swept started sweeps =>
      obtain ⟨hLocals, hSuffix, -, rfl⟩ := start_body started
      refine (Caused.sweeps hSuffix (?_ : Caused env site.1 site.2 _ _ _) sweeps).values _ hMem
      refine ⟨?_, ?_, ?_⟩
      · intro v hv
        rw [State.add2CrptList_corruptedIR, insert_empty_eq, Finset.mem_singleton] at hv
        exact hv ▸ .refl
      · rw [hLocals]
        simp
      · simp

/-- What is printed for a read, if it is the first one. -/
def messageOf (env : Env) (LI : LoopInfo env.module) (input : RacingLines) (iL : Loop)
    (site : Site) : Option Detected :=
  match env.intraFlowAnalysis site {} with
  | .error _ => none
  | .ok (_, s) => (env.findExit LI iL s.orderedcorruptedIR).map fun I =>
      { writeLine := input.1, readLine := input.2, inst := I }

def returns (env : Env) (site : Site) : Bool := (env.intraFlowAnalysis site {}).toOption.isSome

section Messages
variable {env : Env} {LI : LoopInfo env.module} {input : RacingLines} {iL : Loop}

/-- No read makes a difference to the message of another one. -/
theorem analyseReads_eq (reads : List Site) : (env.analyseReads LI input iL reads {}).1 =
    (reads.takeWhile env.returns).filterMap (env.messageOf LI input iL) := by
  induction reads with
  | nil => rfl
  | cons site reads ih =>
      rw [analyseReads, List.takeWhile_cons, returns]
      cases hRun : env.intraFlowAnalysis site {} with
      | error stop => rfl
      | ok answer =>
          obtain ⟨rv, s⟩ := answer
          have hClear : clearDataSets s = {} := (intraFlowAnalysis_grows hRun).cleared
          simp only [hClear, ih, Except.toOption, Option.isSome_some, if_true,
            List.filterMap_cons, messageOf, hRun]
          cases env.findExit LI iL s.orderedcorruptedIR <;> rfl

/-- A loop is reported with cause: the instruction depends on the read, it decides, and control
may leave the loop behind its block. -/
structure CausedBy (env : Env) (input : RacingLines) (iL : Loop) (site : Site)
    (message : Detected) : Prop where
  lines : (message.writeLine, message.readLine) = input
  dependsOn : DependsOn env site.1 site.2 (.instruction message.inst)
  decides : env.Decides message.inst
  leaves : ∃ t ∈ successors env.module message.inst.parent, t ∉ iL.blocks

theorem causedBy_of_messageOf {site : Site} {message : Detected}
    (h : env.messageOf LI input iL site = some message) : CausedBy env input iL site message := by
  unfold messageOf at h
  split at h
  · cases h
  · next rv s hRun =>
      obtain ⟨I, hFind, rfl⟩ := Option.map_eq_some_iff.mp h
      have hInStep : s.InStep :=
        State.InStep.extends ⟨List.nodup_nil, by simp⟩ (intraFlowAnalysis_grows hRun).extends_
      obtain ⟨v, hv, hPlace⟩ := List.mem_filterMap.mp (List.mem_of_find?_eq_some hFind)
      obtain ⟨rfl, hDecides⟩ := corruptInBr_eq_some.mp hPlace
      have hExit : LI.isLoopExiting iL I.parent = true :=
        List.find?_some (p := fun I : InstRef => LI.isLoopExiting iL I.parent) hFind
      exact {
        lines := rfl
        dependsOn := CorruptedFrom.dependsOn ⟨rv, s, hRun, (hInStep.mem_iff _).mp hv⟩
        decides := hDecides
        leaves := (LI.isLoopExiting_iff iL _).mp hExit }

end Messages

end Env
end ConAnalysis.SyncLoop
