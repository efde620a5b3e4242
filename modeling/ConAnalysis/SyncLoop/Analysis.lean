import ConAnalysis.ControlDependence.Influences
import ConAnalysis.Dataflow.Stores

/-! `SyncLoop::intraFlowAnalysis`: the forward taint analysis over one function that is
read from. It does not look into callees, and an instruction is also corrupted by the
corrupted branches that it is control dependent on. -/
namespace ConAnalysis
open IR

namespace SyncLoop
open CallSweep ControlDependence
open ConAnalysis.Env (Site)

/-- What one run of the pass is given. `graphs` holds the control dependence graphs
of the functions that have one. -/
structure Env where
  module : Module
  graphs : FuncRef → Option ControlDependenceGraphBase := fun _ => none

namespace Env

/-- The search for the instruction to start at, which is entered into the corrupted set. -/
def start (env : Env) (site : Site) (s : State) :
    Except Fault (Entry (InstRef × Instruction) Locals State Bool) :=
  match (env.module.instructions site.1).dropWhile fun item => item.1 ≠ site.2 with
  | [] => .error .couldntFindCallstackInstruction
  | item :: items =>
      if .instruction site.2 ∈ s.corruptedIR then .ok (.body (item :: items) {} s)
      else .ok (.body (item :: items) { rv := true } (s.add2CrptList (.instruction site.2)))

/-- Is the instruction control dependent on a branch that was corrupted through an
operand earlier in this sweep? -/
def influenced (env : Env) (F : FuncRef) (r : InstRef) (l : Locals) : Bool :=
  match env.graphs F with
  | none => false
  | some cdgBase => l.localCorruptedBr.any fun brIns => cdgBase.influences brIns.block r.block

def checkInfluence (env : Env) (F : FuncRef) (r : InstRef) (l : Locals) (s : State) : State :=
  if env.influenced F r l then s.add2CrptList (.instruction r) else s

/-- One round of the forward taint analysis. Calls are instructions like others. -/
def visit (env : Env) (site : Site) (item : InstRef × Instruction) (l : Locals) (s : State) :
    Except Fault (Outcome Site Locals State) :=
  let s := env.checkInfluence site.1 item.1 l s
  match item.2.opcode with
  | .getElementPtr => (ConAnalysis.Env.visitGetElementPtr item.1 item.2 s).map (.done l)
  | _ => let (l, s) := ConAnalysis.Env.visitOther item.1 item.2 l s; .ok (.done l s)

/-- The sweep of one function. No callee is ever entered or left. -/
def analyzer (env : Env) : Analyzer Site (InstRef × Instruction) Locals State Bool Fault where
  start := env.start
  visit := env.visit
  leave _ _ _ s := s
  result := Locals.rv

/-- `SyncLoop::intraFlowAnalysis`. -/
def intraFlowAnalysis (env : Env) (site : Site) (s : State) :
    Except (Stop Fault) (Bool × State) := env.analyzer.run 1 site s

abbrev Point := Analyzer.Point Site (InstRef × Instruction) Locals State

variable {env : Env} {site callee : Site} {item : InstRef × Instruction}
variable {items : List (InstRef × Instruction)} {l l' : Locals} {s s' : State} {rv : Bool}

theorem checkInfluence_subset (F : FuncRef) (r : InstRef) (l : Locals) (s : State) :
    s.corruptedIR ⊆ (env.checkInfluence F r l s).corruptedIR := by
  unfold checkInfluence
  split
  · rw [State.add2CrptList_corruptedIR]
    exact Finset.subset_insert ..
  · exact Finset.Subset.refl _

theorem mem_checkInfluence {F : FuncRef} {r : InstRef} {v : Value}
    (h : v ∈ (env.checkInfluence F r l s).corruptedIR) :
    v ∈ s.corruptedIR ∨ v = .instruction r ∧ env.influenced F r l = true := by
  unfold checkInfluence at h
  split at h
  · next hInfluenced =>
      rw [State.add2CrptList_corruptedIR, Finset.mem_insert] at h
      exact h.symm.imp_right fun hEq => ⟨hEq, hInfluenced⟩
  · exact .inl h

@[simp] theorem checkInfluence_corruptedPtr (F : FuncRef) (r : InstRef) (l : Locals) (s : State) :
    (env.checkInfluence F r l s).corruptedPtr = s.corruptedPtr := by
  unfold checkInfluence
  split
  · exact State.add2CrptList_corruptedPtr ..
  · rfl

/-- Influence is taken in before the opcode is looked at. -/
theorem visit_of_other (notGep : item.2.opcode ≠ .getElementPtr) : env.visit site item l s =
    let s := env.checkInfluence site.1 item.1 l s
    .ok (.done (ConAnalysis.Env.visitOther item.1 item.2 l s).1
      (ConAnalysis.Env.visitOther item.1 item.2 l s).2) := by
  unfold visit
  cases hOp : item.2.opcode <;> first | rfl | exact absurd hOp notGep

theorem visit_of_getElementPtr (isGep : item.2.opcode = .getElementPtr) :
    env.visit site item l s = (ConAnalysis.Env.visitGetElementPtr item.1 item.2
      (env.checkInfluence site.1 item.1 l s)).map (.done l) := by
  simp only [visit, isGep]

/-- What a visit of a GEP has to do with the table. -/
theorem visit_done_getElementPtr (isGep : item.2.opcode = .getElementPtr)
    (h : env.visit site item l s = .ok (.done l' s')) :
    l' = l ∧ ConAnalysis.Env.visitGetElementPtr item.1 item.2
      (env.checkInfluence site.1 item.1 l s) = .ok s' := by
  rw [visit_of_getElementPtr isGep] at h
  cases hVisit : ConAnalysis.Env.visitGetElementPtr item.1 item.2
      (env.checkInfluence site.1 item.1 l s) with
  | error reason => simp [hVisit, Except.map] at h
  | ok t =>
      simp only [hVisit, Except.map, Except.ok.injEq, Outcome.done.injEq] at h
      exact ⟨h.1.symm, by rw [h.2]⟩

/-- What one instruction lets in, by the doors of the other analysis. -/
theorem visit_done (h : env.visit site item l s = .ok (.done l' s')) :
    Visited item l (env.checkInfluence site.1 item.1 l s) l' s' := by
  by_cases isGep : item.2.opcode = .getElementPtr
  · obtain ⟨rfl, hVisit⟩ := visit_done_getElementPtr isGep h
    exact .getElementPtr isGep hVisit
  · rw [visit_of_other isGep] at h
    cases h
    exact .other

/-- This analysis stays in the function of the read. -/
theorem visit_ne_enter : env.visit site item l s ≠ .ok (.enter callee l' s') := by
  intro h
  by_cases isGep : item.2.opcode = .getElementPtr
  · rw [visit_of_getElementPtr isGep] at h
    cases hVisit : ConAnalysis.Env.visitGetElementPtr item.1 item.2
        (env.checkInfluence site.1 item.1 l s) with
    | error reason => simp [hVisit, Except.map] at h
    | ok t => simp [hVisit, Except.map] at h
  · rw [visit_of_other isGep] at h
    cases h

/-- What comes before the sweep. -/
theorem start_body (h : env.start site s = .ok (.body items l s')) :
    l = { rv := l.rv } ∧ items <:+ env.module.instructions site.1 ∧
      items.head?.map Prod.fst = some site.2 ∧
      s' = s.add2CrptList (.instruction site.2) := by
  unfold start at h
  split at h
  · cases h
  · next item rest hDrop =>
      have hHead : (item :: rest).head?.map Prod.fst = some site.2 := by
        have hItem := List.head?_dropWhile_not (fun item => item.1 ≠ site.2)
          (env.module.instructions site.1)
        rw [hDrop] at hItem
        simpa using hItem
      have hSuffix : item :: rest <:+ env.module.instructions site.1 :=
        hDrop ▸ List.dropWhile_suffix _
      split at h
      · next hMem =>
          simp only [Except.ok.injEq, Entry.body.injEq] at h
          obtain ⟨rfl, rfl, rfl⟩ := h
          exact ⟨rfl, hSuffix, hHead, (State.add2CrptList_of_mem hMem).symm⟩
      · simp only [Except.ok.injEq, Entry.body.injEq] at h
        obtain ⟨rfl, rfl, rfl⟩ := h
        exact ⟨rfl, hSuffix, hHead, rfl⟩

theorem start_ne_returned : env.start site s ≠ .ok (.returned rv s') := by
  intro h
  unfold start at h
  split at h
  · cases h
  · split at h <;> cases h

theorem analyzer_supplies :
    env.analyzer.Supplies fun site item => item ∈ env.module.instructions site.1 :=
  fun started => (start_body started).2.1.subset

/-- No sweep enters a callee. -/
theorem balanced : env.analyzer.Balanced (fun _ => ()) fun _ => 0 where
  returned _ := rfl
  body _ := rfl
  done _ := rfl
  enter h := absurd h visit_ne_enter
  leave _ _ := rfl

end Env
end SyncLoop
end ConAnalysis
