import ConAnalysis.SyncLoop.Analysis
import ConAnalysis.IR.Layout

/-! Control taint of the sync-loop pass. The sweep tests only against branches that are
corrupted through an operand. The others are influenced by one of these, and so is all
that they influence. -/
namespace ConAnalysis.SyncLoop
open IR CallSweep Exceptions ControlDependence
open ConAnalysis.Env (Site)

namespace Env

/-- Every corrupted branch has been swept. It is remembered, or a remembered one influences
it, and what has been swept behind it under its influence is corrupted. -/
structure ControlTaint (M : Module) (F : FuncRef) (cdg : ControlDependenceGraphBase)
    (items : List (InstRef × Instruction)) (l : Locals) (s : State) : Prop where
  swept : ∀ b ∈ M.instructions F, b.2.opcode = .br → .instruction b.1 ∈ s.corruptedIR → b ∉ items
  cause : ∀ b ∈ M.instructions F, b.2.opcode = .br → .instruction b.1 ∈ s.corruptedIR →
    ∃ c ∈ l.localCorruptedBr, c = b.1 ∨ cdg.influences c.block b.1.block = true
  closed : ∀ b ∈ M.instructions F, b.2.opcode = .br → .instruction b.1 ∈ s.corruptedIR →
    ∀ i ∈ M.instructions F, LayoutLt b.1 i.1 → i ∉ items →
      cdg.influences b.1.block i.1.block = true → .instruction i.1 ∈ s.corruptedIR

section Sweep
variable {env : Env} {site : Site} {cdg : ControlDependenceGraphBase}
variable {item : InstRef × Instruction} {items : List (InstRef × Instruction)}
variable {l l' : Locals} {s s' : State}

/-- An instruction is influenced if one of the branches that are remembered influences its
block. -/
theorem influenced_iff (hGraph : env.graphs site.1 = some cdg) {r : InstRef} :
    env.influenced site.1 r l = true ↔
      ∃ c ∈ l.localCorruptedBr, cdg.influences c.block r.block = true := by
  simp [influenced, hGraph]

theorem mem_checkInfluence_of_influenced {F : FuncRef} {r : InstRef}
    (h : env.influenced F r l = true) :
    .instruction r ∈ (env.checkInfluence F r l s).corruptedIR := by
  simp [checkInfluence, h]

/-- A branch that is entered at a visit is the visited instruction. -/
theorem eq_of_new_branch (hItem : item ∈ env.module.instructions site.1)
    (h : env.visit site item l s = .ok (.done l' s')) {b : InstRef × Instruction}
    (hb : b ∈ env.module.instructions site.1) (isBr : b.2.opcode = .br)
    (hMem : .instruction b.1 ∈ s'.corruptedIR) (new : .instruction b.1 ∉ s.corruptedIR) :
    b = item := by
  have hItemInst := (Module.mem_instructions.mp hItem).2
  have hInst := (Module.mem_instructions.mp hb).2
  rcases (visit_done h).added _ hMem with hOld | hEq | ⟨-, hOperand⟩
  · rcases mem_checkInfluence hOld with hOld | ⟨hEq, -⟩
    · exact absurd hOld new
    · exact Module.item_eq hInst hItemInst (Value.instruction.inj hEq)
  · exact Module.item_eq hInst hItemInst (Value.instruction.inj hEq)
  · have hVoid := Module.operand_not_void hItemInst (List.mem_of_getElem? hOperand) hInst
    simp [isBr, Opcode.isVoid] at hVoid

theorem visit_subset (h : env.visit site item l s = .ok (.done l' s')) :
    s.corruptedIR ⊆ s'.corruptedIR :=
  (checkInfluence_subset ..).trans (visit_done h).subset

/-- A branch that is remembered is not forgotten. -/
theorem remembered_subset (h : env.visit site item l s = .ok (.done l' s')) :
    l.localCorruptedBr ⊆ l'.localCorruptedBr := by
  rcases (visit_done h).remembered with hSame | ⟨-, -, hNew⟩
  · exact hSame ▸ List.Subset.refl _
  · exact hNew ▸ List.subset_append_left ..

theorem not_mem_items (hSuffix : item :: items <:+ env.module.instructions site.1) :
    item ∉ items := by
  have hSorted := ((env.module.func site.1).pairwise_instructions site.1).sublist hSuffix.sublist
  exact fun hMem => LayoutLt.irrefl _ (List.rel_of_pairwise_cons hSorted hMem)

/-- Step lemma. A branch that is corrupted by influence is not remembered, but the one that
influences it is, and influence is transitive. -/
theorem ControlTaint.visit (hGraph : env.graphs site.1 = some cdg)
    (hSuffix : item :: items <:+ env.module.instructions site.1)
    (hs : ControlTaint env.module site.1 cdg (item :: items) l s)
    (h : env.visit site item l s = .ok (.done l' s')) :
    ControlTaint env.module site.1 cdg items l' s' := by
  have hItem : item ∈ env.module.instructions site.1 := hSuffix.subset List.mem_cons_self
  constructor
  case swept =>
    intro b hb isBr hMem
    by_cases hOld : .instruction b.1 ∈ s.corruptedIR
    · exact fun hRest => hs.swept b hb isBr hOld (List.mem_cons_of_mem _ hRest)
    · rw [eq_of_new_branch hItem h hb isBr hMem hOld]
      exact not_mem_items hSuffix
  case cause =>
    intro b hb isBr hMem
    by_cases hOld : .instruction b.1 ∈ s.corruptedIR
    · obtain ⟨c, hc, hCause⟩ := hs.cause b hb isBr hOld
      exact ⟨c, remembered_subset h hc, hCause⟩
    · obtain rfl := eq_of_new_branch hItem h hb isBr hMem hOld
      by_cases hInfluenced : env.influenced site.1 b.1 l = true
      · obtain ⟨c, hc, hCause⟩ := (influenced_iff hGraph).mp hInfluenced
        exact ⟨c, remembered_subset h hc, .inr hCause⟩
      · refine ⟨b.1, (visit_done h).branch isBr hMem fun hMid => ?_, .inl rfl⟩
        rcases mem_checkInfluence hMid with hMid | ⟨-, hMid⟩
        · exact hOld hMid
        · exact hInfluenced hMid
  case closed =>
    intro b hb isBr hMem i hi hLt hRest hInfluences
    by_cases hOld : .instruction b.1 ∈ s.corruptedIR
    · by_cases hEq : i = item
      · -- a remembered branch influences the visited instruction through `b`
        obtain rfl := hEq
        obtain ⟨c, hc, hCause⟩ := hs.cause b hb isBr hOld
        have hInfluenced : env.influenced site.1 i.1 l = true := by
          refine (influenced_iff hGraph).mpr ⟨c, hc, ?_⟩
          rcases hCause with rfl | hCause
          · exact hInfluences
          · exact ControlDependenceGraphBase.influences_trans hCause hInfluences
        exact (visit_done h).subset (mem_checkInfluence_of_influenced hInfluenced)
      · refine visit_subset h (hs.closed b hb isBr hOld i hi hLt ?_ hInfluences)
        rw [List.mem_cons, not_or]
        exact ⟨hEq, hRest⟩
    · -- what comes behind a new branch has not been swept yet
      obtain rfl := eq_of_new_branch hItem h hb isBr hMem hOld
      exact absurd (mem_suffix_of_layoutLt hSuffix hi hLt) hRest

theorem controlTaint_of_sweeps (hGraph : env.graphs site.1 = some cdg)
    (hSuffix : items <:+ env.module.instructions site.1)
    (hs : ControlTaint env.module site.1 cdg items l s)
    (h : env.analyzer.Sweeps site items l s l' s') :
    ControlTaint env.module site.1 cdg [] l' s' := by
  induction h with
  | nil => exact hs
  | done visited _ ih =>
      exact ih hGraph ((List.suffix_cons _ _).trans hSuffix) (hs.visit hGraph hSuffix visited)
  | returned visited => exact absurd visited visit_ne_enter
  | entered visited => exact absurd visited visit_ne_enter

/-- No branch is corrupted at the start. -/
theorem controlTaint_start (hEmpty : s.corruptedIR = ∅)
    (notBr : ∀ i, env.module.inst? site.2 = some i → i.opcode ≠ .br) :
    ControlTaint env.module site.1 cdg items l (s.add2CrptList (.instruction site.2)) := by
  have hNone : ∀ b ∈ env.module.instructions site.1, b.2.opcode = .br →
      .instruction b.1 ∉ (s.add2CrptList (.instruction site.2)).corruptedIR := by
    intro b hb isBr hMem
    rw [State.add2CrptList_corruptedIR, hEmpty, insert_empty_eq, Finset.mem_singleton] at hMem
    refine notBr b.2 ?_ isBr
    rw [← Value.instruction.inj hMem]
    exact (Module.mem_instructions.mp hb).2
  exact {
    swept := fun b hb isBr hMem => absurd hMem (hNone b hb isBr)
    cause := fun b hb isBr hMem => absurd hMem (hNone b hb isBr)
    closed := fun b hb isBr hMem => absurd hMem (hNone b hb isBr) }

/-- The instructions still to be swept are not remembered. -/
structure Unswept (env : Env) (q : Point) : Prop where
  suffix : q.items <:+ env.module.instructions q.call.1
  fresh : ∀ item ∈ q.items, item.1 ∉ q.locals.localCorruptedBr

theorem fst_ne_of_mem_items (hSuffix : item :: items <:+ env.module.instructions site.1)
    {other : InstRef × Instruction} (hOther : other ∈ items) : other.1 ≠ item.1 := by
  intro hEq
  have hSorted := ((env.module.func site.1).pairwise_instructions site.1).sublist hSuffix.sublist
  have hLt := List.rel_of_pairwise_cons hSorted hOther
  rw [hEq] at hLt
  exact LayoutLt.irrefl _ hLt

/-- What is still to be swept cannot have been remembered. -/
theorem Unswept.advance {p q : Point} (hp : Unswept env p) (h : env.analyzer.Advances p q) :
    Unswept env q := by
  rcases h with h | ⟨visited, -⟩
  · cases h with
    | called visited => exact absurd visited visit_ne_enter
    | @done site item items l s l' s' visited =>
        refine ⟨(List.suffix_cons _ _).trans hp.suffix, fun other hOther hMem => ?_⟩
        have hFresh := hp.fresh other (List.mem_cons_of_mem _ hOther)
        rcases (visit_done visited).remembered with hSame | ⟨-, -, hNew⟩
        · exact hFresh (hSame ▸ hMem)
        · rw [hNew] at hMem
          rcases List.mem_append.mp hMem with hOld | hLast
          · exact hFresh hOld
          · exact fst_ne_of_mem_items hp.suffix hOther (List.mem_singleton.mp hLast)
  · exact absurd visited visit_ne_enter

/-- An instruction that is neither to be swept nor remembered stays so. -/
structure LeftOut (r : InstRef) (q : Point) : Prop where
  notRemembered : r ∉ q.locals.localCorruptedBr
  notAhead : ∀ item ∈ q.items, item.1 ≠ r

/-- What is neither ahead nor remembered will not be remembered any more. -/
theorem LeftOut.advance {r : InstRef} {p q : Point} (hp : LeftOut r p)
    (h : env.analyzer.Advances p q) : LeftOut r q := by
  rcases h with h | ⟨visited, -⟩
  · cases h with
    | called visited => exact absurd visited visit_ne_enter
    | done visited =>
        refine ⟨?_, fun other hOther => hp.notAhead other (List.mem_cons_of_mem _ hOther)⟩
        rcases (visit_done visited).remembered with hSame | ⟨-, -, hNew⟩
        · exact hSame ▸ hp.notRemembered
        · rw [hNew, List.mem_append, List.mem_singleton, not_or]
          exact ⟨hp.notRemembered, (hp.notAhead _ List.mem_cons_self).symm⟩
  · exact absurd visited visit_ne_enter

/-- A branch that is influenced when it is swept is left out. -/
theorem Unswept.leftOut {p q : Point} (hp : Unswept env p) (hHead : p.items.head? = some item)
    (hInfluenced : env.influenced p.call.1 item.1 p.locals = true)
    (h : env.analyzer.Advances p q) : LeftOut item.1 q := by
  rcases h with h | ⟨visited, -⟩
  · cases h with
    | called visited => exact absurd visited visit_ne_enter
    | done visited =>
        cases hHead
        refine ⟨?_, fun other hOther => fst_ne_of_mem_items hp.suffix hOther⟩
        rcases (visit_done visited).remembered with hSame | ⟨-, new, -⟩
        · exact hSame ▸ hp.fresh _ List.mem_cons_self
        · exact absurd (mem_checkInfluence_of_influenced hInfluenced) new
  · exact absurd visited visit_ne_enter

/-- So a branch that is corrupted by influence is never remembered. -/
theorem not_remembered {p q : Point} (hp : Unswept env p) (hHead : p.items.head? = some item)
    (hInfluenced : env.influenced p.call.1 item.1 p.locals = true)
    (h : env.analyzer.Reaches p q) : item.1 ∉ q.locals.localCorruptedBr := by
  rcases Relation.ReflTransGen.cases_head h with rfl | ⟨p', first, rest⟩
  · exact hp.fresh item (List.mem_of_head? hHead)
  · have hFirst := hp.leftOut hHead hInfluenced first
    clear h
    have hLeftOut : LeftOut item.1 q := by
      induction rest with
      | refl => exact hFirst
      | tail _ last ih => exact ih.advance last
    exact hLeftOut.notRemembered

theorem unswept_of_visits {q : Point} (h : env.analyzer.Visits site s q) : Unswept env q := by
  obtain ⟨items, l, s₁, started, hReach⟩ := h
  obtain ⟨hLocals, hSuffix, -⟩ := start_body started
  induction hReach with
  | refl => exact ⟨hSuffix, by rw [hLocals]; simp⟩
  | tail _ last ih => exact ih.advance last

theorem call_of_visits {q : Point} (h : env.analyzer.Visits site s q) : q.call = site := by
  obtain ⟨items, l, s₁, -, hReach⟩ := h
  induction hReach with
  | refl => rfl
  | tail _ last ih =>
      rcases last with handles | ⟨visited, -⟩
      · cases handles <;> exact ih
      · exact absurd visited visit_ne_enter

end Sweep

/-- Whatever a corrupted branch influences behind it is corrupted when the sweep returns,
although a branch that is influenced itself is never remembered. -/
theorem controlTaint_closed {env : Env} {F : FuncRef} {ins : InstRef}
    {cdg : ControlDependenceGraphBase} {s s' : State} {rv : Bool}
    (hGraph : env.graphs F = some cdg)
    (notBr : ∀ i, env.module.inst? ins = some i → i.opcode ≠ .br) (hEmpty : s.corruptedIR = ∅)
    (h : env.intraFlowAnalysis (F, ins) s = .ok (rv, s')) :
    (∀ b ∈ sweptItems env.module F (some ins), b.2.opcode = .br →
      .instruction b.1 ∈ s'.corruptedIR →
      ∀ i ∈ env.module.instructions F, LayoutLt b.1 i.1 →
        cdg.influences b.1.block i.1.block = true → .instruction i.1 ∈ s'.corruptedIR) ∧
    ∀ p q item, env.analyzer.Visits (F, ins) s p → p.items.head? = some item →
      item.2.opcode = .br → env.influenced F item.1 p.locals = true →
      env.analyzer.Reaches p q → item.1 ∉ q.locals.localCorruptedBr := by
  constructor
  · intro b hb isBr hMem i hi hLt hInfluences
    have hMemF : b ∈ env.module.instructions F := (List.dropWhile_suffix _).subset hb
    cases env.analyzer.runs_of_run h with
    | returned started => exact absurd started start_ne_returned
    | swept started sweeps =>
        obtain ⟨-, hSuffix, -, rfl⟩ := start_body started
        have hSite : env.graphs (F, ins).1 = some cdg := hGraph
        have hTaint := controlTaint_of_sweeps hSite hSuffix (controlTaint_start hEmpty notBr)
          sweeps
        exact hTaint.closed b hMemF isBr hMem i hi hLt List.not_mem_nil hInfluences
  · intro p q item hVisits hHead _ hInfluenced hReach
    refine not_remembered (unswept_of_visits hVisits) hHead ?_ hReach
    rw [call_of_visits hVisits]
    exact hInfluenced

/-- `poll` leaves nested conditions of which the outer one reads a flag. -/
def pollModule : Module where
  functions := [
    { name := "poll"
      blocks := [
        { body := [⟨.load, [.globalVariable 0], some ⟨"poll.c", 11⟩⟩]
          terminator := ⟨.br, [.instruction ⟨0, 0, 0⟩, .basicBlock ⟨0, 1⟩, .basicBlock ⟨0, 3⟩],
            some ⟨"poll.c", 11⟩⟩
          successors := [1, 3] },
        { body := [⟨.load, [.globalVariable 1], some ⟨"poll.c", 12⟩⟩]
          terminator := ⟨.br, [.instruction ⟨0, 1, 0⟩, .basicBlock ⟨0, 2⟩, .basicBlock ⟨0, 3⟩],
            some ⟨"poll.c", 12⟩⟩
          successors := [2, 3] },
        { body := [⟨.store, [.constant 1, .globalVariable 2], some ⟨"poll.c", 13⟩⟩]
          terminator := ⟨.br, [.basicBlock ⟨0, 3⟩], some ⟨"poll.c", 13⟩⟩
          successors := [3] },
        { body := []
          terminator := ⟨.ret, [], some ⟨"poll.c", 14⟩⟩
          successors := [] }] }]

def pollGraph : ControlDependenceGraphBase where
  graph := { node := fun x =>
    if x = .block 1 then { parents := [.block 0] }
    else if x = .block 2 then { parents := [.block 1] }
    else {} }
  rounds _ _ := 2
  ends A B := by
    rcases B with _ | _ | _ | B
    · rfl
    · rcases A with _ | A <;> rfl
    · rcases A with _ | _ | A <;> rfl
    · rfl

def innerBr : Instruction :=
  ⟨.br, [.instruction ⟨0, 1, 0⟩, .basicBlock ⟨0, 2⟩, .basicBlock ⟨0, 3⟩], some ⟨"poll.c", 12⟩⟩

def pollEnv : Env where
  module := pollModule
  graphs _ := some pollGraph

/-- The inner branch is corrupted and influenced. It is never remembered, and what it
influences is corrupted. -/
theorem controlTaint_closed_poll : ∃ rv s',
    pollEnv.intraFlowAnalysis (0, ⟨0, 0, 0⟩) {} = .ok (rv, s') ∧
      .instruction ⟨0, 1, 1⟩ ∈ s'.corruptedIR ∧ .instruction ⟨0, 2, 0⟩ ∈ s'.corruptedIR ∧
      ∃ p, pollEnv.analyzer.Visits (0, ⟨0, 0, 0⟩) {} p ∧
        p.items.head?.map Prod.fst = some ⟨0, 1, 1⟩ ∧
        ∀ q, pollEnv.analyzer.Reaches p q → ⟨0, 1, 1⟩ ∉ q.locals.localCorruptedBr := by
  obtain ⟨⟨rv, s'⟩, hRun, hBranch⟩ := exists_ok_of_any
    (x := pollEnv.intraFlowAnalysis (0, ⟨0, 0, 0⟩) {})
    (P := fun answer => .instruction ⟨0, 1, 1⟩ ∈ answer.2.corruptedIR) (by decide)
  have hLoad : ∀ i, pollEnv.module.inst? ⟨0, 0, 0⟩ = some i → i.opcode ≠ .br := by
    intro i hInst
    have hLoad : pollEnv.module.inst? ⟨0, 0, 0⟩ =
        some ⟨.load, [.globalVariable 0], some ⟨"poll.c", 11⟩⟩ := by decide
    cases hLoad.symm.trans hInst
    simp
  have hGraph : pollEnv.graphs 0 = some pollGraph := rfl
  have hClosed := controlTaint_closed hGraph hLoad rfl hRun
  obtain ⟨p, hVisits, hHead, hInfluenced⟩ : ∃ p, pollEnv.analyzer.Visits (0, ⟨0, 0, 0⟩) {} p ∧
      p.items.head? = some (⟨0, 1, 1⟩, innerBr) ∧
      pollEnv.influenced 0 ⟨0, 1, 1⟩ p.locals = true :=
    pollEnv.analyzer.exists_visits_of_eval 1 4 (by decide)
  refine ⟨rv, s', hRun, hBranch, ?_, p, hVisits, by rw [hHead]; rfl, fun q hReach => ?_⟩
  · exact hClosed.1 (⟨0, 1, 1⟩, innerBr) (by decide) rfl hBranch
      (⟨0, 2, 0⟩, ⟨.store, [.constant 1, .globalVariable 2], some ⟨"poll.c", 13⟩⟩) (by decide)
      (by decide) (by decide)
  · exact hClosed.2 p q _ hVisits hHead rfl hInfluenced hReach

end Env
end ConAnalysis.SyncLoop
