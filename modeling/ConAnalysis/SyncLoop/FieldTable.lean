import ConAnalysis.SyncLoop.Analysis
import ConAnalysis.Library.CallHistory

/-! The table `corruptedPtr_` in both passes. -/
namespace ConAnalysis
open IR CallSweep
open ConAnalysis.Env (Site beginHead ReplayPoint ReplayPath frameCall corruptedOperand)

namespace SyncLoop.Env
variable {env : Env}

/-- The next item of a point does no harm to the table. A GEP that a corrupted branch
influences is entered without being filed. -/
def HarmlessAt (env : Env) (p : Point) : Prop :=
  ∀ item, p.items.head? = some item →
    HarmlessKey env.module item (env.checkInfluence p.call.1 item.1 p.locals p.state)

/-- Arguments are not passed in this pass. -/
def noBinding (_ _ : Value) : Prop := False

/-- The invariant, as long as no point that has been passed does harm. -/
def TableLaw (env : Env) (past : Set Point) (s : State) : Prop :=
  (∀ p ∈ past, env.HarmlessAt p) → FieldTable env.module noBinding s

/-- Step lemma of the sweep, by the opcode of the instruction. -/
theorem TableLaw.done {past : Set Point} {site : Site} {item : InstRef × Instruction}
    {items : List (InstRef × Instruction)} {l l' : Locals} {s s' : State}
    (hs : TableLaw env past s) (hItem : item ∈ env.module.instructions site.1)
    (h : env.visit site item l s = .ok (.done l' s')) :
    TableLaw env (insert ⟨site, item :: items, l, s⟩ past) s' := by
  intro hHarmless
  have hTable : FieldTable env.module noBinding (env.checkInfluence site.1 item.1 l s) :=
    (hs fun p hp => hHarmless p (Set.mem_insert_of_mem _ hp)).keep (fun _ _ => id)
      (checkInfluence_subset ..) (checkInfluence_corruptedPtr ..)
  by_cases isGep : item.2.opcode = .getElementPtr
  · obtain ⟨-, hVisit⟩ := visit_done_getElementPtr isGep h
    exact hTable.visitGetElementPtr (Module.mem_instructions.mp hItem).2 isGep
      (hHarmless _ (Set.mem_insert ..) item rfl) hVisit
  · refine hTable.keep (fun _ _ => id) (visit_done h).subset ?_
    rw [visit_of_other isGep] at h
    cases h
    exact ConAnalysis.Env.visitOther_corruptedPtr ..

theorem tableLaw_chronicles : env.analyzer.Chronicles
    (fun site item => item ∈ env.module.instructions site.1) (TableLaw env) where
  done hItem hs visited := hs.done hItem visited
  returned _ _ visited := absurd visited visit_ne_enter
  body _ _ visited := absurd visited visit_ne_enter
  leave _ _ visited := absurd visited visit_ne_enter

/-- In every state that a sweep reaches, the table is in order if it has been at the
beginning and no GEP that has been passed did harm. -/
theorem fieldTable_of_path {site : Site} {s s₁ : State} {items : List (InstRef × Instruction)}
    {l : Locals} {chain : List Point} {past : Set Point} {q : Point}
    (hs : FieldTable env.module noBinding s) (started : env.start site s = .ok (.body items l s₁))
    (path : env.analyzer.Path ⟨site, items, l, s₁⟩ chain past q)
    (hHarmless : ∀ p ∈ past, env.HarmlessAt p) : FieldTable env.module noBinding q.state := by
  have hStart : TableLaw env ∅ s₁ := by
    intro _
    rw [(start_body started).2.2.2]
    exact hs.add2CrptList _
  have hItems : ∀ item ∈ items, item ∈ env.module.instructions site.1 :=
    (start_body started).2.1.subset
  have hPath := tableLaw_chronicles.path analyzer_supplies hItems hStart path
  rw [Set.empty_union] at hPath
  exact hPath hHarmless

end SyncLoop.Env

/-- As long as every GEP that is corrupted through an operand is filed without harm, both
passes keep the table in order, and it corrupts arguments for field accesses only. -/
theorem fieldTable_of_harmless (env : Env) (syncEnv : SyncLoop.Env) :
    (∀ (body : List Site) (head : Site) (s₀ : State) (chain : List Env.Point)
      (past : Set Env.Point) (q : Env.Point),
      ReplayPoint env ((head :: body).map Site.layer) (beginHead body head s₀) chain past q →
      (∀ p ∈ past, env.HarmlessAt p) →
        FieldTable env.module (env.boundIn past) q.state ∧
        ∀ v, corruptedOperand q.state v = true → v ∉ q.state.corruptedIR →
          ∃ idx, Accessed env.module (env.boundIn past) q.state.corruptedIR idx v) ∧
    ∀ (site : Site) (s s₁ : State) (items : List (InstRef × Instruction))
      (l : Locals) (chain : List SyncLoop.Env.Point) (past : Set SyncLoop.Env.Point)
      (q : SyncLoop.Env.Point),
      FieldTable syncEnv.module SyncLoop.Env.noBinding s →
      syncEnv.start site s = .ok (.body items l s₁) →
      syncEnv.analyzer.Path ⟨site, items, l, s₁⟩ chain past q →
      (∀ p ∈ past, syncEnv.HarmlessAt p) →
        FieldTable syncEnv.module SyncLoop.Env.noBinding q.state := by
  constructor
  · intro body head s₀ chain past q hPoint hHarmless
    have hTable := hPoint.fieldTable hHarmless
    refine ⟨hTable, fun v hv new => hTable.exists_accessed ?_⟩
    rw [corruptedOperand, Bool.and_eq_true, Bool.or_eq_true, decide_eq_true_eq] at hv
    exact hv.2.resolve_left new
  · intro site s s₁ items l chain past q hs started path hHarmless
    exact SyncLoop.Env.fieldTable_of_path hs started path hHarmless

/-- `fill` reads an index and forms an address with it. -/
def indexModule : Module where
  functions := [
    { name := "fill"
      params := 1
      blocks := [{
        body := [
          ⟨.load, [.globalVariable 0], some ⟨"fill.c", 4⟩⟩,
          ⟨.getElementPtr, [.argument 0 0, .instruction ⟨0, 0, 0⟩], some ⟨"fill.c", 5⟩⟩]
        terminator := ⟨.ret, [], some ⟨"fill.c", 6⟩⟩
        successors := [] }] }]

def indexGep : Instruction :=
  ⟨.getElementPtr, [.argument 0 0, .instruction ⟨0, 0, 0⟩], some ⟨"fill.c", 5⟩⟩

def indexRet : InstRef × Instruction := (⟨0, 0, 2⟩, ⟨.ret, [], some ⟨"fill.c", 6⟩⟩)

/-- Nobody forms an address from the index itself. -/
theorem not_accessed_index {bound : Value → Value → Prop} {corrupted : Finset Value}
    {idx : GepIdx} : ¬Accessed indexModule bound corrupted idx (.instruction ⟨0, 0, 0⟩) := by
  intro h
  cases h with
  | @base r i _ hInst _ _ hBase =>
      have hMem : (r, i) ∈ indexModule.instructions r.func := Module.mem_instructions.mpr ⟨rfl, hInst⟩
      have hFunc : r.func = 0 := Nat.lt_one_iff.mp (Module.lt_of_mem_instructions hMem)
      rw [hFunc] at hMem
      have hBases : ∀ item ∈ indexModule.instructions 0,
          item.2.operands[0]? ≠ some (.instruction ⟨0, 0, 0⟩) := by decide
      exact hBases _ hMem hBase

/-- Both passes file the access under its index instead of its base. -/
theorem index_filed_as_base :
    (∃ chain past q, ReplayPoint { module := indexModule } ([(0, ⟨0, 0, 0⟩)].map Site.layer)
        (beginHead [] (0, ⟨0, 0, 0⟩) {}) chain past q ∧
      ∃ entries idx, q.state.corruptedPtr (.instruction ⟨0, 0, 0⟩) = some entries ∧
        idx ∈ entries ∧ ¬Accessed indexModule (Env.boundIn { module := indexModule } past)
          q.state.corruptedIR idx (.instruction ⟨0, 0, 0⟩)) ∧
    ∃ items l s₁ chain past q,
      SyncLoop.Env.start { module := indexModule } (0, ⟨0, 0, 0⟩) {} = .ok (.body items l s₁) ∧
      (SyncLoop.Env.analyzer { module := indexModule }).Path ⟨(0, ⟨0, 0, 0⟩), items, l, s₁⟩
        chain past q ∧
      ∃ entries idx, q.state.corruptedPtr (.instruction ⟨0, 0, 0⟩) = some entries ∧
        idx ∈ entries ∧ ¬Accessed indexModule SyncLoop.Env.noBinding q.state.corruptedIR idx
          (.instruction ⟨0, 0, 0⟩) := by
  constructor
  · obtain ⟨items, l, s₁, chain, past, q, started, path, hEntries⟩ :
        ∃ items l s₁ chain past q, (Env.analyzer { module := indexModule }).start
            (frameCall (0, some ⟨0, 0, 0⟩)) (beginHead [] (0, ⟨0, 0, 0⟩) {}) =
              .ok (.body items l s₁) ∧
          (Env.analyzer { module := indexModule }).Path
            ⟨frameCall (0, some ⟨0, 0, 0⟩), items, l, s₁⟩ chain past q ∧
          q.state.corruptedPtr (.instruction ⟨0, 0, 0⟩) =
            some [.twoOp (.instruction ⟨0, 0, 0⟩)] :=
      (Env.analyzer { module := indexModule }).exists_path_of_eval 1 [.handle, .handle]
        (by decide)
    exact ⟨chain, _, q, .sweep .refl started path, _, _, hEntries, List.mem_singleton_self _,
      not_accessed_index⟩
  · obtain ⟨items, l, s₁, chain, past, q, started, path, hEntries⟩ :
        ∃ items l s₁ chain past q,
          (SyncLoop.Env.analyzer { module := indexModule }).start (0, ⟨0, 0, 0⟩) {} =
            .ok (.body items l s₁) ∧
          (SyncLoop.Env.analyzer { module := indexModule }).Path
            ⟨(0, ⟨0, 0, 0⟩), items, l, s₁⟩ chain past q ∧
          q.state.corruptedPtr (.instruction ⟨0, 0, 0⟩) =
            some [.twoOp (.instruction ⟨0, 0, 0⟩)] :=
      (SyncLoop.Env.analyzer { module := indexModule }).exists_path_of_eval 1 [.handle, .handle]
        (by decide)
    exact ⟨items, l, s₁, chain, past, q, started, path, _, _, hEntries,
      List.mem_singleton_self _, not_accessed_index⟩

/-- Started at the access, the pass files it under its base. -/
theorem fieldTable_of_harmless_base :
    (∃ chain past q, ReplayPoint { module := indexModule } ([(0, ⟨0, 0, 1⟩)].map Site.layer)
        (beginHead [] (0, ⟨0, 0, 1⟩) {}) chain past q ∧
      q.state.corruptedPtr (.argument 0 0) = some [.twoOp (.instruction ⟨0, 0, 0⟩)] ∧
      FieldTable indexModule (Env.boundIn { module := indexModule } past) q.state) ∧
    ∃ items l s₁ past q,
      SyncLoop.Env.start { module := indexModule } (0, ⟨0, 0, 1⟩) {} = .ok (.body items l s₁) ∧
      (SyncLoop.Env.analyzer { module := indexModule }).Path ⟨(0, ⟨0, 0, 1⟩), items, l, s₁⟩
        [] past q ∧
      .instruction ⟨0, 0, 1⟩ ∈ q.state.corruptedIR ∧
      FieldTable indexModule SyncLoop.Env.noBinding q.state := by
  constructor
  · have first : ∃ s₁ s₂, Env.start { module := indexModule } (frameCall (0, some ⟨0, 0, 1⟩))
        (beginHead [] (0, ⟨0, 0, 1⟩) {}) = .ok (.body [(⟨0, 0, 1⟩, indexGep), indexRet]
          { rv := true } s₁) ∧
        (Env.analyzer { module := indexModule }).visit (frameCall (0, some ⟨0, 0, 1⟩))
          (⟨0, 0, 1⟩, indexGep) { rv := true } s₁ = .ok (.done { rv := true } s₂) ∧
        .instruction ⟨0, 0, 1⟩ ∈ s₁.corruptedIR ∧
        s₂.corruptedPtr (.argument 0 0) = some [.twoOp (.instruction ⟨0, 0, 0⟩)] :=
      ⟨_, _, rfl, rfl, by decide, by decide⟩
    obtain ⟨s₁, s₂, started, visited, hMem, hEntries⟩ := first
    have path : (Env.analyzer { module := indexModule }).Path
        ⟨_, [(⟨0, 0, 1⟩, indexGep), indexRet], _, s₁⟩ [] _ ⟨_, [indexRet], _, s₂⟩ :=
      Analyzer.Path.refl.handles (.done visited)
    have hPoint : ReplayPoint { module := indexModule } ([(0, ⟨0, 0, 1⟩)].map Site.layer)
        (beginHead [] (0, ⟨0, 0, 1⟩) {}) [] _ _ := .sweep .refl started path
    have hTable := (fieldTable_of_harmless { module := indexModule } { module := indexModule }).1
    refine ⟨_, _, _, hPoint, hEntries, (hTable _ _ _ _ _ _ hPoint ?_).1⟩
    rw [Analyzer.passed_of_done visited, Set.empty_union, Set.empty_union]
    rintro p rfl item hItem
    cases hItem
    exact .of_mem hMem
  · have first : ∃ s₁ s₂, SyncLoop.Env.start { module := indexModule } (0, ⟨0, 0, 1⟩) {} =
          .ok (.body [(⟨0, 0, 1⟩, indexGep), indexRet] { rv := true } s₁) ∧
        (SyncLoop.Env.analyzer { module := indexModule }).visit (0, ⟨0, 0, 1⟩)
          (⟨0, 0, 1⟩, indexGep) { rv := true } s₁ = .ok (.done { rv := true } s₂) ∧
        .instruction ⟨0, 0, 1⟩ ∈ s₁.corruptedIR ∧ .instruction ⟨0, 0, 1⟩ ∈ s₂.corruptedIR :=
      ⟨_, _, rfl, rfl, by decide, by decide⟩
    obtain ⟨s₁, s₂, started, visited, hMem, hAfter⟩ := first
    have path : (SyncLoop.Env.analyzer { module := indexModule }).Path
        ⟨_, [(⟨0, 0, 1⟩, indexGep), indexRet], _, s₁⟩ [] _ ⟨_, [indexRet], _, s₂⟩ :=
      Analyzer.Path.refl.handles (.done visited)
    have hTable := (fieldTable_of_harmless { module := indexModule } { module := indexModule }).2
    refine ⟨_, _, _, _, _, started, path, hAfter, hTable _ _ _ _ _ _ _ _
      (.of_empty fun _ => rfl) started path ?_⟩
    rw [Analyzer.passed_of_done visited, Set.empty_union]
    rintro p rfl item hItem
    cases hItem
    exact .of_mem (SyncLoop.Env.checkInfluence_subset _ _ _ _ hMem)

end ConAnalysis
