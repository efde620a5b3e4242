import ConAnalysis.SyncLoop.Analysis
import ConAnalysis.Library.CallHistory

/-! Corrupted stores in both passes. A store that a corrupted branch influences is entered
without its pointer operand, and then it is known when its operands are looked at. -/
namespace ConAnalysis
open IR CallSweep Exceptions ControlDependence

namespace SyncLoop.Env
variable {env : Env}

/-- If a corrupted branch influences the next item of a point, and this is a store that
is not corrupted yet, what it writes to is. -/
def InfluenceKnown (env : Env) (p : Point) : Prop :=
  ∀ item, p.items.head? = some item → env.influenced p.call.1 item.1 p.locals = true →
    PointerKnown item p.state

/-- A store that is corrupted by influence does not bring its pointer along, so it has to be
known. -/
theorem storesPass_checkInfluence {items : List (InstRef × Instruction)} {F : FuncRef}
    {item : InstRef × Instruction} {l : Locals} {s : State}
    (hItems : ∀ item ∈ items, env.module.inst? item.1 = some item.2)
    (hItem : env.module.inst? item.1 = some item.2) (hs : StoresPass items s)
    (hKnown : env.influenced F item.1 l = true → PointerKnown item s) :
    StoresPass items (env.checkInfluence F item.1 l s) := by
  unfold checkInfluence
  split
  · next hInfluenced =>
      exact hs.enter hItems hItem (hKnown hInfluenced) (State.add2CrptList_corruptedIR ..)
  · exact hs

theorem storesPass_chronicles {items : List (InstRef × Instruction)}
    (hItems : ∀ item ∈ items, env.module.inst? item.1 = some item.2) :
    env.analyzer.Chronicles (fun site item => item ∈ env.module.instructions site.1)
      fun past s => (∀ p ∈ past, env.InfluenceKnown p) → StoresPass items s where
  done hItem hs visited := by
    intro hKnown
    have hInst := (Module.mem_instructions.mp hItem).2
    refine StoresPass.visited hItems hInst ?_ (visit_done visited)
    refine storesPass_checkInfluence hItems hInst ?_ (hKnown _ (Set.mem_insert ..) _ rfl)
    exact hs fun p hp => hKnown p (Set.mem_insert_of_mem _ hp)
  returned _ _ visited := absurd visited visit_ne_enter
  body _ _ visited := absurd visited visit_ne_enter
  leave _ _ visited := absurd visited visit_ne_enter

/-- The corrupted stores behind the start have corrupted what they write to when the
sweep returns, unless a store has been entered before its operands are looked at. -/
theorem storesPass_of_intraFlowAnalysis {site : ConAnalysis.Env.Site} {s s' : State} {rv : Bool}
    (hs : StoresPass (sweptItems env.module site.1 (some site.2)) s)
    (hStart : ∀ i, env.module.inst? site.2 = some i → PointerKnown (site.2, i) s)
    (hKnown : ∀ p ∈ env.analyzer.visited site s, env.InfluenceKnown p)
    (h : env.intraFlowAnalysis site s = .ok (rv, s')) :
    StoresPass (sweptItems env.module site.1 (some site.2)) s' := by
  have hItems : ∀ item ∈ sweptItems env.module site.1 (some site.2),
      env.module.inst? item.1 = some item.2 := fun _ => sweptItems_inst?
  cases env.analyzer.runs_of_run h with
  | returned started => exact absurd started start_ne_returned
  | @swept items _ _ _ _ _ started sweeps =>
      obtain ⟨-, hSuffix, hHead, rfl⟩ := start_body started
      have hBody : ∀ item ∈ items, item ∈ env.module.instructions site.1 := hSuffix.subset
      obtain ⟨⟨r, i⟩, hFirst, rfl⟩ := Option.map_eq_some_iff.mp hHead
      have hInst := (Module.mem_instructions.mp (hBody _ (List.mem_of_head? hFirst))).2
      have hEnter := hs.enter hItems hInst (hStart i hInst) (State.add2CrptList_corruptedIR ..)
      have hSwept := (storesPass_chronicles hItems).sweeps analyzer_supplies ∅ hBody
        (fun _ => hEnter) sweeps
      rw [← Analyzer.visited_of_body started, Set.empty_union] at hSwept
      exact hSwept hKnown

end SyncLoop.Env

/-- Corrupted stores have corrupted what they write to when a pass returns, if the start
is no new store that has not, nor any store that a corrupted branch influences. -/
theorem storesPass_of_known (env : Env) (syncEnv : SyncLoop.Env) :
    (∀ (fuel : Nat) (call : Call) (s s' : State) (rv : Bool),
      StoresPass (sweptItems env.module call.func call.ins) s →
      (∀ r i, call.ins = some r → env.module.inst? r = some i → PointerKnown (r, i) s) →
      env.intraDataflowAnalysis fuel call s = .ok (rv, s') →
        StoresPass (sweptItems env.module call.func call.ins) s') ∧
    ∀ (site : Env.Site) (s s' : State) (rv : Bool),
      StoresPass (sweptItems syncEnv.module site.1 (some site.2)) s →
      (∀ i, syncEnv.module.inst? site.2 = some i → PointerKnown (site.2, i) s) →
      (∀ p ∈ syncEnv.analyzer.visited site s, syncEnv.InfluenceKnown p) →
      syncEnv.intraFlowAnalysis site s = .ok (rv, s') →
        StoresPass (sweptItems syncEnv.module site.1 (some site.2)) s' :=
  ⟨fun _ _ _ _ _ => Env.storesPass_of_intraDataflowAnalysis,
    fun _ _ _ _ => SyncLoop.Env.storesPass_of_intraFlowAnalysis⟩

/-- `publish` writes a flag under a condition and a value without one. -/
def publishModule : Module where
  functions := [
    { name := "publish"
      blocks := [
        { body := [⟨.load, [.globalVariable 0], some ⟨"publish.c", 3⟩⟩]
          terminator := ⟨.br, [.instruction ⟨0, 0, 0⟩, .basicBlock ⟨0, 1⟩, .basicBlock ⟨0, 2⟩],
            some ⟨"publish.c", 3⟩⟩
          successors := [1, 2] },
        { body := [⟨.store, [.constant 1, .globalVariable 1], some ⟨"publish.c", 4⟩⟩]
          terminator := ⟨.br, [.basicBlock ⟨0, 2⟩], some ⟨"publish.c", 4⟩⟩
          successors := [2] },
        { body := [⟨.store, [.instruction ⟨0, 0, 0⟩, .globalVariable 2], some ⟨"publish.c", 5⟩⟩]
          terminator := ⟨.ret, [], some ⟨"publish.c", 6⟩⟩
          successors := [] }] }]

def publishGraph : ControlDependenceGraphBase where
  graph := { node := fun x => if x = .block 1 then { parents := [.block 0] } else {} }
  rounds _ _ := 1
  ends A B := by
    by_cases hB : B = 1
    · simp only [influences, Search.search, hB, ↓reduceIte]
      split <;> rfl
    · simp [influences, Search.search, hB]

/-- A store that is the start of the one pass and one that is control dependent on a
corrupted branch in the other are corrupted, but what they write to is not. -/
theorem stores_without_pointer :
    (∃ rv s', Env.intraDataflowAnalysis { module := publishModule } 1
        { func := 0, ins := some ⟨0, 1, 0⟩ } {} = .ok (rv, s') ∧
      ¬StoresPass (sweptItems publishModule 0 (some ⟨0, 1, 0⟩)) s') ∧
    ∃ rv s', SyncLoop.Env.intraFlowAnalysis
        { module := publishModule, graphs := fun _ => some publishGraph } (0, ⟨0, 0, 0⟩) {} =
          .ok (rv, s') ∧
      ¬StoresPass (sweptItems publishModule 0 (some ⟨0, 0, 0⟩)) s' := by
  have hStore : (⟨0, 1, 0⟩, ⟨.store, [.constant 1, .globalVariable 1], some ⟨"publish.c", 4⟩⟩) ∈
      sweptItems publishModule 0 (some ⟨0, 1, 0⟩) ∧
      (⟨0, 1, 0⟩, ⟨.store, [.constant 1, .globalVariable 1], some ⟨"publish.c", 4⟩⟩) ∈
      sweptItems publishModule 0 (some ⟨0, 0, 0⟩) := by decide
  constructor
  · obtain ⟨⟨rv, s'⟩, hRun, hMem, new⟩ := exists_ok_of_any (x := Env.intraDataflowAnalysis
      { module := publishModule } 1 { func := 0, ins := some ⟨0, 1, 0⟩ } {})
      (P := fun answer => .instruction ⟨0, 1, 0⟩ ∈ answer.2.corruptedIR ∧
        .globalVariable 1 ∉ answer.2.corruptedIR) (by decide)
    exact ⟨rv, s', hRun, fun h => new (h _ hStore.1 rfl hMem _ rfl)⟩
  · obtain ⟨⟨rv, s'⟩, hRun, hMem, new⟩ := exists_ok_of_any (x := SyncLoop.Env.intraFlowAnalysis
      { module := publishModule, graphs := fun _ => some publishGraph } (0, ⟨0, 0, 0⟩) {})
      (P := fun answer => .instruction ⟨0, 1, 0⟩ ∈ answer.2.corruptedIR ∧
        .globalVariable 1 ∉ answer.2.corruptedIR) (by decide)
    exact ⟨rv, s', hRun, fun h => new (h _ hStore.2 rfl hMem _ rfl)⟩

/-- Without a graph, the sweep from the load corrupts the value that is written. -/
theorem storesPass_of_known_publish :
    (∃ rv s', Env.intraDataflowAnalysis { module := publishModule } 1
        { func := 0, ins := some ⟨0, 0, 0⟩ } {} = .ok (rv, s') ∧
      .instruction ⟨0, 2, 0⟩ ∈ s'.corruptedIR ∧
      StoresPass (sweptItems publishModule 0 (some ⟨0, 0, 0⟩)) s') ∧
    ∃ rv s', SyncLoop.Env.intraFlowAnalysis { module := publishModule } (0, ⟨0, 0, 0⟩) {} =
        .ok (rv, s') ∧
      .instruction ⟨0, 2, 0⟩ ∈ s'.corruptedIR ∧
      StoresPass (sweptItems publishModule 0 (some ⟨0, 0, 0⟩)) s' := by
  have hLoad : ∀ i, publishModule.inst? ⟨0, 0, 0⟩ = some i → PointerKnown (⟨0, 0, 0⟩, i) {} := by
    intro i hInst isStore
    have hLoad : publishModule.inst? ⟨0, 0, 0⟩ =
        some ⟨.load, [.globalVariable 0], some ⟨"publish.c", 3⟩⟩ := by decide
    cases hLoad.symm.trans hInst
    cases isStore
  have hEmpty : ∀ items, StoresPass items {} := fun _ _ _ _ hMem => absurd hMem (by simp)
  constructor
  · obtain ⟨⟨rv, s'⟩, hRun, hMem⟩ := exists_ok_of_any (x := Env.intraDataflowAnalysis
      { module := publishModule } 1 { func := 0, ins := some ⟨0, 0, 0⟩ } {})
      (P := fun answer => .instruction ⟨0, 2, 0⟩ ∈ answer.2.corruptedIR) (by decide)
    have hPass := (storesPass_of_known { module := publishModule } { module := publishModule }).1
    refine ⟨rv, s', hRun, hMem, hPass _ _ _ _ _ (hEmpty _) ?_ hRun⟩
    intro r i hr hInst
    cases hr
    exact hLoad i hInst
  · obtain ⟨⟨rv, s'⟩, hRun, hMem⟩ := exists_ok_of_any (x := SyncLoop.Env.intraFlowAnalysis
      { module := publishModule } (0, ⟨0, 0, 0⟩) {})
      (P := fun answer => .instruction ⟨0, 2, 0⟩ ∈ answer.2.corruptedIR) (by decide)
    have hPass := (storesPass_of_known { module := publishModule } { module := publishModule }).2
    refine ⟨rv, s', hRun, hMem, hPass _ _ _ _ (hEmpty _) hLoad ?_ hRun⟩
    intro p _ item _ hInfluenced
    cases hInfluenced

end ConAnalysis
