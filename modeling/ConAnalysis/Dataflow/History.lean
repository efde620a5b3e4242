import ConAnalysis.Dataflow.Replay
import ConAnalysis.Library.CallHistory

/-! What a replay has behind it: the points passed in the layers that have been
worked off, and those passed in the layer at hand. -/
namespace ConAnalysis
open IR CallSweep

namespace Env
variable {env : Env} {layers : List FuncInst} {s₀ : State}

/-- A replay gets to one of its layers, with the points of the layers above. -/
inductive ReplayPath (env : Env) (layers : List FuncInst) (s₀ : State) :
    Set Point → List FuncInst × State → Prop where
  | refl : ReplayPath env layers s₀ ∅ (layers, s₀)
  | frame {loc : FuncInst} {below : List FuncInst} {past : Set Point} {s s' : State}
      {addFuncRet : Bool} (prior : ReplayPath env layers s₀ past (loc :: below, s))
      (analysed : env.analyseFrame loc s = .ok (addFuncRet, s')) :
      ReplayPath env layers s₀ (past ∪ env.analyzer.visited (frameCall loc) s)
        (below, resumeCaller addFuncRet s'.popFrame)

/-- A replay gets to a point: `chain` are the points at which the active callees
were entered, and `past` are all points that it has passed. -/
inductive ReplayPoint (env : Env) (layers : List FuncInst) (s₀ : State) :
    List Point → Set Point → Point → Prop where
  | sweep {loc : FuncInst} {below : List FuncInst} {items : List (InstRef × Instruction)}
      {l : Locals} {s s₁ : State} {before past : Set Point} {chain : List Point} {q : Point}
      (layer : ReplayPath env layers s₀ before (loc :: below, s))
      (started : env.start (frameCall loc) s = .ok (.body items l s₁))
      (path : env.analyzer.Path ⟨frameCall loc, items, l, s₁⟩ chain past q) :
      ReplayPoint env layers s₀ chain (before ∪ past) q

/-- Every border of a replay that is reached has a history. -/
theorem ReplayReaches.exists_path {c : List FuncInst × State}
    (h : env.ReplayReaches (layers, s₀) c) : ∃ past, ReplayPath env layers s₀ past c := by
  induction h with
  | refl => exact ⟨_, .refl⟩
  | tail _ last ih =>
      obtain ⟨past, prior⟩ := ih
      cases last with
      | frame analysed => exact ⟨_, prior.frame analysed⟩

/-- What has to be shown of a chronicle about replays, besides the visits. -/
structure Replays (layers : List FuncInst) (I : Set Point → State → Prop) : Prop where
  start : ∀ {past loc s items l s'}, loc ∈ layers → I past s →
    env.start (frameCall loc) s = .ok (.body items l s') → I past s'
  popFrame : ∀ {past s}, I past s → I past s.popFrame
  resume : ∀ {past s} (callSite : InstRef), I past s → I past (s.add2CrptList (.instruction callSite))

namespace ReplayPath
variable {I : Set Point → State → Prop}

/-- The frames still to come are the last ones of the stack. -/
theorem layers_suffix {past : Set Point} {c : List FuncInst × State}
    (h : ReplayPath env layers s₀ past c) : c.1 <:+ layers := by
  induction h with
  | refl => exact List.suffix_refl _
  | frame _ _ ih => exact (List.suffix_cons _ _).trans ih

/-- Rule for laws over histories: what every step of a sweep and every border of a frame keeps
holds at each border of the replay. -/
theorem chronicle (hI : env.analyzer.Chronicles
      (fun call item => item ∈ env.module.instructions call.func) I)
    (hReplays : env.Replays layers I) (h₀ : I ∅ s₀) {past : Set Point}
    {c : List FuncInst × State} (h : ReplayPath env layers s₀ past c) : I past c.2 := by
  induction h with
  | refl => exact h₀
  | @frame loc below past s s' addFuncRet prior analysed ih =>
      have hFrame : I (past ∪ env.analyzer.visited (frameCall loc) s) s' := by
        cases env.analyzer.runs_of_run analysed with
        | returned started => exact absurd started (env.start_frameCall_ne_returned loc s _ _)
        | swept started swept =>
            rw [Analyzer.visited_of_body started]
            exact hI.sweeps analyzer_supplies _ (analyzer_supplies started)
              (hReplays.start (prior.layers_suffix.subset List.mem_cons_self) ih started) swept
      unfold resumeCaller
      split
      · exact hReplays.resume _ (hReplays.popFrame hFrame)
      · exact hReplays.popFrame hFrame

end ReplayPath

/-- A chronicle holds at every point of a replay. -/
theorem ReplayPoint.chronicle {I : Set Point → State → Prop} (hI : env.analyzer.Chronicles
      (fun call item => item ∈ env.module.instructions call.func) I)
    (hReplays : env.Replays layers I) (h₀ : I ∅ s₀) {chain : List Point} {past : Set Point}
    {q : Point} (h : ReplayPoint env layers s₀ chain past q) : I past q.state := by
  cases h with
  | @sweep loc below items l s s₁ before past chain q layer started path =>
      have hLayer := layer.layers_suffix.subset List.mem_cons_self
      have hItems : ∀ item ∈ items, item ∈ env.module.instructions (frameCall loc).func :=
        analyzer_supplies started
      have hStart := hReplays.start hLayer (layer.chronicle hI hReplays h₀) started
      exact hI.path analyzer_supplies hItems hStart path

end Env
end ConAnalysis
