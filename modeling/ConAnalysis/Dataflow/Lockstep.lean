import ConAnalysis.Dataflow.Growth
import ConAnalysis.Dataflow.History

/-! The ordered list and the set of corrupted values through the replay of one head. -/
namespace ConAnalysis
open IR CallSweep

namespace State

theorem Extends.isPrefix {s t : State} (h : s.Extends t) :
    s.orderedcorruptedIR <+: t.orderedcorruptedIR := by
  obtain ⟨added, hList, -⟩ := h
  exact ⟨added, hList.symm⟩

/-- Insertions keep the list and the set in step. -/
theorem InStep.grows {s t : State} (hs : s.InStep) (h : s.Grows t) : t.InStep :=
  hs.extends h.extends

end State

namespace Env
variable {env : Env} {s₀ s t : State} {past : Set Point}

/-- Both containers are empty when a head begins. -/
theorem inStep_beginHead (body : List Site) (head : Site) (s : State) :
    (beginHead body head s).InStep := ⟨List.nodup_nil, by simp [beginHead]⟩

/-- The state has come from the first one, and from every point that has been passed, by
insertions. -/
structure Continues (s₀ : State) (past : Set Point) (s : State) : Prop where
  first : s₀.Grows s
  passed : ∀ p ∈ past, p.state.Grows s

theorem Continues.grows (h : Continues s₀ past s) (hGrows : s.Grows t) : Continues s₀ past t where
  first := h.first.trans hGrows
  passed p hp := (h.passed p hp).trans hGrows

/-- The point at hand becomes a point that has been passed. -/
theorem Continues.insert {p : Point} (h : Continues s₀ past p.state) (hGrows : p.state.Grows t) :
    Continues s₀ (insert p past) t where
  first := h.first.trans hGrows
  passed := by
    rintro q (rfl | hq)
    · exact hGrows
    · exact (h.passed q hq).trans hGrows

/-- Step rule: within a head each point continues those before it. -/
theorem continues_chronicles (s₀ : State) : env.analyzer.Chronicles
    (fun call item => item ∈ env.module.instructions call.func) (Continues s₀) := by
  have hParts : env.analyzer.Respects (fun _ _ => True) State.Grows := analyzer_grows _
  constructor
  case done => exact fun _ h visited => h.insert (hParts.done trivial visited)
  case returned =>
    intro past call item items l s callee l' s' result s'' _ h visited started
    exact h.insert ((hParts.enter trivial visited).trans (hParts.returned started))
  case body =>
    intro past call item items l s callee l' s' body lb s'' _ h visited started
    exact h.insert ((hParts.enter trivial visited).trans (hParts.body started))
  case leave => exact fun _ h _ _ => h.grows (leave_grows ..)

/-- Neither starting a frame nor coming back takes anything away. -/
theorem continues_replays (layers : List FuncInst) (s₀ : State) :
    env.Replays layers (Continues s₀) where
  start _ h started := h.grows ((analyzer_grows fun _ _ => True).body started)
  popFrame h := h.grows (.of_eq rfl rfl)
  resume _ h := h.grows (.add ..)

/-- The list and the set agree, and both continue what they were at every point that has been
passed. -/
structure Lockstep (s₀ : State) (past : Set Point) (s : State) : Prop where
  inStep : s.InStep
  continues : Continues s₀ past s
  growing : ∀ p ∈ past, p.state.corruptedIR ⊆ s.corruptedIR ∧
    p.state.orderedcorruptedIR <+: s.orderedcorruptedIR

/-- From a state in step, everything that continues it is in step. -/
theorem Continues.lockstep (h : Continues s₀ past s) (h₀ : s₀.InStep) : Lockstep s₀ past s where
  inStep := h₀.grows h.first
  continues := h
  growing p hp := ⟨(h.passed p hp).extends.subset, (h.passed p hp).extends.isPrefix⟩

/-- What holds of the state in which the reports of a head are made. -/
theorem inStep_replayHead {body : List Site} {head : Site} (h : env.replayHead body head s = .ok t) :
    t.InStep := by
  rw [replayHead, popLoop_eq_replayFrames (by simp [beginHead])] at h
  exact (inStep_beginHead body head s).extends
    (replayReaches_extends (replayReaches_of_replayFrames h))

variable (env)

/-- Every insertion keeps the containers in step; so they are at every point of the replay, at
every border between two layers, and at its end. -/
theorem lockstep_of_replay (body : List Site) (head : Site) (s : State) :
    (∀ t, (beginHead body head s).Grows t → t.InStep) ∧
      (∀ chain past q, ReplayPoint env ((head :: body).map Site.layer) (beginHead body head s)
        chain past q → Lockstep (beginHead body head s) past q.state) ∧
      (∀ past c, ReplayPath env ((head :: body).map Site.layer) (beginHead body head s) past c →
        Lockstep (beginHead body head s) past c.2) ∧
      ∀ t, env.replayHead body head s = .ok t → ∃ past,
        ReplayPath env ((head :: body).map Site.layer) (beginHead body head s) past ([], t) ∧
          Lockstep (beginHead body head s) past t := by
  have hBegin := inStep_beginHead body head s
  have hFirst : Continues (beginHead body head s) ∅ (beginHead body head s) :=
    ⟨.refl _, by simp⟩
  have hPath : ∀ past c, ReplayPath env ((head :: body).map Site.layer) (beginHead body head s)
      past c → Lockstep (beginHead body head s) past c.2 := fun past c h =>
    (h.chronicle (continues_chronicles _) (continues_replays _ _) hFirst).lockstep hBegin
  refine ⟨fun t => hBegin.grows, fun chain past q h => ?_, hPath, fun t h => ?_⟩
  · exact (h.chronicle (continues_chronicles _) (continues_replays _ _) hFirst).lockstep hBegin
  · rw [replayHead, popLoop_eq_replayFrames (by simp [beginHead])] at h
    obtain ⟨past, hReplay⟩ := (replayReaches_of_replayFrames h).exists_path
    exact ⟨past, hReplay, hPath past _ hReplay⟩

end Env
end ConAnalysis
