import ConAnalysis.SyncLoop.Analysis
import ConAnalysis.SyncLoop.Loops

/-! `SyncLoop::adhocSyncAnalysis`: does a read reach the exit of its loop, while the write
stores a constant? -/
namespace ConAnalysis.SyncLoop
open IR CallSweep Exceptions
open ConAnalysis.Env (Site)

/-- `isa<Constant>`, which globals and functions are too. -/
def isConstant : Value → Bool
  | .constant _ | .globalVariable _ | .function _ => true
  | .instruction _ | .argument .. | .basicBlock _ => false

/-- The message on an ad hoc synchronisation loop: the lines of the report, and the
instruction that the exit depends on. -/
structure Detected where
  writeLine : FuncFileLine
  readLine : FuncFileLine
  inst : InstRef
deriving DecidableEq

abbrev RacingLines := FuncFileLine × FuncFileLine

def clearDataSets (s : State) : State :=
  { s with
    corruptedIR := ∅
    orderedcorruptedIR := []
    corruptedPtr := fun _ => none
    corruptedBr := [] }

namespace Env

def constantWrite (env : Env) (writeFuncInstList : List Site) : Bool :=
  writeFuncInstList.any fun site => (env.module.inst? site.2).any fun i =>
    i.opcode = .store && i.operands[0]?.any isConstant

/-- The place of a comparison or a binary operator. -/
def corruptInBr (env : Env) : Value → Option InstRef
  | .instruction r => (env.module.inst? r).bind fun i =>
      if i.opcode = .iCmp ∨ i.opcode = .binary then some r else none
  | _ => none

/-- The loop over the corrupted values, up to its `break`. -/
def findExit (env : Env) (LI : LoopInfo env.module) (iL : Loop) (orderedcorruptedIR : List Value) :
    Option InstRef :=
  (orderedcorruptedIR.filterMap env.corruptInBr).find? fun I => LI.isLoopExiting iL I.parent

/-- The loop over the reads: the messages, and what ends the process early. -/
def analyseReads (env : Env) (LI : LoopInfo env.module) (input : RacingLines) (iL : Loop) :
    List Site → State → List Detected × Option (Stop Fault)
  | [], _ => ([], none)
  | site :: sites, s =>
      match env.intraFlowAnalysis site s with
      | .error stop => ([], some stop)
      | .ok (_, s) =>
          let found := (env.findExit LI iL s.orderedcorruptedIR).map fun I =>
            { writeLine := input.1, readLine := input.2, inst := I }
          let (messages, stop) := analyseReads env LI input iL sites (clearDataSets s)
          (found.toList ++ messages, stop)

/-- `SyncLoop::adhocSyncAnalysis`. Nobody reads the Boolean it returns. -/
def adhocSyncAnalysis (env : Env) (LI : LoopInfo env.module) (input : RacingLines)
    (writeFuncInstList readFuncInstList : List Site) (iL : Loop) :
    List Detected × Option (Stop Fault) :=
  if env.constantWrite writeFuncInstList then
    env.analyseReads LI input iL readFuncInstList {}
  else ([], none)

/-- `SyncLoop::runOnModule` behind `initialize`, for a list of reads that is not empty. -/
def runOnModule (env : Env) (LI : LoopInfo env.module) (input : RacingLines)
    (writeFuncInstList readFuncInstList : List Site) (hReads : readFuncInstList ≠ []) :
    List Detected × Option (Stop Fault) :=
  match checkLoop LI (readFuncInstList.head hReads).2 with
  | none => ([], none)
  | some inLoop => env.adhocSyncAnalysis LI input writeFuncInstList readFuncInstList inLoop

section Sweep
variable {env : Env} {site : Site} {s s' : State} {rv : Bool}

/-- What a sweep does: the list and the set grow together, and nothing else is left once
the data sets are cleared. -/
structure Grows (s s' : State) : Prop where
  extends_ : s.Extends s'
  cleared : clearDataSets s' = clearDataSets s

theorem Grows.refl (s : State) : Grows s s := ⟨.refl s, rfl⟩

/-- Growing steps compose, so that it is enough to look at one instruction. -/
theorem Grows.trans {s₁ s₂ s₃ : State} (h₁ : Grows s₁ s₂) (h₂ : Grows s₂ s₃) : Grows s₁ s₃ :=
  ⟨h₁.extends_.trans h₂.extends_, h₂.cleared.trans h₁.cleared⟩

theorem Grows.add (v : Value) (s : State) : Grows s (s.add2CrptList v) := by
  refine ⟨.add v s, ?_⟩
  unfold State.add2CrptList
  split <;> rfl

theorem Grows.visitGetElementPtr {item : InstRef × Instruction}
    (isGep : item.2.opcode = .getElementPtr)
    (h : ConAnalysis.Env.visitGetElementPtr item.1 item.2 s = .ok s') : Grows s s' := by
  rcases visitGetElementPtr_spec isGep h with rfl | rfl | ⟨key, idx, -, rfl⟩
  · exact .refl _
  · exact .add _ s
  · exact (Grows.add _ s).trans ⟨.of_eq rfl rfl, rfl⟩

theorem Grows.visitOther (item : InstRef × Instruction) (l : Locals) (s : State) :
    Grows s (ConAnalysis.Env.visitOther item.1 item.2 l s).2 := by
  unfold ConAnalysis.Env.visitOther
  split
  · split
    · split
      · exact (Grows.add _ s).trans (.add _ _)
      · exact .add _ s
    · exact (Grows.add _ s).trans ⟨.of_eq rfl rfl, rfl⟩
    · exact .add _ s
  · exact .refl s

/-- Step lemma: an instruction corrupts values and files nothing. -/
theorem Grows.visit {item : InstRef × Instruction} {l l' : Locals}
    (h : env.visit site item l s = .ok (.done l' s')) : Grows s s' := by
  have hCheck : Grows s (env.checkInfluence site.1 item.1 l s) := by
    unfold checkInfluence
    split
    · exact .add _ s
    · exact .refl s
  by_cases isGep : item.2.opcode = .getElementPtr
  · exact hCheck.trans (.visitGetElementPtr isGep (visit_done_getElementPtr isGep h).2)
  · rw [visit_of_other isGep] at h
    cases h
    exact hCheck.trans (.visitOther ..)

theorem analyzer_grows (Good : Site → InstRef × Instruction → Prop) :
    env.analyzer.Respects Good Grows where
  refl := .refl
  trans := .trans
  returned h := absurd h start_ne_returned
  body h := by
    rw [(start_body h).2.2.2]
    exact .add _ _
  done _ h := .visit h
  enter _ h := absurd h visit_ne_enter
  leave _ _ _ _ := .refl _

/-- The analysis from one read keeps what it starts from. -/
theorem intraFlowAnalysis_grows (h : env.intraFlowAnalysis site s = .ok (rv, s')) : Grows s s' :=
  (analyzer_grows _).runs analyzer_supplies (env.analyzer.runs_of_run h)

end Sweep

def CorruptedFrom (env : Env) (site : Site) (r : InstRef) : Prop :=
  ∃ rv s', env.intraFlowAnalysis site {} = .ok (rv, s') ∧ .instruction r ∈ s'.corruptedIR

/-- A comparison or a binary operator. -/
def Decides (env : Env) (r : InstRef) : Prop :=
  ∃ i, env.module.inst? r = some i ∧ (i.opcode = .iCmp ∨ i.opcode = .binary)

/-- The analyses from the reads before this one do not end the process. -/
def GetsTo (env : Env) (reads : List Site) (site : Site) : Prop :=
  ∃ before behind, reads = before ++ site :: behind ∧
    ∀ earlier ∈ before, ∃ answer, env.intraFlowAnalysis earlier {} = .ok answer

section Messages
variable {env : Env} {LI : LoopInfo env.module} {input : RacingLines} {iL : Loop}

/-- What is looked for are the comparisons and binary operators among the corrupted
instructions. -/
theorem corruptInBr_eq_some {v : Value} {r : InstRef} :
    env.corruptInBr v = some r ↔ v = .instruction r ∧ env.Decides r := by
  cases v with
  | instruction t =>
      simp only [corruptInBr, Option.bind_eq_some_iff, Option.ite_none_right_eq_some,
        Option.some.injEq, Value.instruction.injEq, Decides]
      constructor
      · rintro ⟨i, hInst, hOp, rfl⟩
        exact ⟨rfl, i, hInst, hOp⟩
      · rintro ⟨rfl, i, hInst, hOp⟩
        exact ⟨i, hInst, hOp, rfl⟩
  | _ => simp [corruptInBr]

/-- An exit is found exactly if one of the corrupted instructions decides in a block from which
the loop can be left. -/
theorem findExit_isSome {ordered : List Value} : (env.findExit LI iL ordered).isSome = true ↔
    ∃ r, .instruction r ∈ ordered ∧ env.Decides r ∧ LI.isLoopExiting iL r.parent = true := by
  simp only [findExit, List.find?_isSome, List.mem_filterMap, corruptInBr_eq_some]
  constructor
  · rintro ⟨r, ⟨v, hv, rfl, hDecides⟩, hExit⟩
    exact ⟨r, hv, hDecides, hExit⟩
  · rintro ⟨r, hr, hDecides, hExit⟩
    exact ⟨r, ⟨_, hr, rfl, hDecides⟩, hExit⟩

/-- The reads are analysed one after the other, as long as none ends the process. -/
theorem getsTo_cons {first site : Site} {rest : List Site} {answer : Bool × State}
    (h : env.intraFlowAnalysis first {} = .ok answer) :
    env.GetsTo (first :: rest) site ↔ site = first ∨ env.GetsTo rest site := by
  constructor
  · rintro ⟨before, behind, hReads, hBefore⟩
    cases before with
    | nil =>
        cases hReads
        exact .inl rfl
    | cons first' before =>
        cases hReads
        exact .inr ⟨before, behind, rfl, fun p hp => hBefore p (List.mem_cons_of_mem _ hp)⟩
  · rintro (rfl | ⟨before, behind, rfl, hBefore⟩)
    · exact ⟨[], rest, rfl, by simp⟩
    · exact ⟨first :: before, behind, rfl, List.forall_mem_cons.mpr ⟨⟨answer, h⟩, hBefore⟩⟩

/-- Behind a read that ends the process no other is analysed. -/
theorem getsTo_cons_of_error {first site : Site} {rest : List Site} {stop : Stop Fault}
    (h : env.intraFlowAnalysis first {} = .error stop) (hGets : env.GetsTo (first :: rest) site) :
    site = first := by
  obtain ⟨before, behind, hReads, hBefore⟩ := hGets
  cases before with
  | nil =>
      cases hReads
      rfl
  | cons first' before =>
      cases hReads
      obtain ⟨answer, hOk⟩ := hBefore first List.mem_cons_self
      cases h.symm.trans hOk

/-- There is a message exactly if the analysis from some read corrupts an exit. -/
theorem analyseReads_ne_nil {reads : List Site} : (env.analyseReads LI input iL reads {}).1 ≠ [] ↔
    ∃ site r, env.GetsTo reads site ∧ env.CorruptedFrom site r ∧ env.Decides r ∧
      LI.isLoopExiting iL r.parent = true := by
  induction reads with
  | nil =>
      refine iff_of_false (by simp [analyseReads]) ?_
      rintro ⟨site, r, ⟨before, behind, hReads, -⟩, -⟩
      simp at hReads
  | cons first rest ih =>
      cases hRun : env.intraFlowAnalysis first {} with
      | error stop =>
          refine iff_of_false (by simp [analyseReads, hRun]) ?_
          rintro ⟨site, r, hGets, ⟨rv, s', hOk, -⟩, -⟩
          rw [getsTo_cons_of_error hRun hGets] at hOk
          cases hRun.symm.trans hOk
      | ok answer =>
          obtain ⟨rv, s⟩ := answer
          have hGrows := intraFlowAnalysis_grows hRun
          have hClear : clearDataSets s = {} := hGrows.cleared
          have hInStep : s.InStep :=
            State.InStep.extends ⟨List.nodup_nil, by simp⟩ hGrows.extends_
          have hFirst : (env.findExit LI iL s.orderedcorruptedIR).isSome = true ↔
              ∃ r, env.CorruptedFrom first r ∧ env.Decides r ∧
                LI.isLoopExiting iL r.parent = true := by
            rw [findExit_isSome]
            refine exists_congr fun r => and_congr_left fun _ => ?_
            rw [hInStep.mem_iff]
            constructor
            · exact fun hMem => ⟨rv, s, hRun, hMem⟩
            · rintro ⟨rv', s', hRun', hMem⟩
              cases hRun.symm.trans hRun'
              exact hMem
          have hMessages : (env.analyseReads LI input iL (first :: rest) {}).1 ≠ [] ↔
              (env.findExit LI iL s.orderedcorruptedIR).isSome = true ∨
                (env.analyseReads LI input iL rest {}).1 ≠ [] := by
            rw [analyseReads, hRun]
            simp only [hClear]
            cases env.findExit LI iL s.orderedcorruptedIR <;> simp
          rw [hMessages, hFirst, ih]
          simp only [getsTo_cons hRun]
          constructor
          · rintro (⟨r, h⟩ | ⟨site, r, hGets, h⟩)
            · exact ⟨first, r, .inl rfl, h⟩
            · exact ⟨site, r, .inr hGets, h⟩
          · rintro ⟨site, r, rfl | hGets, h⟩
            · exact .inl ⟨r, h⟩
            · exact .inr ⟨site, r, hGets, h⟩

end Messages

/-- The read lies in a loop, the write stores a constant, and the analysis from the read
corrupts a comparison or a binary operator in an exiting block of the loop. -/
structure SpinRead (env : Env) (LI : LoopInfo env.module) (writes reads : List Site) (L : Loop)
    (site : Site) (r : InstRef) : Prop where
  isRead : site ∈ reads
  isLoop : ∃ top ∈ LI.loops site.1, top.Nested L
  inLoop : site.2.parent ∈ L.blocks
  constant : env.constantWrite writes = true
  corrupted : env.CorruptedFrom site r
  decides : env.Decides r
  inBlock : r.parent ∈ L.blocks
  exits : LI.isLoopExiting L r.parent = true

/-- The analysis from some read corrupts a comparison or a binary operator from whose block
control may leave the outermost loop around the first read. -/
def LeavesOutermost (env : Env) (LI : LoopInfo env.module) (reads : List Site)
    (hReads : reads ≠ []) : Prop :=
  ∃ top, ((outermostLoops LI).find? fun L => (reads.head hReads).2.parent ∈ L.blocks) = some top ∧
    ∃ site r, env.GetsTo reads site ∧ env.CorruptedFrom site r ∧ env.Decides r ∧
      ∃ t ∈ successors env.module r.parent, t ∉ top.blocks

/-- A spin loop is reported exactly if control leaves the outermost loop, and not only
the loop of the read, behind what a read corrupts. -/
theorem reports_iff_leavesOutermost {env : Env} {LI : LoopInfo env.module} (input : RacingLines)
    {writes reads : List Site} (hReads : reads ≠ []) {L : Loop} {site : Site} {r : InstRef}
    (h : SpinRead env LI writes reads L site r) :
    (env.runOnModule LI input writes reads hReads).1 ≠ [] ↔
      env.LeavesOutermost LI reads hReads := by
  unfold runOnModule LeavesOutermost
  rw [checkLoop_eq_find]
  cases (outermostLoops LI).find? fun L => (reads.head hReads).2.parent ∈ L.blocks with
  | none => simp
  | some top =>
      simp only [adhocSyncAnalysis, h.constant, ↓reduceIte, analyseReads_ne_nil,
        LI.isLoopExiting_iff, Option.some.injEq, exists_eq_left']

/-- `wait` spins on a flag inside a loop, `spin` spins on it directly, `set` sets it. -/
def spinModule : Module where
  functions := [
    { name := "wait"
      blocks := [
        { body := []
          terminator := ⟨.br, [.basicBlock ⟨0, 1⟩], some ⟨"spin.c", 5⟩⟩
          successors := [1] },
        { body := []
          terminator := ⟨.br, [.basicBlock ⟨0, 2⟩], some ⟨"spin.c", 6⟩⟩
          successors := [2] },
        { body := [
            ⟨.load, [.globalVariable 0], some ⟨"spin.c", 7⟩⟩,
            ⟨.iCmp, [.instruction ⟨0, 2, 0⟩, .constant 0], some ⟨"spin.c", 7⟩⟩]
          terminator := ⟨.br, [.instruction ⟨0, 2, 1⟩, .basicBlock ⟨0, 2⟩, .basicBlock ⟨0, 3⟩],
            some ⟨"spin.c", 7⟩⟩
          successors := [2, 3] },
        { body := [⟨.load, [.globalVariable 1], some ⟨"spin.c", 8⟩⟩]
          terminator := ⟨.br, [.instruction ⟨0, 3, 0⟩, .basicBlock ⟨0, 1⟩, .basicBlock ⟨0, 4⟩],
            some ⟨"spin.c", 8⟩⟩
          successors := [1, 4] },
        { body := []
          terminator := ⟨.ret, [], some ⟨"spin.c", 9⟩⟩
          successors := [] }] },
    { name := "spin"
      blocks := [
        { body := []
          terminator := ⟨.br, [.basicBlock ⟨1, 1⟩], some ⟨"spin.c", 12⟩⟩
          successors := [1] },
        { body := [
            ⟨.load, [.globalVariable 0], some ⟨"spin.c", 13⟩⟩,
            ⟨.iCmp, [.instruction ⟨1, 1, 0⟩, .constant 0], some ⟨"spin.c", 13⟩⟩]
          terminator := ⟨.br, [.instruction ⟨1, 1, 1⟩, .basicBlock ⟨1, 1⟩, .basicBlock ⟨1, 2⟩],
            some ⟨"spin.c", 13⟩⟩
          successors := [1, 2] },
        { body := []
          terminator := ⟨.ret, [], some ⟨"spin.c", 14⟩⟩
          successors := [] }] },
    { name := "set"
      blocks := [{
        body := [⟨.store, [.constant 1, .globalVariable 0], some ⟨"spin.c", 18⟩⟩]
        terminator := ⟨.ret, [], some ⟨"spin.c", 19⟩⟩
        successors := [] }] }]

def innerLoop : Loop := .mk [⟨0, 2⟩] []

def outerLoop : Loop := .mk [⟨0, 1⟩, ⟨0, 2⟩, ⟨0, 3⟩] [innerLoop]

def spinLoop : Loop := .mk [⟨1, 1⟩] []

def spinLoops : FuncRef → List Loop
  | 0 => [outerLoop]
  | 1 => [spinLoop]
  | _ => []

theorem nested_spinLoops {f : FuncRef} {top L : Loop} (hTop : top ∈ spinLoops f)
    (h : top.Nested L) : L = outerLoop ∨ L = innerLoop ∨ L = spinLoop := by
  have hStart : top = outerLoop ∨ top = innerLoop ∨ top = spinLoop := by
    unfold spinLoops at hTop
    split at hTop <;> simp_all
  induction h with
  | refl => exact hStart
  | sub _ hSub ih => rcases ih with rfl | rfl | rfl <;> simp_all [Loop.getSubLoops, outerLoop, innerLoop, spinLoop]

def spinLoopInfo : LoopInfo spinModule where
  loops := spinLoops
  isLoopExiting L BB := (successors spinModule BB).any (· ∉ L.blocks)
  blocks_subLoops f top hTop L hNested subLoop hSub := by
    rcases nested_spinLoops hTop hNested with rfl | rfl | rfl
    · cases List.mem_singleton.mp hSub
      decide
    · cases hSub
    · cases hSub
  isLoopExiting_iff L BB := by simp

/-- In `wait` the loops hang on their branches back. -/
def waitGraph : ControlDependence.ControlDependenceGraphBase where
  graph := { node := fun
    | .block 1 => { parents := [.block 3] }
    | .block 2 => { parents := [.block 2, .block 3] }
    | .block 3 => { parents := [.block 3] }
    | _ => {} }
  rounds _ _ := 4
  ends A B := by
    rcases B with _ | _ | _ | _ | B
    · rfl
    · rcases A with _ | _ | _ | _ | A <;> rfl
    · rcases A with _ | _ | _ | _ | A <;> rfl
    · rcases A with _ | _ | _ | _ | A <;> rfl
    · rfl

/-- In `spin` the loop hangs on its own branch. -/
def spinGraph : ControlDependence.ControlDependenceGraphBase where
  graph := { node := fun
    | .block 1 => { parents := [.block 1] }
    | _ => {} }
  rounds _ _ := 2
  ends A B := by
    rcases B with _ | _ | B
    · rfl
    · rcases A with _ | _ | A <;> rfl
    · rfl

def spinEnv : Env where
  module := spinModule
  graphs
    | 0 => some waitGraph
    | 1 => some spinGraph
    | _ => none

def spinLines : RacingLines := (("set", "spin.c", 18), ("wait", "spin.c", 7))

/-- The load of `wait` lies in the inner loop, and its comparison decides on the exit. -/
theorem spinRead_wait : SpinRead spinEnv spinLoopInfo [(2, ⟨2, 0, 0⟩)] [(0, ⟨0, 2, 0⟩)] innerLoop
    (0, ⟨0, 2, 0⟩) ⟨0, 2, 1⟩ := by
  obtain ⟨⟨rv, s'⟩, hRun, hMem⟩ := exists_ok_of_any
    (x := spinEnv.intraFlowAnalysis (0, ⟨0, 2, 0⟩) {})
    (P := fun answer => .instruction ⟨0, 2, 1⟩ ∈ answer.2.corruptedIR) (by decide)
  exact {
    isRead := List.mem_singleton_self _
    isLoop := ⟨outerLoop, List.mem_singleton_self _, Loop.Nested.refl.sub (List.mem_singleton_self _)⟩
    inLoop := by decide
    constant := by decide
    corrupted := ⟨rv, s', hRun, hMem⟩
    decides := ⟨_, rfl, .inl rfl⟩
    inBlock := by decide
    exits := by decide }

/-- The exit of the inner loop stays in the outer one, and nothing is reported. -/
theorem inner_spin_not_reported :
    SpinRead spinEnv spinLoopInfo [(2, ⟨2, 0, 0⟩)] [(0, ⟨0, 2, 0⟩)] innerLoop (0, ⟨0, 2, 0⟩)
      ⟨0, 2, 1⟩ ∧
    (spinEnv.runOnModule spinLoopInfo spinLines [(2, ⟨2, 0, 0⟩)] [(0, ⟨0, 2, 0⟩)]
      (by simp)).1 = [] :=
  ⟨spinRead_wait, by decide⟩

/-- The loop of `spin` is in no other loop, and it is reported. -/
theorem reports_iff_leavesOutermost_spin :
    (spinEnv.runOnModule spinLoopInfo spinLines [(2, ⟨2, 0, 0⟩)] [(1, ⟨1, 1, 0⟩)]
      (by simp)).1 ≠ [] := by
  obtain ⟨⟨rv, s'⟩, hRun, hMem⟩ := exists_ok_of_any
    (x := spinEnv.intraFlowAnalysis (1, ⟨1, 1, 0⟩) {})
    (P := fun answer => .instruction ⟨1, 1, 1⟩ ∈ answer.2.corruptedIR) (by decide)
  have hCorrupted : spinEnv.CorruptedFrom (1, ⟨1, 1, 0⟩) ⟨1, 1, 1⟩ := ⟨rv, s', hRun, hMem⟩
  have hDecides : spinEnv.Decides ⟨1, 1, 1⟩ := ⟨_, rfl, .inl rfl⟩
  have hRead : SpinRead spinEnv spinLoopInfo [(2, ⟨2, 0, 0⟩)] [(1, ⟨1, 1, 0⟩)] spinLoop
      (1, ⟨1, 1, 0⟩) ⟨1, 1, 1⟩ := {
    isRead := List.mem_singleton_self _
    isLoop := ⟨spinLoop, List.mem_singleton_self _, .refl⟩
    inLoop := by decide
    constant := by decide
    corrupted := hCorrupted
    decides := hDecides
    inBlock := by decide
    exits := by decide }
  refine (reports_iff_leavesOutermost spinLines _ hRead).mpr
    ⟨spinLoop, rfl, _, _, ⟨[], [], rfl, by simp⟩, hCorrupted, hDecides, ⟨1, 2⟩, ?_⟩
  decide

end Env
end ConAnalysis.SyncLoop
