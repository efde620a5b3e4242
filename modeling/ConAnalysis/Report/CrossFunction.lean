import ConAnalysis.Report.DangerousOps
import ConAnalysis.Dataflow.Growth

/-! What the entries of the cross-function files list. The branches and the calls
that they are made from are never removed again: the calls outlive the contexts
in which they were met. -/
namespace ConAnalysis
open IR CallSweep

namespace Env
variable {env : Env}

/-- The sweep meets a branch. -/
def MeetsBranch (p : Point) (br : InstRef) : Prop :=
  ∃ i, p.items.head? = some (br, i) ∧ i.opcode = .br

/-- The sweep meets a branch, which is corrupted through an operand. -/
structure CorruptsBranch (p : Point) (br : InstRef) : Prop where
  exists_next : ∃ i, p.items.head? = some (br, i) ∧ i.opcode = .br ∧
    ∃ v ∈ i.operands, v ∈ p.state.corruptedIR
  new : .instruction br ∉ p.state.corruptedIR

/-- At the call, a callee is entered. -/
def EntersAt (env : Env) (p : Point) (c : InstRef) : Prop :=
  ∃ i items callee l s, p.items = (c, i) :: items ∧
    env.visit p.call (c, i) p.locals p.state = .ok (.enter callee l s)

/-- At the call, a callee is entered with the flag for control dependence. -/
def EntersFlagged (env : Env) (p : Point) (c : InstRef) : Prop :=
  ∃ i items callee l s, p.items = (c, i) :: items ∧
    env.visit p.call (c, i) p.locals p.state = .ok (.enter callee l s) ∧ callee.ctrlDep = true

/-- What the files of branches and calls hold. -/
structure FilesLaw (env : Env) (past : Set Point) (s : State) : Prop where
  branches : ∀ br, br ∈ s.corruptedBr ↔ ∃ p ∈ past, CorruptsBranch p br
  calls : ∀ c, c ∈ s.corruptedCallIns ↔ ∃ p ∈ past, EntersFlagged env p c
  corrupted : ∀ br ∈ s.corruptedBr, .instruction br ∈ s.corruptedIR

theorem CorruptsBranch.meets {p : Point} {br : InstRef} (h : CorruptsBranch p br) :
    MeetsBranch p br := by
  obtain ⟨i, hNext, hBr, -⟩ := h.exists_next
  exact ⟨i, hNext, hBr⟩

/-- A call that is entered with the flag is entered. -/
theorem EntersFlagged.entersAt {p : Point} {c : InstRef} (h : EntersFlagged env p c) :
    EntersAt env p c := by
  obtain ⟨i, items, callee, l, s, hItems, visited, -⟩ := h
  exact ⟨i, items, callee, l, s, hItems, visited⟩

/-- A branch is filed when it becomes corrupted through an operand. One that is corrupted
already is passed over. -/
theorem corruptsBranch_iff {call : Call} {item : InstRef × Instruction}
    {items : List (InstRef × Instruction)} {l : Locals} {s : State} {br : InstRef} :
    CorruptsBranch ⟨call, item :: items, l, s⟩ br ↔ br = item.1 ∧ item.2.opcode = .br ∧
      (∃ v ∈ item.2.operands, v ∈ s.corruptedIR) ∧ .instruction item.1 ∉ s.corruptedIR := by
  constructor
  · rintro ⟨⟨i, hNext, isBr, hOperand⟩, new⟩
    cases hNext
    exact ⟨rfl, isBr, hOperand, new⟩
  · rintro ⟨rfl, isBr, hOperand, new⟩
    exact ⟨⟨item.2, rfl, isBr, hOperand⟩, new⟩

/-- The flag that counts is the one handed to the callee. -/
theorem entersFlagged_of_enter {call callee : Call} {item : InstRef × Instruction}
    {items : List (InstRef × Instruction)} {l l' : Locals} {s s' : State} {c : InstRef}
    (h : env.visit call item l s = .ok (.enter callee l' s')) :
    EntersFlagged env ⟨call, item :: items, l, s⟩ c ↔ c = item.1 ∧ callee.ctrlDep = true := by
  constructor
  · rintro ⟨i, rest, callee', l'', s'', hItems, visited, hFlag⟩
    cases hItems
    cases h.symm.trans visited
    exact ⟨rfl, hFlag⟩
  · rintro ⟨rfl, hFlag⟩
    exact ⟨item.2, items, callee, l', s', rfl, h, hFlag⟩

theorem not_entersFlagged_of_done {call : Call} {item : InstRef × Instruction}
    {items : List (InstRef × Instruction)} {l l' : Locals} {s s' : State}
    (h : env.visit call item l s = .ok (.done l' s')) (c : InstRef) :
    ¬EntersFlagged env ⟨call, item :: items, l, s⟩ c := by
  rintro ⟨i, rest, callee, l'', s'', hItems, visited, -⟩
  cases hItems
  cases h.symm.trans visited

/-- A branch is filed when the sweep corrupts it, and by nothing else. -/
theorem corruptedBr_of_done {call : Call} {item : InstRef × Instruction}
    {items : List (InstRef × Instruction)} {l l' : Locals} {s s' : State} {br : InstRef}
    (h : env.visit call item l s = .ok (.done l' s')) :
    br ∈ s'.corruptedBr ↔ br ∈ s.corruptedBr ∨ CorruptsBranch ⟨call, item :: items, l, s⟩ br := by
  rw [corruptsBranch_iff]
  by_cases isBr : item.2.opcode = .br
  · rw [visit_of_other (by simp [isBr]) (by simp [isBr]), Except.ok.injEq,
      Outcome.done.injEq] at h
    rw [← h.2, visitOther]
    by_cases hNew : (∃ v ∈ item.2.operands, v ∈ s.corruptedIR) ∧
        .instruction item.1 ∉ s.corruptedIR
    · rw [if_pos (by simpa [checkedState] using hNew)]
      simp [isBr, hNew, checkedState, mem_pushIfNew, or_comm]
    · rw [if_neg (by simpa [checkedState] using hNew)]
      simp [isBr, hNew, checkedState]
  · have hSame : s'.corruptedBr = s.corruptedBr := by
      cases visit_done h with
      | branch hBr => exact absurd hBr isBr
      | _ => simp [checkedState]
    simp [hSame, isBr]

/-- A branch that goes to the file is corrupted. -/
theorem Effect.corruptedBr_corrupted {item : InstRef × Instruction} {l l' : Locals}
    {s s' : State} {br : InstRef} (h : Effect env item l s l' s') (hMem : br ∈ s'.corruptedBr) :
    br ∈ s.corruptedBr ∨ .instruction br ∈ s'.corruptedIR := by
  cases h with
  | branch =>
      rcases mem_pushIfNew.mp hMem with rfl | hOld
      · exact .inr (by simp)
      · exact .inl hOld
  | _ => exact .inl (by simpa using hMem)

theorem corruptedCallIns_of_done {call : Call} {item : InstRef × Instruction} {l l' : Locals}
    {s s' : State} (h : env.visit call item l s = .ok (.done l' s')) :
    s'.corruptedCallIns = s.corruptedCallIns := by
  cases visit_done h <;> simp [checkedState]

/-- A call is filed when its callee is entered with the flag. -/
theorem corruptedCallIns_of_enter {call callee : Call} {item : InstRef × Instruction}
    {l l' : Locals} {s s' : State} {c : InstRef}
    (h : env.visit call item l s = .ok (.enter callee l' s')) :
    c ∈ s'.corruptedCallIns ↔
      c ∈ s.corruptedCallIns ∨ (c = item.1 ∧ callee.ctrlDep = true) := by
  rw [(visit_enter h).state_eq]
  unfold enterCallee
  cases callee.ctrlDep with
  | false => simp [checkedState]
  | true => simp [checkedState, mem_pushIfNew, or_comm]

namespace FilesLaw
variable {past : Set Point} {s s' : State}

/-- Steps that leave the files alone keep the law. -/
theorem keep (h : FilesLaw env past s) (hFiles : s'.files = s.files)
    (hGrow : s.corruptedIR ⊆ s'.corruptedIR) : FilesLaw env past s' := by
  have hBr : s'.corruptedBr = s.corruptedBr := congrArg Files.corruptedBr hFiles
  have hCall : s'.corruptedCallIns = s.corruptedCallIns := congrArg Files.corruptedCallIns hFiles
  refine ⟨fun br => by rw [hBr, h.branches], fun c => by rw [hCall, h.calls], ?_⟩
  intro br hMem
  rw [hBr] at hMem
  exact hGrow (h.corrupted br hMem)

/-- Step lemma: what is filed at an instruction is what the law says of this point. -/
theorem done {call : Call} {item : InstRef × Instruction}
    {items : List (InstRef × Instruction)} {l l' : Locals} (hs : FilesLaw env past s)
    (h : env.visit call item l s = .ok (.done l' s')) :
    FilesLaw env (insert ⟨call, item :: items, l, s⟩ past) s' := by
  refine ⟨fun br => ?_, fun c => ?_, fun br hMem => ?_⟩
  · rw [corruptedBr_of_done h, hs.branches, Set.exists_mem_insert, or_comm]
  · rw [corruptedCallIns_of_done h, hs.calls, Set.exists_mem_insert,
      or_iff_right (not_entersFlagged_of_done h c)]
  · have hGrow : s.corruptedIR ⊆ s'.corruptedIR := by
      simpa [checkedState] using (visit_done h).extends.subset
    rcases (visit_done h).corruptedBr_corrupted hMem with hOld | hNew
    · exact hGrow (hs.corrupted br (by simpa [checkedState] using hOld))
    · exact hNew

/-- Step lemma for a callee: its call is filed under the flag. -/
theorem enter {call callee : Call} {item : InstRef × Instruction}
    {items : List (InstRef × Instruction)} {l l' : Locals} (hs : FilesLaw env past s)
    (h : env.visit call item l s = .ok (.enter callee l' s')) :
    FilesLaw env (insert ⟨call, item :: items, l, s⟩ past) s' := by
  have hEnter := visit_enter h
  have hBr : s'.corruptedBr = s.corruptedBr := by simp [hEnter.state_eq, checkedState]
  have hIR : s'.corruptedIR = s.corruptedIR := by simp [hEnter.state_eq, checkedState]
  refine ⟨fun br => ?_, fun c => ?_, fun br hMem => ?_⟩
  · have hNot : ¬CorruptsBranch ⟨call, item :: items, l, s⟩ br := by
      simp [corruptsBranch_iff, hEnter.isCall]
    rw [hBr, hs.branches, Set.exists_mem_insert, or_iff_right hNot]
  · rw [corruptedCallIns_of_enter h, hs.calls, Set.exists_mem_insert, entersFlagged_of_enter h,
      or_comm]
  · rw [hBr] at hMem
    rw [hIR]
    exact hs.corrupted br hMem

end FilesLaw

/-- Rule for the sweep of a call with all its callees. -/
theorem filesLaw_chronicles {Good : Call → InstRef × Instruction → Prop} :
    env.analyzer.Chronicles Good (FilesLaw env) where
  done _ hs visited := hs.done visited
  returned _ hs visited started := by
    obtain ⟨-, rv, hSeed⟩ := start_returned started
    exact (hs.enter visited).keep hSeed.files hSeed.extends.subset
  body _ hs visited started :=
    (hs.enter visited).keep (start_body_files started)
      ((analyzer_extends Good).body started).subset
  leave _ hs _ _ := hs.keep (leave_files ..) (leave_extends ..).subset

/-- The borders of the frames leave the files alone. -/
theorem filesLaw_replays {layers : List FuncInst} : env.Replays layers (FilesLaw env) where
  start _ hs started :=
    hs.keep (start_body_files started) ((analyzer_extends fun _ _ => True).body started).subset
  popFrame hs := hs.keep rfl (Finset.Subset.refl _)
  resume _ hs := hs.keep (State.add2CrptList_files ..) (State.Extends.add ..).subset

/-- A loop that adds by its own test adds what passes the test. -/
theorem mem_foldl_iff {α β : Type} {f : List β → α → List β} {b : β} {P : α → Prop}
    (h : ∀ found a, b ∈ f found a ↔ b ∈ found ∨ P a) (list : List α) (found : List β) :
    b ∈ list.foldl f found ↔ b ∈ found ∨ ∃ a ∈ list, P a := by
  induction list generalizing found with
  | nil => simp
  | cons a list ih =>
      rw [List.foldl_cons, ih, h, or_assoc]
      simp only [List.mem_cons, exists_eq_or_imp]

/-- An entry names the filed branches that influence a filed call. -/
theorem mem_ctrlDepBrs {calls brs : List InstRef} {br : InstRef} :
    br ∈ env.ctrlDepBrs calls brs ↔ br ∈ brs ∧ ∃ c ∈ calls, InfluencedCall env c br := by
  have hInner : ∀ (found : List InstRef) (c : InstRef), br ∈ brs.foldl (fun found br =>
      if c.func = br.func ∧ env.hasGraph c.func ∧ env.influences br.parent c.parent
      then State.pushIfNew br found else found) found ↔
        br ∈ found ∨ ∃ b ∈ brs, br = b ∧ InfluencedCall env c b := by
    intro found c
    refine mem_foldl_iff (fun found b => ?_) brs found
    split
    · next hPair => rw [mem_pushIfNew, or_comm, and_iff_left (show InfluencedCall env c b from hPair)]
    · next hPair => rw [or_iff_left fun h => hPair h.2]
  rw [ctrlDepBrs, mem_foldl_iff hInner, or_iff_right List.not_mem_nil]
  constructor
  · rintro ⟨c, hc, b, hb, rfl, hPair⟩
    exact ⟨hb, c, hc, hPair⟩
  · rintro ⟨hb, c, hc, hPair⟩
    exact ⟨c, hc, br, hb, rfl, hPair⟩

/-- What a visit that makes an entry lists in it. -/
theorem mem_entry_iff {past : Set Point} {q : Point} (hLaw : FilesLaw env past q.state)
    {item : InstRef × Instruction} {key : FileLine} (hDue : Due env q item key) {kind : OpKind}
    (hKind : key ∈ env.labels.opsMap kind) (hOnly : kind = .func → key ∉ env.labels.opsMap .ptr) :
    ∃ brs, ((env.checkedState q.call item q.locals q.state).interCtrlDep kind).lookup key =
        some brs ∧
      ∀ br, br ∈ brs ↔ (∃ p ∈ past, CorruptsBranch p br) ∧
        ∃ c, (∃ p ∈ past, EntersFlagged env p c) ∧ InfluencedCall env c br := by
  refine ⟨_, lookup_checkDangerousOp ⟨hDue.flag, hDue.notWithin, hDue.line, hKind, hOnly⟩, ?_⟩
  intro br
  rw [mem_ctrlDepBrs, hLaw.branches]
  simp only [hLaw.calls]

/-- Run lemma: at every point of the analysis of a head the files tell what has happened before
it. -/
theorem filesLaw_of_replayPoint {body : List Site} {head : Site} {chain : List Point}
    {past : Set Point} {q : Point} (hPoint : ReplayPoint env ((head :: body).map Site.layer)
      (beginHead body head {}) chain past q) : FilesLaw env past q.state := by
  refine hPoint.chronicle filesLaw_chronicles filesLaw_replays ?_
  exact ⟨by simp [beginHead], by simp [beginHead], by simp [beginHead]⟩

/-- A function that is analysed under a control dependence was entered so. -/
theorem entersFlagged_of_ctrlDep {layers : List FuncInst} {s₀ : State} {chain : List Point}
    {past : Set Point} {q : Point} (hPoint : ReplayPoint env layers s₀ chain past q)
    (hFlag : q.call.ctrlDep = true) :
    ∃ p rest c, chain = p :: rest ∧ p ∈ past ∧ EntersFlagged env p c := by
  cases hPoint with
  | @sweep loc below items l s s₁ before past chain q layer started path =>
      rcases path.entered_at with ⟨-, hCall⟩ |
        ⟨p, rest, ⟨c, i⟩, items', l', s', hChain, hItems, visited⟩
      · rw [hCall] at hFlag
        cases hFlag
      · refine ⟨p, rest, c, hChain, .inr (path.chain_subset p (by simp [hChain])), ?_⟩
        exact ⟨i, items', q.call, l', s', hItems, visited, hFlag⟩

/-- A visit that makes an entry lists in it, whatever the modules and the call graph,
only corrupted branches that influence a call through which a callee has been entered
so far, and all those that have been corrupted through an operand and influence a call
that has been entered under a control dependence. The function at hand itself was
entered so. -/
theorem entry_names_influencing {body : List Site} {head : Site} {chain : List Point}
    {past : Set Point} {q : Point} (hPoint : ReplayPoint env ((head :: body).map Site.layer)
      (beginHead body head {}) chain past q)
    {item : InstRef × Instruction} {key : FileLine} (hDue : Due env q item key) {kind : OpKind}
    (hKind : key ∈ env.labels.opsMap kind) (hOnly : kind = .func → key ∉ env.labels.opsMap .ptr) :
    ∃ brs, ((env.checkedState q.call item q.locals q.state).interCtrlDep kind).lookup key =
        some brs ∧
      (∀ br ∈ brs, (∃ p ∈ past, MeetsBranch p br) ∧ .instruction br ∈ q.state.corruptedIR ∧
        ∃ c, (∃ p ∈ past, EntersAt env p c) ∧ InfluencedCall env c br) ∧
      (∀ br c, (∃ p ∈ past, CorruptsBranch p br) → (∃ p ∈ past, EntersFlagged env p c) →
        InfluencedCall env c br → br ∈ brs) ∧
      ∃ p rest c, chain = p :: rest ∧ p ∈ past ∧ EntersFlagged env p c := by
  have hLaw := filesLaw_of_replayPoint hPoint
  obtain ⟨brs, hEntry, hMem⟩ := mem_entry_iff hLaw hDue hKind hOnly
  refine ⟨brs, hEntry, ?_, ?_, entersFlagged_of_ctrlDep hPoint hDue.flag⟩
  · intro br hBr
    obtain ⟨⟨p, hp, hCorrupts⟩, c, ⟨p', hp', hEnters⟩, hPair⟩ := (hMem br).mp hBr
    refine ⟨⟨p, hp, hCorrupts.meets⟩, ?_, c, ⟨p', hp', hEnters.entersAt⟩, hPair⟩
    exact hLaw.corrupted br ((hLaw.branches br).mpr ⟨p, hp, hCorrupts⟩)
  · intro br c hCorrupts hEnters hPair
    exact (hMem br).mpr ⟨hCorrupts, c, hEnters, hPair⟩

/-- `main` calls `first` under one corrupted branch, and then `second`, which has a
GEP, under another one. -/
def twoCallsModule : Module where
  functions := [
    { name := "main"
      blocks := [
        { body := [⟨.load, [.globalVariable 0], some ⟨"b.c", 3⟩⟩]
          terminator := ⟨.br, [.instruction ⟨0, 0, 0⟩, .basicBlock ⟨0, 1⟩, .basicBlock ⟨0, 2⟩],
            some ⟨"b.c", 3⟩⟩
          successors := [1, 2] },
        { body := [⟨.call, [.function 1], some ⟨"b.c", 4⟩⟩]
          terminator := ⟨.br, [.basicBlock ⟨0, 2⟩], some ⟨"b.c", 4⟩⟩
          successors := [2] },
        { body := [⟨.iCmp, [.instruction ⟨0, 0, 0⟩, .constant 7], some ⟨"b.c", 5⟩⟩]
          terminator := ⟨.br, [.instruction ⟨0, 2, 0⟩, .basicBlock ⟨0, 3⟩, .basicBlock ⟨0, 4⟩],
            some ⟨"b.c", 5⟩⟩
          successors := [3, 4] },
        { body := [⟨.call, [.function 2], some ⟨"b.c", 6⟩⟩]
          terminator := ⟨.br, [.basicBlock ⟨0, 4⟩], some ⟨"b.c", 6⟩⟩
          successors := [4] },
        { body := []
          terminator := ⟨.ret, [], some ⟨"b.c", 7⟩⟩
          successors := [] }] },
    { name := "first"
      blocks := [{
        body := []
        terminator := ⟨.ret, [], some ⟨"b.c", 12⟩⟩
        successors := [] }] },
    { name := "second"
      blocks := [{
        body := [⟨.getElementPtr, [.globalVariable 1, .constant 0], some ⟨"b.c", 16⟩⟩]
        terminator := ⟨.ret, [], some ⟨"b.c", 17⟩⟩
        successors := [] }] }]

def twoCallsEnv : Env where
  module := twoCallsModule
  labels := findDangerousOp twoCallsModule noTypes ∅
  influences A B := A = ⟨0, 0⟩ ∧ B = ⟨0, 1⟩ ∨ A = ⟨0, 2⟩ ∧ B = ⟨0, 3⟩

def secondGep : InstRef × Instruction :=
  (⟨2, 0, 0⟩, ⟨.getElementPtr, [.globalVariable 1, .constant 0], some ⟨"b.c", 16⟩⟩)

/-- The GEP of `second` is visited while only the call of `second` is active. The
branch around the call of `first` does not influence that call. -/
theorem twoCalls_run : ∃ chain past q,
    ReplayPoint twoCallsEnv [(0, some ⟨0, 0, 0⟩)] (beginHead [] (0, ⟨0, 0, 0⟩) {}) chain past q ∧
      Due twoCallsEnv q secondGep ("b.c", 16) ∧ chain.map (·.items.head?.map Prod.fst) =
        [some ⟨0, 3, 0⟩] ∧
      ((twoCallsEnv.checkedState q.call secondGep q.locals q.state).interCtrlDep .ptr).lookup
        ("b.c", 16) = some [⟨0, 0, 1⟩, ⟨0, 2, 1⟩] := by
  have hEval : ∃ items l s₁ chain past q,
      twoCallsEnv.analyzer.start (frameCall (0, some ⟨0, 0, 0⟩))
          (beginHead [] (0, ⟨0, 0, 0⟩) {}) = .ok (.body items l s₁) ∧
        twoCallsEnv.analyzer.Path ⟨frameCall (0, some ⟨0, 0, 0⟩), items, l, s₁⟩ chain past q ∧
        Due twoCallsEnv q secondGep ("b.c", 16) ∧ chain.map (·.items.head?.map Prod.fst) =
          [some ⟨0, 3, 0⟩] ∧
        ((twoCallsEnv.checkedState q.call secondGep q.locals q.state).interCtrlDep .ptr).lookup
          ("b.c", 16) = some [⟨0, 0, 1⟩, ⟨0, 2, 1⟩] :=
    twoCallsEnv.analyzer.exists_path_of_eval 6
      [.handle, .handle, .handle, .handle, .handle, .handle, .descend] (by decide)
  obtain ⟨items, l, s₁, chain, past, q, started, hPath, hDue, hChain, hEntry⟩ := hEval
  exact ⟨chain, _, q, .sweep .refl started hPath, hDue, hChain, hEntry⟩

theorem entry_names_influencing_twoCalls : ∃ chain past q brs,
    ReplayPoint twoCallsEnv [(0, some ⟨0, 0, 0⟩)] (beginHead [] (0, ⟨0, 0, 0⟩) {}) chain past q ∧
      ((twoCallsEnv.checkedState q.call secondGep q.locals q.state).interCtrlDep .ptr).lookup
        ("b.c", 16) = some brs ∧
      ∀ br ∈ brs, (∃ p ∈ past, MeetsBranch p br) ∧ .instruction br ∈ q.state.corruptedIR ∧
        ∃ c, (∃ p ∈ past, EntersAt twoCallsEnv p c) ∧ InfluencedCall twoCallsEnv c br := by
  obtain ⟨chain, past, q, hPoint, hDue, -, -⟩ := twoCalls_run
  have hKind : ("b.c", 16) ∈ twoCallsEnv.labels.opsMap .ptr := by decide
  have hHead : ReplayPoint twoCallsEnv (((0, ⟨0, 0, 0⟩) :: []).map Site.layer)
      (beginHead [] (0, ⟨0, 0, 0⟩) {}) chain past q := hPoint
  obtain ⟨brs, hEntry, hMem, -⟩ := entry_names_influencing hHead hDue hKind (by simp)
  exact ⟨chain, past, q, brs, hPoint, hEntry, hMem⟩

/-- Each of the branches influences a call through which the function at hand is
being analysed. -/
def ListsActiveCalls (env : Env) (chain : List Point) (brs : List InstRef) : Prop :=
  ∀ br ∈ brs, ∃ p ∈ chain, ∃ item, p.items.head? = some item ∧ InfluencedCall env item.1 br

/-- The branch around the call of `first` is listed for the GEP of `second`. -/
theorem entry_lists_finished_call : ∃ chain past q brs,
    ReplayPoint twoCallsEnv [(0, some ⟨0, 0, 0⟩)] (beginHead [] (0, ⟨0, 0, 0⟩) {}) chain past q ∧
      Due twoCallsEnv q secondGep ("b.c", 16) ∧
      ((twoCallsEnv.checkedState q.call secondGep q.locals q.state).interCtrlDep .ptr).lookup
        ("b.c", 16) = some brs ∧ ¬ListsActiveCalls twoCallsEnv chain brs := by
  obtain ⟨chain, past, q, hPoint, hDue, hChain, hEntry⟩ := twoCalls_run
  refine ⟨chain, past, q, _, hPoint, hDue, hEntry, fun hActive => ?_⟩
  obtain ⟨p, hp, item, hNext, hPair⟩ := hActive ⟨0, 0, 1⟩ List.mem_cons_self
  have hCall : some item.1 ∈ chain.map (·.items.head?.map Prod.fst) :=
    List.mem_map.mpr ⟨p, hp, by rw [hNext]; rfl⟩
  rw [hChain, List.mem_singleton, Option.some.injEq] at hCall
  rw [hCall] at hPair
  exact absurd hPair.2.2 (by decide)

end Env
end ConAnalysis
