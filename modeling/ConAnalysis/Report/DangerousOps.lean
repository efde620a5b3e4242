import ConAnalysis.Report.Files
import ConAnalysis.Dataflow.History

/-! Which dangerous operations under a control dependence of the callers get an
entry in the cross-function files. -/
namespace ConAnalysis
open IR CallSweep

namespace State

/-- `interCtrlDepPtr_` or `interCtrlDepFunc_`. -/
def interCtrlDep (s : State) : OpKind → Finmap fun _ : FileLine => List InstRef
  | .ptr => s.interCtrlDepPtr
  | .func => s.interCtrlDepFunc

theorem interCtrlDep_of_files {s s' : State} (h : s'.files = s.files) (kind : OpKind) :
    s'.interCtrlDep kind = s.interCtrlDep kind := by
  cases kind with
  | ptr => exact congrArg Files.interCtrlDepPtr h
  | func => exact congrArg Files.interCtrlDepFunc h

@[simp] theorem add2CrptList_files (v : Value) (s : State) :
    (s.add2CrptList v).files = s.files := by
  simp [files]

@[simp] theorem copyGepIdx_files (calleeArgs callerArgs : Value) (s : State) :
    (s.copyGepIdx calleeArgs callerArgs).files = s.files := by
  unfold copyGepIdx
  split <;> rfl

end State

namespace Env
variable {env : Env}

/-- Only a branch that is corrupted goes to a file. -/
theorem Effect.files {item : InstRef × Instruction} {l l' : Locals} {s s' : State}
    (h : Effect env item l s l' s') :
    s'.files = s.files ∨ s'.files =
      { s.files with corruptedBr := State.pushIfNew item.1 s.corruptedBr } := by
  cases h with
  | unchanged => exact .inl rfl
  | external => exact .inl (State.add2CrptList_files ..)
  | gepRecord => exact .inl (State.add2CrptList_files ..)
  | gepOperand => exact .inl (State.add2CrptList_files ..)
  | store => exact .inl (by rw [State.add2CrptList_files, State.add2CrptList_files])
  | branch => exact .inr (by simp [State.files])
  | plain => exact .inl (State.add2CrptList_files ..)

/-- The start of a call leaves the files alone. -/
theorem Seed.files {f : FuncRef} {ins : Option InstRef} {s s' : State} {rv : Bool}
    {items : List (InstRef × Instruction)} (h : Seed env f s ins rv items s') :
    s'.files = s.files := by
  cases h with
  | whole => rfl
  | resume => rfl
  | known => rfl
  | gep => exact State.add2CrptList_files ..
  | plain => exact State.add2CrptList_files ..

theorem bindArg_files (f : FuncRef) (k : Nat) (actual : Value) (s : State) :
    (bindArg f k actual s).files = s.files := by
  unfold bindArg
  split <;> simp

/-- A call that starts files neither its start instruction nor its parameters. -/
theorem start_body_files {call : Call} {s s' : State} {items : List (InstRef × Instruction)}
    {l : Locals} (h : env.start call s = .ok (.body items l s')) : s'.files = s.files := by
  obtain ⟨s₁, hSeed, -, hParams⟩ := start_body h
  have hBound : s'.files = s₁.files :=
    handleParams_rel (R := fun s s' => s'.files = s.files) (fun _ => rfl)
      (fun h₁ h₂ => h₂.trans h₁) (fun _ _ _ _ _ => bindArg_files ..) hParams
  exact hBound.trans hSeed.files

theorem start_returned_files {call : Call} {s s' : State} {rv : Bool}
    (h : env.start call s = .ok (.returned rv s')) : s'.files = s.files := by
  obtain ⟨-, rv, hSeed⟩ := start_returned h
  exact hSeed.files

theorem leave_files (callee : Call) (item : InstRef × Instruction) (addFuncRet : Bool)
    (s : State) : (leave callee item addFuncRet s).files = s.files := by
  cases addFuncRet with
  | false => rfl
  | true => exact State.add2CrptList_files ..

/-- The check makes an entry of the kind under the key. -/
def MakesEntry (env : Env) (ctrlDep within : Bool) (i : Instruction) (kind : OpKind)
    (key : FileLine) : Prop :=
  ctrlDep = true ∧ within = false ∧ i.fileLine = some key ∧ key ∈ env.labels.opsMap kind ∧
    (kind = .func → key ∉ env.labels.opsMap .ptr)

/-- A new entry names the branches that have been filed so far and reach across functions. -/
theorem lookup_checkDangerousOp {ctrlDep within : Bool} {i : Instruction} {kind : OpKind}
    {key : FileLine} {s : State} (h : env.MakesEntry ctrlDep within i kind key) :
    ((env.checkDangerousOp ctrlDep within i s).interCtrlDep kind).lookup key =
      some (env.ctrlDepBrs s.corruptedCallIns s.corruptedBr) := by
  obtain ⟨hFlag, hWithin, hLine, hKind, hNotPtr⟩ := h
  obtain ⟨loc, hDbg, rfl⟩ := Option.map_eq_some_iff.mp hLine
  unfold checkDangerousOp
  rw [hDbg]
  cases kind with
  | ptr =>
      have hPtr : loc.fileLine ∈ env.labels.danPtrOpsMap := hKind
      simp [hFlag, hWithin, hPtr, State.interCtrlDep]
  | func =>
      have hFunc : loc.fileLine ∈ env.labels.danFuncOpsMap := hKind
      have hPtr : loc.fileLine ∉ env.labels.danPtrOpsMap := hNotPtr rfl
      simp [hFlag, hWithin, hFunc, hPtr, State.interCtrlDep]

theorem lookup_checkDangerousOp_of_not {ctrlDep within : Bool} {i : Instruction} {kind : OpKind}
    {key : FileLine} {s : State} (h : ¬env.MakesEntry ctrlDep within i kind key) :
    ((env.checkDangerousOp ctrlDep within i s).interCtrlDep kind).lookup key =
      (s.interCtrlDep kind).lookup key := by
  unfold checkDangerousOp
  cases hDbg : i.dbg with
  | none => rfl
  | some loc =>
      by_cases hFlag : ctrlDep = true ∧ within = false
      · simp only [hFlag, and_self, ↓reduceIte]
        have hLine : i.fileLine = some loc.fileLine := by simp [Instruction.fileLine, hDbg]
        split
        · next hPtr =>
            cases kind with
            | func => rfl
            | ptr =>
                refine Finmap.lookup_insert_of_ne _ fun hKey => h ?_
                exact ⟨hFlag.1, hFlag.2, hKey ▸ hLine, hKey ▸ hPtr, by simp⟩
        · next hPtr =>
            split
            · next hFunc =>
                cases kind with
                | ptr => rfl
                | func =>
                    refine Finmap.lookup_insert_of_ne _ fun hKey => h ?_
                    exact ⟨hFlag.1, hFlag.2, hKey ▸ hLine, hKey ▸ hFunc, fun _ => hKey ▸ hPtr⟩
            · rfl
      · simp only [hFlag, ↓reduceIte]

/-- No entry is taken away, and at most one is made. -/
theorem mem_checkDangerousOp {ctrlDep within : Bool} {i : Instruction} {kind : OpKind}
    {key : FileLine} {s : State} :
    key ∈ (env.checkDangerousOp ctrlDep within i s).interCtrlDep kind ↔
      key ∈ s.interCtrlDep kind ∨ env.MakesEntry ctrlDep within i kind key := by
  by_cases h : env.MakesEntry ctrlDep within i kind key
  · simp [← Finmap.lookup_isSome, lookup_checkDangerousOp h, h]
  · rw [← Finmap.lookup_isSome, lookup_checkDangerousOp_of_not h, Finmap.lookup_isSome]
    exact (or_iff_left h).symm

/-- What a visit leaves in the cross-function files, whether or not it enters a callee. -/
theorem interCtrlDep_of_done {call : Call} {item : InstRef × Instruction} {l l' : Locals}
    {s s' : State} (h : env.visit call item l s = .ok (.done l' s')) (kind : OpKind) :
    s'.interCtrlDep kind = (env.checkedState call item l s).interCtrlDep kind := by
  rcases (visit_done h).files with hFiles | hFiles
  · exact State.interCtrlDep_of_files hFiles kind
  · cases kind with
    | ptr => exact congrArg Files.interCtrlDepPtr hFiles
    | func => exact congrArg Files.interCtrlDepFunc hFiles

theorem interCtrlDep_of_enter {call callee : Call} {item : InstRef × Instruction}
    {l l' : Locals} {s s' : State} (h : env.visit call item l s = .ok (.enter callee l' s'))
    (kind : OpKind) :
    s'.interCtrlDep kind = (env.checkedState call item l s).interCtrlDep kind := by
  rw [(visit_enter h).state_eq]
  cases kind <;> simp [State.interCtrlDep]

/-- Entries stay, and a line that is labelled in both maps gets none in
`interCtrlDepFunc_`. -/
structure EntriesGrow (env : Env) (s s' : State) : Prop where
  stay : ∀ kind key, key ∈ s.interCtrlDep kind → key ∈ s'.interCtrlDep kind
  notBoth : ∀ key, key ∈ s'.interCtrlDep .func →
    key ∈ s.interCtrlDep .func ∨ key ∉ env.labels.opsMap .ptr

/-- Steps that leave the files alone make no entry. -/
theorem EntriesGrow.of_files {s s' : State} (h : s'.files = s.files) : EntriesGrow env s s' where
  stay kind key hKey := by rwa [State.interCtrlDep_of_files h]
  notBoth key hKey := .inl (by rwa [State.interCtrlDep_of_files h] at hKey)

theorem EntriesGrow.of_check {call : Call} {item : InstRef × Instruction} {l : Locals}
    {s s' : State} (h : ∀ kind, s'.interCtrlDep kind =
      (env.checkedState call item l s).interCtrlDep kind) : EntriesGrow env s s' where
  stay kind key hKey := by
    rw [h]
    exact mem_checkDangerousOp.mpr (.inl hKey)
  notBoth key hKey := by
    rw [h] at hKey
    rcases mem_checkDangerousOp.mp hKey with hOld | ⟨-, -, -, -, hNotPtr⟩
    · exact .inl hOld
    · exact .inr (hNotPtr rfl)

/-- The visit of the item is one that the cross-function files are for: the flag
is set, and no corrupted branch of the function influences the instruction. -/
structure Due (env : Env) (p : Point) (item : InstRef × Instruction) (key : FileLine) : Prop where
  next : p.items.head? = some item
  flag : p.call.ctrlDep = true
  notWithin : env.influenced p.call.func item.1 p.locals = false
  line : item.2.fileLine = some key

instance (p : Point) (item : InstRef × Instruction) (key : FileLine) :
    Decidable (Due env p item key) :=
  decidable_of_iff (p.items.head? = some item ∧ p.call.ctrlDep = true ∧
      env.influenced p.call.func item.1 p.locals = false ∧ item.2.fileLine = some key)
    ⟨fun h => ⟨h.1, h.2.1, h.2.2.1, h.2.2.2⟩, fun h => ⟨h.next, h.flag, h.notWithin, h.line⟩⟩

def Filed (env : Env) (key : FileLine) (s : State) : Prop :=
  ∀ kind, key ∈ env.labels.opsMap kind → key ∈ s.interCtrlDep kind

def EntryLaw (env : Env) (past : Set Point) (s : State) : Prop :=
  ∀ p ∈ past, ∀ item key, Due env p item key →
    (key ∈ env.labels.opsMap .ptr → key ∈ s.interCtrlDep .ptr) ∧
    (key ∈ env.labels.opsMap .func → (key ∈ s.interCtrlDep .func ↔
      key ∉ env.labels.opsMap .ptr ∨ key ∈ p.state.interCtrlDep .func))

/-- The law looks for entries that are missing, so entries that stay keep it. -/
theorem EntryLaw.grow {past : Set Point} {s s' : State} (h : EntryLaw env past s)
    (hGrow : EntriesGrow env s s') : EntryLaw env past s' := by
  intro p hp item key hDue
  obtain ⟨hPtr, hFunc⟩ := h p hp item key hDue
  refine ⟨fun hKey => hGrow.stay _ _ (hPtr hKey), fun hKey => ⟨fun hMem => ?_, fun hCause => ?_⟩⟩
  · rcases hGrow.notBoth key hMem with hOld | hNotPtr
    · exact (hFunc hKey).mp hOld
    · exact .inl hNotPtr
  · exact hGrow.stay _ _ ((hFunc hKey).mpr hCause)

/-- The visit itself makes the entry that is due. -/
theorem EntryLaw.check {past : Set Point} {call : Call} {item : InstRef × Instruction}
    {items : List (InstRef × Instruction)} {l : Locals} {s s' : State} (h : EntryLaw env past s)
    (hCheck : ∀ kind, s'.interCtrlDep kind = (env.checkedState call item l s).interCtrlDep kind) :
    EntryLaw env (insert ⟨call, item :: items, l, s⟩ past) s' := by
  intro p hp item' key hDue
  rcases hp with rfl | hp
  · obtain ⟨hNext, hFlag, hNotWithin, hLine⟩ := hDue
    cases hNext
    have hMem : ∀ kind, key ∈ env.labels.opsMap kind → (key ∈ s'.interCtrlDep kind ↔
        (kind = .func → key ∉ env.labels.opsMap .ptr) ∨ key ∈ s.interCtrlDep kind) := by
      intro kind hKind
      rw [hCheck, checkedState, mem_checkDangerousOp, or_comm]
      refine or_congr_left ⟨fun hMakes => hMakes.2.2.2.2, fun hNotPtr => ?_⟩
      exact ⟨hFlag, hNotWithin, hLine, hKind, hNotPtr⟩
    exact ⟨fun hKey => (hMem .ptr hKey).mpr (.inl (by simp)), fun hKey => by
      simpa using hMem .func hKey⟩
  · exact h.grow (.of_check hCheck) p hp item' key hDue

/-- Rule for the sweep of a call with all its callees. -/
theorem entryLaw_chronicles : env.analyzer.Chronicles (fun _ _ => True) (EntryLaw env) where
  done _ hs visited := hs.check (interCtrlDep_of_done visited)
  returned _ hs visited started :=
    (hs.check (interCtrlDep_of_enter visited)).grow (.of_files (start_returned_files started))
  body _ hs visited started :=
    (hs.check (interCtrlDep_of_enter visited)).grow (.of_files (start_body_files started))
  leave _ hs _ _ := hs.grow (.of_files (leave_files ..))

/-- Whenever a run has passed an instruction whose visit is due, the files have the
entries for it exactly if its line is not labelled in both maps, or had its entry
in `interCtrlDepFunc_` before. -/
theorem filed_iff_not_both_labels {start p q : Point} {chain : List Point} {past : Set Point}
    (hPath : env.analyzer.Path start chain past q) (hp : p ∈ past)
    {item : InstRef × Instruction} {key : FileLine} (hDue : Due env p item key) :
    Filed env key q.state ↔
      ¬(key ∈ env.labels.danPtrOpsMap ∧ key ∈ env.labels.danFuncOpsMap) ∨
        key ∈ p.state.interCtrlDepFunc := by
  have hLaw : EntryLaw env (∅ ∪ past) q.state :=
    entryLaw_chronicles.path (fun _ _ _ => trivial) (fun _ _ => trivial) (by simp [EntryLaw]) hPath
  rw [Set.empty_union] at hLaw
  obtain ⟨hPtr, hFunc⟩ := hLaw p hp item key hDue
  constructor
  · intro hFiled
    by_cases hKey : key ∈ env.labels.danFuncOpsMap
    · rcases (hFunc hKey).mp (hFiled .func hKey) with hNotPtr | hOld
      · exact .inl fun hBoth => hNotPtr hBoth.1
      · exact .inr hOld
    · exact .inl fun hBoth => hKey hBoth.2
  · intro hCause kind hKey
    cases kind with
    | ptr => exact hPtr hKey
    | func =>
        refine (hFunc hKey).mpr (hCause.imp_left fun hNotBoth hIsPtr => ?_)
        exact hNotBoth ⟨hIsPtr, hKey⟩

/-- `main` calls `run` under a corrupted branch, and a line of `run` has a GEP and a
call of `system`. -/
def gepAndCallModule : Module where
  functions := [
    { name := "main"
      blocks := [
        { body := [⟨.load, [.globalVariable 0], some ⟨"a.c", 3⟩⟩]
          terminator := ⟨.br, [.instruction ⟨0, 0, 0⟩, .basicBlock ⟨0, 1⟩, .basicBlock ⟨0, 2⟩],
            some ⟨"a.c", 3⟩⟩
          successors := [1, 2] },
        { body := [⟨.call, [.function 1], some ⟨"a.c", 4⟩⟩]
          terminator := ⟨.br, [.basicBlock ⟨0, 2⟩], some ⟨"a.c", 4⟩⟩
          successors := [2] },
        { body := []
          terminator := ⟨.ret, [], some ⟨"a.c", 5⟩⟩
          successors := [] }] },
    { name := "run"
      blocks := [{
        body := [⟨.getElementPtr, [.globalVariable 1, .constant 0], some ⟨"a.c", 9⟩⟩,
          ⟨.call, [.instruction ⟨1, 0, 0⟩, .function 2], some ⟨"a.c", 9⟩⟩]
        terminator := ⟨.ret, [], some ⟨"a.c", 10⟩⟩
        successors := [] }] },
    { name := "system", params := 1 }]

def gepAndCallEnv : Env where
  module := gepAndCallModule
  labels := findDangerousOp gepAndCallModule noTypes {"system"}
  influences A B := A = ⟨0, 0⟩ ∧ B = ⟨0, 1⟩

def systemCall : InstRef × Instruction :=
  (⟨1, 0, 1⟩, ⟨.call, [.instruction ⟨1, 0, 0⟩, .function 2], some ⟨"a.c", 9⟩⟩)

/-- Past the load and the branch of `main`, into `run` and past its GEP and its call. -/
theorem gepAndCall_run : ∃ items l s₁ chain past p q,
    gepAndCallEnv.start (frameCall (0, some ⟨0, 0, 0⟩)) (beginHead [] (0, ⟨0, 0, 0⟩) {}) =
        .ok (.body items l s₁) ∧
      gepAndCallEnv.analyzer.Path ⟨frameCall (0, some ⟨0, 0, 0⟩), items, l, s₁⟩ chain past q ∧
      p ∈ past ∧ Due gepAndCallEnv p systemCall ("a.c", 9) ∧
      ("a.c", 9) ∉ q.state.interCtrlDepFunc := by
  have hEval : ∃ items l s₁ chain past p,
      gepAndCallEnv.analyzer.start (frameCall (0, some ⟨0, 0, 0⟩))
          (beginHead [] (0, ⟨0, 0, 0⟩) {}) = .ok (.body items l s₁) ∧
        gepAndCallEnv.analyzer.Path ⟨frameCall (0, some ⟨0, 0, 0⟩), items, l, s₁⟩ chain past p ∧
        Due gepAndCallEnv p systemCall ("a.c", 9) ∧
        (gepAndCallEnv.analyzer.handled 5 p).any
          (fun q => ("a.c", 9) ∉ q.state.interCtrlDepFunc) = true :=
    gepAndCallEnv.analyzer.exists_path_of_eval 5 [.handle, .handle, .descend, .handle] (by decide)
  obtain ⟨items, l, s₁, chain, past, p, started, hPath, hDue, hNext⟩ := hEval
  obtain ⟨q, hHandled, hMissing⟩ := (Option.any_eq_true _ _).mp hNext
  exact ⟨items, l, s₁, chain, _, p, q, started,
    hPath.handles (gepAndCallEnv.analyzer.handles_of_handled hHandled), .inr (.inl rfl), hDue,
    of_decide_eq_true hMissing⟩

theorem filed_iff_not_both_labels_gepAndCall : ∃ p q : Point, Due gepAndCallEnv p systemCall ("a.c", 9) ∧
    (Filed gepAndCallEnv ("a.c", 9) q.state ↔
      ¬(("a.c", 9) ∈ gepAndCallEnv.labels.danPtrOpsMap ∧
          ("a.c", 9) ∈ gepAndCallEnv.labels.danFuncOpsMap) ∨
        ("a.c", 9) ∈ p.state.interCtrlDepFunc) := by
  obtain ⟨items, l, s₁, chain, past, p, q, -, hPath, hp, hDue, -⟩ := gepAndCall_run
  exact ⟨p, q, hDue, filed_iff_not_both_labels hPath hp hDue⟩

/-- The line 9 is labelled in both maps and gets no entry for its call. -/
theorem both_labels_not_filed : ("a.c", 9) ∈ gepAndCallEnv.labels.danFuncOpsMap ∧
    ∃ items l s₁ chain past p q,
      gepAndCallEnv.start (frameCall (0, some ⟨0, 0, 0⟩)) (beginHead [] (0, ⟨0, 0, 0⟩) {}) =
          .ok (.body items l s₁) ∧
        gepAndCallEnv.analyzer.Path ⟨frameCall (0, some ⟨0, 0, 0⟩), items, l, s₁⟩ chain past q ∧
        p ∈ past ∧ Due gepAndCallEnv p systemCall ("a.c", 9) ∧
        ¬Filed gepAndCallEnv ("a.c", 9) q.state := by
  have hLabel : ("a.c", 9) ∈ gepAndCallEnv.labels.danFuncOpsMap := by decide
  obtain ⟨items, l, s₁, chain, past, p, q, started, hPath, hp, hDue, hMissing⟩ := gepAndCall_run
  exact ⟨hLabel, items, l, s₁, chain, past, p, q, started, hPath, hp, hDue,
    fun hFiled => hMissing (hFiled .func hLabel)⟩

end Env
end ConAnalysis
