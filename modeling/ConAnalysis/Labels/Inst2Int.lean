import ConAnalysis.Dataflow.State

/-! `Inst2Int::createMaps`: the numbers of the instructions, and the
instructions of each source line. -/
namespace ConAnalysis
open IR

namespace IR.Module

def allInstructions (M : Module) : List (InstRef × Instruction) :=
  (List.range M.functions.length).flatMap M.instructions

/-- The loops over functions, blocks and instructions meet every instruction of the module. -/
theorem mem_allInstructions {M : Module} {r : InstRef} {i : Instruction} :
    (r, i) ∈ M.allInstructions ↔ M.inst? r = some i := by
  simp only [allInstructions, List.mem_flatMap, List.mem_range, mem_instructions]
  constructor
  · rintro ⟨f, -, -, hInst⟩
    exact hInst
  · intro hInst
    exact ⟨r.func, lt_of_mem_instructions (mem_instructions.mpr ⟨rfl, hInst⟩), rfl, hInst⟩

end IR.Module

def IR.Instruction.fileLine (i : Instruction) : Option FileLine := i.dbg.map DebugLoc.fileLine

/-- The members of the pass. A line that is no key has no instructions. -/
structure Inst2Int where
  ins2int : InstRef → Option Nat := fun _ => none
  insCount : Nat := 1
  sourcetoIRmap : FileLine → Option (List InstRef) := fun _ => none

namespace Inst2Int

def enter (item : InstRef × Instruction) (maps : Inst2Int) : Inst2Int :=
  let maps := { maps with
    ins2int := Function.update maps.ins2int item.1 (some maps.insCount)
    insCount := maps.insCount + 1 }
  match item.2.dbg with
  | none => maps
  | some loc =>
      { maps with
        sourcetoIRmap := Function.update maps.sourcetoIRmap loc.fileLine
          (some ((maps.sourcetoIRmap loc.fileLine).getD [] ++ [item.1])) }

/-- The maps, and whether every instruction has a location. -/
def createMaps (M : Module) : Bool × Inst2Int :=
  (M.allInstructions.all fun item => item.2.dbg.isSome,
    M.allInstructions.foldl (fun maps item => maps.enter item) {})

/-- `sourcetoIRmap[key]`: a line that is not there yet gets an empty list. -/
def lines (maps : Inst2Int) (key : FileLine) : List InstRef := (maps.sourcetoIRmap key).getD []

def atLine (items : List (InstRef × Instruction)) (key : FileLine) : List InstRef :=
  (items.filter fun item => item.2.fileLine = some key).map Prod.fst

theorem mem_atLine {items : List (InstRef × Instruction)} {key : FileLine} {r : InstRef} :
    r ∈ atLine items key ↔ ∃ i, (r, i) ∈ items ∧ i.fileLine = some key := by
  simp [atLine]

/-- Each instruction takes the next number. -/
theorem enter_insCount (item : InstRef × Instruction) (maps : Inst2Int) :
    (maps.enter item).insCount = maps.insCount + 1 := by
  unfold enter
  cases item.2.dbg <;> rfl

theorem enter_ins2int (item : InstRef × Instruction) (maps : Inst2Int) :
    (maps.enter item).ins2int = Function.update maps.ins2int item.1 (some maps.insCount) := by
  unfold enter
  cases item.2.dbg <;> rfl

/-- Only instructions of the module get a number. -/
theorem inst?_of_ins2int {M : Module} {r : InstRef} {n : Nat}
    (h : (createMaps M).2.ins2int r = some n) : ∃ i, M.inst? r = some i := by
  have hFold : ∀ r n, (createMaps M).2.ins2int r = some n → ∃ i, M.inst? r = some i := by
    refine List.foldlRecOn (motive := fun maps : Inst2Int =>
      ∀ r n, maps.ins2int r = some n → ∃ i, M.inst? r = some i) _ _ (by simp) ?_
    intro maps hMaps item hItem r n hNumber
    rw [enter_ins2int, Function.update_apply] at hNumber
    split at hNumber
    · next hEq => exact ⟨item.2, hEq ▸ Module.mem_allInstructions.mp hItem⟩
    · exact hMaps r n hNumber
  exact hFold r n h

def PositiveNumbers (maps : Inst2Int) : Prop :=
  0 < maps.insCount ∧ ∀ r n, maps.ins2int r = some n → 0 < n

/-- Step lemma. Zero is never given away, which is why it can stand for no number. -/
theorem PositiveNumbers.enter {maps : Inst2Int} (h : PositiveNumbers maps)
    (item : InstRef × Instruction) : PositiveNumbers (maps.enter item) := by
  constructor
  · rw [enter_insCount]
    exact Nat.succ_pos _
  · intro r n hNumber
    rw [enter_ins2int, Function.update_apply] at hNumber
    split at hNumber
    · cases hNumber
      exact h.1
    · exact h.2 r n hNumber

/-- `ins_count_` starts at one. -/
theorem positiveNumbers_createMaps (M : Module) : PositiveNumbers (createMaps M).2 :=
  List.foldlRecOn _ _ ⟨Nat.zero_lt_one, by simp⟩ fun _ hMaps item _ => hMaps.enter item

def DistinctNumbers (maps : Inst2Int) : Prop :=
  (∀ r n, maps.ins2int r = some n → n < maps.insCount) ∧
    ∀ r r' n, maps.ins2int r = some n → maps.ins2int r' = some n → r = r'

/-- Step lemma: the next number is greater than all that are given away. -/
theorem DistinctNumbers.enter {maps : Inst2Int} (h : DistinctNumbers maps)
    (item : InstRef × Instruction) : DistinctNumbers (maps.enter item) := by
  obtain ⟨hBelow, hDistinct⟩ := h
  simp only [DistinctNumbers, enter_ins2int, enter_insCount, Function.update_apply]
  constructor
  · intro r n hNumber
    split at hNumber
    · cases hNumber
      exact Nat.lt_succ_self _
    · exact Nat.lt_succ_of_lt (hBelow r n hNumber)
  · intro r r' n hNumber hNumber'
    split at hNumber <;> split at hNumber'
    · next hItem hItem' => rw [hItem, hItem']
    · cases hNumber
      exact absurd (hBelow r' _ hNumber') (Nat.lt_irrefl _)
    · cases hNumber'
      exact absurd (hBelow r _ hNumber) (Nat.lt_irrefl _)
    · exact hDistinct r r' n hNumber hNumber'

/-- No two instructions of a module share a number. -/
theorem distinctNumbers_createMaps (M : Module) : DistinctNumbers (createMaps M).2 :=
  List.foldlRecOn _ _ ⟨by simp, by simp⟩ fun _ hMaps item _ => hMaps.enter item

/-- An instruction without a line leaves the lines as they are. -/
theorem enter_lines (item : InstRef × Instruction) (maps : Inst2Int) (key : FileLine) :
    (maps.enter item).lines key = maps.lines key ++ atLine [item] key := by
  unfold enter lines atLine Instruction.fileLine
  cases hLoc : item.2.dbg with
  | none => simp [hLoc]
  | some loc =>
      by_cases hKey : loc.fileLine = key
      · subst hKey
        simp [hLoc]
      · simp [hLoc, hKey, Function.update_of_ne (Ne.symm hKey)]

/-- What the loop enters under a line are the instructions on it, in their order. -/
theorem foldl_enter_lines (items : List (InstRef × Instruction)) (maps : Inst2Int)
    (key : FileLine) :
    (items.foldl (fun maps item => maps.enter item) maps).lines key =
      maps.lines key ++ atLine items key := by
  induction items generalizing maps with
  | nil => simp [atLine]
  | cons item items ih =>
      rw [List.foldl_cons, ih, enter_lines, List.append_assoc]
      congr 1
      rw [atLine, atLine, atLine, ← List.map_append, ← List.filter_append, List.singleton_append]

/-- The list of a line holds the instructions with that location, in the order
of the module. -/
theorem createMaps_lines (M : Module) (key : FileLine) :
    (createMaps M).2.lines key = atLine M.allInstructions key := by
  rw [createMaps, foldl_enter_lines]
  rfl

theorem mem_lines {M : Module} {key : FileLine} {r : InstRef} :
    r ∈ (createMaps M).2.lines key ↔ ∃ i, M.inst? r = some i ∧ i.fileLine = some key := by
  simp only [createMaps_lines, mem_atLine, Module.mem_allInstructions]

end Inst2Int
end ConAnalysis
