import ConAnalysis.Input.InitializeCallStack

/-! The line map of the `Inst2Int` pass holds the instructions of each line, and so the call
stack that is made from it stays inside the module. -/
namespace ConAnalysis
open IR BreakLoop
open Env (Site)

def IR.Module.instructionsAt (M : Module) (key : FileLine) : List (InstRef × Instruction) :=
  M.allInstructions.filter fun item => item.2.fileLine = some key

namespace Inst2Int

/-- A line gets its list with its first instruction. -/
theorem sourcetoIRmap_ne_nil (M : Module) (key : FileLine) :
    (createMaps M).2.sourcetoIRmap key ≠ some [] := by
  refine List.foldlRecOn (motive := fun maps : Inst2Int => ∀ key, maps.sourcetoIRmap key ≠ some [])
    M.allInstructions _ ?_ ?_ key
  · exact fun key hEq => by cases hEq
  · intro maps hMaps item _ key
    unfold enter
    split
    · exact hMaps key
    · next loc _ =>
        dsimp only
        by_cases hKey : key = loc.fileLine
        · rw [hKey, Function.update_self]
          simp
        · rw [Function.update_of_ne hKey]
          exact hMaps key

/-- A line is found exactly if it has instructions, and then with all of them. -/
theorem find_lineMap (M : Module) (key : FileLine) :
    (lineMap M (createMaps M).2).find key =
      if M.instructionsAt key = [] then none else some (M.instructionsAt key) := by
  have hLines : (createMaps M).2.lines key = (M.instructionsAt key).map Prod.fst :=
    createMaps_lines M key
  have hItems : ((M.instructionsAt key).map Prod.fst).filterMap
      (fun r => (M.inst? r).map fun i => (r, i)) = M.instructionsAt key := by
    rw [List.filterMap_map]
    refine (List.filterMap_congr fun item hItem => ?_).trans List.filterMap_some
    have hInst : M.inst? item.1 = some item.2 :=
      Module.mem_allInstructions.mp (List.mem_of_mem_filter hItem)
    rw [Function.comp_apply, hInst]
    rfl
  have hFind : (lineMap M (createMaps M).2).find key =
      ((createMaps M).2.sourcetoIRmap key).map fun refs =>
        refs.filterMap fun r => (M.inst? r).map fun i => (r, i) := rfl
  rw [hFind]
  cases hMap : (createMaps M).2.sourcetoIRmap key with
  | none =>
      rw [lines, hMap] at hLines
      rw [if_pos (List.map_eq_nil_iff.mp hLines.symm)]
      rfl
  | some refs =>
      rw [lines, hMap] at hLines
      obtain rfl : refs = (M.instructionsAt key).map Prod.fst := hLines
      have hNe : M.instructionsAt key ≠ [] := by
        intro hNil
        rw [hNil] at hMap
        exact sourcetoIRmap_ne_nil M key hMap
      rw [if_neg hNe, Option.map_some, hItems]

end Inst2Int

def Env.Site.Inside (M : Module) (site : Site) : Prop := ∃ i, (site.2, i) ∈ M.instructions site.1

/-- The site of an instruction lies in its function. -/
theorem inside_siteOf {M : Module} {item : InstRef × Instruction}
    (h : M.inst? item.1 = some item.2) : (siteOf item.1).Inside M :=
  ⟨item.2, Module.mem_instructions.mpr ⟨rfl, h⟩⟩

def CallStacks.Inside (M : Module) (st : CallStacks) : Prop :=
  ∀ site ∈ st.callStackHead ++ st.callStackBody, site.Inside M

section Inside
variable {M : Module} {sourcetoIRmap : LineMap M} {st st' : CallStacks}

/-- Adding the site of an instruction of the module keeps all sites inside. -/
theorem CallStacks.Inside.add {item : InstRef × Instruction} (h : st.Inside M)
    (hInst : M.inst? item.1 = some item.2) : ∀ site ∈ st.callStackHead ++ st.callStackBody ++
      [siteOf item.1], site.Inside M := by
  intro site hSite
  rcases List.mem_append.mp hSite with hOld | hNew
  · exact h site hOld
  · rw [List.mem_singleton.mp hNew]
    exact inside_siteOf hInst

end Inside
end ConAnalysis
