import ConAnalysis.IR.Module
import Mathlib.Data.List.Sort
import Mathlib.Data.List.Chain

/-! The order in which a sweep meets the instructions of a function, and the
control flow between them. -/
namespace ConAnalysis.IR

/-- Earlier in the block layout of one function. -/
def LayoutLt (r t : InstRef) : Prop :=
  r.block < t.block ∨ r.block = t.block ∧ r.index < t.index

instance (r t : InstRef) : Decidable (LayoutLt r t) :=
  inferInstanceAs (Decidable (_ ∨ _))

theorem LayoutLt.irrefl (r : InstRef) : ¬LayoutLt r r := by
  simp [LayoutLt]

theorem LayoutLt.trans {r t u : InstRef} (h₁ : LayoutLt r t) (h₂ : LayoutLt t u) :
    LayoutLt r u := by
  unfold LayoutLt at *
  omega

theorem LayoutLt.asymm {r t : InstRef} (h₁ : LayoutLt r t) (h₂ : LayoutLt t r) : False :=
  LayoutLt.irrefl r (h₁.trans h₂)

instance : Std.Asymm LayoutLt := ⟨fun _ _ => LayoutLt.asymm⟩

/-- A selection of swept instructions in layout order is made in sweep order. -/
theorem sublist_of_layoutLt {items : List (InstRef × Instruction)} {path : List InstRef}
    (hItems : items.Pairwise fun a b => LayoutLt a.1 b.1) (hPath : path.Pairwise LayoutLt)
    (hSubset : path ⊆ items.map Prod.fst) : path.Sublist (items.map Prod.fst) :=
  List.sublist_of_subperm_of_pairwise (List.subperm_of_subset hPath.nodup hSubset) hPath
    (List.pairwise_map.mpr hItems)

/-- Numbered elements come in the order of their numbers. -/
theorem pairwise_zipIdx {α : Type} (list : List α) (n : Nat) :
    (list.zipIdx n).Pairwise fun a b => a.2 < b.2 := by
  induction list generalizing n with
  | nil => simp
  | cons a list ih =>
      rw [List.zipIdx_cons, List.pairwise_cons]
      refine ⟨?_, ih (n + 1)⟩
      rintro ⟨b, m⟩ hb
      have hLe := (List.mem_zipIdx hb).1
      simp only
      omega

/-- The sweep order is the layout order. -/
theorem Function.pairwise_instructions (F : Function) (f : FuncRef) :
    (F.instructions f).Pairwise fun a b => LayoutLt a.1 b.1 := by
  rw [instructions, List.pairwise_flatMap]
  constructor
  · rintro ⟨B, b⟩ -
    rw [List.pairwise_map]
    exact (pairwise_zipIdx B.insts 0).imp fun h => .inr ⟨rfl, h⟩
  · refine (pairwise_zipIdx F.blocks 0).imp ?_
    rintro ⟨B, b⟩ ⟨C, c⟩ hLt x hx y hy
    simp only [List.mem_map, Prod.exists] at hx hy
    obtain ⟨i, n, -, rfl⟩ := hx
    obtain ⟨j, m, -, rfl⟩ := hy
    exact .inl hLt

/-- Control may pass from one instruction to the other: to the next one of the
block, or from a terminator to the first instruction of a successor. -/
def FlowsTo (M : Module) (r t : InstRef) : Prop :=
  t.func = r.func ∧
    (t.block = r.block ∧ t.index = r.index + 1 ∧ (M.inst? t).isSome ∨
      ((M.func r.func).blocks[r.block]?).any fun B =>
        r.index = B.body.length && t.index = 0 && B.successors.contains t.block)

instance (M : Module) (r t : InstRef) : Decidable (FlowsTo M r t) :=
  inferInstanceAs (Decidable (_ ∧ _))

/-- Control flow leads to instructions. -/
theorem FlowsTo.exists_inst {M : Module} {r t : InstRef} (h : FlowsTo M r t) :
    ∃ i, (t, i) ∈ M.instructions r.func := by
  obtain ⟨hFunc, ⟨-, -, hSome⟩ | hBranch⟩ := h
  · obtain ⟨i, hi⟩ := Option.isSome_iff_exists.mp hSome
    exact ⟨i, Module.mem_instructions.mpr ⟨hFunc, hi⟩⟩
  · simp only [Option.any_eq_true, Bool.and_eq_true, decide_eq_true_eq, List.contains_iff_mem] at hBranch
    obtain ⟨B, hB, ⟨-, hIndex⟩, hSucc⟩ := hBranch
    have hLt := (M.func r.func).successors_lt B (List.mem_of_getElem? hB) t.block hSucc
    obtain ⟨i, insts, hInsts⟩ := List.exists_cons_of_ne_nil
      ((M.func r.func).blocks[t.block]).insts_ne_nil
    refine ⟨i, Module.mem_instructions.mpr ⟨hFunc, ?_⟩⟩
    simp [Module.inst?, Function.instAt, hFunc, hIndex, hLt, hInsts]

/-- A control-flow path stays in its function and meets instructions only. -/
theorem exists_inst_of_isChain {M : Module} {r t : InstRef} {path : List InstRef}
    (h : (r :: path).IsChain (FlowsTo M)) (ht : t ∈ path) :
    ∃ i, (t, i) ∈ M.instructions r.func := by
  induction path generalizing r with
  | nil => cases ht
  | cons u path ih =>
      rw [List.isChain_cons_cons] at h
      rcases List.mem_cons.mp ht with rfl | ht
      · exact h.1.exists_inst
      · rw [← h.1.1]
        exact ih h.2 ht

/-- What a sweep from a suffix still meets: everything later in the layout. -/
theorem mem_suffix_of_layoutLt {M : Module} {f : FuncRef} {r t : InstRef} {i j : Instruction}
    {items : List (InstRef × Instruction)} (hSuffix : (r, i) :: items <:+ M.instructions f)
    (ht : (t, j) ∈ M.instructions f) (hLt : LayoutLt r t) : (t, j) ∈ items := by
  have hSorted := (M.func f).pairwise_instructions f
  obtain ⟨before, hBefore⟩ := hSuffix
  rw [← hBefore] at ht
  rw [Module.instructions] at hBefore
  rw [← hBefore, List.pairwise_append] at hSorted
  rcases List.mem_append.mp ht with ht | ht
  · exact (LayoutLt.asymm hLt (hSorted.2.2 _ ht _ List.mem_cons_self)).elim
  · rcases List.mem_cons.mp ht with hEq | ht
    · cases hEq
      exact (LayoutLt.irrefl _ hLt).elim
    · exact ht

end ConAnalysis.IR
