import Mathlib.Data.List.Basic
import Mathlib.Tactic.Common

/-! Positions in a list that grows at its end: where an entry has a property, and
since when no entry has had one. -/
namespace Positions

variable {α : Type*} {P Q : α → Prop} {l : List α} {x : α} {i j : Nat}

def HasAt (P : α → Prop) (l : List α) (i : Nat) : Prop := ∃ x, l[i]? = some x ∧ P x

def NoneBetween (P : α → Prop) (l : List α) (i j : Nat) : Prop :=
  ∀ m, i < m → m < j → ¬HasAt P l m

/-- The entry has the property, and no entry behind it ends what it began. -/
def OpenSince (P Q : α → Prop) (l : List α) (i : Nat) : Prop :=
  HasAt P l i ∧ NoneBetween Q l i l.length

section Decidable
variable [DecidablePred P] [DecidablePred Q]

instance : Decidable (HasAt P l i) :=
  decidable_of_iff (∃ x ∈ l[i]?, P x) (by simp [HasAt, Option.mem_def])

instance : Decidable (NoneBetween P l i j) :=
  decidable_of_iff (∀ m < j, i < m → ¬HasAt P l m)
    ⟨fun h m hi hj => h m hj hi, fun h m hj hi => h m hi hj⟩

instance : Decidable (OpenSince P Q l i) :=
  inferInstanceAs (Decidable (HasAt P l i ∧ NoneBetween Q l i l.length))

instance : Decidable (∃ i, OpenSince P Q l i) :=
  decidable_of_iff (∃ i < l.length, OpenSince P Q l i)
    ⟨fun ⟨i, _, h⟩ => ⟨i, h⟩, fun ⟨i, h⟩ => ⟨i, (List.getElem?_eq_some_iff.mp h.1.choose_spec.1).1, h⟩⟩

end Decidable

/-- All ways to split a list at an entry, by the position of the entry. -/
theorem forall_split {C : List α → α → Prop}
    (h : ∀ i < l.length, ∀ x ∈ l[i]?, C (l.take i) x) (before : List α) (x : α) (rest : List α)
    (hl : l = before ++ x :: rest) : C before x := by
  have hAt := h before.length (by rw [hl]; simp) x (by simp [hl])
  rwa [hl, List.take_left] at hAt

theorem HasAt.lt_length (h : HasAt P l i) : i < l.length := by
  obtain ⟨x, hx, -⟩ := h
  exact (List.getElem?_eq_some_iff.mp hx).1

/-- What stands at a position stays there when more follows. -/
theorem HasAt.append (h : HasAt P l i) (more : List α) : HasAt P (l ++ more) i := by
  have hLt := h.lt_length
  obtain ⟨y, hy, hP⟩ := h
  exact ⟨y, by rwa [List.getElem?_append_left hLt], hP⟩

theorem HasAt.of_append {more : List α} (h : HasAt P (l ++ more) i) (hi : i < l.length) :
    HasAt P l i := by
  obtain ⟨y, hy, hP⟩ := h
  exact ⟨y, by rwa [List.getElem?_append_left hi] at hy, hP⟩

/-- The element behind the list stands at its length. -/
theorem hasAt_concat : HasAt P (l ++ [x]) l.length ↔ P x := by
  constructor
  · rintro ⟨y, hy, hP⟩
    rw [List.getElem?_concat_length, Option.some.injEq] at hy
    exact hy ▸ hP
  · exact fun h => ⟨x, List.getElem?_concat_length, h⟩

theorem NoneBetween.append (h : NoneBetween P l i j) (hj : j ≤ l.length) (more : List α) :
    NoneBetween P (l ++ more) i j :=
  fun m hi hm hAt => h m hi hm (hAt.of_append (Nat.lt_of_lt_of_le hm hj))

theorem NoneBetween.mono {i' j' : Nat} (h : NoneBetween P l i j) (hi : i ≤ i') (hj : j' ≤ j) :
    NoneBetween P l i' j' :=
  fun m hm hm' => h m (Nat.lt_of_le_of_lt hi hm) (Nat.lt_of_lt_of_le hm' hj)

/-- Step lemma: an element without the property can be appended. -/
theorem NoneBetween.concat (h : NoneBetween P l i l.length) (hx : ¬P x) :
    NoneBetween P (l ++ [x]) i (l ++ [x]).length := by
  intro m hi hm hAt
  rw [List.length_append, List.length_singleton] at hm
  rcases Nat.lt_succ_iff_lt_or_eq.mp hm with hLt | rfl
  · exact h m hi hLt (hAt.of_append hLt)
  · exact hx (hasAt_concat.mp hAt)

/-- An opening stays open at every element that does not close it. -/
theorem OpenSince.concat (h : OpenSince P Q l i) (hx : ¬Q x) : OpenSince P Q (l ++ [x]) i :=
  ⟨h.1.append [x], h.2.concat hx⟩

/-- The last entry has just begun something. -/
theorem OpenSince.start (h : P x) : OpenSince P Q (l ++ [x]) l.length := by
  refine ⟨hasAt_concat.mpr h, ?_⟩
  intro m hi hm
  rw [List.length_append, List.length_singleton] at hm
  omega

theorem OpenSince.lt_length (h : OpenSince P Q l i) : i < l.length := h.1.lt_length

/-- What ends itself is open since one position only. -/
theorem OpenSince.unique (hi : OpenSince P P l i) (hj : OpenSince P P l j) : i = j := by
  rcases Nat.lt_trichotomy i j with hLt | hEq | hLt
  · exact absurd hj.1 (hi.2 j hLt hj.lt_length)
  · exact hEq
  · exact absurd hi.1 (hj.2 i hLt hi.lt_length)

/-- An entry in a section behind its header, in a block that has been opened before. -/
structure Inside (opens breaks header ends entry : α → Prop) (l : List α)
    (start head position : Nat) : Prop where
  opened : HasAt opens l start
  start_lt : start < head
  headed : HasAt header l head
  head_lt : head < position
  has : HasAt entry l position
  same_section : NoneBetween ends l head position
  same_block : NoneBetween breaks l start position

namespace Inside
variable {opens breaks header ends entry : α → Prop} {start head position : Nat}

theorem lt_length (h : Inside opens breaks header ends entry l start head position) :
    position < l.length := h.has.lt_length

theorem append (h : Inside opens breaks header ends entry l start head position) (more : List α) :
    Inside opens breaks header ends entry (l ++ more) start head position where
  opened := h.opened.append more
  start_lt := h.start_lt
  headed := h.headed.append more
  head_lt := h.head_lt
  has := h.has.append more
  same_section := h.same_section.append (Nat.le_of_lt h.lt_length) more
  same_block := h.same_block.append (Nat.le_of_lt h.lt_length) more

/-- The block may have been opened earlier. -/
theorem earlier (h : Inside opens breaks header ends entry l start head position) {start' : Nat}
    (hLe : start' ≤ start) (hOpen : OpenSince opens breaks l start') :
    Inside opens breaks header ends entry l start' head position where
  opened := hOpen.1
  start_lt := Nat.lt_of_le_of_lt hLe h.start_lt
  headed := h.headed
  head_lt := h.head_lt
  has := h.has
  same_section := h.same_section
  same_block := hOpen.2.mono (Nat.le_refl _) (Nat.le_of_lt h.lt_length)

/-- A new entry of an open section. -/
theorem concat (hLt : start < head) (hBlock : OpenSince opens breaks l start)
    (hSection : OpenSince header ends l head) (hx : entry x) :
    Inside opens breaks header ends entry (l ++ [x]) start head l.length where
  opened := hBlock.1.append [x]
  start_lt := hLt
  headed := hSection.1.append [x]
  head_lt := hSection.lt_length
  has := hasAt_concat.mpr hx
  same_section := hSection.2.append (Nat.le_refl _) [x]
  same_block := hBlock.2.append (Nat.le_refl _) [x]

end Inside

end Positions
