import ConAnalysis.SyncLoop.Initialize

/-! The manual input of `SyncLoop::initialize`. One search looks for both numbers and ends
with the first instruction that has one of them. -/
namespace ConAnalysis

namespace Inst2IntMap
variable {M : IR.Module} (ins2int : Inst2IntMap M)

theorem number_unique {r r' : IR.InstRef} {n : Nat} (h : (r, n) ∈ ins2int.entries)
    (h' : (r', n) ∈ ins2int.entries) : r' = r :=
  (Inst2Int.distinctNumbers_createMaps M).2 r' r n ((ins2int.mem_iff r' n).mp h')
    ((ins2int.mem_iff r n).mp h)

/-- The iteration comes to `entry` first. -/
def Before (entry entry' : IR.InstRef × Nat) : Prop :=
  ins2int.entries.idxOf entry < ins2int.entries.idxOf entry'

/-- The number of an instruction, or the default of the option. -/
def Given (n : Nat) : Prop := n = 0 ∨ ∃ r, (r, n) ∈ ins2int.entries

/-- Zero belongs to none, as it stands for no number. -/
theorem not_mem_zero (r : IR.InstRef) : (r, 0) ∉ ins2int.entries :=
  fun hMem => absurd (SyncLoop.number_pos ins2int _ hMem) (Nat.lt_irrefl 0)

/-- Of two entries of the map one comes first, whatever its order. -/
theorem before_total {entry entry' : IR.InstRef × Nat} (h : entry ∈ ins2int.entries)
    (hNe : entry ≠ entry') : ins2int.Before entry entry' ∨ ins2int.Before entry' entry :=
  Nat.lt_or_gt_of_ne fun hEq => hNe ((List.idxOf_inj h).mp hEq)

end Inst2IntMap

namespace SyncLoop
open IR

section Search
variable {entries : List (InstRef × Nat)} {write read : Nat} {a b : InstRef} {st : RacingInsts}

/-- The search ends with the first entry that has one of the numbers. -/
theorem overwriteLists_of_find? {r : InstRef} {n : Nat}
    (h : entries.find? (fun entry => entry.2 = write ∨ entry.2 = read) = some (r, n)) :
    overwriteLists write read entries st =
      if n = write then { st with writeFuncInstList := [siteOf r] }
      else { st with readFuncInstList := [siteOf r] } := by
  induction entries with
  | nil => cases h
  | cons entry entries ih =>
      obtain ⟨x, m⟩ := entry
      rw [overwriteLists]
      by_cases hWrite : m = write
      · rw [List.find?_cons_of_pos (by simp [hWrite])] at h
        cases h
        rw [if_pos hWrite, if_pos hWrite]
      · by_cases hRead : m = read
        · rw [List.find?_cons_of_pos (by simp [hRead])] at h
          cases h
          rw [if_neg hWrite, if_pos hRead, if_neg hWrite]
        · rw [List.find?_cons_of_neg (by simp [hWrite, hRead])] at h
          rw [if_neg hWrite, if_neg hRead, ih h]

/-- The only entry with the number `n` is found if it comes before every entry with the
other one. -/
theorem find?_first {n m : Nat} {r : InstRef} (h : (r, n) ∈ entries)
    (hUnique : ∀ x, (x, n) ∈ entries → x = r)
    (hFirst : ∀ x, (x, m) ∈ entries → entries.idxOf (r, n) < entries.idxOf (x, m)) :
    entries.find? (fun entry => entry.2 = n ∨ entry.2 = m) = some (r, n) := by
  induction entries with
  | nil => cases h
  | cons entry entries ih =>
      obtain ⟨x, k⟩ := entry
      by_cases hThis : k = n
      · subst hThis
        rw [List.find?_cons_of_pos (by simp), hUnique x List.mem_cons_self]
      · have hNe : (x, k) ≠ (r, n) := fun hEq => hThis (congrArg Prod.snd hEq)
        by_cases hOther : k = m
        · subst hOther
          have hLt := hFirst x List.mem_cons_self
          rw [List.idxOf_cons_self] at hLt
          exact absurd hLt (Nat.not_lt_zero _)
        · rw [List.find?_cons_of_neg (by simp [hThis, hOther])]
          refine ih ((List.mem_cons.mp h).resolve_left hNe.symm) ?_ ?_
          · exact fun x hMem => hUnique x (List.mem_cons_of_mem _ hMem)
          · intro y hMem
            have hNe' : (x, k) ≠ (y, m) := fun hEq => hOther (congrArg Prod.snd hEq)
            have hLt := hFirst y (List.mem_cons_of_mem _ hMem)
            rw [List.idxOf_cons_ne _ hNe, List.idxOf_cons_ne _ hNe'] at hLt
            exact Nat.lt_of_succ_lt_succ hLt

end Search

section Override
variable {M : Module} {ins2int : Inst2IntMap M} {write read : Nat} {a b : InstRef}
variable {st st' : RacingInsts}

/-- The write of the manual input comes before its read, or there is no read. -/
theorem overwriteLists_write (h : (a, write) ∈ ins2int.entries)
    (hFirst : ∀ x, (x, read) ∈ ins2int.entries → ins2int.Before (a, write) (x, read)) :
    overwriteLists write read ins2int.entries st =
      { st with writeFuncInstList := [siteOf a] } := by
  rw [overwriteLists_of_find? (find?_first h (fun x => ins2int.number_unique h) hFirst), if_pos rfl]

/-- Where the number of the read comes first in the map, only the read is replaced. -/
theorem overwriteLists_read (hNumbers : write ≠ read) (h : (b, read) ∈ ins2int.entries)
    (hFirst : ∀ x, (x, write) ∈ ins2int.entries → ins2int.Before (b, read) (x, write)) :
    overwriteLists write read ins2int.entries st =
      { st with readFuncInstList := [siteOf b] } := by
  have hFind := find?_first h (fun x => ins2int.number_unique h) hFirst
  simp only [or_comm] at hFind
  rw [overwriteLists_of_find? hFind, if_neg hNumbers.symm]

/-- What the options ask for: each number that is given replaces the list of its side, and
the other lists stay. -/
structure Overridden (ins2int : Inst2IntMap M) (write read : Nat) (st st' : RacingInsts) :
    Prop where
  givenWrite : ∀ r, (r, write) ∈ ins2int.entries → st'.writeFuncInstList = [siteOf r]
  givenRead : ∀ r, (r, read) ∈ ins2int.entries → st'.readFuncInstList = [siteOf r]
  noWrite : write = 0 → st'.writeFuncInstList = st.writeFuncInstList
  noRead : read = 0 → st'.readFuncInstList = st.readFuncInstList

/-- The instruction that comes second is what the report alone has given for its side. -/
def SecondInPlace (ins2int : Inst2IntMap M) (write read : Nat) (st : RacingInsts) : Prop :=
  ∃ a b, (a, write) ∈ ins2int.entries ∧ (b, read) ∈ ins2int.entries ∧
    (ins2int.Before (a, write) (b, read) ∧ st.readFuncInstList = [siteOf b] ∨
      ins2int.Before (b, read) (a, write) ∧ st.writeFuncInstList = [siteOf a])

/-- With the write in place, what is asked for the read has to be there already. -/
theorem overridden_set_write (h : (a, write) ∈ ins2int.entries) :
    Overridden ins2int write read st { st with writeFuncInstList := [siteOf a] } ↔
      ∀ b, (b, read) ∈ ins2int.entries → st.readFuncInstList = [siteOf b] := by
  constructor
  · exact fun hSet => hSet.givenRead
  · intro hPlace
    constructor
    · intro r hMem
      rw [ins2int.number_unique h hMem]
    · exact hPlace
    · rintro rfl
      exact absurd h (ins2int.not_mem_zero a)
    · exact fun _ => rfl

theorem overridden_set_read (h : (b, read) ∈ ins2int.entries) :
    Overridden ins2int write read st { st with readFuncInstList := [siteOf b] } ↔
      ∀ a, (a, write) ∈ ins2int.entries → st.writeFuncInstList = [siteOf a] := by
  constructor
  · exact fun hSet => hSet.givenWrite
  · intro hPlace
    constructor
    · exact hPlace
    · intro r hMem
      rw [ins2int.number_unique h hMem]
    · exact fun _ => rfl
    · rintro rfl
      exact absurd h (ins2int.not_mem_zero b)

/-- With one number its side is replaced, whatever the order of the map is. -/
theorem overridden_write (h : (a, write) ∈ ins2int.entries) :
    Overridden ins2int write 0 st (overwriteLists write 0 ins2int.entries st) := by
  rw [overwriteLists_write h fun x hMem => absurd hMem (ins2int.not_mem_zero x),
    overridden_set_write h]
  exact fun b hMem => absurd hMem (ins2int.not_mem_zero b)

theorem overridden_read (h : (b, read) ∈ ins2int.entries) :
    Overridden ins2int 0 read st (overwriteLists 0 read ins2int.entries st) := by
  have hNe : 0 ≠ read := by
    rintro rfl
    exact ins2int.not_mem_zero b h
  rw [overwriteLists_read hNe h fun x hMem => absurd hMem (ins2int.not_mem_zero x),
    overridden_set_read h]
  exact fun a hMem => absurd hMem (ins2int.not_mem_zero a)

/-- With two numbers the search ends before it comes to the second one. -/
theorem overridden_iff_read (hWrite : (a, write) ∈ ins2int.entries)
    (hRead : (b, read) ∈ ins2int.entries) (hBefore : ins2int.Before (a, write) (b, read)) :
    Overridden ins2int write read st (overwriteLists write read ins2int.entries st) ↔
      st.readFuncInstList = [siteOf b] := by
  rw [overwriteLists_write hWrite fun x hMem => ins2int.number_unique hRead hMem ▸ hBefore,
    overridden_set_write hWrite]
  constructor
  · exact fun hPlace => hPlace b hRead
  · intro hPlace x hMem
    rwa [ins2int.number_unique hRead hMem]

/-- If both are given and the read is met first, the write has to be the right one already. -/
theorem overridden_iff_write (hNumbers : write ≠ read) (hWrite : (a, write) ∈ ins2int.entries)
    (hRead : (b, read) ∈ ins2int.entries) (hBefore : ins2int.Before (b, read) (a, write)) :
    Overridden ins2int write read st (overwriteLists write read ins2int.entries st) ↔
      st.writeFuncInstList = [siteOf a] := by
  rw [overwriteLists_read hNumbers hRead
    fun x hMem => ins2int.number_unique hWrite hMem ▸ hBefore, overridden_set_read hRead]
  constructor
  · exact fun hPlace => hPlace a hWrite
  · intro hPlace x hMem
    rwa [ins2int.number_unique hWrite hMem]

theorem secondInPlace_iff_read (hWrite : (a, write) ∈ ins2int.entries)
    (hRead : (b, read) ∈ ins2int.entries) (hBefore : ins2int.Before (a, write) (b, read)) :
    SecondInPlace ins2int write read st ↔ st.readFuncInstList = [siteOf b] := by
  constructor
  · rintro ⟨a', b', hWrite', hRead', h⟩
    cases ins2int.number_unique hWrite hWrite'
    cases ins2int.number_unique hRead hRead'
    rcases h with ⟨-, hPlace⟩ | ⟨hAfter, -⟩
    · exact hPlace
    · exact absurd hAfter (Nat.lt_asymm hBefore)
  · exact fun hPlace => ⟨a, b, hWrite, hRead, .inl ⟨hBefore, hPlace⟩⟩

theorem secondInPlace_iff_write (hWrite : (a, write) ∈ ins2int.entries)
    (hRead : (b, read) ∈ ins2int.entries) (hBefore : ins2int.Before (b, read) (a, write)) :
    SecondInPlace ins2int write read st ↔ st.writeFuncInstList = [siteOf a] := by
  constructor
  · rintro ⟨a', b', hWrite', hRead', h⟩
    cases ins2int.number_unique hWrite hWrite'
    cases ins2int.number_unique hRead hRead'
    rcases h with ⟨hAfter, -⟩ | ⟨-, hPlace⟩
    · exact absurd hAfter (Nat.lt_asymm hBefore)
    · exact hPlace
  · exact fun hPlace => ⟨a, b, hWrite, hRead, .inr ⟨hBefore, hPlace⟩⟩

/-- Two numbers give what they ask for only if the second one asks for nothing new. -/
theorem overridden_iff_secondInPlace (hNumbers : write ≠ read)
    (hWrite : (a, write) ∈ ins2int.entries) (hRead : (b, read) ∈ ins2int.entries) :
    Overridden ins2int write read st (overwriteLists write read ins2int.entries st) ↔
      SecondInPlace ins2int write read st := by
  have hNe : (a, write) ≠ (b, read) := fun hEq => hNumbers (congrArg Prod.snd hEq)
  rcases ins2int.before_total hWrite hNe with hBefore | hBefore
  · rw [overridden_iff_read hWrite hRead hBefore, secondInPlace_iff_read hWrite hRead hBefore]
  · rw [overridden_iff_write hNumbers hWrite hRead hBefore,
      secondInPlace_iff_write hWrite hRead hBefore]

end Override

/-- Manual input does what it asks for exactly if one number is given, or the report has
already given the instruction that comes second. -/
theorem overridden_iff {M : Module} (sourcetoIRmap : LineMap M) (ins2int : Inst2IntMap M)
    {write read : Nat} {csinput : List FuncFileLine} {st : RacingInsts}
    (hNumbers : write ≠ read) (hWrite : ins2int.Given write) (hRead : ins2int.Given read)
    (hReport : handleReport M sourcetoIRmap true csinput {} = .ok st) :
    (∃ st', initializeRacing M sourcetoIRmap ins2int write read csinput = .ok st' ∧
      Overridden ins2int write read st st') ↔
        write = 0 ∨ read = 0 ∨ SecondInPlace ins2int write read st := by
  have hInit : initializeRacing M sourcetoIRmap ins2int write read csinput =
      .ok (overwriteLists write read ins2int.entries st) := by
    rw [initializeRacing, hReport]
    rfl
  simp only [hInit, Except.ok.injEq, exists_eq_left']
  rcases hWrite with rfl | ⟨a, hWrite⟩
  · rcases hRead with rfl | ⟨b, hRead⟩
    · exact absurd rfl hNumbers
    · exact iff_of_true (overridden_read hRead) (.inl rfl)
  · have hNe : write ≠ 0 := by
      rintro rfl
      exact ins2int.not_mem_zero a hWrite
    rw [or_iff_right hNe]
    rcases hRead with rfl | ⟨b, hRead⟩
    · exact iff_of_true (overridden_write hWrite) (.inl rfl)
    · have hNe' : read ≠ 0 := by
        rintro rfl
        exact ins2int.not_mem_zero b hRead
      rw [or_iff_right hNe']
      exact overridden_iff_secondInPlace hNumbers hWrite hRead

/-- The report of the flag, and what it gives without manual input. -/
theorem handleReport_flag : ∃ st, handleReport racingModule racingLines true
    [("publish", "q.c", 3), ("consume", "q.c", 8)] {} = .ok st ∧
      st.writeFuncInstList = [siteOf ⟨0, 0, 0⟩] ∧ st.readFuncInstList = [siteOf ⟨1, 0, 4⟩] := by
  refine Exceptions.exists_ok_of_any (P := fun st : RacingInsts =>
    st.writeFuncInstList = [siteOf ⟨0, 0, 0⟩] ∧ st.readFuncInstList = [siteOf ⟨1, 0, 4⟩]) ?_
  decide

/-- The number six asks for the load through the local pointer, but one comes first. -/
theorem read_not_overridden : ∃ st st',
    handleReport racingModule racingLines true [("publish", "q.c", 3), ("consume", "q.c", 8)] {} =
        .ok st ∧
      (⟨0, 0, 0⟩, 1) ∈ (Inst2IntMap.inOrder racingModule).entries ∧
      (⟨1, 0, 3⟩, 6) ∈ (Inst2IntMap.inOrder racingModule).entries ∧
      initializeRacing racingModule racingLines (.inOrder racingModule) 1 6
        [("publish", "q.c", 3), ("consume", "q.c", 8)] = .ok st' ∧
      ¬ Overridden (.inOrder racingModule) 1 6 st st' := by
  obtain ⟨st, hReport, -, hRead⟩ := handleReport_flag
  have hWriteMem : (⟨0, 0, 0⟩, 1) ∈ (Inst2IntMap.inOrder racingModule).entries := by decide
  have hReadMem : (⟨1, 0, 3⟩, 6) ∈ (Inst2IntMap.inOrder racingModule).entries := by decide
  refine ⟨st, _, hReport, hWriteMem, hReadMem, by rw [initializeRacing, hReport]; rfl, ?_⟩
  rw [overridden_iff_read hWriteMem hReadMem (by unfold Inst2IntMap.Before; decide), hRead]
  decide

theorem overridden_iff_flag : ∃ st st',
    handleReport racingModule racingLines true [("publish", "q.c", 3), ("consume", "q.c", 8)] {} =
        .ok st ∧
      initializeRacing racingModule racingLines (.inOrder racingModule) 0 6
        [("publish", "q.c", 3), ("consume", "q.c", 8)] = .ok st' ∧
      Overridden (.inOrder racingModule) 0 6 st st' := by
  obtain ⟨st, hReport, -⟩ := handleReport_flag
  have hRead : (Inst2IntMap.inOrder racingModule).Given 6 := .inr ⟨⟨1, 0, 3⟩, by decide⟩
  obtain ⟨st', hInit⟩ := (overridden_iff racingLines (.inOrder racingModule) (Nat.zero_ne_add_one 5)
    (.inl rfl) hRead hReport).mpr (.inl rfl)
  exact ⟨st, st', hReport, hInit⟩

end SyncLoop
end ConAnalysis
