import Mathlib.Data.List.InsertIdx
import Mathlib.Data.List.Nodup
import Mathlib.Data.Set.Basic
import Mathlib.Logic.Relation
import ConAnalysis.Trigger.Callbacks

/-! What `OBJ_ARR` keeps track of, under any interleaving of the callbacks, the
timer and the process. -/
namespace ConAnalysis.Trigger
open Exceptions

variable (c : Config)

def Matches (a b : Entry) : Prop :=
  a.id ≠ b.id ∧ (c.bp_source.1 = c.bp_source.2 ∨ a.kind ≠ b.kind) ∧
    ∃ addr ∈ a.addrs, addr ∈ b.addrs

/-- What can happen while the script has not ended. Between the steps of the
script, threads run, stop, resume unexpectedly, start and end. A write callback
gets the lock in the states that are allowed for its thread. -/
inductive Step (allowed : State → Nat → Prop) : State → State → Prop
  | process (s : State) (process : Process) : Step allowed s { s with process }
  | readCallback {s s' : State} (r : Readings) (h : readCallback c r s = .ok s') :
      Step allowed s s'
  | writeCallback {s s' : State} (r : Readings) (id : Nat) (hAllowed : allowed s id)
      (h : writeCallback c r s id = .ok s') : Step allowed s s'
  | timer {s s' : State} (t : Tick) (h : timer c t s = .ok s') : Step allowed s s'

/-- What the script can come to, from its start with a process. -/
abbrev Reaches (allowed : State → Nat → Prop) (process : Process) (lastBreak : Rat)
    (s : State) : Prop :=
  Relation.ReflTransGen (Step c allowed) { process, lastBreak } s

/-- The thread of a write callback, if it has an entry, is still stopped at a
breakpoint when the callback gets the lock. -/
def Triggered (s : State) (id : Nat) : Prop :=
  id ∈ s.ids → ∃ thd ∈ s.process.threads, thd.id = id ∧ thd.atBreakpoint = true

variable {c}

theorem Matches.symm {a b : Entry} (h : Matches c a b) : Matches c b a := by
  obtain ⟨hId, hKind, addr, ha, hb⟩ := h
  exact ⟨hId.symm, hKind.imp_right Ne.symm, addr, hb, ha⟩

theorem not_matches_self (a : Entry) : ¬Matches c a a := fun h => h.1 rfl

/-- `match` finds the conflicting threads. -/
theorem matchEntries_eq_nil_iff {objArr : List Entry} {arr : Entry} :
    matchEntries c objArr arr = [] ↔ ∀ obj ∈ objArr, ¬Matches c obj arr := by
  rw [matchEntries, List.flatMap_eq_nil_iff]
  refine forall₂_congr fun obj _ => ?_
  by_cases hId : obj.id = arr.id
  · simp [hId, Matches]
  · by_cases hKind : c.bp_source.1 = c.bp_source.2 ∨ obj.kind ≠ arr.kind
    · simp [hId, hKind, Matches, List.filter_eq_nil_iff]
    · simp [hId, hKind, Matches]

/-- The pending threads are those that the callback has still to record. A thread
that had gone on before its write callback got the lock may be held without an entry. -/
structure Inv (c : Config) (gone : Set Nat) (pending : List Nat) (s : State) : Prop where
  ids_nodup : s.ids.Nodup
  unmatched : ∀ a ∈ s.objArr, ∀ b ∈ s.objArr, ¬Matches c a b
  held_tracked : ∀ id ∈ s.held, id ∈ s.ids ∨ id ∈ pending ∨ id ∈ gone
  tracked_held : s.ids ⊆ s.held
  pending_untracked : ∀ id ∈ pending, id ∉ s.ids

namespace Inv
variable {gone : Set Nat} {pending : List Nat} {s s' : State}

/-- The invariant is about the entries and the held threads alone. -/
theorem of_eq (h : Inv c gone pending s) (hObj : s'.objArr = s.objArr) (hHeld : s'.held = s.held) :
    Inv c gone pending s' := by
  obtain ⟨hNodup, hUnmatched, hTracked, hHas, hPending⟩ := h
  rw [State.ids, ← hObj] at hNodup
  rw [← hObj] at hUnmatched
  rw [State.ids, ← hObj, ← hHeld] at hTracked hHas
  rw [State.ids, ← hObj] at hPending
  exact ⟨hNodup, hUnmatched, hTracked, hHas, hPending⟩

/-- An entry can be deleted if its thread is not held any more, or is pending. -/
theorem eraseIdx (h : Inv c gone pending s) (i : Nat) {pending' : List Nat}
    (hObj : s'.objArr = s.objArr.eraseIdx i)
    (hHeld : ∀ id ∈ s'.held,
      id ∈ s.held ∧ ∀ obj, s.objArr[i]? = some obj → id = obj.id → id ∈ pending')
    (hKept : ∀ id ∈ s'.ids, id ∈ s.held → id ∈ s'.held)
    (hPending : ∀ id ∈ pending', id ∉ s'.ids) (hSub : ∀ id ∈ pending, id ∈ pending') :
    Inv c gone pending' s' := by
  have hIds : s'.ids = s.ids.eraseIdx i := by
    rw [State.ids, State.ids, hObj, ← List.eraseIdx_map]
  refine ⟨?_, ?_, ?_, ?_, hPending⟩
  · rw [hIds]
    exact h.ids_nodup.sublist (List.eraseIdx_sublist _ _)
  · rw [hObj]
    exact fun a ha b hb => h.unmatched a (List.mem_of_mem_eraseIdx ha) b (List.mem_of_mem_eraseIdx hb)
  · intro id hId
    obtain ⟨hOld, hErased⟩ := hHeld id hId
    rcases h.held_tracked id hOld with hTracked | hWaits | hGone
    · obtain ⟨k, hk⟩ := List.mem_iff_getElem?.mp hTracked
      by_cases hki : k = i
      · subst hki
        rw [State.ids, List.getElem?_map] at hk
        obtain ⟨obj, hObjAt, rfl⟩ := Option.map_eq_some_iff.mp hk
        exact .inr (.inl (hErased obj hObjAt rfl))
      · left
        rw [hIds]
        exact List.mem_eraseIdx_iff_getElem?.mpr ⟨k, hki, hk⟩
    · exact .inr (.inl (hSub id hWaits))
    · exact .inr (.inr hGone)
  · intro id hId
    exact hKept id hId (h.tracked_held (List.mem_of_mem_eraseIdx (hIds ▸ hId)))

/-- The thread of a deleted entry has no other one. -/
theorem not_mem_ids_eraseIdx {objArr : List Entry} (hNodup : (objArr.map Entry.id).Nodup) {i : Nat}
    {obj : Entry} (hObj : objArr[i]? = some obj) : obj.id ∉ (objArr.eraseIdx i).map Entry.id := by
  intro hMem
  rw [← List.eraseIdx_map] at hMem
  obtain ⟨k, hk, hAt⟩ := List.mem_eraseIdx_iff_getElem?.mp hMem
  have hAt' : (objArr.map Entry.id)[i]? = some obj.id := by
    rw [List.getElem?_map, hObj, Option.map_some]
  exact hk ((List.getElem?_inj (List.getElem?_eq_some_iff.mp hAt).1 hNodup).mp (hAt.trans hAt'.symm))

/-- Step lemma: the thread that is released loses its entry with its stop. -/
theorem releaseBp (h : Inv c gone pending s) (draw : Nat) :
    Inv c gone pending (s.releaseBp draw).2 := by
  rcases s.releaseBp_cases draw with ⟨hSame, -⟩ | ⟨i, obj, hObj, hReleased⟩
  · rw [hSame]
    exact h
  · rw [hReleased]
    refine h.eraseIdx i rfl ?_ ?_ ?_ fun _ => id
    · intro id hId
      obtain ⟨hOld, hNe⟩ := List.mem_filter.mp hId
      refine ⟨hOld, fun obj' hObj' hEq => ?_⟩
      obtain rfl : obj = obj' := Option.some.inj (hObj.symm.trans hObj')
      exact absurd hEq (by simpa using hNe)
    · intro id hId hOld
      refine List.mem_filter.mpr ⟨hOld, decide_eq_true ?_⟩
      rintro rfl
      exact not_mem_ids_eraseIdx h.ids_nodup hObj hId
    · intro id hId hMem
      refine h.pending_untracked id hId ?_
      obtain ⟨obj', hObj', rfl⟩ := List.mem_map.mp hMem
      exact List.mem_map_of_mem (List.mem_of_mem_eraseIdx hObj')

end Inv

theorem id_recordedEntry {frameOf : Thread → Frame} {thd : Thread} {arr : Entry}
    (h : recordedEntry c frameOf thd = .ok arr) : arr.id = thd.id := by
  obtain ⟨-, -, -, hId⟩ := recordedEntry_ok h
  exact hId

/-- A thread has one entry at most, so that no place is out of date when it is
deleted. -/
theorem places_of_nodup {objArr : List Entry} (h : (objArr.map Entry.id).Nodup) (id n : Nat) :
    (id ∉ objArr.map Entry.id ∧
        ((objArr.zipIdx n).filter fun (obj, _) => obj.id = id).map Prod.snd = []) ∨
      ∃ k obj, objArr[k]? = some obj ∧ obj.id = id ∧
        ((objArr.zipIdx n).filter fun (obj, _) => obj.id = id).map Prod.snd = [n + k] := by
  induction objArr generalizing n with
  | nil => exact .inl ⟨List.not_mem_nil, rfl⟩
  | cons first objArr ih =>
      rw [List.map_cons, List.nodup_cons] at h
      rw [List.zipIdx_cons, List.filter_cons]
      by_cases hId : first.id = id
      · right
        subst hId
        refine ⟨0, first, rfl, rfl, ?_⟩
        rcases ih h.2 (n + 1) with ⟨-, hNil⟩ | ⟨k, obj, hObj, hEq, -⟩
        · rw [if_pos (by simp), List.map_cons, hNil]
          rfl
        · exact absurd (List.mem_map.mpr ⟨obj, List.mem_of_getElem? hObj, hEq⟩) h.1
      · rw [if_neg (by simpa using hId)]
        rcases ih h.2 (n + 1) with ⟨hNot, hNil⟩ | ⟨k, obj, hObj, hEq, hPlaces⟩
        · refine .inl ⟨?_, hNil⟩
          rw [List.map_cons, List.mem_cons]
          exact not_or.mpr ⟨Ne.symm hId, hNot⟩
        · refine .inr ⟨k + 1, obj, hObj, hEq, ?_⟩
          rw [hPlaces]
          congr 1
          omega

namespace Inv
variable {gone : Set Nat} {pending : List Nat} {s s' : State}

/-- The entry of the triggering thread is given up. -/
theorem deleteEntries (h : Inv c gone [] s) (id : Nat) :
    Inv c gone (if id ∈ s.ids then [id] else []) (s.deleteEntries (s.threadLivenessCheck id)) := by
  rcases places_of_nodup h.ids_nodup id 0 with ⟨hNot, hPlaces⟩ | ⟨k, obj, hObj, rfl, hPlaces⟩
  · have hNotMem : id ∉ s.ids := hNot
    rw [if_neg hNotMem, State.threadLivenessCheck, hPlaces]
    exact h
  · have hMem : obj.id ∈ s.ids := List.mem_map_of_mem (List.mem_of_getElem? hObj)
    rw [if_pos hMem, State.threadLivenessCheck, hPlaces, Nat.zero_add]
    refine h.eraseIdx k rfl ?_ (fun _ _ => id) ?_ nofun
    · intro id hId
      refine ⟨hId, fun obj' hObj' hEq => ?_⟩
      obtain rfl : obj = obj' := Option.some.inj (hObj.symm.trans hObj')
      exact hEq ▸ List.mem_singleton_self _
    · intro id hId hErased
      rw [List.mem_singleton.mp hId] at hErased
      exact not_mem_ids_eraseIdx h.ids_nodup hObj hErased

/-- A suspended thread is pending until it has been recorded. -/
theorem suspend {id : Nat} (h : Inv c gone (id :: pending) s) :
    Inv c gone (id :: pending) (s.suspend id) where
  ids_nodup := h.ids_nodup
  unmatched := h.unmatched
  held_tracked := by
    intro id' hId
    rcases List.mem_cons.mp hId with rfl | hId
    · exact .inr (.inl List.mem_cons_self)
    · exact h.held_tracked id' hId
  tracked_held := fun _ hId => List.mem_cons_of_mem _ (h.tracked_held hId)
  pending_untracked := h.pending_untracked

/-- A thread that conflicts with none of the others gets its entry. -/
theorem record {arr : Entry} (h : Inv c gone (arr.id :: pending) s) (hPending : arr.id ∉ pending)
    (hHeld : arr.id ∈ s.held) (hMatch : matchEntries c s.objArr arr = []) (lastBreak : Rat) :
    Inv c gone pending { s with lastBreak, objArr := s.objArr ++ [arr] } := by
  rw [matchEntries_eq_nil_iff] at hMatch
  have hIds : ({ s with lastBreak, objArr := s.objArr ++ [arr] } : State).ids = s.ids ++ [arr.id] := by
    rw [State.ids, List.map_append]
    rfl
  have hNew : arr.id ∉ s.ids := h.pending_untracked arr.id List.mem_cons_self
  refine ⟨?_, ?_, ?_, ?_, ?_⟩
  · rw [hIds]
    exact List.nodup_append.mpr ⟨h.ids_nodup, List.nodup_singleton _, by
      rintro id hId _ hEq rfl
      exact hNew (List.mem_singleton.mp hEq ▸ hId)⟩
  · intro a ha b hb
    rcases List.mem_append.mp ha with ha | ha
    · rcases List.mem_append.mp hb with hb | hb
      · exact h.unmatched a ha b hb
      · exact List.mem_singleton.mp hb ▸ hMatch a ha
    · rw [List.mem_singleton.mp ha]
      rcases List.mem_append.mp hb with hb | hb
      · exact fun hMatches => hMatch b hb hMatches.symm
      · rw [List.mem_singleton.mp hb]
        exact not_matches_self arr
  · intro id hId
    rw [hIds, List.mem_append, List.mem_singleton]
    rcases h.held_tracked id hId with hTracked | hWaits | hGone
    · exact .inl (.inl hTracked)
    · rcases List.mem_cons.mp hWaits with rfl | hWaits
      · exact .inl (.inr rfl)
      · exact .inr (.inl hWaits)
    · exact .inr (.inr hGone)
  · intro id hId
    rw [hIds, List.mem_append, List.mem_singleton] at hId
    rcases hId with hTracked | rfl
    · exact h.tracked_held hTracked
    · exact hHeld
  · intro id hId
    rw [hIds, List.mem_append, List.mem_singleton]
    rintro (hTracked | rfl)
    · exact h.pending_untracked id (List.mem_cons_of_mem _ hId) hTracked
    · exact hPending hId

/-- Step lemma for one thread: it is recorded, or the script halts. -/
theorem breakpointMatchCheck {arr : Entry} {r : Readings} (h : Inv c gone (arr.id :: pending) s)
    (hPending : arr.id ∉ pending) (hHeld : arr.id ∈ s.held)
    (hs : breakpointMatchCheck c r s arr = .ok s') : Inv c gone pending s' := by
  obtain ⟨hMatch, recorded, hRecorded, hs⟩ := breakpointMatchCheck_ok hs
  have hRecord : Inv c gone pending recorded := hRecorded ▸ h.record hPending hHeld hMatch _
  rcases hs with ⟨-, rfl⟩ | rfl
  · exact hRecord
  · exact hRecord.releaseBp _

/-- A thread that is handled has an entry, or it has been released. -/
theorem handle {frameOf : Thread → Frame} {r : Readings} {thd : Thread}
    (h : Inv c gone (thd.id :: pending) s) (hPending : thd.id ∉ pending)
    (hs : handle c frameOf r s thd = .ok s') : Inv c gone pending s' := by
  obtain ⟨arr, hEntry, hCheck⟩ := handle_ok hs
  have hId : arr.id = thd.id := id_recordedEntry hEntry
  rw [← hId] at h hPending hCheck
  exact h.suspend.breakpointMatchCheck hPending List.mem_cons_self hCheck

/-- Run lemma over the threads that have just stopped. -/
theorem foldlM_handle {frameOf : Thread → Frame} {r : Readings} {threads : List Thread}
    (h : Inv c gone (threads.map Thread.id) s) (hNodup : (threads.map Thread.id).Nodup)
    (hs : threads.foldlM (Trigger.handle c frameOf r) s = .ok s') : Inv c gone [] s' := by
  refine (foldlM_ok_induction (motive := fun threads s =>
    Inv c gone (threads.map Thread.id) s ∧ (threads.map Thread.id).Nodup) hs ⟨h, hNodup⟩ ?_).1
  rintro thd rest s s' ⟨h, hNodup⟩ hHandle
  rw [List.map_cons, List.nodup_cons] at hNodup
  exact ⟨h.handle hNodup.1 hHandle, hNodup.2⟩

/-- The loop of a callback records the threads that are pending at its start, unless
they have gone on. -/
theorem handleUntracked {frameOf : Thread → Frame} {r : Readings} (h : Inv c gone pending s)
    (hPending : ∀ id ∈ pending,
      id ∈ gone ∨ ∃ thd ∈ s.process.threads, thd.id = id ∧ thd.atBreakpoint = true)
    (hs : handleUntracked c frameOf r s = .ok s') : Inv c gone [] s' := by
  have hUntracked : Inv c gone (s.untrackedBreakpointCheck.map Thread.id) s := by
    refine ⟨h.ids_nodup, h.unmatched, ?_, h.tracked_held, ?_⟩
    · intro id hId
      rcases h.held_tracked id hId with hTracked | hWaits | hGone
      · exact .inl hTracked
      · rcases hPending id hWaits with hGone | ⟨thd, hThd, rfl, hAt⟩
        · exact .inr (.inr hGone)
        · refine .inr (.inl (List.mem_map_of_mem (List.mem_filter.mpr ⟨hThd, ?_⟩)))
          simpa [hAt] using h.pending_untracked thd.id hWaits
      · exact .inr (.inr hGone)
    · intro id hId
      obtain ⟨thd, hThd, rfl⟩ := List.mem_map.mp hId
      have hFilter := (List.mem_filter.mp hThd).2
      rw [Bool.and_eq_true, decide_eq_true_eq] at hFilter
      exact hFilter.2
  have hNodup : (s.untrackedBreakpointCheck.map Thread.id).Nodup :=
    s.process.ids_nodup.sublist (List.filter_sublist.map _)
  obtain ⟨middle, hFold, rfl⟩ := handleUntracked_ok hs
  exact (hUntracked.foldlM_handle hNodup hFold).of_eq rfl rfl

theorem readCallback {r : Readings} (h : Inv c gone [] s) (hs : readCallback c r s = .ok s') :
    Inv c gone [] s' := by
  have hStopped : Inv c gone [] { s.stopProcess with running := false } := h.of_eq rfl rfl
  exact hStopped.handleUntracked nofun hs

/-- The triggering thread is recorded anew, unless it has gone on. -/
theorem writeCallback {r : Readings} {id : Nat} (h : Inv c gone [] s)
    (hTriggered : id ∈ gone ∨ Triggered s id) (hs : writeCallback c r s id = .ok s') :
    Inv c gone [] s' := by
  have hStopped : Inv c gone [] { s.stopProcess with running := false } := h.of_eq rfl rfl
  refine (hStopped.deleteEntries id).handleUntracked ?_ hs
  intro id' hId
  split at hId
  · next hMem =>
      obtain rfl := List.mem_singleton.mp hId
      exact hTriggered.imp_right fun hTriggered => hTriggered hMem
  · cases hId

theorem releaseAfterWait (h : Inv c gone [] s) (t : Tick) :
    Inv c gone [] (releaseAfterWait c t s) := by
  have hStopped : Inv c gone [] { s with running := false } := h.of_eq rfl rfl
  rcases releaseAfterWait_cases t s with ⟨-, hSame⟩ | ⟨-, released, s', hRelease, hWaited⟩
  · rw [hSame]
    exact h
  · have hReleased := hStopped.releaseBp t.rand
    rw [hRelease] at hReleased
    rw [hWaited]
    exact hReleased.of_eq rfl rfl

/-- Step lemma for the timer, which releases one thread at most. -/
theorem timer {t : Tick} (h : Inv c gone [] s) (hs : timer c t s = .ok s') : Inv c gone [] s' := by
  rw [(timer_ok hs).1]
  split
  · exact h.releaseAfterWait t
  · exact h

/-- One step of the script or of the process. -/
theorem step {allowed : State → Nat → Prop} (h : Inv c gone [] s)
    (hAllowed : ∀ s id, allowed s id → id ∈ gone ∨ Triggered s id)
    (hStep : Step c allowed s s') : Inv c gone [] s' := by
  cases hStep with
  | process => exact h.of_eq rfl rfl
  | readCallback r hs => exact h.readCallback hs
  | writeCallback r id hId hs => exact h.writeCallback (hAllowed s id hId) hs
  | timer t hs => exact h.timer hs

end Inv

/-- Run lemma: the invariant in every state that is reached, for any threads that have gone on. -/
theorem inv_of_reaches {allowed : State → Nat → Prop} {process : Process} {lastBreak : Rat}
    {s : State} {gone : Set Nat} (hAllowed : ∀ s id, allowed s id → id ∈ gone ∨ Triggered s id)
    (h : Reaches c allowed process lastBreak s) : Inv c gone [] s := by
  induction h with
  | refl => exact ⟨List.nodup_nil, nofun, nofun, List.nil_subset _, nofun⟩
  | tail _ hStep ih => exact ih.step hAllowed hStep

/-- In every interleaving, a thread has one entry at most and no two entries conflict. -/
theorem entries_of_reaches {allowed : State → Nat → Prop} {process : Process} {lastBreak : Rat}
    {s : State} (h : Reaches c allowed process lastBreak s) :
    s.ids.Nodup ∧ ∀ a ∈ s.objArr, ∀ b ∈ s.objArr, ¬Matches c a b := by
  have hInv : Inv c Set.univ [] s := inv_of_reaches (fun _ id _ => .inl (Set.mem_univ id)) h
  exact ⟨hInv.ids_nodup, hInv.unmatched⟩

/-- As long as the write callbacks find their threads, every thread that is held has an entry. -/
theorem held_tracked_of_reaches {process : Process} {lastBreak : Rat} {s : State}
    (h : Reaches c Triggered process lastBreak s) : ∀ id ∈ s.held, id ∈ s.ids := by
  have hInv : Inv c ∅ [] s := inv_of_reaches (fun _ _ hTriggered => .inr hTriggered) h
  intro id hId
  rcases hInv.held_tracked id hId with hTracked | hPending | hGone
  · exact hTracked
  · exact absurd hPending List.not_mem_nil
  · exact absurd hGone (Set.notMem_empty id)

/-- The thread is held although its entry has been given up. -/
def State.Lost (s : State) (id : Nat) : Prop := id ∈ s.held ∧ id ∉ s.ids

namespace State.Lost
variable {s s' : State} {id : Nat}

/-- `release_bp` resumes threads with entries only. -/
theorem releaseBp (h : s.Lost id) (draw : Nat) : (s.releaseBp draw).2.Lost id := by
  rcases s.releaseBp_cases draw with ⟨hSame, -⟩ | ⟨i, obj, hObj, hReleased⟩
  · rw [hSame]
    exact h
  · rw [hReleased]
    refine ⟨List.mem_filter.mpr ⟨h.1, decide_eq_true ?_⟩, fun hId => h.2 ?_⟩
    · rintro rfl
      exact h.2 (List.mem_map_of_mem (List.mem_of_getElem? hObj))
    · exact List.map_subset _ List.eraseIdx_subset hId

theorem breakpointMatchCheck {r : Readings} {arr : Entry} (h : s.Lost id) (hArr : arr.id ≠ id)
    (hs : breakpointMatchCheck c r s arr = .ok s') : s'.Lost id := by
  have hRecorded (lastBreak : Rat) :
      { s with lastBreak, objArr := s.objArr ++ [arr] : State }.Lost id := by
    refine ⟨h.1, fun hId => ?_⟩
    obtain ⟨obj, hObj, hEq⟩ := List.mem_map.mp hId
    rcases List.mem_append.mp hObj with hOld | hNew
    · exact h.2 (List.mem_map.mpr ⟨obj, hOld, hEq⟩)
    · exact hArr (List.mem_singleton.mp hNew ▸ hEq)
  obtain ⟨-, recorded, rfl, ⟨-, rfl⟩ | rfl⟩ := breakpointMatchCheck_ok hs
  · exact hRecorded _
  · exact (hRecorded _).releaseBp _

theorem handle {frameOf : Thread → Frame} {r : Readings} {thd : Thread} (h : s.Lost id)
    (hThd : thd.id ≠ id) (hs : handle c frameOf r s thd = .ok s') : s'.Lost id := by
  obtain ⟨arr, hEntry, hCheck⟩ := handle_ok hs
  have hSuspended : (s.suspend thd.id).Lost id := ⟨List.mem_cons_of_mem _ h.1, h.2⟩
  exact hSuspended.breakpointMatchCheck (id_recordedEntry hEntry ▸ hThd) hCheck

/-- The loop of a callback does not find a thread that has gone on. -/
theorem handleUntracked {frameOf : Thread → Frame} {r : Readings} (h : s.Lost id)
    (hGone : ¬∃ thd ∈ s.process.threads, thd.id = id ∧ thd.atBreakpoint = true)
    (hs : handleUntracked c frameOf r s = .ok s') : s'.Lost id := by
  obtain ⟨middle, hFold, rfl⟩ := handleUntracked_ok hs
  have hMiddle : middle.Lost id := by
    refine foldlM_ok_invariant (motive := fun s => s.Lost id) hFold h ?_
    intro thd hThd s s' h hHandle
    obtain ⟨hMem, hFilter⟩ := List.mem_filter.mp hThd
    rw [Bool.and_eq_true] at hFilter
    exact h.handle (fun hId => hGone ⟨thd, hMem, hId, hFilter.1⟩) hHandle
  exact hMiddle

end State.Lost

/-- A write callback that is not triggered by a stopped thread gives up its entry for good. -/
theorem Inv.lost_of_not_triggered {gone : Set Nat} {s s' : State} {r : Readings} {id : Nat}
    (h : Inv c gone [] s) (hNot : ¬Triggered s id)
    (hs : Trigger.writeCallback c r s id = .ok s') : s'.Lost id := by
  obtain ⟨hMem, hGone⟩ := Classical.not_imp.mp hNot
  have hStopped : Inv c gone [] { s.stopProcess with running := false } := h.of_eq rfl rfl
  have hDeleted := hStopped.deleteEntries id
  rw [if_pos (show id ∈ ({ s.stopProcess with running := false } : State).ids from hMem)] at hDeleted
  have hLost : (State.deleteEntries { s.stopProcess with running := false }
      (s.threadLivenessCheck id)).Lost id :=
    ⟨h.tracked_held hMem, hDeleted.pending_untracked id (List.mem_singleton_self id)⟩
  exact hLost.handleUntracked hGone hs

/-- At any time before the end, a thread has one entry at most, no two entries conflict, and
every thread that is held has an entry, as long as the threads of the write callbacks that have
entries are found at a breakpoint; the first one that is not breaks the last part. -/
theorem bookkeeping {process : Process} {lastBreak : Rat} {s : State}
    (h : Reaches c Triggered process lastBreak s) :
    s.ids.Nodup ∧ (∀ a ∈ s.objArr, ∀ b ∈ s.objArr, ¬Matches c a b) ∧ (∀ id ∈ s.held, id ∈ s.ids) ∧
      ∀ r id s', writeCallback c r s id = .ok s' →
        ((∀ held ∈ s'.held, held ∈ s'.ids) ↔ Triggered s id) := by
  have hInv : Inv c ∅ [] s := inv_of_reaches (fun _ _ hTriggered => .inr hTriggered) h
  refine ⟨hInv.ids_nodup, hInv.unmatched, held_tracked_of_reaches h, fun r id s' hs => ?_⟩
  constructor
  · intro hHeld
    by_contra hNot
    obtain ⟨hLost, hUntracked⟩ := hInv.lost_of_not_triggered hNot hs
    exact hUntracked (hHeld id hLost)
  · intro hTriggered
    exact held_tracked_of_reaches (h.tail (.writeCallback r id hTriggered hs))

/-- A write in line 5 and a read in line 9 of the same variable. -/
def twoLines : Config where
  bp_source := ("x = 1;\n".toList, "y = x;\n".toList)
  bp_location := (⟨"a.c".toList, 5⟩, ⟨"a.c".toList, 9⟩)

/-- A frame in which `x` has an address. -/
def frameAt (location : Location) : Frame where
  location
  address path := if path = "x".toList then some "0x1".toList else none

def stoppedThread (id : Nat) (location : Location) : Thread where
  id
  atBreakpoint := true
  isSuspended := false
  frameAtIndex0 := frameAt location
  selectedFrame := frameAt location

def atWrite : Process where
  threads := [stoppedThread 1 ⟨"a.c".toList, 5⟩,
    { stoppedThread 2 ⟨"a.c".toList, 9⟩ with atBreakpoint := false }]
  ids_nodup := by decide

def heldAtWrite : State where
  objArr := [⟨["0x1".toList], .write, 1⟩]
  running := true
  lastBreak := 1
  process := atWrite.setSuspended 1 true
  held := [1]

theorem writeCallback_atWrite : writeCallback twoLines ⟨fun _ => 0, fun _ => 1⟩
    { process := atWrite, lastBreak := 0 } 1 = .ok heldAtWrite := rfl

/-- The thread at the write hits the breakpoint once more, and gets a new entry. -/
theorem bookkeeping_atWrite : ∃ s,
    writeCallback twoLines ⟨fun _ => 0, fun _ => 2⟩ heldAtWrite 1 = .ok s ∧ s.ids = [1] ∧
      s.held = [1, 1] ∧ ∀ id ∈ s.held, id ∈ s.ids := by
  have hFirst : Reaches twoLines Triggered atWrite 0 heldAtWrite :=
    .single (.writeCallback _ 1 nofun writeCallback_atWrite)
  have hTriggered : Triggered heldAtWrite 1 := fun _ => ⟨_, List.mem_cons_self, rfl, rfl⟩
  refine ⟨_, rfl, rfl, rfl, ?_⟩
  exact (bookkeeping (hFirst.tail (.writeCallback _ 1 hTriggered rfl))).2.2.1

/-- The thread has been resumed unexpectedly and has gone on. -/
def goneOn : Process where
  threads := [{ stoppedThread 1 ⟨"a.c".toList, 6⟩ with atBreakpoint := false },
    { stoppedThread 2 ⟨"a.c".toList, 9⟩ with atBreakpoint := false }]
  ids_nodup := by decide

/-- Its write callback gets the lock too late: the entry is deleted and not made again, while
`release_bp` has not resumed the thread. -/
theorem not_bookkeeping_goneOn : ¬∀ (c : Config) (process : Process) (lastBreak : Rat) (s : State),
    Reaches c (fun _ _ => True) process lastBreak s →
      s.ids.Nodup ∧ (∀ a ∈ s.objArr, ∀ b ∈ s.objArr, ¬Matches c a b) ∧
        ∀ id ∈ s.held, id ∈ s.ids := by
  intro hAll
  have hRecorded : Reaches twoLines (fun _ _ => True) atWrite 0 heldAtWrite :=
    .single (.writeCallback _ 1 trivial writeCallback_atWrite)
  have hGoneOn := hRecorded.tail (.process heldAtWrite goneOn)
  have hDeleted : writeCallback twoLines ⟨fun _ => 0, fun _ => 2⟩
      { heldAtWrite with process := goneOn } 1 =
        .ok { heldAtWrite with objArr := [], process := goneOn } := rfl
  have hHeld := (hAll _ _ _ _ (hGoneOn.tail (.writeCallback _ 1 trivial hDeleted))).2.2
  exact absurd (hHeld 1 List.mem_cons_self) List.not_mem_nil

end ConAnalysis.Trigger
